import Ekumidayomi.Outbox.Commits

/-!
# A paused group claims nothing

Whoever blocks a message pauses its group in the same commit, and while the group is paused no
`claim` returns a claim until a `resume` commits (`paused_claims_nothing`). What carries it is the
lock of the control row: a transaction that has a claim to return read under this lock that the
group was not paused, and holds the lock until it commits.
-/

namespace Ekumidayomi.Workers

open Transact

variable {W P : Type} {group : String} {s₀ s s' m m' : Sys W P group} {tr : List (Act W P group)}
  {i : Nat}

/-- No transaction has a claim to return. -/
def NoClaim (s : Sys W P group) : Prop := ∀ t ∈ s.threads, ∀ claim, .claimed claim ∉ t.ctx.marks

theorem Good.noClaim (hg : Good s) (hp : Paused group s.db) : NoClaim s := by
  intro t ht claim hmark
  obtain ⟨i, hi⟩ := List.mem_iff_getElem?.1 ht
  obtain ⟨c, hbelow, r, hr, hheld, hunpaused⟩ := (hg.sound i t hi).noted _ hmark
  -- nobody has written the control row since it was read
  have hsame := framed_control.interferes hheld ((hg.sound i t hi).sees.1 r (hbelow.reads hr))
  obtain ⟨control, hcontrol, hpaused⟩ := hp
  exact hunpaused ⟨control, hsame.symm.trans hcontrol, hpaused⟩

/-- The call of the `i`th thread has committed the claim. -/
def Claimed (s : Sys W P group) (i : Nat) (claim : Claim) : Prop :=
  ∃ t ∈ s.threads[i]?, .claimed claim ∈ t.ctx.kept

/-- The call of the `i`th thread has answered with the claim. -/
def Returned (s : Sys W P group) (i : Nat) (claim : Claim) : Prop :=
  ∃ t ∈ s.threads[i]?, t.status = .answered (.ok (.claim (some claim)))

theorem Good.claimed_of_returned {claim : Claim} (hg : Good s) (h : Returned s i claim) :
    Claimed s i claim := by
  obtain ⟨t, ht, hs⟩ := h
  have hok := hg.ok i t ht
  rw [Thread.Ok, hs] at hok
  obtain ⟨c, hanswers, hctx⟩ := hok
  refine ⟨t, ht, ?_⟩
  rw [hctx]
  exact hanswers claim rfl

/-- The commit of a `resume` is one of the steps. -/
def Resumes (s : Sys W P group) (tr : List (Act W P group)) (s' : Sys W P group) : Prop :=
  ∃ m i m' t, CommitsIn s tr s' m i m' ∧ m.threads[i]? = some t ∧ t.call = .resume

/-- Only a `resume` ends a pause. -/
theorem Good.paused_step {a : Act W P group} (hg : Good s) (hstep : Step s a s')
    (hp : Paused group s.db)
    (hresume : ∀ i t, a = .commit i → s.threads[i]? = some t → t.call ≠ .resume) :
    Paused group s'.db := by
  by_cases hc : ∃ i, a = .commit i
  · obtain ⟨i, rfl⟩ := hc
    obtain ⟨t, ht, hcommits, hdb⟩ := hg.commit hstep
    rw [hdb]
    exact hcommits.kept.paused (hresume i t rfl ht) hp
  · rw [hstep.db_eq fun i hi => hc ⟨i, hi⟩]
    exact hp

/-- While the group is paused nobody commits a claim. -/
theorem Good.paused_run (hg : Good s) (hrun : Run s tr s') (hp : Paused group s.db)
    (hresume : ¬ Resumes s tr s') :
    Good s' ∧ Paused group s'.db ∧ ∀ i claim, Claimed s' i claim → Claimed s i claim := by
  induction hrun with
  | nil => exact ⟨hg, hp, fun i claim hclaimed => hclaimed⟩
  | @snoc m s' tr a hrun hstep ih =>
    have hbefore : ¬ Resumes s tr m := by
      rintro ⟨n, i, n', t, htakes, ht, hcall⟩
      exact hresume ⟨n, i, n', t, htakes.snoc hstep, ht, hcall⟩
    obtain ⟨hgm, hpm, hkeptm⟩ := ih hbefore
    refine ⟨hgm.step (code_meets group) hstep, hgm.paused_step hstep hpm ?_, ?_⟩
    · rintro i t rfl ht hcall
      exact hresume ⟨m, i, s', t, .last hrun hstep, ht, hcall⟩
    · rintro i claim ⟨t, ht, hkept⟩
      obtain ⟨u, hu, hold | hmark⟩ := hstep.kept ht hkept
      · exact hkeptm i claim ⟨u, hu, hold⟩
      · exact absurd hmark (hgm.noClaim hpm u (List.mem_of_getElem? hu) claim)

/-- **A paused group claims nothing.** In every run from an initial state, over any interleaving of
the calls: a commit after which a message is newly blocked leaves the group paused; and from a state
whose committed control row is paused, as long as no `resume` commits, the group stays paused, no
transaction has a claim to return, and a call that answers with a claim had committed it before. -/
theorem paused_claims_nothing (h0 : Initial s₀) (hrun : Run s₀ tr s) :
    (∀ {m i m'}, CommitsIn s₀ tr s m i m' → Blocks m.db m'.db → Paused group m'.db) ∧
    ∀ {tr' s'}, Run s tr' s' → Paused group s.db → ¬ Resumes s tr' s' →
      Paused group s'.db ∧ NoClaim s' ∧
      ∀ i claim, Returned s' i claim → Claimed s i claim := by
  refine ⟨fun {m i m'} hcommit hblocks => ?_, fun {tr' s'} hrun' hp hresume => ?_⟩
  · obtain ⟨t, -, hcommits, hdb⟩ := commitsIn_inv h0 hcommit
    rw [hdb] at hblocks ⊢
    exact hcommits.blocked hblocks
  · obtain ⟨hg', hp', hkept⟩ := (good_of_run h0 hrun).paused_run hrun' hp hresume
    refine ⟨hp', hg'.noClaim hp', fun i claim hreturned => ?_⟩
    exact hkept i claim (hg'.claimed_of_returned hreturned)

/-! ## A message is blocked -/

/-- The message of the fixture, leased. -/
def leased : Sys Unit Unit "auth_email" := system { outbox := Fixture.claimedRepo.db }

theorem leased_initial : Initial leased := by
  refine system_initial ⟨?_, fun _ _ _ => rfl⟩
  simp [Outbox.Keyed, Table.Keyed, Fixture.claimedRepo]

/-- The provider refuses the configuration, up to the commit. -/
def blockedActs : List (Act Unit Unit "auth_email") :=
  .start (.finish (Fixture.claim 1 1) { kind := .blocked, code := "configuration" } 0) :: steps 0 11

/-- The system before and after this commit. -/
def blocking : Sys Unit Unit "auth_email" :=
  (leased.execAll (code "auth_email") blockedActs).getD leased

@[inherit_doc blocking]
def blocked : Sys Unit Unit "auth_email" :=
  (blocking.exec (code "auth_email") (.commit 0)).getD blocking

/-- A worker claims afterwards, up to its commit. -/
def claimActs : List (Act Unit Unit "auth_email") :=
  .start (.claim [challengeEmailEvent] default (fun _ => false) fun _ => false) :: steps 1 6

/-- A message is blocked, and the worker that claims next has nothing to return. -/
theorem paused_claims_nothing_blocked :
    Paused "auth_email" blocked.db ∧
      NoClaim ((blocked.execAll (code "auth_email") claimActs).getD blocked) := by
  have hbefore : Run leased blockedActs blocking := Sys.run_of_isSome rfl
  have hcommit : Step blocking (.commit 0) blocked := Sys.step_of_isSome rfl
  have hrun : Run leased (blockedActs ++ [.commit 0]) blocked := hbefore.snoc hcommit
  obtain ⟨hblocks, hclaims⟩ := paused_claims_nothing leased_initial hrun
  have hpaused : Paused "auth_email" blocked.db := by
    refine hblocks (.last hbefore hcommit) ⟨_, List.mem_singleton.2 rfl, rfl, fun row hrow => ?_⟩
    cases hrow
    exact nofun
  refine ⟨hpaused, (hclaims (Sys.run_of_isSome rfl) hpaused ?_).2.1⟩
  -- nothing commits meanwhile
  rintro ⟨m, i, m', t, ⟨tr₁, tr₂, htr, -⟩, -⟩
  have hmem : Transact.Act.commit i ∈ claimActs := by
    rw [htr]
    exact List.mem_append_right _ List.mem_cons_self
  simp [claimActs, steps] at hmem

end Ekumidayomi.Workers
