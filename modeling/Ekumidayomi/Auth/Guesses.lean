import Ekumidayomi.Auth.Challenges

/-!
# Code guessing is bounded

Every wrong code that a client is told about has been counted in a committed attempt, and a
challenge takes no more than `challenge_attempts` of them; a challenge that replaces another of its
kind is at least `resend_seconds` younger (`guessing_bounded`). The count of the threads that have
committed a wrong code stays below the counter of the row (`Budget`), and a row that is deleted does
not come back with a counter at zero, since its identifier is spent.
-/

namespace Ekumidayomi

open Transact

section
variable {sv : Services} {settings : AuthSettings} {call : Call} {c : Ctx (schema sv)} {db : Db}

/-- The counter of a challenge that is not new never goes down, and a wrong code raises it. -/
theorem ChallengeChange.attempts (h : ChallengeChange settings c db call) {id : UUID}
    {x : EmailChallenge} (hx : Db.challenge (c.view db) id = some x) :
    id ∈ c.drawn ∨ ∃ y, db.challenge id = some y ∧
      y.attempts + (if Note.wrongCode id ∈ c.marks then 1 else 0) ≤ x.attempts := by
  cases h with
  | same hguess hview =>
    rw [hview] at hx
    exact .inr ⟨x, hx, by simp [hguess id]⟩
  | @counted row hguess hview =>
    rw [hview] at hx
    split at hx
    case isTrue hid =>
      cases hx
      refine .inr ⟨row, hid ▸ hguess.there, ?_⟩
      dsimp only
      split <;> lia
    case isFalse hid =>
      refine .inr ⟨x, hx, ?_⟩
      simp [hguess.marks, hid]
  | issued hguess hissues hview =>
    rw [hview] at hx
    split at hx
    case isTrue hid => exact .inl (hid ▸ hissues.drawn)
    case isFalse => exact .inr ⟨x, (Option.ite_none_left_eq_some.1 hx).2, by simp [hguess id]⟩
  | @consumed _ row _ _ hguess _ _ hrow hview =>
    rw [hview] at hx
    split at hx
    case isTrue hid =>
      cases hx
      refine .inr ⟨row, hid ▸ hrow, ?_⟩
      simp [hguess id]
    case isFalse => exact .inr ⟨x, hx, by simp [hguess id]⟩

/-- A wrong code is compared with a challenge that is there and has attempts left. -/
theorem ChallengeChange.guessed (h : ChallengeChange settings c db call) {id : UUID}
    (hmark : Note.wrongCode id ∈ c.marks) :
    ∃ y, db.challenge id = some y ∧ y.attempts < settings.challengeAttempts := by
  cases h with
  | same hguess | issued hguess | consumed hguess => exact absurd hmark (hguess id)
  | @counted row hguess =>
    rw [hguess.marks, List.mem_singleton] at hmark
    cases hmark
    exact ⟨row, hguess.there, hguess.attempts⟩

/-- A challenge of the kind that is at least as young is there. -/
def Db.Followed (db : Db) (a : EmailChallenge) : Prop :=
  ∃ x, db.challenge x.id = some x ∧ x.email = a.email ∧ x.purpose = a.purpose ∧
    a.createdAt ≤ x.createdAt

/-- A challenge that is issued beside one of its kind replaces it. -/
theorem Issues.younger {row x : EmailChallenge} {deleted : Option EmailChallenge}
    (h : Issues settings c row deleted) (hv : db.AdminsVerified) (hs : c.Sees db)
    (hx : db.challenge x.id = some x) (hemail : x.email = row.email)
    (hpurpose : x.purpose = row.purpose) :
    x.createdAt + seconds settings.resendSeconds ≤ row.createdAt := by
  obtain ⟨p, hp, hid⟩ := h.only db hv hs x.id x hx hemail hpurpose
  obtain ⟨-, -, hyounger, hsame⟩ := h.same p hp
  obtain ⟨-, -, hat⟩ := hsame db hv hs x (hid ▸ hx)
  rw [hat]
  exact hyounger

theorem ChallengeChange.followed (h : ChallengeChange settings c db call) (hv : db.AdminsVerified)
    (hs : c.Sees db) {a : EmailChallenge} (ha : db.Followed a) : Db.Followed (c.view db) a := by
  obtain ⟨x, hx, hemail, hpurpose, hat⟩ := ha
  have hkept : ∀ y, Db.challenge (c.view db) x.id = some y → SameChallenge y x →
      Db.Followed (c.view db) a := by
    rintro y hy ⟨hsame₁, hsame₂, hsame₃⟩
    have hid : y.id = x.id := Store.key_of_get hy
    exact ⟨y, hid ▸ hy, hsame₁.trans hemail, hsame₂.trans hpurpose, hsame₃ ▸ hat⟩
  cases h with
  | same _ hview => exact hkept x ((hview x.id).trans hx) ⟨rfl, rfl, rfl⟩
  | @counted row hguess hview =>
    by_cases hid : x.id = row.id
    · obtain rfl : row = x := Option.some.inj (hguess.there.symm.trans (hid ▸ hx))
      have hy := hview row.id
      rw [if_pos rfl] at hy
      exact hkept _ hy ⟨rfl, rfl, rfl⟩
    · exact hkept x (by rw [hview, if_neg hid, hx]) ⟨rfl, rfl, rfl⟩
  | @issued row deleted _ hissues hview =>
    have hid : x.id ≠ row.id := by
      intro hid
      rw [hid, challenge_eq_none hs hissues.drawn] at hx
      cases hx
    by_cases hdeleted : deleted.map (·.id) = some x.id
    · -- the row is replaced by the one that is issued
      obtain ⟨p, rfl, hp⟩ := Option.map_eq_some_iff.1 hdeleted
      obtain ⟨hpemail, hppurpose, hyounger, hsame⟩ := hissues.same p rfl
      obtain ⟨hxemail, hxpurpose, hxat⟩ := hsame db hv hs x (hp ▸ hx)
      have hresend : 0 ≤ seconds settings.resendSeconds := by
        simp only [seconds]
        lia
      refine ⟨row, by rw [hview, if_pos rfl], ?_, ?_, by lia⟩
      · rw [← hpemail, ← hxemail, hemail]
      · rw [← hppurpose, ← hxpurpose, hpurpose]
    · exact hkept x (by rw [hview, if_neg hid, if_neg hdeleted, hx]) ⟨rfl, rfl, rfl⟩
  | @consumed _ row _ _ _ _ _ hrow hview =>
    by_cases hid : x.id = row.id
    · obtain rfl : row = x := Option.some.inj (hrow.symm.trans (hid ▸ hx))
      have hy := hview row.id
      rw [if_pos rfl] at hy
      exact hkept _ hy ⟨rfl, rfl, rfl⟩
    · exact hkept x (by rw [hview, if_neg hid, hx]) ⟨rfl, rfl, rfl⟩

/-- A challenge that a commit inserts is one that it issues. -/
theorem ChallengeChange.inserted (h : ChallengeChange settings c db call) {b : EmailChallenge}
    (hnone : db.challenge b.id = none) (hb : Db.challenge (c.view db) b.id = some b) :
    ∃ deleted, Issues settings c b deleted := by
  cases h with
  | same _ hview =>
    rw [hview, hnone] at hb
    cases hb
  | counted hguess hview =>
    rw [hview] at hb
    split at hb
    case isTrue hid =>
      rw [hid, hguess.there] at hnone
      cases hnone
    case isFalse =>
      rw [hnone] at hb
      cases hb
  | @issued row deleted _ hissues hview =>
    rw [hview, hnone, ite_self] at hb
    obtain ⟨-, hrow⟩ := Option.ite_none_right_eq_some.1 hb
    cases hrow
    exact ⟨deleted, hissues⟩
  | consumed _ _ _ hrow hview =>
    rw [hview] at hb
    split at hb
    case isTrue hid =>
      rw [hid, hrow] at hnone
      cases hnone
    case isFalse =>
      rw [hnone] at hb
      cases hb

end

namespace Auth

section
variable {sv : Services} {settings : AuthSettings} {s s' : Sys sv} {tr : List (Act sv)}
  {a : Act sv} {id : UUID}

/-- The wrong codes that have been committed for a challenge are within its attempts. -/
structure Budget (settings : AuthSettings) (id : UUID) (s : Sys sv) : Prop where
  bounded : s.tally (.wrongCode id) ≤ settings.challengeAttempts
  counted : ∀ x, s.db.challenge id = some x → s.tally (.wrongCode id) ≤ x.attempts
  spent : 0 < s.tally (.wrongCode id) → s.Spent id

theorem Budget.step (h : Budget settings id s) (hg : Good sv settings s)
    (hstep : Step sv settings s a s') : Budget settings id s' := by
  by_cases hc : ∃ i, a = .commit i
  · obtain ⟨i, rfl⟩ := hc
    obtain ⟨t, ht, hsees, hcommits, hdb⟩ := commit_exit hg hstep
    have hchange := hcommits.challenges hg.valid hsees
    have htally := hstep.tally_commit (n := Note.wrongCode id) ht
    by_cases hmark : Note.wrongCode id ∈ t.ctx.marks
    · obtain ⟨y, hy, hlt⟩ := hchange.guessed hmark
      have hspent : s.Spent id := hg.spent (.inr (.inr (.inr (.inl (by simp [hy])))))
      have hcounted := h.counted y hy
      rw [if_pos hmark] at htally
      refine ⟨by lia, fun x hx => ?_, fun _ => hstep.spent hspent⟩
      rw [hdb] at hx
      rcases hchange.attempts hx with hdrawn | ⟨y', hy', hle⟩
      · exact absurd hdrawn (hspent.2 t (List.mem_of_getElem? ht))
      · obtain rfl : y' = y := Option.some.inj (hy'.symm.trans hy)
        rw [if_pos hmark] at hle
        lia
    · rw [if_neg hmark] at htally
      refine ⟨Nat.le_trans htally h.bounded, fun x hx => ?_, fun hpos => ?_⟩
      · rw [hdb] at hx
        rcases hchange.attempts hx with hdrawn | ⟨y, hy, hle⟩
        · -- a challenge that is new has had no wrong code
          have hzero : s.tally (.wrongCode id) = 0 := by
            by_contra hpos
            exact (h.spent (Nat.pos_of_ne_zero hpos)).2 t (List.mem_of_getElem? ht) hdrawn
          lia
        · have hcounted := h.counted y hy
          rw [if_neg hmark] at hle
          lia
      · exact hstep.spent (h.spent (by lia))
  · have hne : ∀ i, a ≠ .commit i := fun i hi => hc ⟨i, hi⟩
    have htally := hstep.tally_eq (n := Note.wrongCode id) hne
    have hdb := hstep.db_eq hne
    refine ⟨htally ▸ h.bounded, fun x hx => ?_, fun hpos => hstep.spent (h.spent ?_)⟩
    · rw [htally]
      exact h.counted x (hdb ▸ hx)
    · rw [htally] at hpos
      exact hpos

theorem Budget.of_run {s₀ : Sys sv} (h0 : Initial s₀) (hrun : Run sv settings s₀ tr s) (id : UUID) :
    Budget settings id s := by
  have hzero : s₀.tally (.wrongCode id) = 0 := by simp [Sys.tally, h0.threads]
  have hall : Good sv settings s ∧ Budget settings id s := by
    refine hrun.invariant (I := fun s => Good sv settings s ∧ Budget settings id s) ?_
      ⟨Good.start h0, ?_⟩
    · rintro s a s' ⟨hg, hbudget⟩ hstep
      exact ⟨hg.step (code_meets sv settings) hstep, hbudget.step hg hstep⟩
    · exact ⟨by lia, fun _ _ => by lia, fun hpos => by lia⟩
  exact hall.2

/-- The thread has compared a wrong code with the challenge, and answered
`InvalidChallengeError`. -/
def ToldWrong (id : UUID) (t : Thread (schema sv) Call Error AuthResult) : Bool :=
  match t.status with
  | .answered (.error .invalidChallenge) => decide (Note.wrongCode id ∈ t.ctx.past)
  | _ => false

/-- Whoever is told about a wrong code has committed it. -/
theorem kept_of_toldWrong (hg : Good sv settings s) {i : Nat}
    {t : Thread (schema sv) Call Error AuthResult} (ht : s.threads[i]? = some t)
    (htold : ToldWrong id t = true) : Note.wrongCode id ∈ t.ctx.kept := by
  have hok := hg.ok i t ht
  rw [ToldWrong] at htold
  rw [Thread.Ok] at hok
  split at htold
  case h_1 hstatus =>
    rw [hstatus] at hok
    obtain ⟨c, hfails, hctx⟩ := hok
    have hpast := of_decide_eq_true htold
    rw [hctx] at hpast ⊢
    exact hfails rfl id hpast
  case h_2 => cases htold

end

/-- **Code guessing is bounded.** In every run, over any interleaving of any number of calls: for
each challenge at most `challenge_attempts` calls have compared a wrong code and answered
`InvalidChallengeError`; and a challenge that is committed after another of its address and purpose
was there is created at least `resend_seconds` after it. -/
theorem guessing_bounded (sv : Services) (settings : AuthSettings) {s₀ : Sys sv} (h0 : Initial s₀) :
    (∀ {tr s}, Run sv settings s₀ tr s → ∀ id,
      s.threads.countP (ToldWrong id) ≤ settings.challengeAttempts) ∧
    (∀ {tr tr' n k k' j} {a b : EmailChallenge}, Run sv settings s₀ tr n →
      n.db.challenge a.id = some a → Run sv settings n tr' k → Step sv settings k (.commit j) k' →
      k.db.challenge b.id = none → k'.db.challenge b.id = some b → b.email = a.email →
      b.purpose = a.purpose → a.createdAt + seconds settings.resendSeconds ≤ b.createdAt) := by
  refine ⟨?_, ?_⟩
  · intro tr s hrun id
    have hg : Good sv settings s := good_of_run h0 hrun
    refine Nat.le_trans (List.countP_mono_left fun t ht htold => ?_)
      (Budget.of_run h0 hrun id).bounded
    obtain ⟨i, hi⟩ := List.mem_iff_getElem?.1 ht
    exact decide_eq_true (kept_of_toldWrong hg hi htold)
  · intro tr tr' n k k' j a b hn ha hrun hstep hnone hb hemail hpurpose
    have hg : Good sv settings n := good_of_run h0 hn
    have hgk : Good sv settings k := hg.forward hrun
    have hfollowed : k.db.Followed a := run_db hg hrun
      (fun hv hs hcommits => (hcommits.challenges hv hs).followed hv hs)
      ⟨a, ha, rfl, rfl, Int.le_refl _⟩
    obtain ⟨x, hx, hxemail, hxpurpose, hat⟩ := hfollowed
    obtain ⟨t, -, hsees, hcommits, hdb⟩ := commit_exit hgk hstep
    obtain ⟨deleted, hissues⟩ :=
      (hcommits.challenges hgk.valid hsees).inserted hnone (hdb ▸ hb)
    have hyounger := hissues.younger hgk.valid hsees hx (hxemail.trans hemail.symm)
      (hxpurpose.trans hpurpose.symm)
    lia

end Auth

namespace AuthFixture

/-- The steps of a registration with a wrong code, to its answer. -/
def guessActs : List (Auth.Act services) :=
  .start (.completeRegistration (request "000000")) :: steps 0 8 ++
    [.draw 0 21, .advance 0, .draw 0 22, .advance 0, .commit 0, .advance 0]

/-- The system after them. -/
def guessed : Auth.Sys services :=
  ((system challenged).execAll (Auth.code services keyed) guessActs).getD (system challenged)

theorem guessed_run : Auth.Run services keyed (system challenged) guessActs guessed :=
  Sys.run_of_isSome (by decide +kernel)

end AuthFixture

/-- A client that has sent one wrong code has been told so once. -/
theorem Auth.guessing_bounded_guessed :
    AuthFixture.guessed.threads.countP (Auth.ToldWrong 3) = 1 ∧
      AuthFixture.guessed.threads.countP (Auth.ToldWrong 3) ≤
        AuthFixture.keyed.challengeAttempts :=
  ⟨by decide +kernel, (Auth.guessing_bounded AuthFixture.services AuthFixture.keyed
    (AuthFixture.system_initial (by decide))).1 AuthFixture.guessed_run 3⟩

end Ekumidayomi
