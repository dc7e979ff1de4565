import Ekumidayomi.Outbox.InternalWorker

/-!
# Ordinary rows whose attempts run out

`claim_batch` takes rows that have attempts left, while `mark_failed`, `recover_stale_claims` and an
internal worker set a row to failed without looking at its attempts. A row that fails at its last
attempt is claimed by nobody and is not dead either (`not_followed_exhausted`). In a run where no
row fails at its last attempt every ordinary row is followed up (`ordinary_followed`).
-/

namespace Ekumidayomi.Workers

open Transact

variable {W P : Type} {group : String} {maxAttempts : Nat}

/-- The row waits for a claim. -/
def Waits (row : OutboxMessage) : Prop := row.status = .pending ∨ row.status = .failed

/-- The row is at the end of its lifecycle. -/
def Terminal (row : OutboxMessage) : Prop :=
  row.status ∈ [OutboxStatus.published, .skipped, .dead, .uncertain, .blocked]

/-- The row is being processed, is done with, or has attempts left. -/
def Followed (maxAttempts : Nat) (row : OutboxMessage) : Prop :=
  row.status = .processing ∨ Terminal row ∨ Waits row ∧ row.attempts < maxAttempts

/-- The calls of `OutboxRepository` and of internal workers, all with one `max_attempts`. -/
def Call.Ordinary (maxAttempts : Nat) : Call W P → Prop
  | .add _ _ _ | .markPublished _ _ | .markFailed _ _ _ | .recoverStaleClaims _ _ _ _ => True
  | .claimBatch limit _ _ _ _ => limit = maxAttempts
  | .processOne worker _ => worker.settings.maxAttempts = maxAttempts
  | _ => False

/-- The call sets such a row to failed. An internal worker does so where it has claimed the row and
the handler has raised: the failed row is then among the writes of its transaction. -/
def Call.fails (buf : List (Op W)) : Call W P → OutboxMessage → Prop
  | .markFailed id _ _, row => row.id = id ∧ row.status = .processing
  | .recoverStaleClaims staleBefore _ _ _, row => staleClaim staleBefore row = true
  | .processOne worker reads, row => worker.claims reads row = true ∧ ∃ availableAt,
    .setMessage ((row.batchClaim reads.claimedAt).fail handlerFailed.code availableAt) ∈ buf
  | _, _ => False

/-- The attempts of a row with the claim that the call has made. -/
def Call.attempts (row : OutboxMessage) : Call W P → Nat
  | .processOne _ _ => row.attempts + 1
  | _ => row.attempts

/-- The commit of the `i`th thread fails no ordinary row at its last attempt. -/
def Spares (maxAttempts : Nat) (m : Sys W P group) (i : Nat) : Prop :=
  ∀ t ∈ m.threads[i]?, ∀ row ∈ m.db.outbox.messages, row.eventType ≠ challengeEmailEvent →
    .message row.id ∈ t.ctx.held → t.call.fails t.ctx.buf row → t.call.attempts row < maxAttempts

/-! ## Moves of ordinary rows -/

section
variable {call : Call W P} {buf : List (Op W)} {row row' : OutboxMessage}

theorem Moves.eventType_eq (h : Moves group call row row') : row'.eventType = row.eventType := by
  obtain ⟨_, _, -, hmove⟩ := h
  cases hmove with
  | claim h => cases h <;> rfl
  | _ => rfl

theorem moved_eventType (h : Relation.ReflTransGen (Moves group call) row row') :
    row'.eventType = row.eventType := by
  induction h with
  | refl => rfl
  | tail _ hlast ih => exact hlast.eventType_eq.trans ih

theorem moved_token (h : Relation.ReflTransGen (Moves group call) row row')
    (hcall : call.mayLease = false) (hnone : row.claimToken = none) : row'.claimToken = none := by
  induction h with
  | refl => exact hnone
  | @tail mid last _ hlast ih =>
    cases ht : last.claimToken with
    | none => rfl
    | some token =>
      have hsome := hlast.token hcall (by rw [ht]; rfl)
      rw [ih] at hsome
      cases hsome

theorem mayLease_eq_false (h : call.Ordinary maxAttempts) : call.mayLease = false := by
  cases call with
  | claim => exact h.elim
  | _ => rfl

theorem attempts_eq (h : call.isProcessOne = false) : call.attempts row = row.attempts := by
  cases call with
  | processOne => cases h
  | _ => rfl

/-- Rows are failed while they are processed. -/
theorem processing_of_fails (h : call.fails buf row) (hne : call.isProcessOne = false) :
    row.status = .processing := by
  cases call with
  | markFailed => exact h.2
  | recoverStaleClaims =>
    simp only [Call.fails, staleClaim, Bool.and_eq_true, decide_eq_true_eq] at h
    exact h.1.1
  | processOne => cases hne
  | _ => exact h.elim

/-- A call that is not an internal worker's claims or publishes rows, or fails those that it is said
to fail. -/
theorem Moves.ordinary (h : Moves group call row row') (hcall : call.Ordinary maxAttempts)
    (hne : call.isProcessOne = false) :
    (∀ r, ¬ call.fails buf r) ∧ (row'.status = .processing ∨ row'.status = .published) ∨
    call.fails buf row ∧ row'.status = .failed ∧ row'.attempts = row.attempts := by
  obtain ⟨db, l, hl, hmove⟩ := h
  cases call with
  | claimBatch =>
    obtain ⟨rows, rfl⟩ := hl
    cases hmove
    exact .inl ⟨fun _ => id, .inl rfl⟩
  | markPublished =>
    cases hl
    cases hmove
    exact .inl ⟨fun _ => id, .inr rfl⟩
  | markFailed =>
    cases hl
    cases hmove with
    | failed hid hst => exact .inr ⟨⟨hid, hst⟩, rfl, rfl⟩
  | recoverStaleClaims =>
    cases hl
    cases hmove with
    | released hstale => exact .inr ⟨hstale, rfl, rfl⟩
  | add => exact hl.elim
  | claim | bind | finish | replay | resume => exact hcall.elim
  | processOne => cases hne

/-- The same for all that a call has made of a row. -/
theorem moved_ordinary (h : Relation.ReflTransGen (Moves group call) row row')
    (hcall : call.Ordinary maxAttempts) (hne : call.isProcessOne = false) :
    row' = row ∨ (∀ r, ¬ call.fails buf r) ∧ (row'.status = .processing ∨ row'.status = .published) ∨
    call.fails buf row ∧ row'.status = .failed ∧ row'.attempts = row.attempts := by
  induction h with
  | refl => exact .inl rfl
  | @tail mid last _ hlast ih =>
    rcases hlast.ordinary hcall hne with hother | ⟨hfail, hst, hatt⟩
    · exact .inr (.inl hother)
    · rcases ih with rfl | ⟨hnever, -⟩ | ⟨-, hmid', -⟩
      · exact .inr (.inr ⟨hfail, hst, hatt⟩)
      · exact absurd hfail (hnever mid)
      · -- a failed row is not failed again
        cases hmid'.symm.trans (processing_of_fails hfail hne)

end

/-! ## Commits -/

/-- An ordinary row is followed up, and nobody holds a lease on it. -/
def Tended (maxAttempts : Nat) (row : OutboxMessage) : Prop :=
  row.eventType ≠ challengeEmailEvent → Followed maxAttempts row ∧ row.claimToken = none

theorem Untouched.followed {row : OutboxMessage} (h : Untouched row) (hmax : 0 < maxAttempts) :
    Followed maxAttempts row := .inr (.inr ⟨.inl h.status, h.attempts.symm ▸ hmax⟩)

section
variable {s₀ s s' m m' : Sys W P group} {tr : List (Act W P group)} {i : Nat}
  {t : Thread (schema W group) (Call W P) Error Answer} {row' : OutboxMessage}

/-- What a call other than an internal worker's leaves of an ordinary row is followed up. -/
theorem followed_ordinary (hg : Good m) (ht : m.threads[i]? = some t) (hmax : 0 < maxAttempts)
    (hkept : Kept group t.call m.db (t.ctx.view m.db)) (hcall : t.call.Ordinary maxAttempts)
    (hne : t.call.isProcessOne = false) (hspares : Spares maxAttempts m i)
    (hrows : ∀ row ∈ m.db.outbox.messages, Tended maxAttempts row)
    (hrow' : row' ∈ (Tables.outbox (t.ctx.view m.db)).messages)
    (htype : row'.eventType ≠ challengeEmailEvent) : Followed maxAttempts row' := by
  obtain ⟨row, horigin, hpath⟩ := hkept.rows row' hrow'
  have hid : row'.id = row.id := moved_id hpath
  rcases moved_ordinary hpath hcall hne with rfl | ⟨-, hst | hst⟩ | ⟨hfail, hst, hatt⟩
  · rcases horigin with hold | ⟨-, hnew⟩
    · exact (hrows row' (Table.mem_of_find hold) htype).1
    · exact hnew.followed hmax
  · exact .inl hst
  · exact .inr (.inl (by simp [Terminal, hst]))
  · have hprocessing := processing_of_fails hfail hne
    have hold : m.db.outbox.message row.id = some row := by
      rcases horigin with hold | ⟨-, hnew⟩
      · exact hold
      · cases hprocessing.symm.trans hnew.status
    by_cases hheld : .message row.id ∈ t.ctx.held
    · have hlt := hspares t ht row (Table.mem_of_find hold)
        (moved_eventType hpath ▸ htype) hheld hfail
      rw [attempts_eq hne, ← hatt] at hlt
      exact .inr (.inr ⟨.inr hst, hlt⟩)
    · -- a row that was not locked was not written
      have hsame : Outbox.message (Tables.outbox (t.ctx.view m.db)) row.id = some row := by
        refine ((framed_message row.id).applyAll (fun op hop hmem => hheld ?_) m.db).trans hold
        exact (hg.sound i t ht).needs op hop _ hmem
      have hthere := hkept.keyed.find hrow'
      rw [hid] at hthere
      cases hsame.symm.trans hthere
      cases hst.symm.trans hprocessing

/-- An internal worker holds the row that it has claimed. -/
theorem Processed.held {worker : InternalOutboxWorker W} {reads : ProcessReads}
    {c : Ctx (schema W group)} {row : OutboxMessage} (h : Processed worker reads c row)
    {N : Note → Ctx (schema W group) → Prop} {db : Tables W} {clock : Time} {drawn : List UUID}
    (hsound : c.Sound N db clock drawn) : .message row.id ∈ c.held := by
  refine hsound.needs (.setMessage (row.batchClaim reads.claimedAt)) ?_ _ List.mem_cons_self
  cases h with
  | published _ hbuf => simp [hbuf]
  | failed _ _ hbuf => simp [hbuf]

/-- What an internal worker leaves of an ordinary row is followed up. -/
theorem followed_processOne {worker : InternalOutboxWorker W} {reads : ProcessReads} (hg : Good m)
    (ht : m.threads[i]? = some t) (hmax : 0 < maxAttempts)
    (hcommits : Commits group t.call t.ctx m.db) (hcall : t.call = .processOne worker reads)
    (hspares : Spares maxAttempts m i)
    (hrows : ∀ row ∈ m.db.outbox.messages, Tended maxAttempts row)
    (hrow' : row' ∈ (Tables.outbox (t.ctx.view m.db)).messages)
    (htype : row'.eventType ≠ challengeEmailEvent) : Followed maxAttempts row' := by
  have hthere : Outbox.message (Tables.outbox (t.ctx.view m.db)) row'.id = some row' :=
    hcommits.kept.keyed.find hrow'
  obtain ⟨row, hclaims, hprocessed⟩ := hcommits.processed worker reads hcall
  -- the other rows are as before, or were staged by the handler
  have hothers : ∀ {ops new}, (∀ op ∈ ops, Op.byHandler row.id op) →
      Leaves group m.db (t.ctx.view m.db) ops new → row'.id ≠ new.id →
        Followed maxAttempts row' := by
    intro ops new hops hleaves hne
    rcases other_handled hops ((hleaves.others row'.id hne).symm.trans hthere) with hold | hnew
    · exact (hrows row' (Table.mem_of_find hold) htype).1
    · exact hnew.followed hmax
  rcases hprocessed.leaves hclaims.message with ⟨ops, hends, hleaves⟩ |
    ⟨_, availableAt, -, hwritten, hleaves⟩
  · by_cases hid : row'.id = row.id
    · cases hthere.symm.trans (hid ▸ hleaves.message)
      exact .inr (.inl (by simp [Terminal, OutboxMessage.publish]))
    · exact hothers (hends.byHandler (List.forall_mem_nil _)) hleaves hid
  · by_cases hid : row'.id = row.id
    · cases hthere.symm.trans (hid ▸ hleaves.message)
      have hfail : t.call.fails t.ctx.buf row := by
        rw [hcall]
        exact ⟨hclaims.claims, availableAt, hwritten⟩
      have hlt := hspares t ht row (Table.mem_of_find hclaims.message) htype
        (hprocessed.held (hg.sound i t ht)) hfail
      rw [hcall] at hlt
      exact .inr (.inr ⟨.inr rfl, hlt⟩)
    · exact hothers (List.forall_mem_nil _) hleaves hid

/-- A commit that spares its rows leaves every ordinary row followed up. -/
theorem tended_commit (hg : Good m) (hstep : Step m (.commit i) m') (hmax : 0 < maxAttempts)
    (hcalls : ∀ t ∈ m.threads, t.call.Ordinary maxAttempts) (hspares : Spares maxAttempts m i)
    (hrows : ∀ row ∈ m.db.outbox.messages, Tended maxAttempts row) :
    ∀ row ∈ m'.db.outbox.messages, Tended maxAttempts row := by
  obtain ⟨t, ht, hcommits, hdb⟩ := hg.commit hstep
  have hcall := hcalls t (List.mem_of_getElem? ht)
  rw [hdb]
  intro row' hrow' htype
  refine ⟨?_, ?_⟩
  · cases hc : t.call with
    | processOne worker reads =>
      exact followed_processOne hg ht hmax hcommits hc hspares hrows hrow' htype
    | _ =>
      exact followed_ordinary hg ht hmax hcommits.kept hcall (by rw [hc]; rfl) hspares hrows hrow'
        htype
  · obtain ⟨row, horigin, hpath⟩ := hcommits.kept.rows row' hrow'
    refine moved_token hpath (mayLease_eq_false hcall) ?_
    rcases horigin with hold | ⟨-, hnew⟩
    · exact (hrows row (Table.mem_of_find hold) (moved_eventType hpath ▸ htype)).2
    · exact hnew.token

/-- A row that is due has its turn, once its earlier versions are published. -/
theorem batchClaimable_of_waits {row : OutboxMessage} {messages : List OutboxMessage}
    {claimedAt : Time}
    {eventTypes : Option (List String)} (htype : row.eventType ≠ challengeEmailEvent)
    (hwaits : Waits row) (hatt : row.attempts < maxAttempts) (htoken : row.claimToken = none)
    (hdue : row.availableAt ≤ claimedAt) (hearlier : earlierUnpublished messages row = false)
    (hmine : eventTypes.all (·.contains row.eventType) = true) :
    batchClaimable messages maxAttempts claimedAt eventTypes row = true := by
  rw [batchClaimable, hmine, hearlier, htoken]
  rcases hwaits with hst | hst <;> simp [hst, hatt, htype, hdue]

/-- **Ordinary rows are followed up where none fails at its last attempt.** In every run of ordinary
calls with one `max_attempts`, from a state whose ordinary rows are followed up, in which no commit
fails a row at its last attempt: every ordinary row is being processed, or is done with, or has
attempts left and can be claimed once it is due and its earlier versions are published. -/
theorem ordinary_followed (h0 : Initial s₀) (hmax : 0 < maxAttempts)
    (hrows : ∀ row ∈ s₀.db.outbox.messages, Tended maxAttempts row) (hrun : Run s₀ tr s)
    (hcalls : ∀ call, .start call ∈ tr → call.Ordinary maxAttempts)
    (hspares : ∀ m i m', CommitsIn s₀ tr s m i m' → Spares maxAttempts m i) :
    ∀ row ∈ s.db.outbox.messages, row.eventType ≠ challengeEmailEvent →
      Followed maxAttempts row ∧
      (Waits row → ∀ claimedAt eventTypes, row.availableAt ≤ claimedAt →
        earlierUnpublished s.db.outbox.messages row = false →
        eventTypes.all (·.contains row.eventType) = true →
        batchClaimable s.db.outbox.messages maxAttempts claimedAt eventTypes row = true) := by
  have htended : ∀ row ∈ s.db.outbox.messages, Tended maxAttempts row := by
    induction hrun with
    | nil => exact hrows
    | @snoc m s tr a hrun hstep ih =>
      have hbefore := ih (fun call hmem => hcalls call (List.mem_append_left _ hmem))
        fun n i n' htakes => hspares n i n' (htakes.snoc hstep)
      by_cases hc : ∃ i, a = .commit i
      · obtain ⟨i, rfl⟩ := hc
        refine tended_commit (good_of_run h0 hrun) hstep hmax (fun t ht => ?_)
          (hspares m i s (.last hrun hstep)) hbefore
        rcases run_calls hrun ht with ⟨u, hu, -⟩ | hmem
        · rw [h0.threads] at hu
          cases hu
        · exact hcalls _ (List.mem_append_left _ hmem)
      · rw [hstep.db_eq fun i hi => hc ⟨i, hi⟩]
        exact hbefore
  intro row hrow htype
  obtain ⟨hfollowed, htoken⟩ := htended row hrow htype
  refine ⟨hfollowed, fun hwaits claimedAt eventTypes hdue hearlier hmine => ?_⟩
  refine batchClaimable_of_waits htype hwaits ?_ htoken hdue hearlier hmine
  rcases hfollowed with hst | hst | ⟨-, hatt⟩
  · rcases hwaits with hw | hw <;> cases hst.symm.trans hw
  · rcases hwaits with hw | hw <;> simp [Terminal, hw] at hst
  · exact hatt

end

/-- An event that an internal worker may handle. -/
def orderEvent : DomainEvent := { Fixture.event with eventType := "order_placed" }

/-- It is staged and committed. -/
def addActs : List (Act Unit Unit "auth_email") :=
  [.start (.add orderEvent none none), .draw 0 2] ++ steps 0 3 ++ [.commit 0]

/-- The system after that. -/
def added : Sys Unit Unit "auth_email" :=
  ((system {}).execAll (code "auth_email") addActs).getD (system {})

/-- The staged row has its attempts before it. -/
theorem ordinary_followed_added : added.db.outbox.messages.length = 1 ∧
    ∀ row ∈ added.db.outbox.messages, row.eventType ≠ challengeEmailEvent → Followed 5 row := by
  refine ⟨rfl, fun row hrow htype => ?_⟩
  have h0 : Initial (system {} : Sys Unit Unit "auth_email") :=
    system_initial ⟨List.nodup_nil, List.forall_mem_nil _⟩
  have hadd : ∀ call, .start call ∈ addActs → call = .add orderEvent none none := by
    intro call hmem
    simpa [addActs, steps] using hmem
  refine (ordinary_followed h0 (Nat.succ_pos 4) (List.forall_mem_nil _)
    (Sys.run_of_isSome rfl : Run (system {}) addActs added)
    (fun call hmem => ?_) ?_ row hrow htype).1
  · rw [hadd call hmem]
    trivial
  · -- the only call fails no row
    rintro m i m' ⟨tr₁, tr₂, htr, hrun, -⟩ t ht row - - - hfail
    rcases run_calls hrun (List.mem_of_getElem? ht) with ⟨u, hu, -⟩ | hmem
    · cases hu
    · rw [hadd t.call (by rw [htr]; exact List.mem_append_left _ hmem)] at hfail
      exact hfail.elim

/-- A worker whose only attempt is the first, and whose handler raises. -/
def failingWorker : InternalOutboxWorker Unit where
  handlers := [("order_placed", fun _ => .raise)]
  settings := { (default : OutboxWorkerSettings) with
    maxAttempts := 1
    maxAttempts_range := by decide }
  registered := List.cons_ne_nil _ _
  safe := by decide

/-- It handles the staged message and commits. -/
def failingActs : List (Act Unit Unit "auth_email") :=
  addActs ++ .start (.processOne failingWorker
    { claimedAt := 0, now := 0, jitter := 0, locked := fun _ => false }) :: steps 1 8 ++ [.commit 1]

/-- The system after that. -/
def exhausted : Sys Unit Unit "auth_email" :=
  ((system {}).execAll (code "auth_email") failingActs).getD (system {})

/-- The message is left failed with no attempt left. -/
theorem not_followed_exhausted : ¬ ∀ (tr : List (Act Unit Unit "auth_email")) s,
    Run (system {}) tr s → (∀ call, .start call ∈ tr → call.Ordinary 1) →
    ∀ row ∈ s.db.outbox.messages, row.eventType ≠ challengeEmailEvent → Followed 1 row := by
  intro h
  have hrun : Run (system {}) failingActs exhausted := Sys.run_of_isSome rfl
  have hcalls : ∀ call, .start call ∈ failingActs → call.Ordinary 1 := by
    intro call hmem
    simp only [failingActs, addActs, steps, List.mem_append, List.mem_cons, List.mem_replicate,
      Transact.Act.start.injEq, reduceCtorEq, and_false, or_false, List.not_mem_nil] at hmem
    rcases hmem with rfl | rfl
    · trivial
    · rfl
  have hmessage : (exhausted.db.outbox.message 2).map
      (fun row => (row.eventType, row.status, row.attempts)) =
      some ("order_placed", .failed, 1) := rfl
  obtain ⟨row, hrow, he⟩ := Option.map_eq_some_iff.1 hmessage
  simp only [Prod.mk.injEq] at he
  obtain ⟨htype, hst, hatt⟩ := he
  have hother : row.eventType ≠ challengeEmailEvent := by
    rw [htype]
    decide
  rcases h failingActs exhausted hrun hcalls row (Table.mem_of_find hrow) hother with
    hst' | hst' | ⟨-, hlt⟩
  · cases hst.symm.trans hst'
  · simp [Terminal, hst] at hst'
  · rw [hatt] at hlt
    exact absurd hlt (Nat.lt_irrefl 1)

end Ekumidayomi.Workers
