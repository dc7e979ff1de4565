import Ekumidayomi.Outbox.System

/-!
# Two repositories on one table

Ordinary claims and leased claims share the table and the status column; `claim_token` tells them
apart. This module says what an operation of either repository does to a row that the other one
holds. Three of the four ordinary operations carry the test on `claim_token`, and `mark_failed` does
not (`OrdinaryCall.Unfenced`).
-/

namespace Ekumidayomi

/-- A call of an `OutboxRepository` operation on rows that exist. -/
inductive OrdinaryCall
  | claimBatch (maxAttempts limit : Nat) (claimedAt : Time) (eventTypes : Option (List String))
      (locked : UUID → Bool)
  | markPublished (id : UUID) (publishedAt : Time)
  | markFailed (id : UUID) (errorCode : String) (availableAt : Time)
  | recoverStaleClaims (staleBefore availableAt : Time) (limit : Nat) (locked : UUID → Bool)

/-- The tables after a call that started on `db`: a call that raises is rolled back. -/
def Outbox.afterCall {α : Type} (db : Outbox) : Except OutboxError (Outbox × α) → Outbox
  | .ok (db', _) => db'
  | .error _ => db

namespace OrdinaryCall

/-- The tables after the call. -/
def tables (db : Outbox) : OrdinaryCall → Outbox
  | claimBatch maxAttempts limit claimedAt eventTypes locked =>
    db.afterCall (OutboxRepository.claimBatch db maxAttempts limit claimedAt eventTypes locked)
  | markPublished id publishedAt => (OutboxRepository.markPublished db id publishedAt).1
  | markFailed id errorCode availableAt =>
    db.afterCall (OutboxRepository.markFailed db id errorCode availableAt)
  | recoverStaleClaims staleBefore availableAt limit locked =>
    db.afterCall (OutboxRepository.recoverStaleClaims db staleBefore availableAt limit locked)

/-- The call reports a failure, with a well-formed error code, on a row that is processing under a
lease. -/
def Unfenced (db : Outbox) : OrdinaryCall → Prop
  | markFailed id errorCode _ =>
    errorCode.length ≤ 100 ∧ isSnakeCase errorCode = true ∧
      ∃ row, db.message id = some row ∧ row.status = .processing ∧ row.claimToken ≠ none
  | _ => False

end OrdinaryCall

/-- The check constraint `lease_pair_valid` of the table. -/
def Outbox.LeasePairs (db : Outbox) : Prop :=
  ∀ row ∈ db.messages, row.claimToken = none ↔ row.leaseExpiresAt = none

section
variable {P : Type} {db db' : Outbox} {row row' : OutboxMessage} {id : UUID} {l : Txn P}

/-- `claim_batch`, `mark_published` and `recover_stale_claims` do not move a row under a lease. -/
theorem RowMove.not_batchClaimed {maxAttempts limit : Nat} {claimedAt : Time}
    {eventTypes : Option (List String)} {locked : UUID → Bool} {rows : List OutboxMessage}
    (htok : row.claimToken ≠ none) :
    ¬ RowMove (P := P) db (.claimBatch maxAttempts limit claimedAt eventTypes locked rows) row
      row' := by
  intro h
  cases h with
  | batchClaimed h =>
    simp only [batchClaimable, Bool.and_eq_true, Option.isNone_iff_eq_none] at h
    exact htok h.1.1.1.1.2

theorem RowMove.not_published {publishedAt : Time} {changed : Bool} (htok : row.claimToken ≠ none) :
    ¬ RowMove (P := P) db (.markPublished id publishedAt changed) row row' := by
  intro h
  cases h with
  | published _ _ h => exact htok h

theorem RowMove.not_released {staleBefore availableAt : Time} {limit : Nat} {locked : UUID → Bool}
    (htok : row.claimToken ≠ none) :
    ¬ RowMove (P := P) db (.recoverStaleClaims staleBefore availableAt limit locked) row row' := by
  intro h
  cases h with
  | released h =>
    simp only [staleClaim, Bool.and_eq_true, Option.isNone_iff_eq_none] at h
    exact htok h.2

/-- A row that no move can reach is as before. -/
theorem Outbox.message_of_not_move {s s' : Repo} (h : Repo.Step s l s') (hk : s.db.Keyed)
    (hrow : s.db.message id = some row) (hnot : ∀ row', ¬ RowMove s.db l row row') :
    s'.db.message id = some row := by
  obtain ⟨row', hrow', rfl | hm⟩ := h.message hk hrow
  · exact hrow'
  · exact absurd hm (hnot row')

/-- What holds before a call, and after it when it succeeds, holds after it. -/
theorem Outbox.afterCall_message {α : Type} {x : Except OutboxError (Outbox × α)}
    (hrow : db.message id = some row)
    (hok : ∀ db' r, x = .ok (db', r) → db'.message id = some row) :
    (db.afterCall x).message id = some row := by
  cases x with
  | error => exact hrow
  | ok r => exact hok r.1 r.2 rfl

/-- A failure report that is accepted has a well-formed code. -/
theorem code_of_markFailed {mid : UUID} {errorCode : String} {availableAt : Time} {changed : Bool}
    (h : OutboxRepository.markFailed db mid errorCode availableAt = .ok (db', changed)) :
    errorCode.length ≤ 100 ∧ isSnakeCase errorCode = true := by
  unfold OutboxRepository.markFailed at h
  split at h
  · cases h
  · rename_i hcode
    simpa using hcode

/-- Every ordinary call leaves a row under a lease alone, unless it is an unfenced failure
report. -/
theorem OrdinaryCall.message_tables {call : OrdinaryCall} (hk : db.Keyed)
    (hcall : ¬ call.Unfenced db) (hrow : db.message id = some row) (htok : row.claimToken ≠ none) :
    (call.tables db).message id = some row := by
  -- each call that succeeds is a step of the table taken by itself
  let s : Repo := { db, clock := 0 }
  cases call with
  | claimBatch maxAttempts limit claimedAt eventTypes locked =>
    refine Outbox.afterCall_message hrow fun db' rows h => ?_
    exact Outbox.message_of_not_move (P := Unit) (s := s) (.claimBatch h) hk hrow
      fun _ => RowMove.not_batchClaimed htok
  | markPublished mid publishedAt =>
    exact Outbox.message_of_not_move (P := Unit) (s := s) (.markPublished rfl) hk hrow
      fun _ => RowMove.not_published htok
  | markFailed mid errorCode availableAt =>
    refine Outbox.afterCall_message hrow fun db' changed h => ?_
    obtain ⟨row', hrow', rfl | hm⟩ := Repo.markFailed_message (P := Unit) hrow h
    · exact hrow'
    · refine absurd ?_ hcall
      cases hm with
      | failed hid hst =>
        obtain ⟨hlen, hsnake⟩ := code_of_markFailed h
        refine ⟨hlen, hsnake, row, ?_, hst, htok⟩
        rw [← hid, Table.key_of_find hrow]
        exact hrow
  | recoverStaleClaims staleBefore availableAt limit locked =>
    refine Outbox.afterCall_message hrow fun db' count h => ?_
    exact Outbox.message_of_not_move (P := Unit) (s := s) (.recoverStaleClaims h) hk hrow
      fun _ => RowMove.not_released htok

/-- An unfenced failure report takes the row away from its leaseholder. -/
theorem OrdinaryCall.Unfenced.message_tables {call : OrdinaryCall} (h : call.Unfenced db) :
    ∃ id row row', db.message id = some row ∧ row.claimToken ≠ none ∧ row.status = .processing ∧
      (call.tables db).message id = some row' ∧ row'.status = .failed := by
  cases call with
  | markFailed id errorCode availableAt =>
    obtain ⟨hlen, hsnake, row, hrow, hst, htok⟩ := h
    refine ⟨id, row, row.fail errorCode availableAt, hrow, htok, hst, ?_, rfl⟩
    have hok : OutboxRepository.markFailed db id errorCode availableAt =
        .ok (db.modify id (·.fail errorCode availableAt), true) := by
      simp [OutboxRepository.markFailed, Nat.not_lt.2 hlen, hsnake, hrow, hst]
    simp only [OrdinaryCall.tables, hok, Outbox.afterCall]
    exact Outbox.message_modify_self (·.fail errorCode availableAt) (fun _ => rfl) hrow
  | _ => exact h.elim

/-- A row that is processing with no lease is neither swept nor claimed. -/
theorem RowMove.not_claim {group : String} {eventTypes : List String}
    {settings : OutboxWorkerSettings} {reads : ClaimReads} {result : Option Claim}
    (hst : row.status = .processing) (hlease : row.leaseExpiresAt = none) :
    ¬ RowMove (P := P) db (.claim group eventTypes settings reads result) row row' := by
  intro h
  cases h with
  | claim h =>
    cases h with
    | swept h => simp [sweepable, hst, hlease] at h
    | tooOld h | leased h => simp [claimable, hst, hlease] at h

/-- The leased claim neither changes nor takes a row that is processing under an ordinary claim. -/
theorem claim_ordinary {group : String} {eventTypes : List String} {settings : OutboxWorkerSettings}
    {reads : ClaimReads} {result : Option Claim} (hk : db.Keyed) (hpairs : db.LeasePairs)
    (hrow : db.message id = some row) (hst : row.status = .processing)
    (htok : row.claimToken = none)
    (h : LeasedOutboxRepository.claim db group eventTypes settings reads = .ok (db', result)) :
    db'.message id = some row ∧ ∀ c, result = some c → c.messageId ≠ id := by
  have hlease : row.leaseExpiresAt = none := (hpairs row (Table.mem_of_find hrow)).1 htok
  constructor
  · obtain ⟨row', hrow', rfl | hm⟩ := Repo.claim_message (P := Unit) hk hrow h
    · exact hrow'
    · exact absurd hm (RowMove.not_claim hst hlease)
  · rintro c rfl rfl
    obtain ⟨r, hr, hcl, -⟩ := Repo.claim_eq_some hk h
    obtain rfl : r = row := Option.some.inj (hr.symm.trans hrow)
    simp [claimable, hst, hlease] at hcl

end

/-- **The ordinary repository and leased rows.** A call of an ordinary operation leaves every row
with a claim token as it is exactly when it is not a well-formed failure report on a row that is
processing under a lease; and a leased claim leaves every row alone that is processing under an
ordinary claim. -/
theorem ordinary_isolation (db : Outbox) (hk : db.Keyed) (hpairs : db.LeasePairs) :
    (∀ call : OrdinaryCall,
      (∀ id row, db.message id = some row → row.claimToken ≠ none →
        (call.tables db).message id = some row) ↔ ¬ call.Unfenced db) ∧
    ∀ group eventTypes settings reads db' result,
      LeasedOutboxRepository.claim db group eventTypes settings reads = .ok (db', result) →
      ∀ id row, db.message id = some row → row.status = .processing → row.claimToken = none →
        db'.message id = some row ∧ ∀ c, result = some c → c.messageId ≠ id := by
  refine ⟨fun call => ⟨fun h hunf => ?_, fun hunf id row => ?_⟩, ?_⟩
  · obtain ⟨id, row, row', hrow, htok, hst, hrow', hst'⟩ := hunf.message_tables
    have he := Option.some.inj (hrow'.symm.trans (h id row hrow htok))
    rw [he, hst] at hst'
    cases hst'
  · exact OrdinaryCall.message_tables hk hunf
  · intro group eventTypes settings reads db' result h id row hrow hst htok
    exact claim_ordinary hk hpairs hrow hst htok h

/-- The table with the message under its first lease meets the table's constraints. -/
theorem ordinary_isolation_claimedRepo :
    (∀ id row, Fixture.claimedRepo.db.message id = some row → row.claimToken ≠ none →
        ((OrdinaryCall.markPublished 1 0).tables Fixture.claimedRepo.db).message id = some row) ↔
      ¬ (OrdinaryCall.markPublished 1 0).Unfenced Fixture.claimedRepo.db := by
  have hk : Fixture.claimedRepo.db.Keyed := by
    simp [Outbox.Keyed, Table.Keyed, Fixture.claimedRepo]
  have hpairs : Fixture.claimedRepo.db.LeasePairs := by
    intro row hrow
    obtain rfl := List.mem_singleton.1 hrow
    decide
  exact (ordinary_isolation Fixture.claimedRepo.db hk hpairs).1 (.markPublished 1 0)

/-- A failure report of the ordinary repository changes the row under the lease. -/
theorem markFailed_changes_leased :
    ¬ ∀ id row, Fixture.claimedRepo.db.message id = some row → row.claimToken ≠ none →
      ((OrdinaryCall.markFailed 1 "timeout" 0).tables Fixture.claimedRepo.db).message id =
        some row := by
  intro h
  have h := congrArg (Option.map (·.status)) (h 1 (Fixture.message.lease 0 {} 1) rfl (by decide))
  revert h
  decide

end Ekumidayomi
