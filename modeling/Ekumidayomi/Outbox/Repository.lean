import Ekumidayomi.Outbox.Model
import Mathlib.Data.List.Sort

/-!
# Transactional outbox persistence

`outbox/repository.py`: staging of events, and the claiming of ordinary rows in batches. A
`SELECT ... FOR UPDATE SKIP LOCKED` returns the first rows of its order that match and that no other
transaction holds; which rows are held is the argument `locked`.
-/

namespace Ekumidayomi

/-- The event type that only leased workers may claim. -/
def challengeEmailEvent : String := "email_challenge_requested"

/-- The errors the outbox raises before or instead of changing a row. -/
inductive OutboxError
  | idempotencyKey | errorCode | limit | eventTypes | duplicate
  | unsafeEventTypes | fingerprint | notEligible | exhausted | notPermitted | contentChanged
  | notPaused | event (e : EventError)
  deriving DecidableEq, Repr

/-- The text of a raised error; a duplicate is refused by a unique constraint. -/
def OutboxError.text : OutboxError → String
  | idempotencyKey => "idempotency_key must use 1-255 safe characters"
  | errorCode => "error_code must use lowercase snake case"
  | limit => "limit must be between 1 and 100"
  | eventTypes => "event_types must contain safe event names"
  | duplicate => "duplicate key value violates unique constraint"
  | unsafeEventTypes => "register safe event types"
  | fingerprint => "invalid delivery fingerprint"
  | notEligible => "message is not eligible for replay"
  | exhausted => "delivery window or lifetime attempt budget exhausted"
  | notPermitted => "domain no longer permits delivery"
  | contentChanged => "restore original delivery content before replay"
  | notPaused => "worker group is not paused"
  | event e => e.text

/-- `_IDEMPOTENCY_KEY_PATTERN`, matched in full. -/
def isIdempotencyKey (s : String) : Bool :=
  let alnum (c : Char) : Bool := isLower c || ('A' ≤ c && c ≤ 'Z') || isDigit c
  match s.toList with
  | [] => false
  | first :: rest =>
    alnum first && rest.length ≤ 254 && rest.all fun c => alnum c || ['.', '_', ':', '-'].contains c

/-- `select(...).where(p).order_by(le).limit(limit).with_for_update(skip_locked=True)`. -/
def selectForUpdate (messages : List OutboxMessage) (p : OutboxMessage → Bool)
    (le : OutboxMessage → OutboxMessage → Bool) (limit : Nat) (locked : UUID → Bool) :
    List OutboxMessage :=
  ((messages.filter fun row => p row && !locked row.id).insertionSort (le · · = true)).take limit

/-- The flush of one change to every selected row. -/
def modifyRows (messages selected : List OutboxMessage) (f : OutboxMessage → OutboxMessage) :
    List OutboxMessage :=
  Table.update (·.id) messages (fun id => selected.any (·.id = id)) f

/-- `OutboxRepository.add`, with the flush of the new row `id` in the caller's transaction. -/
def OutboxRepository.add (db : Outbox) (event : DomainEvent) (idempotencyKey : Option String)
    (availableAt : Option Time) (id : UUID) : Except OutboxError Outbox :=
  let key := idempotencyKey.getD ("event:" ++ uuidStr event.eventId)
  if !isIdempotencyKey key then .error .idempotencyKey
  else if db.messages.any fun row =>
      row.id = id || row.eventId = event.eventId || row.idempotencyKey = key
  then .error .duplicate
  else .ok { db with
    messages := db.messages ++
      [{ id, eventId := event.eventId, idempotencyKey := key, eventType := event.eventType,
         aggregateType := event.aggregateType, aggregateId := event.aggregateId,
         aggregateVersion := event.aggregateVersion, occurredAt := event.occurredAt,
         payload := event.payloadDict, availableAt := availableAt.getD event.occurredAt }] }

/-- The subquery `earlier_unpublished` of `claim_batch`. -/
def earlierUnpublished (messages : List OutboxMessage) (row : OutboxMessage) : Bool :=
  messages.any fun earlier =>
    earlier.aggregateType = row.aggregateType && earlier.aggregateId = row.aggregateId &&
      decide (earlier.aggregateVersion < row.aggregateVersion) && earlier.status ≠ .published

/-- The condition of `claim_batch` on a row. -/
def batchClaimable (messages : List OutboxMessage) (maxAttempts : Nat) (claimedAt : Time)
    (eventTypes : Option (List String)) (row : OutboxMessage) : Bool :=
  (row.status = .pending || row.status = .failed) && decide (row.attempts < maxAttempts) &&
    row.claimToken.isNone && row.eventType ≠ challengeEmailEvent &&
    decide (row.availableAt ≤ claimedAt) && !earlierUnpublished messages row &&
    eventTypes.all fun types => types.contains row.eventType

/-- The order `available_at, occurred_at, id`. -/
def batchOrder (a b : OutboxMessage) : Bool :=
  decide (a.availableAt < b.availableAt) || (a.availableAt = b.availableAt &&
    (decide (a.occurredAt < b.occurredAt) || (a.occurredAt = b.occurredAt && decide (a.id ≤ b.id))))

/-- The attributes `claim_batch` sets on a selected row. -/
def OutboxMessage.batchClaim (row : OutboxMessage) (claimedAt : Time) : OutboxMessage :=
  { row with status := .processing, attempts := row.attempts + 1, claimedAt := some claimedAt,
             publishedAt := none, lastErrorCode := none }

/-- `OutboxRepository.claim_batch`, returning the claimed rows. -/
def OutboxRepository.claimBatch (db : Outbox) (maxAttempts limit : Nat) (claimedAt : Time)
    (eventTypes : Option (List String)) (locked : UUID → Bool) :
    Except OutboxError (Outbox × List OutboxMessage) :=
  if limit < 1 || limit > 100 then .error .limit
  else if eventTypes.any fun types =>
      types.isEmpty || types.any fun t => t.length > 100 || !isSnakeCase t
  then .error .eventTypes
  else
    let rows := selectForUpdate db.messages
      (batchClaimable db.messages maxAttempts claimedAt eventTypes) batchOrder limit locked
    .ok ({ db with messages := modifyRows db.messages rows (·.batchClaim claimedAt) },
      rows.map (·.batchClaim claimedAt))

/-- The attributes `mark_published` sets. -/
def OutboxMessage.publish (row : OutboxMessage) (publishedAt : Time) : OutboxMessage :=
  { row with status := .published, claimedAt := none, publishedAt := some publishedAt,
             lastErrorCode := none }

/-- `OutboxRepository.mark_published`. -/
def OutboxRepository.markPublished (db : Outbox) (id : UUID) (publishedAt : Time) : Outbox × Bool :=
  match db.message id with
  | none => (db, false)
  | some row =>
    if row.status = .published then (db, false)
    else if row.claimToken.isSome then (db, false)
    else if row.status ≠ .processing then (db, false)
    else (db.modify id (·.publish publishedAt), true)

/-- The attributes `mark_failed` sets. -/
def OutboxMessage.fail (row : OutboxMessage) (errorCode : String) (availableAt : Time) :
    OutboxMessage :=
  { row with status := .failed, claimedAt := none, publishedAt := none,
             lastErrorCode := some errorCode, availableAt }

/-- `OutboxRepository.mark_failed`. Unlike its siblings it does not look at `claim_token`. -/
def OutboxRepository.markFailed (db : Outbox) (id : UUID) (errorCode : String)
    (availableAt : Time) : Except OutboxError (Outbox × Bool) :=
  if errorCode.length > 100 || !isSnakeCase errorCode then .error .errorCode
  else match db.message id with
    | none => .ok (db, false)
    | some row =>
      if row.status ≠ .processing then .ok (db, false)
      else .ok (db.modify id (·.fail errorCode availableAt), true)

/-- The condition of `recover_stale_claims` on a row. -/
def staleClaim (staleBefore : Time) (row : OutboxMessage) : Bool :=
  row.status = .processing && atMost row.claimedAt staleBefore && row.claimToken.isNone

/-- The order `claimed_at, id`; a null `claimed_at` is never selected. -/
def staleOrder (a b : OutboxMessage) : Bool :=
  decide (a.claimedAt.getD 0 < b.claimedAt.getD 0) ||
    (a.claimedAt.getD 0 = b.claimedAt.getD 0 && decide (a.id ≤ b.id))

/-- The attributes `recover_stale_claims` sets on a selected row. -/
def OutboxMessage.release (row : OutboxMessage) (availableAt : Time) : OutboxMessage :=
  { row with status := .failed, claimedAt := none, publishedAt := none,
             lastErrorCode := some "claim_expired", availableAt }

/-- `OutboxRepository.recover_stale_claims`. -/
def OutboxRepository.recoverStaleClaims (db : Outbox) (staleBefore availableAt : Time) (limit : Nat)
    (locked : UUID → Bool) : Except OutboxError (Outbox × Nat) :=
  if limit < 1 || limit > 100 then .error .limit
  else
    let rows := selectForUpdate db.messages (staleClaim staleBefore) staleOrder limit locked
    .ok ({ db with messages := modifyRows db.messages rows (·.release availableAt) }, rows.length)

/-! ## Selected rows -/

section
variable {messages selected : List OutboxMessage} {p : OutboxMessage → Bool}
  {le : OutboxMessage → OutboxMessage → Bool} {limit : Nat} {locked : UUID → Bool}
  {row : OutboxMessage} {f : OutboxMessage → OutboxMessage} {id : UUID}

/-- A selected row is a row of the table that matches and that nobody else holds. -/
theorem mem_selectForUpdate (h : row ∈ selectForUpdate messages p le limit locked) :
    row ∈ messages ∧ p row = true ∧ locked row.id = false := by
  have h := List.mem_of_mem_take h
  rw [List.mem_insertionSort, List.mem_filter] at h
  obtain ⟨hmem, hp⟩ := h
  simp only [Bool.and_eq_true, Bool.not_eq_true'] at hp
  exact ⟨hmem, hp⟩

theorem ids_modifyRows (messages selected : List OutboxMessage)
    (f : OutboxMessage → OutboxMessage) (hf : ∀ row, (f row).id = row.id) :
    (modifyRows messages selected f).map (·.id) = messages.map (·.id) :=
  Table.keys_update hf

/-- A row of the changed table is an old row that was not selected, or the change of a selected
one. -/
theorem mem_modifyRows (hk : Table.Keyed (·.id) messages) (hsub : ∀ r ∈ selected, r ∈ messages)
    (h : row ∈ modifyRows messages selected f) :
    ∃ a ∈ messages, (a ∉ selected ∧ row = a) ∨ (a ∈ selected ∧ row = f a) := by
  obtain ⟨a, ha, rfl⟩ := Table.mem_update h
  refine ⟨a, ha, ?_⟩
  by_cases hid : selected.any (·.id = a.id) = true
  · obtain ⟨r, hr, he⟩ := List.any_eq_true.1 hid
    rw [hk.eq_of_key (hsub r hr) ha (of_decide_eq_true he)] at hr
    exact .inr ⟨hr, by simp [hid]⟩
  · refine .inl ⟨fun hmem => hid (List.any_eq_true.2 ⟨a, hmem, by simp⟩), by simp [hid]⟩

/-- A change to the selected rows changes each row it reaches as it changes a selected one: in a
keyed table the row under a selected key is the selected row. -/
theorem find_modifyRows (hk : Table.Keyed (·.id) messages) (hf : ∀ row, (f row).id = row.id)
    (hrow : Table.find (·.id) messages id = some row)
    (hsub : ∀ r ∈ selected, r ∈ messages) :
    ∃ row', Table.find (·.id) (modifyRows messages selected f) id = some row' ∧
      (row' = row ∨ row ∈ selected ∧ row' = f row) := by
  refine ⟨_, by rw [modifyRows, Table.find_update hf, hrow]; rfl, ?_⟩
  by_cases hid : selected.any (·.id = id) = true
  · refine .inr ⟨?_, by simp [hid]⟩
    obtain ⟨r, hr, he⟩ := List.any_eq_true.1 hid
    have hrid : r.id = row.id := (of_decide_eq_true he).trans (Table.key_of_find hrow).symm
    rwa [← hk.eq_of_key (hsub r hr) (Table.mem_of_find hrow) hrid]
  · exact .inl (by simp [hid])

/-- A selected row is found changed. -/
theorem find_modifyRows_selected (hk : Table.Keyed (·.id) messages)
    (hf : ∀ row, (f row).id = row.id) (hmem : row ∈ messages) (hsel : row ∈ selected) :
    Table.find (·.id) (modifyRows messages selected f) row.id = some (f row) := by
  have hany : selected.any (·.id = row.id) = true := List.any_eq_true.2 ⟨row, hsel, by simp⟩
  rw [modifyRows, Table.find_update hf, hk.find hmem]
  simp [hany]

end

end Ekumidayomi
