import Ekumidayomi.Outbox.Repository

/-!
# Fenced claim transactions

`outbox/leased_repository.py` and the recovery operations of `outbox/operations.py`. Each function
is the effect of one transaction: it locks the control row or the message row before it reads what
it decides on, so transactions on one message take effect one after another. What a transaction
reads from outside the tables is an argument: `now`, the value of `clock_timestamp()` read at that
point of the source, `ownedAt`, the clock inside the query of `owned`, the keys other transactions
hold when a query skips locked rows, and the fresh claim token.
-/

namespace Ekumidayomi

/-- `Claim`. -/
structure Claim where
  messageId : UUID
  token : UUID
  event : Option DomainEvent
  attempts : Nat
  retryBudget : Nat
  deadline : Time
  receipts : Dict
  deriving Repr

/-- What one call of `claim` reads besides the tables. -/
structure ClaimReads where
  now : Time
  sweepLocked : UUID → Bool := fun _ => false
  rowLocked : UUID → Bool := fun _ => false
  token : UUID

/-! ## `claim` -/

/-- The insert with `on_conflict_do_nothing`, and `control.heartbeat_at = now`. -/
def Outbox.heartbeat (db : Outbox) (group : String) (now : Time) : Outbox :=
  match db.control group with
  | none => { db with controls := db.controls ++ [{ workerGroup := group, heartbeatAt := now }] }
  | some _ =>
    { db with
      controls := Table.update (·.workerGroup) db.controls (· = group)
        fun control => { control with heartbeatAt := now } }

/-- The condition of the expiry sweep: out of attempts or past the deadline, and not held by a
live lease. -/
def sweepable (eventTypes : List String) (now : Time) (row : OutboxMessage) : Bool :=
  eventTypes.contains row.eventType &&
    ((row.status = .processing && atMost row.leaseExpiresAt now) ||
      (row.status = .pending || row.status = .failed)) &&
    (decide (row.retryBudget ≤ row.attempts) || atMost row.deadlineAt now)

/-- The attributes the sweep sets. -/
def OutboxMessage.sweep (row : OutboxMessage) : OutboxMessage :=
  { row with status := if truthy row.deliveryFingerprint then .uncertain else .dead,
             lastErrorCode := some "delivery_budget_expired", claimToken := none,
             leaseExpiresAt := none }

/-- The rows the sweep takes: the first hundred in key order. -/
def sweptRows (messages : List OutboxMessage) (eventTypes : List String) (reads : ClaimReads) :
    List OutboxMessage :=
  selectForUpdate messages (sweepable eventTypes reads.now) (fun a b => decide (a.id ≤ b.id)) 100
    reads.sweepLocked

/-- The message table after the flush of the sweep. -/
def sweptTable (messages : List OutboxMessage) (eventTypes : List String) (reads : ClaimReads) :
    List OutboxMessage :=
  modifyRows messages (sweptRows messages eventTypes reads) OutboxMessage.sweep

/-- The subquery `blocked` of `claim`. -/
def blocked (messages : List OutboxMessage) (row : OutboxMessage) : Bool :=
  messages.any fun earlier =>
    earlier.aggregateType = row.aggregateType && earlier.aggregateId = row.aggregateId &&
      decide (earlier.aggregateVersion < row.aggregateVersion) &&
      !(earlier.status = .published || earlier.status = .skipped)

/-- The condition of `claim` on the row it takes. -/
def claimable (messages : List OutboxMessage) (eventTypes : List String) (now : Time)
    (row : OutboxMessage) : Bool :=
  eventTypes.contains row.eventType &&
    (((row.status = .pending || row.status = .failed) && decide (row.availableAt ≤ now)) ||
      (row.status = .processing && atMost row.leaseExpiresAt now)) &&
    decide (row.attempts < row.retryBudget) && !blocked messages row

/-- The order `available_at, id`. -/
def claimOrder (a b : OutboxMessage) : Bool :=
  decide (a.availableAt < b.availableAt) ||
    (a.availableAt = b.availableAt && decide (a.id ≤ b.id))

/-- The deadline `claim` computes for a row. -/
def claimDeadline (row : OutboxMessage) (now : Time) (settings : OutboxWorkerSettings) : Time :=
  min (row.deadlineAt.getD (now + seconds settings.maxAgeSeconds))
    (row.occurredAt + seconds settings.maxAgeSeconds)

/-- The attributes set on a row whose deadline has passed; its token and lease stay as they are. -/
def OutboxMessage.tooOld (row : OutboxMessage) (deadline : Time) : OutboxMessage :=
  { row with deadlineAt := some deadline,
             status := if truthy row.deliveryFingerprint then .uncertain else .dead,
             lastErrorCode := some "delivery_too_old" }

/-- The attributes set on a claimed row. -/
def OutboxMessage.lease (row : OutboxMessage) (now : Time) (settings : OutboxWorkerSettings)
    (token : UUID) : OutboxMessage :=
  { row with deadlineAt := some (claimDeadline row now settings),
             retryBudget := if row.attempts = 0 then settings.maxAttempts else row.retryBudget,
             status := .processing,
             leaseExpiresAt := some (now + seconds settings.leaseSeconds),
             claimedAt := some now, attempts := row.attempts + 1, claimToken := some token }

/-- The `Claim` returned for a leased row. -/
def OutboxMessage.toClaim (row : OutboxMessage) (deadline : Time) (token : UUID) : Claim :=
  { messageId := row.id, token, event := row.toEvent.toOption, attempts := row.attempts,
    retryBudget := row.retryBudget, deadline, receipts := row.deliveryReceipts }

/-- The row `claim` selects after the sweep. -/
def selectedRow (messages : List OutboxMessage) (eventTypes : List String) (reads : ClaimReads) :
    Option OutboxMessage :=
  (selectForUpdate messages (claimable messages eventTypes reads.now) claimOrder 1
    reads.rowLocked).head?

/-- The part of `claim` after the control row was found not to be paused. -/
def claimNext (db : Outbox) (eventTypes : List String) (settings : OutboxWorkerSettings)
    (reads : ClaimReads) : Outbox × Option Claim :=
  let db := { db with messages := sweptTable db.messages eventTypes reads }
  match selectedRow db.messages eventTypes reads with
  | none => (db, none)
  | some row =>
    let deadline := claimDeadline row reads.now settings
    if deadline ≤ reads.now then (db.modify row.id (·.tooOld deadline), none)
    else
      (db.modify row.id (·.lease reads.now settings reads.token),
        some ((row.lease reads.now settings reads.token).toClaim deadline reads.token))

/-- `LeasedOutboxRepository.claim`. -/
def LeasedOutboxRepository.claim (db : Outbox) (group : String) (eventTypes : List String)
    (settings : OutboxWorkerSettings) (reads : ClaimReads) :
    Except OutboxError (Outbox × Option Claim) :=
  if eventTypes.isEmpty || eventTypes.any (!isSafeName ·) then .error .unsafeEventTypes
  else
    let db' := db.heartbeat group reads.now
    if (db.control group).any (·.paused) then .ok (db', none)
    else .ok (claimNext db' eventTypes settings reads)

/-! ## `owned`, `bind` and `finish` -/

/-- The condition of `owned` on a row. -/
def owns (c : Claim) (ownedAt : Time) (row : OutboxMessage) : Bool :=
  row.id = c.messageId && row.claimToken = some c.token && row.status = .processing &&
    after row.leaseExpiresAt ownedAt

/-- `LeasedOutboxRepository.owned`. -/
def LeasedOutboxRepository.owned (db : Outbox) (c : Claim) (ownedAt : Time) :
    Option OutboxMessage :=
  db.messages.find? (owns c ownedAt)

/-- The attributes `bind` sets on a row whose content changed. -/
def OutboxMessage.contentChanged (row : OutboxMessage) : OutboxMessage :=
  { row with status := .blocked, lastErrorCode := some "delivery_content_changed",
             claimToken := none, leaseExpiresAt := none }

/-- The attributes `bind` sets on a row whose deadline has passed. -/
def OutboxMessage.bindExpired (row : OutboxMessage) (deadline : Time) : OutboxMessage :=
  { row with deadlineAt := some deadline,
             status := if truthy row.deliveryFingerprint then .uncertain else .skipped,
             lastErrorCode := some "delivery_expired", claimToken := none,
             leaseExpiresAt := none }

/-- The attributes of a bound row. -/
def OutboxMessage.bound (row : OutboxMessage) (deadline : Time) (fingerprint : String) :
    OutboxMessage :=
  { row with deadlineAt := some deadline, deliveryFingerprint := some fingerprint }

/-- `LeasedOutboxRepository.bind`. -/
def LeasedOutboxRepository.bind (db : Outbox) (group : String) (c : Claim)
    (fingerprint : String) (expiresAt : Time) (ownedAt now : Time) : Except OutboxError
    (Outbox × Bool) :=
  if !isHex64 fingerprint then .error .fingerprint
  else match LeasedOutboxRepository.owned db c ownedAt with
    | none => .ok (db, false)
    | some row =>
      if row.deliveryFingerprint.any (· ≠ fingerprint) then
        .ok ((db.modify row.id OutboxMessage.contentChanged).pause group, false)
      else
        let deadline := min c.deadline expiresAt
        if deadline ≤ now then .ok (db.modify row.id (·.bindExpired deadline), false)
        else .ok (db.modify row.id (·.bound deadline fingerprint), true)

/-- The status `finish` gives a row: `next_status`, unless the retry would come too late. -/
def finishStatus (row : OutboxMessage) (c : Claim) (result : DeliveryOutcome)
    (availableAt : Time) : OutboxStatus :=
  let status := nextStatus result row.attempts row.retryBudget
  if status = .failed ∧ row.deadlineAt.getD c.deadline ≤ availableAt then
    (if truthy row.deliveryFingerprint then .uncertain else .dead)
  else status

/-- The attributes `finish` sets. -/
def OutboxMessage.finished (row : OutboxMessage) (c : Claim) (result : DeliveryOutcome)
    (delay : Int) (now : Time) : OutboxMessage :=
  let status := finishStatus row c result (now + delay)
  { row with deliveryReceipts := row.deliveryReceipts.merge result.receipts, status,
             availableAt := now + delay, lastErrorCode := some result.code,
             publishedAt := if status = .published then some now else none,
             claimToken := none, leaseExpiresAt := none, claimedAt := none }

/-- `LeasedOutboxRepository.finish`. -/
def LeasedOutboxRepository.finish (db : Outbox) (group : String) (c : Claim)
    (result : DeliveryOutcome) (delay : Int) (ownedAt now : Time) : Outbox × Bool :=
  match LeasedOutboxRepository.owned db c ownedAt with
  | none => (db, false)
  | some row =>
    let db' := db.modify row.id (·.finished c result delay now)
    (if finishStatus row c result (now + delay) = .blocked then db'.pause group else db', true)

/-! ## Recovery operations -/

/-- `MAX_REPLAY_ATTEMPTS`. -/
def maxReplayAttempts : Nat := 100

/-- What `handler.prepare` returned. -/
inductive Preparation (P : Type)
  | prepared (delivery : PreparedDelivery P)
  | outcome (result : DeliveryOutcome)
  deriving DecidableEq, Repr

/-- The attributes `replay` sets. -/
def OutboxMessage.replayed (row : OutboxMessage) (now : Time) : OutboxMessage :=
  { row with retryBudget := min maxReplayAttempts (row.attempts + 3), status := .pending,
             availableAt := now, claimToken := none, leaseExpiresAt := none }

/-- `operations.replay`, for a message whose handler prepares `prepare event`. -/
def replay {P : Type} (db : Outbox) (id : UUID) (handlers : List String)
    (prepare : DomainEvent → Preparation P) (now : Time) : Except OutboxError Outbox :=
  match db.message id with
  | none => .error .notEligible
  | some row =>
    if !handlers.contains row.eventType || !(row.status = .dead || row.status = .blocked) then
      .error .notEligible
    else if row.deadlineAt.isNone || atMost row.deadlineAt now ||
        decide (maxReplayAttempts ≤ row.attempts) then .error .exhausted
    else match row.toEvent with
      | .error e => .error (.event e)
      | .ok event =>
        match prepare event with
        | .outcome _ => .error .notPermitted
        | .prepared delivery =>
          if delivery.expiresAt ≤ now then .error .notPermitted
          else if row.deliveryFingerprint.any (· ≠ delivery.fingerprint) then
            .error .contentChanged
          else .ok (db.modify id (·.replayed now))

/-- `operations.resume`. -/
def resume (db : Outbox) (group : String) : Except OutboxError Outbox :=
  match db.control group with
  | some control =>
    if control.paused then
      .ok { db with
        controls := Table.update (·.workerGroup) db.controls (· = group)
          fun control => { control with paused := false } }
    else .error .notPaused
  | none => .error .notPaused

/-- What `finish` can make of a row. -/
theorem finishStatus_cases (row : OutboxMessage) (c : Claim) (result : DeliveryOutcome)
    (availableAt : Time) :
    (finishStatus row c result availableAt = .failed ∧ row.attempts < row.retryBudget ∧
        availableAt < row.deadlineAt.getD c.deadline) ∨
      finishStatus row c result availableAt ∈
        [OutboxStatus.published, .skipped, .blocked, .dead, .uncertain] := by
  have hnext : (nextStatus result row.attempts row.retryBudget = .failed ∧
      row.attempts < row.retryBudget) ∨ nextStatus result row.attempts row.retryBudget ∈
        [OutboxStatus.published, .skipped, .blocked, .dead, .uncertain] := by
    unfold nextStatus
    split
    · exact .inr (by decide)
    · exact .inr (by decide)
    · exact .inr (by decide)
    · exact .inr (by decide)
    · split
      · refine .inr ?_
        split <;> decide
      · rename_i hle
        exact .inl ⟨rfl, not_le.1 hle⟩
  unfold finishStatus
  simp only
  split
  · refine .inr ?_
    split <;> decide
  · rename_i hlate
    refine hnext.imp_left fun ⟨hf, hlt⟩ => ⟨hf, hlt, ?_⟩
    exact not_le.1 fun hle => hlate ⟨hf, hle⟩

theorem finishStatus_ne_processing {row : OutboxMessage} {c : Claim}
    {result : DeliveryOutcome} {availableAt : Time} :
    finishStatus row c result availableAt ≠ .processing := by
  intro h
  rcases finishStatus_cases row c result availableAt with ⟨hf, -⟩ | hmem
  · rw [h] at hf
    cases hf
  · rw [h] at hmem
    revert hmem
    decide

end Ekumidayomi
