import Ekumidayomi.Events
import Ekumidayomi.Lib.Table

/-!
# The transactional outbox: rows, outcomes and runner policy

`outbox/model.py`, `outbox/outcomes.py`, `outbox/settings.py` and `outbox/retry.py`. The table is a
list of rows with the worker controls beside it; a row is addressed by its primary key, and an
update of the row `id` is `Outbox.modify id`. Settings and outcomes carry what their validators
check, so a value that pydantic or `__post_init__` refuses cannot be built.
-/

namespace Ekumidayomi

/-- `OutboxStatus`: the durable delivery lifecycle. -/
inductive OutboxStatus
  | pending | processing | published | failed | dead | skipped | uncertain | blocked
  deriving DecidableEq, Repr

/-- `OutcomeKind`. -/
inductive OutcomeKind
  | accepted | retry | permanent | skipped | uncertain | blocked
  deriving DecidableEq, Repr

/-- The default of `retry_after`, no delay, is in range. -/
theorem noDelay_le : 0 ≤ 3600 := by
  decide

/-- `DeliveryOutcome`, with the two checks of `__post_init__`. -/
structure DeliveryOutcome where
  kind : OutcomeKind
  code : String
  retryAfter : Nat := 0
  receipts : Dict := []
  code_safe : isSafeName code = true := by decide
  retryAfter_le : retryAfter ≤ 3600 := by first | exact noDelay_le | decide
  deriving DecidableEq, Repr

/-- `PreparedDelivery`: detached work, its fingerprint and the instant it loses its purpose. -/
structure PreparedDelivery (P : Type) where
  payload : P
  fingerprint : String
  expiresAt : Time
  deriving DecidableEq, Repr

/-- `OutboxWorkerSettings`, with the field bounds and `validate_retry_window`. -/
structure OutboxWorkerSettings where
  maxAttempts : Nat := 5
  retryBaseSeconds : Nat := 30
  retryMaxSeconds : Nat := 300
  prepareSeconds : Nat := 10
  sendSeconds : Nat := 20
  leaseSeconds : Nat := 120
  maxAgeSeconds : Nat := 3600
  maxAttempts_range : 1 ≤ maxAttempts ∧ maxAttempts ≤ 100 := by decide
  retryBaseSeconds_range : 1 ≤ retryBaseSeconds ∧ retryBaseSeconds ≤ 300 := by decide
  retryMaxSeconds_range : 1 ≤ retryMaxSeconds ∧ retryMaxSeconds ≤ 3600 := by decide
  prepareSeconds_range : 1 ≤ prepareSeconds ∧ prepareSeconds ≤ 30 := by decide
  sendSeconds_range : 1 ≤ sendSeconds ∧ sendSeconds ≤ 60 := by decide
  leaseSeconds_range : 30 ≤ leaseSeconds ∧ leaseSeconds ≤ 300 := by decide
  maxAgeSeconds_range : 60 ≤ maxAgeSeconds ∧ maxAgeSeconds ≤ 82800 := by decide
  retry_window : retryBaseSeconds ≤ retryMaxSeconds := by decide
  lease_covers : prepareSeconds + sendSeconds + 30 < leaseSeconds := by decide
  deriving DecidableEq, Repr

instance : Inhabited OutboxWorkerSettings := ⟨{}⟩

/-- `OutboxMessage`: a durable intent to publish one domain event. -/
structure OutboxMessage where
  id : UUID
  eventId : UUID
  idempotencyKey : String
  eventType : String
  aggregateType : String
  aggregateId : UUID
  aggregateVersion : Int
  occurredAt : Time
  payload : List (String × EventValue)
  status : OutboxStatus := .pending
  attempts : Nat := 0
  availableAt : Time
  claimedAt : Option Time := none
  publishedAt : Option Time := none
  lastErrorCode : Option String := none
  claimToken : Option UUID := none
  leaseExpiresAt : Option Time := none
  deliveryFingerprint : Option String := none
  deliveryReceipts : Dict := []
  retryBudget : Nat := 5
  deadlineAt : Option Time := none
  deriving Repr

/-- `WorkerControl`: durable pause and heartbeat of a worker group. -/
structure WorkerControl where
  workerGroup : String
  paused : Bool := false
  heartbeatAt : Time
  deriving DecidableEq, Repr

/-- The tables `outbox_messages` and `outbox_worker_controls`. -/
structure Outbox where
  messages : List OutboxMessage := []
  controls : List WorkerControl := []
  deriving Repr

/-- `OutboxMessage.to_event`. -/
def OutboxMessage.toEvent (row : OutboxMessage) : Except EventError DomainEvent :=
  DomainEvent.create row.eventId row.eventType row.aggregateType row.aggregateId
    row.aggregateVersion row.occurredAt row.payload

/-- `session.get(OutboxMessage, id)`. -/
def Outbox.message (db : Outbox) (id : UUID) : Option OutboxMessage :=
  Table.find (·.id) db.messages id

/-- `session.get(WorkerControl, group)`. -/
def Outbox.control (db : Outbox) (group : String) : Option WorkerControl :=
  Table.find (·.workerGroup) db.controls group

/-- The flush of changes to the attributes of the row `id`. -/
def Outbox.modify (db : Outbox) (id : UUID) (f : OutboxMessage → OutboxMessage) : Outbox :=
  { db with messages := Table.update (·.id) db.messages (· = id) f }

/-- `control.paused = True` on the control row of a group, when there is one. -/
def Outbox.pause (db : Outbox) (group : String) : Outbox :=
  { db with
    controls := Table.update (·.workerGroup) db.controls (· = group)
      fun control => { control with paused := true } }

/-! ## Retry policy -/

/-- `next_delay`, in microseconds, at the value `jitter` of the random draw. The draw is
`uniform(0, ceiling)`; `none` when the source raises. -/
def nextDelay (attempt : Nat) (result : DeliveryOutcome) (settings : OutboxWorkerSettings)
    (jitter : Nat) : Option Int :=
  if attempt < 1 then none
  else
    let ceiling := min settings.retryMaxSeconds
      (settings.retryBaseSeconds * 2 ^ min (attempt - 1) 20)
    if (jitter : Int) ≤ seconds ceiling then
      some (max (max (seconds 1) jitter) (seconds result.retryAfter))
    else none

/-- `next_status`. -/
def nextStatus (result : DeliveryOutcome) (attempt maxAttempts : Nat) : OutboxStatus :=
  match result.kind with
  | .accepted => .published
  | .skipped => .skipped
  | .blocked => .blocked
  | .permanent => .dead
  | kind =>
    if maxAttempts ≤ attempt then (if kind = .uncertain then .uncertain else .dead) else .failed

/-! ## Rows of a table -/

section
variable {db : Outbox} {id id' : UUID} {row : OutboxMessage}
  {f : OutboxMessage → OutboxMessage} {group : String}

/-- The rows of a table have distinct primary keys. -/
def Outbox.Keyed (db : Outbox) : Prop := Table.Keyed (·.id) db.messages

/-- An update of one row is seen under its key, and only there. -/
theorem Outbox.message_modify (hf : ∀ row, (f row).id = row.id) :
    (db.modify id f).message id' =
      (db.message id').map fun row => if id' = id then f row else row := by
  unfold Outbox.message Outbox.modify
  rw [Table.find_update hf]
  simp

/-- The row that was updated. -/
theorem Outbox.message_modify_self (f : OutboxMessage → OutboxMessage)
    (hf : ∀ row, (f row).id = row.id) (hrow : db.message id = some row) :
    (db.modify id f).message id = some (f row) := by
  simp [Outbox.message_modify hf, hrow]

/-- Every other row is as before. -/
theorem Outbox.message_modify_ne (f : OutboxMessage → OutboxMessage)
    (hf : ∀ row, (f row).id = row.id) (hne : id' ≠ id) :
    (db.modify id f).message id' = db.message id' := by
  simp [Outbox.message_modify hf, hne]

/-- After an update of one row every row is as before, or it is the updated one. -/
theorem Outbox.message_modify_cases {r : OutboxMessage} {M : OutboxMessage → OutboxMessage → Prop}
    (f : OutboxMessage → OutboxMessage) (hf : ∀ row, (f row).id = row.id)
    (hr : db.message id = some r) (hrow : db.message id' = some row) (hm : M r (f r)) :
    ∃ row', (db.modify id f).message id' = some row' ∧ (row' = row ∨ M row row') := by
  by_cases hid : id' = id
  · subst hid
    obtain rfl : r = row := Option.some.inj (hr.symm.trans hrow)
    exact ⟨f r, Outbox.message_modify_self f hf hr, .inr hm⟩
  · exact ⟨row, (Outbox.message_modify_ne f hf hid).trans hrow, .inl rfl⟩

/-- A row of the updated table is an old row, changed if it is the one under the key. -/
theorem Outbox.mem_modify (h : row ∈ (db.modify id f).messages) :
    ∃ a ∈ db.messages, row = if a.id = id then f a else a := by
  obtain ⟨a, ha, rfl⟩ := List.mem_map.1 h
  exact ⟨a, ha, by simp⟩

/-- An update of one row keeps the keys. -/
theorem Outbox.ids_modify (db : Outbox) (f : OutboxMessage → OutboxMessage)
    (hf : ∀ row, (f row).id = row.id) :
    (db.modify id f).messages.map (·.id) = db.messages.map (·.id) := by
  show (Table.update (·.id) db.messages (· = id) f).map (·.id) = _
  exact Table.keys_update hf

@[simp] theorem Outbox.message_pause : (db.pause group).message id = db.message id := rfl

@[simp] theorem Outbox.messages_pause : (db.pause group).messages = db.messages := rfl

end

end Ekumidayomi
