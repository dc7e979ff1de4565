import Ekumidayomi.Lib.Rules
import Ekumidayomi.Outbox.System

/-!
# The outbox transactions, statement by statement

`outbox/leased_repository.py`, `outbox/repository.py`, `outbox/operations.py` and
`outbox/internal_worker.py` as programs that take their locks one at a time, so that other
transactions may commit between any two statements. The transactions of one worker group and those
of any number of ordinary and internal workers run against the same tables. The session runs without
autoflush, and a changed attribute is written where it is set: the row is locked by then.

A query with `SKIP LOCKED` reads its candidates in one instant and locks them one after another; a
row that changed meanwhile is checked again in its new version. Which candidates others hold at that
moment is an argument of the call. An internal handler is whatever it reads, writes and stages
before it returns or raises (`Handling`); it has no way to commit.
-/

namespace Ekumidayomi.Workers

open Transact

/-! ## The tables -/

/-- The outbox, and the writes of internal handlers to the other tables, each with the message that
was handled, the last one first. -/
structure Tables (W : Type) where
  outbox : Outbox := {}
  applied : List (UUID × W) := []

/-- A write to one row. -/
inductive Op (W : Type)
  | insertMessage (row : OutboxMessage)
  | setMessage (row : OutboxMessage)
  | insertControl (control : WorkerControl)
  | setControl (control : WorkerControl)
  | handle (id : UUID) (write : W)

inductive Key
  | message (id : UUID)
  | control (group : String)
  deriving DecidableEq

/-- A `claim` has returned a claim. -/
inductive Note
  | claimed (claim : Claim)

section
variable {W : Type}

def Op.apply : Op W → Tables W → Tables W
  | .insertMessage row, db =>
    { db with outbox := { db.outbox with messages := db.outbox.messages ++ [row] } }
  | .setMessage row, db => { db with outbox := db.outbox.modify row.id fun _ => row }
  | .insertControl control, db =>
    { db with outbox := { db.outbox with controls := db.outbox.controls ++ [control] } }
  | .setControl control, db =>
    { db with
      outbox := { db.outbox with
        controls := Table.update (·.workerGroup) db.outbox.controls (· = control.workerGroup)
          fun _ => control } }
  | .handle id write, db => { db with applied := (id, write) :: db.applied }

/-- The row that a write changes or adds. -/
def Op.needs : Op W → List Key
  | .insertMessage row | .setMessage row => [.message row.id]
  | .insertControl control | .setControl control => [.control control.workerGroup]
  | .handle _ _ => []

def Op.makes : Op W → List UUID
  | .insertMessage row => [row.id]
  | _ => []

/-- The rows have keys of their own, and whoever holds a claim got it from a transaction that saw
the group's control row. -/
structure Valid (group : String) (db : Tables W) : Prop where
  keyed : db.outbox.Keyed
  controlled : ∀ row ∈ db.outbox.messages, row.claimToken.isSome →
    (db.outbox.control group).isSome

def Uses (db : Tables W) (id : UUID) : Prop := ∃ row ∈ db.outbox.messages, row.id = id

theorem uses_apply {op : Op W} {db : Tables W} {id : UUID} (h : Uses (op.apply db) id) :
    Uses db id ∨ id ∈ op.makes := by
  obtain ⟨row, hrow, rfl⟩ := h
  cases op with
  | insertMessage new =>
    rcases List.mem_append.1 hrow with hrow | hrow
    · exact .inl ⟨row, hrow, rfl⟩
    · rw [List.mem_singleton.1 hrow]
      exact .inr List.mem_cons_self
  | setMessage new =>
    obtain ⟨old, hold, rfl⟩ := Outbox.mem_modify hrow
    by_cases hid : old.id = new.id
    · exact .inl ⟨old, hold, by simp [hid]⟩
    · exact .inl ⟨old, hold, by simp [hid]⟩
  | insertControl | setControl | handle => exact .inl ⟨row, hrow, rfl⟩

end

/-- The tables as a schema, for one worker group. -/
abbrev schema (W : Type) (group : String) : Schema where
  Db := Tables W
  Op := Op W
  Key := Key
  Id := UUID
  Note := Note
  apply := Op.apply
  needs := Op.needs
  makes := Op.makes
  uses := Uses
  valid := Valid group
  uses_apply := uses_apply

inductive Error
  | outbox (e : OutboxError)
  | controlMissing | notApplied | delay
  deriving DecidableEq, Repr

/-- The text of a raised error; the random source raises its own. -/
def Error.text : Error → String
  | outbox e => e.text
  | controlMissing => "worker control missing"
  | notApplied => "ordinary outbox transition was not applied"
  | delay => "attempt starts at one"

abbrev Tx (W : Type) (group : String) := Prog (schema W group) Error

/-! ## Statements -/

section
variable {W : Type} {group : String}

def write (op : Op W) : Tx W group Unit := Prog.put (S := schema W group) op

def lock (k : Key) : Tx W group Unit := Prog.acquire (S := schema W group) k

def query {α : Type} (f : Tables W → α) : Tx W group α := Prog.query (S := schema W group) f

def clockTimestamp : Tx W group Time := Prog.clock

def uuid4 : Tx W group UUID := Prog.draw (S := schema W group)

/-- `session.get(OutboxMessage, id, with_for_update=True)`. -/
def getMessage (id : UUID) : Tx W group (Option OutboxMessage) :=
  Prog.forUpdate (S := schema W group) (.message id) fun db => db.outbox.message id

/-- `session.get(WorkerControl, group, with_for_update=True)`. -/
def getControl : Tx W group (Option WorkerControl) :=
  Prog.forUpdate (S := schema W group) (.control group) fun db => db.outbox.control group

/-- Candidates are locked one by one and looked at again, until enough of them are found. -/
def lockRows (p : OutboxMessage → Bool) : Nat → List OutboxMessage → Tx W group (List OutboxMessage)
  | 0, _ => return []
  | _, [] => return []
  | n + 1, row :: rest => do
    lock (.message row.id)
    match ← query (·.outbox.message row.id) with
    | none => lockRows p (n + 1) rest
    | some current =>
      if p current then
        return current :: (← lockRows p n rest)
      else lockRows p (n + 1) rest

/-- `select(...).where(p).order_by(le).limit(limit).with_for_update(skip_locked=True)`. -/
def selectLocked (p : List OutboxMessage → OutboxMessage → Bool)
    (le : OutboxMessage → OutboxMessage → Bool) (limit : Nat) (locked : UUID → Bool) :
    Tx W group (List OutboxMessage) := do
  let messages ← query (·.outbox.messages)
  lockRows (p messages) limit
    ((messages.filter fun row => p messages row && !locked row.id).insertionSort (le · · = true))

/-- The flush of new values of rows. -/
def setMessages : List OutboxMessage → Tx W group Unit
  | [] => return ()
  | row :: rest => do
    write (.setMessage row)
    setMessages rest

/-! ## Leased claims -/

/-- `insert(WorkerControl)...on_conflict_do_nothing()`. -/
def insertControl (now : Time) : Tx W group Unit := do
  match ← query (·.outbox.control group) with
  | some _ => return ()
  | none =>
    -- the insert waits for a transaction that is inserting the same key
    lock (.control group)
    match ← query (·.outbox.control group) with
    | some _ => return ()
    | none => write (.insertControl { workerGroup := group, heartbeatAt := now })

/-- The part of `claim` after the control row was found not to be paused. -/
def claimUnpaused (eventTypes : List String) (settings : OutboxWorkerSettings)
    (sweepLocked rowLocked : UUID → Bool) (now : Time) : Tx W group (Option Claim) := do
  let expired ← selectLocked (fun _ => sweepable eventTypes now)
    (fun a b => decide (a.id ≤ b.id)) 100
    sweepLocked
  setMessages (expired.map (·.sweep))
  match ← selectLocked (fun messages => claimable messages eventTypes now) claimOrder 1 rowLocked with
  | [] => return none
  | row :: _ =>
    let deadline := claimDeadline row now settings
    if deadline ≤ now then
      write (.setMessage (row.tooOld deadline))
      return none
    let token ← uuid4
    let leased := row.lease now settings token
    write (.setMessage leased)
    let claim := leased.toClaim deadline token
    Prog.mark (S := schema W group) (.claimed claim)
    return some claim

/-- `LeasedOutboxRepository.claim`. -/
def claim (eventTypes : List String) (settings : OutboxWorkerSettings)
    (sweepLocked rowLocked : UUID → Bool) : Tx W group (Option Claim) := do
  if eventTypes.isEmpty || eventTypes.any (!isSafeName ·) then
    throw (.outbox .unsafeEventTypes)
  let now ← clockTimestamp
  insertControl now
  match ← getControl with
  | none => throw .controlMissing
  | some control =>
    write (.setControl { control with heartbeatAt := now })
    if control.paused then return none
    claimUnpaused eventTypes settings sweepLocked rowLocked now

/-- `LeasedOutboxRepository.owned`. -/
def owned (c : Claim) : Tx W group (Option OutboxMessage) := do
  let now ← clockTimestamp
  match ← query (·.outbox.messages.find? (owns c now)) with
  | none => return none
  | some row =>
    lock (.message row.id)
    let now ← clockTimestamp
    match ← query (·.outbox.message row.id) with
    | none => return none
    | some current => return if owns c now current then some current else none

/-- `control = session.get(WorkerControl, group)` and `control.paused = True`. The session knows the
row when it was locked before; a row that was not there then is read now, and the update locks
it. -/
def pause : Option WorkerControl → Tx W group Unit
  | some control => write (.setControl { control with paused := true })
  | none => do
    match ← getControl with
    | none => return ()
    | some control => write (.setControl { control with paused := true })

/-- `LeasedOutboxRepository.bind`. -/
def bind (c : Claim) (fingerprint : String) (expiresAt : Time) : Tx W group Bool := do
  if !isHex64 fingerprint then throw (.outbox .fingerprint)
  let control ← getControl
  match ← owned c with
  | none => return false
  | some row =>
    let now ← clockTimestamp
    if row.deliveryFingerprint.any (· ≠ fingerprint) then
      write (.setMessage row.contentChanged)
      pause control
      return false
    let deadline := min c.deadline expiresAt
    if deadline ≤ now then
      write (.setMessage (row.bindExpired deadline))
      return false
    write (.setMessage (row.bound deadline fingerprint))
    return true

/-- `LeasedOutboxRepository.finish`. -/
def finish (c : Claim) (result : DeliveryOutcome) (delay : Int) : Tx W group Bool := do
  let control ← getControl
  match ← owned c with
  | none => return false
  | some row =>
    let now ← clockTimestamp
    write (.setMessage (row.finished c result delay now))
    if finishStatus row c result (now + delay) = .blocked then
      pause control
      return true
    else return true

/-! ## Recovery operations -/

/-- `operations.replay`. -/
def replay {P : Type} (id : UUID) (handlers : List String)
    (prepare : DomainEvent → Preparation P) : Tx W group Unit := do
  let found ← getMessage id
  let now ← clockTimestamp
  match found with
  | none => throw (.outbox .notEligible)
  | some row =>
    -- the checks of the pure model, on the row as it is under its lock
    match Ekumidayomi.replay { messages := [row] } id handlers prepare now with
    | .error e => throw (.outbox e)
    | .ok _ => write (.setMessage (row.replayed now))

/-- `operations.resume`. -/
def resume : Tx W group Unit := do
  match ← getControl with
  | none => throw (.outbox .notPaused)
  | some control =>
    if control.paused then write (.setControl { control with paused := false })
    else throw (.outbox .notPaused)

/-! ## Ordinary claims -/

/-- The row that `add` stages. -/
def staged (event : DomainEvent) (key : String) (availableAt : Option Time) (id : UUID) :
    OutboxMessage :=
  { id, eventId := event.eventId, idempotencyKey := key, eventType := event.eventType,
    aggregateType := event.aggregateType, aggregateId := event.aggregateId,
    aggregateVersion := event.aggregateVersion, occurredAt := event.occurredAt,
    payload := event.payloadDict, availableAt := availableAt.getD event.occurredAt }

/-- The row of `OutboxRepository.add` on the outbox as it is seen, or its error. -/
def stage (outbox : Outbox) (event : DomainEvent) (idempotencyKey : Option String)
    (availableAt : Option Time) (id : UUID) : Except OutboxError OutboxMessage := do
  let _ ← OutboxRepository.add outbox event idempotencyKey availableAt id
  return staged event (idempotencyKey.getD ("event:" ++ uuidStr event.eventId)) availableAt id

/-- `OutboxRepository.add`. Two transactions that stage one key at once are both let through here,
where the database refuses the second. -/
def add (event : DomainEvent) (idempotencyKey : Option String) (availableAt : Option Time) :
    Tx W group Unit := do
  let id ← uuid4
  match ← query fun db => stage db.outbox event idempotencyKey availableAt id with
  | .error e => throw (.outbox e)
  | .ok row =>
    lock (.message row.id)
    write (.insertMessage row)

/-- `OutboxRepository.claim_batch`. -/
def claimBatch (maxAttempts limit : Nat) (claimedAt : Time) (eventTypes : Option (List String))
    (locked : UUID → Bool) : Tx W group (List OutboxMessage) := do
  if limit < 1 || limit > 100 then throw (.outbox .limit)
  if eventTypes.any fun types => types.isEmpty || types.any fun t => t.length > 100 || !isSnakeCase t
  then throw (.outbox .eventTypes)
  let rows ← selectLocked
    (fun messages => batchClaimable messages maxAttempts claimedAt eventTypes) batchOrder limit locked
  let claimed := rows.map (·.batchClaim claimedAt)
  setMessages claimed
  return claimed

/-- `OutboxRepository.mark_published`. -/
def markPublished (id : UUID) (publishedAt : Time) : Tx W group Bool := do
  match ← getMessage id with
  | none => return false
  | some row =>
    if row.status = .published then return false
    if row.claimToken.isSome then return false
    if row.status ≠ .processing then return false
    write (.setMessage (row.publish publishedAt))
    return true

/-- `OutboxRepository.mark_failed`. -/
def markFailed (id : UUID) (errorCode : String) (availableAt : Time) : Tx W group Bool := do
  if errorCode.length > 100 || !isSnakeCase errorCode then throw (.outbox .errorCode)
  match ← getMessage id with
  | none => return false
  | some row =>
    if row.status ≠ .processing then return false
    write (.setMessage (row.fail errorCode availableAt))
    return true

/-- `OutboxRepository.recover_stale_claims`. -/
def recoverStaleClaims (staleBefore availableAt : Time) (limit : Nat) (locked : UUID → Bool) :
    Tx W group Nat := do
  if limit < 1 || limit > 100 then throw (.outbox .limit)
  let rows ← selectLocked (fun _ => staleClaim staleBefore) staleOrder limit locked
  setMessages (rows.map (·.release availableAt))
  return rows.length

/-! ## Internal workers -/

end

/-- What a handler does inside the savepoint: it reads, writes and stages events, and returns or
raises. -/
inductive Handling (W : Type)
  | done
  | raise
  | read (next : Tables W → Handling W)
  | write (w : W) (next : Handling W)
  | stage (event : DomainEvent) (idempotencyKey : Option String) (availableAt : Option Time)
      (next : Handling W)

/-- `InternalOutboxWorker`, with the checks of its constructor. -/
structure InternalOutboxWorker (W : Type) where
  handlers : List (String × (DomainEvent → Handling W))
  settings : OutboxWorkerSettings
  registered : handlers ≠ []
  safe : ∀ h ∈ handlers, isSnakeCase h.1 = true

/-- `DeliveryOutcome(OutcomeKind.RETRY, "internal_handler_failed")`. -/
def handlerFailed : DeliveryOutcome := { kind := .retry, code := "internal_handler_failed" }

/-- What one call of `process_one` reads besides the tables: the clock of its host where it claims
and where it records the outcome, the random draw of the delay, and the rows that others hold. -/
structure ProcessReads where
  claimedAt : Time
  now : Time
  jitter : Nat
  locked : UUID → Bool

section
variable {W : Type} {group : String}

/-- `self._handlers[row.event_type].handle(uow, row.to_event())`: a row whose event is not valid
makes the worker raise at the same place. -/
def InternalOutboxWorker.handling (worker : InternalOutboxWorker W) (row : OutboxMessage) :
    Handling W :=
  match worker.handlers.find? (·.1 = row.eventType), row.toEvent with
  | some handler, .ok event => handler.2 event
  | _, _ => .raise

/-- `async with uow.session.begin_nested()`: what the handler has written so far is kept aside, the
last write first; it is the transaction's when the handler returns, and is lost when it raises. -/
def savepoint (id : UUID) : Handling W → List (Op W) → Tx W group Bool
  | .done, ops => do
    Prog.putAll (S := schema W group) ops.reverse
    return true
  | .raise, _ => return false
  | .read next, ops => .read fun db => savepoint id (next ((schema W group).applyAll ops db)) ops
  | .write w next, ops => savepoint id next (.handle id w :: ops)
  | .stage event key availableAt next, ops => .fresh fun rowId => .read fun db =>
    match stage (Tables.outbox ((schema W group).applyAll ops db)) event key availableAt rowId with
    | .error _ => return false
    | .ok row => .lock (.message row.id) (savepoint id next (.insertMessage row :: ops))

/-- `InternalOutboxWorker.process_one`. -/
def processOne (worker : InternalOutboxWorker W) (reads : ProcessReads) : Tx W group Bool := do
  let messages ← claimBatch worker.settings.maxAttempts 1 reads.claimedAt
    (some (worker.handlers.map (·.1))) reads.locked
  match messages with
  | [] => return false
  | row :: _ =>
    let returned ← savepoint row.id (worker.handling row) []
    let changed ←
      if returned then markPublished row.id reads.now
      else
        match nextDelay row.attempts handlerFailed worker.settings reads.jitter with
        | none => throw .delay
        | some delay => markFailed row.id handlerFailed.code (reads.now + delay)
    if !changed then throw .notApplied
    Prog.save (S := schema W group)
    return true

end

/-! ## The system -/

/-- A call, with what reaches it from outside. -/
inductive Call (W P : Type)
  | add (event : DomainEvent) (idempotencyKey : Option String) (availableAt : Option Time)
  | claim (eventTypes : List String) (settings : OutboxWorkerSettings)
      (sweepLocked rowLocked : UUID → Bool)
  | bind (claim : Claim) (fingerprint : String) (expiresAt : Time)
  | finish (claim : Claim) (result : DeliveryOutcome) (delay : Int)
  | replay (id : UUID) (handlers : List String) (prepare : DomainEvent → Preparation P)
  | resume
  | claimBatch (maxAttempts limit : Nat) (claimedAt : Time) (eventTypes : Option (List String))
      (locked : UUID → Bool)
  | markPublished (id : UUID) (publishedAt : Time)
  | markFailed (id : UUID) (errorCode : String) (availableAt : Time)
  | recoverStaleClaims (staleBefore availableAt : Time) (limit : Nat) (locked : UUID → Bool)
  | processOne (worker : InternalOutboxWorker W) (reads : ProcessReads)

/-- What a call returns. -/
inductive Answer
  | done
  | flag (b : Bool)
  | claim (c : Option Claim)
  | rows (rows : List OutboxMessage)
  | count (n : Nat)

section
variable {W P : Type} {group : String}

/-- The statements of a call, and the commit of its unit of work. -/
def committing {α : Type} (body : Tx W group α) (answer : α → Answer) : Tx W group Answer := do
  let a ← body
  Prog.save (S := schema W group)
  return answer a

/-- The program of a call. An internal worker commits by itself. -/
def code (group : String) : Call W P → Tx W group Answer
  | .add event key availableAt => committing (add event key availableAt) fun _ => .done
  | .claim eventTypes settings sweepLocked rowLocked =>
    committing (claim eventTypes settings sweepLocked rowLocked) .claim
  | .bind c fingerprint expiresAt => committing (bind c fingerprint expiresAt) .flag
  | .finish c result delay => committing (finish c result delay) .flag
  | .replay id handlers prepare => committing (replay id handlers prepare) fun _ => .done
  | .resume => committing resume fun _ => .done
  | .claimBatch maxAttempts limit claimedAt eventTypes locked =>
    committing (claimBatch maxAttempts limit claimedAt eventTypes locked) .rows
  | .markPublished id publishedAt => committing (markPublished id publishedAt) .flag
  | .markFailed id errorCode availableAt => committing (markFailed id errorCode availableAt) .flag
  | .recoverStaleClaims staleBefore availableAt limit locked =>
    committing (recoverStaleClaims staleBefore availableAt limit locked) .count
  | .processOne worker reads => do
    let b ← processOne worker reads
    return .flag b

end

/-- Any number of calls that run against the tables. -/
abbrev Sys (W P : Type) (group : String) := Transact.Sys (schema W group) (Call W P) Error Answer

abbrev Act (W P : Type) (group : String) := Transact.Act (schema W group) (Call W P)

abbrev Step {W P : Type} {group : String} (s : Sys W P group) (a : Act W P group)
    (s' : Sys W P group) : Prop :=
  Transact.Step (code group) s a s'

abbrev Run {W P : Type} {group : String} (s : Sys W P group) (tr : List (Act W P group))
    (s' : Sys W P group) : Prop :=
  Lts.Run Step s tr s'

/-- The `i`th thread commits in the run, from `m` to `m'`. -/
abbrev CommitsIn {W P : Type} {group : String} (s : Sys W P group) (tr : List (Act W P group))
    (s' m : Sys W P group) (i : Nat) (m' : Sys W P group) : Prop :=
  Lts.Takes Step s tr s' m (.commit i) m'

/-- A system before its first call. -/
structure Initial {W P : Type} {group : String} (s : Sys W P group) : Prop where
  threads : s.threads = []
  valid : Valid group s.db
  drawn : ∀ id, Uses s.db id → id ∈ s.drawn

end Ekumidayomi.Workers
