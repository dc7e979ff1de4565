import Ekumidayomi.Lib.Store
import Ekumidayomi.Types

/-!
# Durable background jobs

`jobs/models.py` and `jobs/service.py`. Each operation is the effect of one transaction on the table
of jobs. `UPDATE ... WHERE` is `Jobs.update`: PostgreSQL evaluates the condition on the row it has
locked, and `rowcount > 0` is the second component. `SELECT ... FOR UPDATE SKIP LOCKED` leaves out
the rows that other transactions hold, which is the argument `locked`. The JSON objects `payload`
and `result`, which no operation looks into, are values of a type `J`.
-/

namespace Ekumidayomi

/-- `JobStatus`: the durable lifecycle of a background job. -/
inductive JobStatus
  | pending | running | succeeded | retrying | failed | cancelled
  deriving DecidableEq, Repr

/-- `Job`: a durable unit of background work and its lease state. -/
structure Job (J : Type) where
  id : UUID
  jobType : String
  payload : J
  result : Option J := none
  idempotencyKey : String
  status : JobStatus := .pending
  attempts : Nat := 0
  maxAttempts : Nat
  availableAt : Time
  startedAt : Option Time := none
  finishedAt : Option Time := none
  leaseExpiresAt : Option Time := none
  leaseOwner : Option String := none
  leaseToken : Option UUID := none
  lastErrorCode : Option String := none
  createdAt : Time
  deriving DecidableEq, Repr

/-- The table `jobs`. -/
abbrev Jobs (J : Type) := Store (Job.id : Job J → UUID)

/-- `JobStatusView`: the polling projection without payload and result. -/
structure JobStatusView where
  jobId : UUID
  jobType : String
  status : JobStatus
  attempts : Nat
  maxAttempts : Nat
  availableAt : Time
  startedAt : Option Time
  finishedAt : Option Time
  lastErrorCode : Option String
  deriving DecidableEq, Repr

/-- The errors raised before a job is changed, and the violated constraint of an insert. -/
inductive JobError
  | jobType | idempotencyKey | maxAttempts | limit | worker | lease | leaseExpiresAt | errorCode
  | jitter | duplicate
  deriving DecidableEq, Repr

/-- The text of a raised error. -/
def JobError.text : JobError → String
  | jobType => "job_type must use 1-100 safe lowercase characters"
  | idempotencyKey => "idempotency_key must use 1-255 safe characters"
  | maxAttempts => "max_attempts must be between 1 and 100"
  | limit => "limit must be between 1 and 100"
  | worker => "worker must use 1-100 safe characters"
  | lease => "lease must be greater than zero and at most 24 hours"
  | leaseExpiresAt => "lease_expires_at must be in the future"
  | errorCode => "error_code must use lowercase snake case"
  | jitter => "jitter_seconds must be between 0 and 30"
  | duplicate => "duplicate key value violates unique constraint"

/-! ## Arguments -/

/-- The pattern `[A-Za-z0-9][A-Za-z0-9._:-]{0,rest}`, matched in full. -/
def isKey (rest : Nat) (s : String) : Bool :=
  let alnum (c : Char) : Bool := isLower c || ('A' ≤ c && c ≤ 'Z') || isDigit c
  match s.toList with
  | [] => false
  | first :: tail =>
    alnum first && tail.length ≤ rest &&
      tail.all fun c => alnum c || ['.', '_', ':', '-'].contains c

/-- `_validate_job_type`: the pattern `[a-z][a-z0-9]*(?:[._:-][a-z0-9]+)*` and at most a hundred
characters. -/
def validJobType (s : String) : Bool :=
  s.length ≤ 100 &&
    match s.toList.splitOnP (['.', '_', ':', '-'].contains ·) with
    | [] => false
    | first :: rest =>
      (first.head?.any isLower) && ((first :: rest).all fun part =>
        !part.isEmpty && part.all fun c => isLower c || isDigit c)

/-- `_validate_idempotency_key`. -/
def validIdempotencyKey (s : String) : Bool := isKey 254 s

/-- `_validate_worker`. -/
def validWorker (s : String) : Bool := isKey 99 s

/-- `_validate_max_attempts`. -/
def validMaxAttempts (n : Nat) : Bool := 1 ≤ n && n ≤ 100

/-- `_validate_limit`. -/
def validLimit (n : Nat) : Bool := 1 ≤ n && n ≤ 100

/-- `_validate_lease`: positive and at most `_MAX_LEASE`. -/
def validLease (lease : Int) : Bool := 0 < lease && lease ≤ seconds (24 * 3600)

/-- `_validate_error_code`. -/
def validErrorCode (s : String) : Bool := s.length ≤ 100 && isSnakeCase s

/-- `_validate_jitter`, in microseconds. -/
def validJitter (jitter : Int) : Bool := 0 ≤ jitter && jitter ≤ seconds 30

/-! ## Rows -/

variable {J : Type}

/-- `UPDATE jobs SET ... WHERE id = ... AND p`, with `rowcount > 0`. -/
def Jobs.update (db : Jobs J) (id : UUID) (p : Job J → Bool) (f : Job J → Job J)
    (hf : ∀ job, (f job).id = job.id := by intro; rfl) : Jobs J × Bool :=
  if (db.get id).any p then (db.modify id f hf, true) else (db, false)

namespace Job

/-- The condition of `claim`. -/
def claimable (claimedAt : Time) (job : Job J) : Bool :=
  (job.status = .pending || job.status = .retrying) && decide (job.availableAt ≤ claimedAt) &&
    decide (job.attempts < job.maxAttempts)

/-- The order `available_at, created_at, id`. -/
def claimOrder (a b : Job J) : Bool :=
  decide (a.availableAt < b.availableAt) || (a.availableAt = b.availableAt &&
    (decide (a.createdAt < b.createdAt) || (a.createdAt = b.createdAt && decide (a.id ≤ b.id))))

/-- The attributes `claim` sets. -/
def start (job : Job J) (worker : String) (token : UUID) (lease : Int) (claimedAt : Time) : Job J :=
  { job with status := .running, attempts := job.attempts + 1, startedAt := some claimedAt,
             finishedAt := none, leaseOwner := some worker, leaseToken := some token,
             leaseExpiresAt := some (claimedAt + lease), lastErrorCode := none }

/-- The job is running under a lease with this token that has not expired. -/
def heldBy (token : UUID) (now : Time) (job : Job J) : Bool :=
  job.status = .running && job.leaseToken = some token && after job.leaseExpiresAt now

/-- The values `complete` sets. -/
def complete (job : Job J) (result : Option J) (completedAt : Time) : Job J :=
  { job with status := .succeeded, result, finishedAt := some completedAt, leaseOwner := none,
             leaseToken := none, leaseExpiresAt := none, lastErrorCode := none }

/-- `_clear_lease`. -/
def clearLease (job : Job J) : Job J :=
  { job with leaseOwner := none, leaseToken := none, leaseExpiresAt := none }

/-- `job.attempts >= job.max_attempts`. -/
def exhausted (job : Job J) : Bool := decide (job.maxAttempts ≤ job.attempts)

/-- The attributes `retry` sets. -/
def retry (job : Job J) (errorCode : String) (jitter : Int) (failedAt : Time) : Job J :=
  clearLease
    (if job.exhausted then
      { job with status := .failed, finishedAt := some failedAt, lastErrorCode := some errorCode }
    else
      { job with status := .retrying,
                 availableAt := failedAt + (seconds (min (2 ^ job.attempts) 300) + jitter),
                 finishedAt := none, lastErrorCode := some errorCode })

/-- The condition of `cancel`. -/
def cancellable (job : Job J) : Bool := job.status = .pending || job.status = .retrying

/-- The condition of `recover_expired`. -/
def expired (recoveredAt : Time) (job : Job J) : Bool :=
  job.status = .running && atMost job.leaseExpiresAt recoveredAt

/-- The order `lease_expires_at, id`; a null lease is never selected. -/
def leaseOrder (a b : Job J) : Bool :=
  decide (a.leaseExpiresAt.getD 0 < b.leaseExpiresAt.getD 0) ||
    (a.leaseExpiresAt.getD 0 = b.leaseExpiresAt.getD 0 && decide (a.id ≤ b.id))

/-- The attributes `recover_expired` sets. -/
def recover (job : Job J) (recoveredAt : Time) : Job J :=
  clearLease
    { job with status := if job.exhausted then .failed else .retrying, availableAt := recoveredAt,
               finishedAt := if job.exhausted then some recoveredAt else none,
               lastErrorCode := some "lease_expired" }

@[simp] theorem retry_id (job : Job J) (errorCode : String) (jitter : Int) (failedAt : Time) :
    (job.retry errorCode jitter failedAt).id = job.id := by
  unfold retry clearLease
  split <;> rfl

end Job

/-! ## Operations -/

namespace JobService

/-- `enqueue`, with the flush of the new row in the caller's transaction. -/
def enqueue (db : Jobs J) (jobType : String) (payload : J) (idempotencyKey : String)
    (maxAttempts : Nat) (availableAt : Time) (id : UUID) (createdAt : Time) :
    Except JobError (Jobs J) :=
  if !validJobType jobType then .error .jobType
  else if !validIdempotencyKey idempotencyKey then .error .idempotencyKey
  else if !validMaxAttempts maxAttempts then .error .maxAttempts
  else if db.rows.any fun job => job.id = id || job.idempotencyKey = idempotencyKey then
    .error .duplicate
  else .ok (db.insert { id, jobType, payload, idempotencyKey, maxAttempts, availableAt, createdAt })

/-- The rows `claim` selects. -/
def claimed (db : Jobs J) (limit : Nat) (claimedAt : Time) (locked : UUID → Bool) : List (Job J) :=
  db.select (fun job => job.claimable claimedAt && !locked job.id) Job.claimOrder limit

/-- `claim`, where `token id` is the value of `uuid4()` drawn for the job `id`. -/
def claim (db : Jobs J) (worker : String) (lease : Int) (limit : Nat) (now : Time)
    (locked : UUID → Bool) (token : UUID → UUID) : Except JobError (Jobs J × List (Job J)) :=
  if !validWorker worker then .error .worker
  else if !validLease lease then .error .lease
  else if !validLimit limit then .error .limit
  else
    let jobs := claimed db limit now locked
    let start (job : Job J) := job.start worker (token job.id) lease now
    .ok (db.modifyAll jobs start fun _ => rfl, jobs.map start)

/-- `heartbeat`. -/
def heartbeat (db : Jobs J) (id token : UUID) (leaseExpiresAt now : Time) :
    Except JobError (Jobs J × Bool) :=
  if leaseExpiresAt ≤ now then .error .leaseExpiresAt
  else .ok (db.update id (·.heldBy token now) fun job =>
    { job with leaseExpiresAt := some leaseExpiresAt })

/-- `complete`. -/
def complete (db : Jobs J) (id token : UUID) (result : Option J) (now : Time) : Jobs J × Bool :=
  db.update id (·.heldBy token now) (·.complete result now)

/-- `retry`: the row is read under its lock and refused unless the lease is held. -/
def retry (db : Jobs J) (id token : UUID) (errorCode : String) (jitter : Int) (now : Time) :
    Except JobError (Jobs J × Bool) :=
  if !validErrorCode errorCode then .error .errorCode
  else if !validJitter jitter then .error .jitter
  else .ok (db.update id (·.heldBy token now) (·.retry errorCode jitter now) (by simp))

/-- `cancel`. -/
def cancel (db : Jobs J) (id : UUID) (now : Time) : Jobs J × Bool :=
  db.update id (·.cancellable) fun job =>
    { job with status := .cancelled, finishedAt := some now }

/-- The rows `recover_expired` selects. -/
def recovered (db : Jobs J) (now : Time) (limit : Nat) (locked : UUID → Bool) : List (Job J) :=
  db.select (fun job => job.expired now && !locked job.id) Job.leaseOrder limit

/-- `recover_expired`, returning the number of recovered jobs. -/
def recoverExpired (db : Jobs J) (now : Time) (limit : Nat) (locked : UUID → Bool) :
    Except JobError (Jobs J × Nat) :=
  if !validLimit limit then .error .limit
  else
    let jobs := recovered db now limit locked
    .ok (db.modifyAll jobs (·.recover now) fun _ => rfl, jobs.length)

/-- `get_status`. -/
def getStatus (db : Jobs J) (id : UUID) : Option JobStatusView :=
  (db.get id).map fun job =>
    { jobId := job.id, jobType := job.jobType, status := job.status, attempts := job.attempts,
      maxAttempts := job.maxAttempts, availableAt := job.availableAt, startedAt := job.startedAt,
      finishedAt := job.finishedAt, lastErrorCode := job.lastErrorCode }

end JobService

end Ekumidayomi
