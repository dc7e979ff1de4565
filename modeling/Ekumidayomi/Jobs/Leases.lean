import Ekumidayomi.Jobs.System

/-!
# How long a job can be leased

`claim` checks its lease with `_validate_lease`; `heartbeat` writes the expiry it is given, when it
lies in the future. So leases stay bounded and grow in the runs whose successful heartbeats ask for
an expiry between the current one and a day from now (`leases_bounded`), which no other step keeps
(`JobTxn.Step.extends_iff`), and the code enforces neither bound (`heartbeat_unbounded`).
-/

namespace Ekumidayomi

variable {J : Type}

/-- `_MAX_LEASE`. -/
def maxLease : Int := seconds (24 * 3600)

namespace JobTxn

/-- The `now` of a successful claim or heartbeat of the job `id`. -/
def leasedAt (id : UUID) : JobTxn J → Option Time
  | .claim _ _ _ now _ _ jobs => if jobs.any (·.id = id) then some now else none
  | .heartbeat mid _ _ now extended => if extended && mid = id then some now else none
  | _ => none

/-- The `now` of the last one in a run. -/
def lastLeasedAt (id : UUID) (tr : List (JobTxn J)) : Option Time :=
  tr.foldl (fun last l => (l.leasedAt id).or last) none

/-- A heartbeat of a lease that is held asks for an expiry that is not earlier than the current one,
and at most a day ahead. -/
def Extends (db : Jobs J) : JobTxn J → Prop
  | .heartbeat id token leaseExpiresAt now _ => ∀ job expiry, db.get id = some job →
      job.heldBy token now = true → job.leaseExpiresAt = some expiry →
        expiry ≤ leaseExpiresAt ∧ leaseExpiresAt ≤ now + maxLease
  | _ => True

/-- A step whose heartbeat extends the lease. -/
def ExtendingStep (db : Jobs J) (l : JobTxn J) (db' : Jobs J) : Prop := Step db l db' ∧ Extends db l

end JobTxn

open JobTxn

/-- A successful heartbeat does not move the expiry back. -/
def Grows (db : Jobs J) (l : JobTxn J) (db' : Jobs J) : Prop :=
  ∀ id token leaseExpiresAt now, l = .heartbeat id token leaseExpiresAt now true →
    ∀ job job' expiry, db.get id = some job → db'.get id = some job' →
      job.leaseExpiresAt = some expiry →
        ∃ expiry', job'.leaseExpiresAt = some expiry' ∧ expiry ≤ expiry'

/-- A running job's lease ends within a day of the last successful claim or heartbeat of it. -/
def LeasesBounded (tr : List (JobTxn J)) (db : Jobs J) : Prop :=
  ∀ id job, db.get id = some job → job.status = .running →
    ∃ last expiry, lastLeasedAt id tr = some last ∧ job.leaseExpiresAt = some expiry ∧
      expiry ≤ last + maxLease

section
variable {db db' : Jobs J} {l : JobTxn J} {tr : List (JobTxn J)} {id : UUID} {job job' : Job J}

@[simp] theorem lastLeasedAt_snoc :
    lastLeasedAt id (tr ++ [l]) = (l.leasedAt id).or (lastLeasedAt id tr) := by
  simp [lastLeasedAt]

theorem claim_validLease {worker : String} {lease : Int} {limit : Nat} {now : Time}
    {locked : UUID → Bool} {token : UUID → UUID} {jobs : List (Job J)}
    (h : JobService.claim db worker lease limit now locked token = .ok (db', jobs)) :
    lease ≤ maxLease := by
  unfold JobService.claim at h
  split at h
  · cases h
  split at h
  · cases h
  next hlease =>
    simp only [validLease, Bool.not_eq_true', Bool.not_eq_false, Bool.and_eq_true,
      decide_eq_true_eq] at hlease
    exact hlease.2

/-- A job that a step leaves running and does not lease anew is as before. -/
theorem JobMove.running (h : JobMove l job job') (hrunning : job'.status = .running) :
    (∃ worker lease limit now locked token jobs,
      l = .claim worker lease limit now locked token jobs ∧
        job'.leaseExpiresAt = some (now + lease)) ∨
    ∃ token leaseExpiresAt now, l = .heartbeat job.id token leaseExpiresAt now true ∧
      job.heldBy token now = true ∧ job'.leaseExpiresAt = some leaseExpiresAt := by
  cases h with
  | claimed => exact .inl ⟨_, _, _, _, _, _, _, rfl, rfl⟩
  | extended hheld => exact .inr ⟨_, _, _, rfl, hheld, rfl⟩
  | completed => cases hrunning
  | retried =>
    unfold Job.retry Job.clearLease at hrunning
    split at hrunning <;> cases hrunning
  | cancelled => cases hrunning
  | recovered =>
    unfold Job.recover Job.clearLease at hrunning
    by_cases hex : job.exhausted = true <;> simp [hex] at hrunning

/-- The records of a step: a move that leases reports its time, and no other step does. -/
theorem leasedAt_of_not_moves (h : l.moves id = false) : l.leasedAt id = none := by
  cases l with
  | claim _ _ _ _ _ _ jobs => exact if_neg (Bool.eq_false_iff.1 h)
  | heartbeat mid _ _ _ extended => exact if_neg (Bool.eq_false_iff.1 h)
  | enqueue | complete | retry | cancel | recoverExpired => rfl

/-- A held lease has an expiry. -/
theorem Job.heldBy_expiry {token : UUID} {now : Time} (h : job.heldBy token now = true) :
    ∃ expiry, job.leaseExpiresAt = some expiry := by
  obtain ⟨-, -, hafter⟩ := Job.heldBy_iff.1 h
  cases hexpiry : job.leaseExpiresAt with
  | none =>
    rw [hexpiry] at hafter
    cases hafter
  | some expiry => exact ⟨expiry, rfl⟩

/-- One step keeps the bound. -/
theorem JobTxn.ExtendingStep.bounded (hstep : ExtendingStep db l db') (hold : LeasesBounded tr db) :
    LeasesBounded (tr ++ [l]) db' := by
  intro id job' hjob' hrunning
  obtain ⟨hstep, hextends⟩ := hstep
  rw [lastLeasedAt_snoc]
  cases hjob : db.get id with
  | none =>
    obtain ⟨_, _, _, _, _, _, -, rfl⟩ := (hstep.get_none hjob).2 job' hjob'
    cases hrunning
  | some job =>
    obtain ⟨found, hfound, hcase⟩ := hstep.get hjob
    obtain rfl : found = job' := Option.some.inj (hfound.symm.trans hjob')
    rcases hcase with ⟨hmoves, rfl⟩ | ⟨hmoves, hmove⟩
    · rw [leasedAt_of_not_moves hmoves, Option.none_or]
      exact hold id _ hjob hrunning
    · rcases hmove.running hrunning with
        ⟨worker, lease, limit, now, locked, token, jobs, rfl, hexpiry⟩ |
        ⟨token, leaseExpiresAt, now, rfl, hheld, hexpiry⟩
      · refine ⟨now, now + lease, ?_, hexpiry, ?_⟩
        · have hleased : (JobTxn.claim worker lease limit now locked token jobs).leasedAt id =
              some now := if_pos hmoves
          rw [hleased]
          rfl
        · cases hstep with
          | claim h => exact Int.add_le_add_left (claim_validLease h) now
      · have hid : job.id = id := Store.key_of_get hjob
        obtain ⟨expiry, hcurrent⟩ := Job.heldBy_expiry hheld
        refine ⟨now, leaseExpiresAt, ?_, hexpiry, ?_⟩
        · have hleased : (JobTxn.heartbeat job.id token leaseExpiresAt now true :
              JobTxn J).leasedAt id = some now := if_pos hmoves
          rw [hleased]
          rfl
        · exact (hextends job expiry (hid ▸ hjob) hheld hcurrent).2

/-- One heartbeat that extends does not move the expiry back. -/
theorem JobTxn.ExtendingStep.grows (hstep : ExtendingStep db l db') : Grows db l db' := by
  rintro id token leaseExpiresAt now rfl job job' expiry hjob hjob' hexpiry
  obtain ⟨hstep, hextends⟩ := hstep
  obtain ⟨found, hfound, hcase⟩ := hstep.get hjob
  obtain rfl : found = job' := Option.some.inj (hfound.symm.trans hjob')
  rcases hcase with ⟨-, rfl⟩ | ⟨-, hmove⟩
  · exact ⟨expiry, hexpiry, Int.le_refl _⟩
  · cases hmove with
    | extended hheld => exact ⟨leaseExpiresAt, rfl, (hextends job expiry hjob hheld hexpiry).1⟩

/-- A heartbeat of a lease that is held succeeds and writes the expiry it is given. -/
theorem JobTxn.Step.heartbeat_held {token : UUID} {leaseExpiresAt now : Time} {extended : Bool}
    (h : Step db (.heartbeat id token leaseExpiresAt now extended) db')
    (hjob : db.get id = some job) (hheld : job.heldBy token now = true) :
    extended = true ∧ db'.get id = some { job with leaseExpiresAt := some leaseExpiresAt } := by
  cases h with
  | heartbeat h =>
    unfold JobService.heartbeat at h
    split at h
    · cases h
    rw [Jobs.update, hjob, Option.any_some, if_pos hheld] at h
    cases h
    exact ⟨rfl, by simp [hjob]⟩

/-- The condition is exact at each step: a step that keeps the expiry from moving back and the
lease within a day is one whose heartbeat extends. -/
theorem JobTxn.Step.extends_iff (hstep : Step db l db') (hold : LeasesBounded tr db) :
    Extends db l ↔ Grows db l db' ∧ LeasesBounded (tr ++ [l]) db' := by
  constructor
  · intro hextends
    exact ⟨ExtendingStep.grows ⟨hstep, hextends⟩, ExtendingStep.bounded ⟨hstep, hextends⟩ hold⟩
  rintro ⟨hgrows, hbounded⟩
  cases l with
  | heartbeat id token leaseExpiresAt now extended =>
    intro job expiry hjob hheld hexpiry
    obtain ⟨rfl, hjob'⟩ := hstep.heartbeat_held hjob hheld
    constructor
    · obtain ⟨_, hnew, hle⟩ := hgrows id token _ now rfl job _ expiry hjob hjob' hexpiry
      exact Option.some.inj hnew ▸ hle
    · obtain ⟨last, _, hlast, hnew, hle⟩ := hbounded id _ hjob' (Job.heldBy_iff.1 hheld).1
      rw [lastLeasedAt_snoc, leasedAt, if_pos (by simp)] at hlast
      rw [Option.some.inj hnew, Option.some.inj hlast]
      exact hle
  | enqueue | claim | complete | retry | cancel | recoverExpired => trivial

/-- In every run whose heartbeats extend, from a table without running jobs: no heartbeat moves an
expiry back, and every lease ends within a day. -/
theorem leases_bounded {db₀ : Jobs J}
    (hidle : ∀ id job, db₀.get id = some job → job.status ≠ .running)
    (run : Lts.Run ExtendingStep db₀ tr db) :
    Lts.Run (fun db l db' => Step db l db' ∧ Grows db l db') db₀ tr db ∧ LeasesBounded tr db := by
  refine ⟨run.weaken fun hstep => ⟨hstep.1, ExtendingStep.grows hstep⟩, ?_⟩
  refine Lts.Run.history (I := LeasesBounded)
    (fun hold hstep => ExtendingStep.bounded hstep hold) run ?_
  intro id job hjob hrunning
  exact absurd hrunning (hidle id job hjob)

end

namespace JobFixture

/-- The running job with another expiry. -/
def runningUntil (expiry : Time) : Job Unit := { running with leaseExpiresAt := some expiry }

theorem extendedTo {expiry : Time} (h : seconds 1 < expiry) : JobTxn.Step (table running)
    (.heartbeat 1 5 expiry (seconds 1) true) (table (runningUntil expiry)) := by
  refine .heartbeat ?_
  rw [JobService.heartbeat, if_neg (Int.not_le.2 h)]
  rfl

theorem claimedRun : Lts.Run (JobTxn.Step (J := Unit)) Store.empty
    [.enqueue "send_email" () "order:one:email" 3 0 1 0,
      .claim "worker-1" (seconds 30) 1 0 (fun _ => false) (fun _ => 5) [running]]
    (table running) :=
  (Lts.Run.single enqueued).snoc claimed

end JobFixture

/-- A second after the claim of thirty seconds a heartbeat cuts the lease to two seconds, and
another one makes it two days long. -/
theorem heartbeat_unbounded :
    (∃ tr db db', Lts.Run JobTxn.Step (Store.empty : Jobs Unit) tr db ∧
      JobTxn.Step db (.heartbeat 1 5 (seconds 2) (seconds 1) true) db' ∧
      ¬ Grows db (.heartbeat 1 5 (seconds 2) (seconds 1) true) db') ∧
    ∃ tr db, Lts.Run JobTxn.Step (Store.empty : Jobs Unit) tr db ∧ ¬ LeasesBounded tr db := by
  have hlong : seconds 1 < seconds (48 * 3600) := by decide
  refine ⟨⟨_, _, _, JobFixture.claimedRun, JobFixture.extendedTo (by decide), fun h => ?_⟩, _, _,
    JobFixture.claimedRun.snoc (JobFixture.extendedTo hlong), fun h => ?_⟩
  · obtain ⟨expiry, hexpiry, hle⟩ := h 1 5 (seconds 2) (seconds 1) rfl _ _ _ rfl rfl rfl
    cases hexpiry
    exact absurd hle (by decide)
  · obtain ⟨last, expiry, hlast, hexpiry, hle⟩ := h 1 _ rfl rfl
    cases hlast
    cases hexpiry
    exact absurd hle (by decide)

/-- A heartbeat that extends the lease to a minute. -/
theorem leases_bounded_minute :
    Lts.Run (fun db l db' => JobTxn.Step db l db' ∧ Grows db l db') (Store.empty : Jobs Unit)
      [.enqueue "send_email" () "order:one:email" 3 0 1 0,
        .claim "worker-1" (seconds 30) 1 0 (fun _ => false) (fun _ => 5) [JobFixture.running],
        .heartbeat 1 5 (seconds 60) (seconds 1) true]
      (JobFixture.table (JobFixture.runningUntil (seconds 60))) ∧
    LeasesBounded
      [.enqueue "send_email" () "order:one:email" 3 0 1 0,
        .claim "worker-1" (seconds 30) 1 0 (fun _ => false) (fun _ => 5) [JobFixture.running],
        .heartbeat 1 5 (seconds 60) (seconds 1) true]
      (JobFixture.table (JobFixture.runningUntil (seconds 60))) := by
  refine leases_bounded (by rintro id job ⟨⟩)
    (((Lts.Run.single ⟨JobFixture.enqueued, trivial⟩).snoc ⟨JobFixture.claimed, trivial⟩).snoc
      ⟨JobFixture.extendedTo (by decide), ?_⟩)
  rintro job expiry ⟨⟩ - ⟨⟩
  decide

end Ekumidayomi
