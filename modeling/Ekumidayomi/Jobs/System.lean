import Ekumidayomi.Lib.Run
import Ekumidayomi.Jobs.Service

/-!
# The job table as a transition system

Every operation of `JobService` is a step on the table, with any arguments and in any order; a label
records the call and what it returned. `JobMove` says once what an operation can do to a job
(`JobTxn.Step.get`, `JobTxn.Step.get_inv`), and the columns of a job are shown to agree with its
status in every state (`job_coherence`).
-/

namespace Ekumidayomi

/-- One committed call that did not raise, and what it returned. -/
inductive JobTxn (J : Type)
  | enqueue (jobType : String) (payload : J) (idempotencyKey : String) (maxAttempts : Nat)
      (availableAt : Time) (id : UUID) (createdAt : Time)
  | claim (worker : String) (lease : Int) (limit : Nat) (now : Time) (locked : UUID → Bool)
      (token : UUID → UUID) (jobs : List (Job J))
  | heartbeat (id token : UUID) (leaseExpiresAt now : Time) (extended : Bool)
  | complete (id token : UUID) (result : Option J) (now : Time) (completed : Bool)
  | retry (id token : UUID) (errorCode : String) (jitter : Int) (now : Time) (released : Bool)
  | cancel (id : UUID) (now : Time) (cancelled : Bool)
  | recoverExpired (now : Time) (limit : Nat) (locked : UUID → Bool) (jobs : List (Job J))

variable {J : Type}

/-- One step on the table. The label of a recovery keeps the rows it selected, of which the source
returns the number. -/
inductive JobTxn.Step : Jobs J → JobTxn J → Jobs J → Prop
  | enqueue {db db' : Jobs J} {jobType : String} {payload : J} {key : String} {maxAttempts : Nat}
      {availableAt : Time} {id : UUID} {createdAt : Time} :
      JobService.enqueue db jobType payload key maxAttempts availableAt id createdAt = .ok db' →
      Step db (.enqueue jobType payload key maxAttempts availableAt id createdAt) db'
  | claim {db db' : Jobs J} {worker : String} {lease : Int} {limit : Nat} {now : Time}
      {locked : UUID → Bool} {token : UUID → UUID} {jobs : List (Job J)} :
      JobService.claim db worker lease limit now locked token = .ok (db', jobs) →
      Step db (.claim worker lease limit now locked token jobs) db'
  | heartbeat {db db' : Jobs J} {id token : UUID} {leaseExpiresAt now : Time} {extended : Bool} :
      JobService.heartbeat db id token leaseExpiresAt now = .ok (db', extended) →
      Step db (.heartbeat id token leaseExpiresAt now extended) db'
  | complete {db db' : Jobs J} {id token : UUID} {result : Option J} {now : Time}
      {completed : Bool} : JobService.complete db id token result now = (db', completed) →
      Step db (.complete id token result now completed) db'
  | retry {db db' : Jobs J} {id token : UUID} {errorCode : String} {jitter : Int} {now : Time}
      {released : Bool} : JobService.retry db id token errorCode jitter now = .ok (db', released) →
      Step db (.retry id token errorCode jitter now released) db'
  | cancel {db db' : Jobs J} {id : UUID} {now : Time} {cancelled : Bool} :
      JobService.cancel db id now = (db', cancelled) → Step db (.cancel id now cancelled) db'
  | recoverExpired {db db' : Jobs J} {now : Time} {limit count : Nat} {locked : UUID → Bool} :
      JobService.recoverExpired db now limit locked = .ok (db', count) →
      Step db (.recoverExpired now limit locked (JobService.recovered db now limit locked)) db'

/-- The call reports that it changed the job `id`. -/
def JobTxn.moves (id : UUID) : JobTxn J → Bool
  | .enqueue .. => false
  | .claim _ _ _ _ _ _ jobs | .recoverExpired _ _ _ jobs => jobs.any (·.id = id)
  | .heartbeat mid _ _ _ changed | .complete mid _ _ _ changed | .retry mid _ _ _ _ changed
  | .cancel mid _ changed => changed && mid = id

/-- What an operation can do to a job. -/
inductive JobMove : JobTxn J → Job J → Job J → Prop
  | claimed {worker : String} {lease : Int} {limit : Nat} {now : Time} {locked : UUID → Bool}
      {token : UUID → UUID} {jobs : List (Job J)} {job : Job J} : job.claimable now = true →
      job.start worker (token job.id) lease now ∈ jobs →
      JobMove (.claim worker lease limit now locked token jobs) job
        (job.start worker (token job.id) lease now)
  | extended {token : UUID} {leaseExpiresAt now : Time} {job : Job J} :
      job.heldBy token now = true → now < leaseExpiresAt →
      JobMove (.heartbeat job.id token leaseExpiresAt now true) job
        { job with leaseExpiresAt := some leaseExpiresAt }
  | completed {token : UUID} {result : Option J} {now : Time} {job : Job J} :
      job.heldBy token now = true →
      JobMove (.complete job.id token result now true) job (job.complete result now)
  | retried {token : UUID} {errorCode : String} {jitter : Int} {now : Time} {job : Job J} :
      job.heldBy token now = true →
      JobMove (.retry job.id token errorCode jitter now true) job (job.retry errorCode jitter now)
  | cancelled {now : Time} {job : Job J} : job.cancellable = true →
      JobMove (.cancel job.id now true) job
        { job with status := .cancelled, finishedAt := some now }
  | recovered {now : Time} {limit : Nat} {locked : UUID → Bool} {jobs : List (Job J)}
      {job : Job J} : job.expired now = true →
      JobMove (.recoverExpired now limit locked jobs) job (job.recover now)

section
variable {db db' : Jobs J} {id : UUID} {job job' : Job J} {l : JobTxn J} {p : Job J → Bool}
  {f : Job J → Job J} {hf : ∀ job, (f job).id = job.id}

/-- What a guarded update does to a job: it changes the job it names, if that passes the guard. -/
theorem Jobs.update_get {mid : UUID} {changed : Bool} (h : db.update mid p f hf = (db', changed))
    (hjob : db.get id = some job) :
    ∃ job', db'.get id = some job' ∧
      (((changed && decide (mid = id)) = false ∧ job' = job) ∨
        ((changed && decide (mid = id)) = true ∧ mid = job.id ∧ changed = true ∧ p job = true ∧
          job' = f job)) := by
  have hid := Store.key_of_get hjob
  unfold Jobs.update at h
  split at h
  case isTrue hp =>
    cases h
    by_cases he : id = mid
    · subst he
      refine ⟨f job, by simp [hjob], .inr ⟨by simp, hid.symm, rfl, ?_, rfl⟩⟩
      simpa [hjob] using hp
    · exact ⟨job, by simp [he, hjob], .inl ⟨by simp [Ne.symm he], rfl⟩⟩
  case isFalse =>
    cases h
    exact ⟨job, hjob, .inl ⟨rfl, rfl⟩⟩

/-- A guarded update adds no job and reports no change of a job that is not there. -/
theorem Jobs.update_get_none {mid : UUID} {changed : Bool}
    (h : db.update mid p f hf = (db', changed)) (hnone : db.get id = none) :
    db'.get id = none ∧ (changed && decide (mid = id)) = false := by
  unfold Jobs.update at h
  split at h
  case isTrue hp =>
    cases h
    by_cases he : id = mid
    · subst he
      simp [hnone] at hp
    · exact ⟨by simp [he, hnone], by simp [Ne.symm he]⟩
  case isFalse =>
    cases h
    exact ⟨hnone, rfl⟩

/-- Whether a job is among the picked ones can be read off the keys. -/
theorem any_id_eq {picked : List (Job J)} (hsub : ∀ a ∈ picked, a ∈ db.rows)
    (hjob : db.get id = some job) : picked.any (·.id = id) = true ↔ job ∈ picked := by
  rw [List.any_eq_true]
  constructor
  · rintro ⟨a, ha, he⟩
    have hid : a.id = job.id := (of_decide_eq_true he).trans (Store.key_of_get hjob).symm
    rwa [← db.keyed.eq_of_key (hsub a ha) (Store.mem_of_get hjob) hid]
  · exact fun h => ⟨job, h, decide_eq_true (Store.key_of_get hjob)⟩

/-- A claimed job keeps its key. -/
theorem any_id_start (picked : List (Job J)) (worker : String) (token : UUID → UUID) (lease : Int)
    (now : Time) :
    (picked.map fun job => job.start worker (token job.id) lease now).any (·.id = id) =
      picked.any (·.id = id) := by
  rw [List.any_map]
  rfl

/-- Rows picked from a table without the job are other jobs. -/
theorem any_id_none {picked : List (Job J)} (hsub : ∀ a ∈ picked, a ∈ db.rows)
    (hnone : db.get id = none) : picked.any (·.id = id) = false := by
  rw [← Bool.not_eq_true, List.any_eq_true]
  rintro ⟨a, ha, he⟩
  exact Table.find_eq_none.1 hnone a (hsub a ha) (of_decide_eq_true he)

/-- What a change to selected rows does to a job. -/
theorem Jobs.modifyAll_get {picked : List (Job J)} (hf : ∀ job, (f job).id = job.id)
    (hsub : ∀ a ∈ picked, a ∈ db.rows) (hjob : db.get id = some job) :
    ∃ job', (db.modifyAll picked f hf).get id = some job' ∧
      ((picked.any (·.id = id) = false ∧ job' = job) ∨
        (picked.any (·.id = id) = true ∧ job ∈ picked ∧ job' = f job)) := by
  obtain ⟨job', hjob', ⟨hnot, he⟩ | ⟨hmem, he⟩⟩ := Store.get_modifyAll hf hsub hjob
  · refine ⟨job', hjob', .inl ⟨?_, he⟩⟩
    rw [← Bool.not_eq_true, any_id_eq hsub hjob]
    exact hnot
  · exact ⟨job', hjob', .inr ⟨(any_id_eq hsub hjob).2 hmem, hmem, he⟩⟩

end

namespace JobTxn

variable {db db' : Jobs J} {id : UUID} {job job' : Job J} {l : JobTxn J}

/-- The claim changes the rows it selected and returns them. -/
theorem claim_eq_ok {worker : String} {lease : Int} {limit : Nat} {now : Time}
    {locked : UUID → Bool} {token : UUID → UUID} {jobs : List (Job J)}
    (h : JobService.claim db worker lease limit now locked token = .ok (db', jobs)) :
    db' = db.modifyAll (JobService.claimed db limit now locked)
        (fun job => job.start worker (token job.id) lease now) (fun _ => rfl) ∧
      jobs = (JobService.claimed db limit now locked).map
        fun job => job.start worker (token job.id) lease now := by
  unfold JobService.claim at h
  split at h
  · cases h
  split at h
  · cases h
  split at h
  · cases h
  cases h
  exact ⟨rfl, rfl⟩

theorem recoverExpired_eq_ok {now : Time} {limit count : Nat} {locked : UUID → Bool}
    (h : JobService.recoverExpired db now limit locked = .ok (db', count)) :
    db' = db.modifyAll (JobService.recovered db now limit locked) (·.recover now)
      (fun _ => rfl) := by
  unfold JobService.recoverExpired at h
  split at h
  · cases h
  cases h
  rfl

/-- A job that `enqueue` adds is pending, with no attempt and no lease. -/
theorem enqueue_eq_ok {jobType : String} {payload : J} {key : String} {maxAttempts : Nat}
    {availableAt : Time} {nid : UUID} {createdAt : Time}
    (h : JobService.enqueue db jobType payload key maxAttempts availableAt nid createdAt = .ok db') :
    1 ≤ maxAttempts ∧ db.get nid = none ∧
      db' = db.insert
        { id := nid, jobType, payload, idempotencyKey := key, maxAttempts, availableAt,
          createdAt } := by
  unfold JobService.enqueue at h
  split at h
  · cases h
  split at h
  · cases h
  split at h
  · cases h
  split at h
  · cases h
  rename_i hmax hnew
  cases h
  refine ⟨?_, ?_, rfl⟩
  · simp only [validMaxAttempts, Bool.not_eq_true', Bool.not_eq_false, Bool.and_eq_true,
      decide_eq_true_eq] at hmax
    exact hmax.1
  · refine Table.find_eq_none.2 fun job hjob he => hnew ?_
    exact List.any_eq_true.2 ⟨job, hjob, by simp [he]⟩

/-- **What a step does to a job**: it leaves the job alone, or it reports the job and moves it as
`JobMove` says. -/
theorem Step.get (h : Step db l db') (hjob : db.get id = some job) :
    ∃ job', db'.get id = some job' ∧
      ((l.moves id = false ∧ job' = job) ∨ (l.moves id = true ∧ JobMove l job job')) := by
  cases h with
  | enqueue h =>
    obtain ⟨-, -, rfl⟩ := enqueue_eq_ok h
    exact ⟨job, Store.get_insert_of_some hjob, .inl ⟨rfl, rfl⟩⟩
  | @claim _ worker lease limit now locked token _ h =>
    obtain ⟨rfl, rfl⟩ := claim_eq_ok h
    obtain ⟨job', hjob', hcase⟩ := Jobs.modifyAll_get
      (f := fun job => job.start worker (token job.id) lease now) (fun _ => rfl)
      (fun a ha => (Store.mem_select ha).1) hjob
    refine ⟨job', hjob', ?_⟩
    rw [moves, any_id_start]
    refine hcase.imp_right fun ⟨hp, hmem, he⟩ => ⟨hp, ?_⟩
    have hclaim := (Store.mem_select hmem).2
    rw [Bool.and_eq_true] at hclaim
    rw [he]
    exact .claimed hclaim.1 (List.mem_map_of_mem hmem)
  | heartbeat h =>
    unfold JobService.heartbeat at h
    split at h
    · cases h
    rename_i hlt
    obtain ⟨job', hjob', hcase⟩ := Jobs.update_get (Except.ok.inj h) hjob
    refine ⟨job', hjob', hcase.imp_right ?_⟩
    rintro ⟨hmoves, rfl, rfl, hheld, rfl⟩
    exact ⟨hmoves, .extended hheld (not_le.1 hlt)⟩
  | complete h =>
    obtain ⟨job', hjob', hcase⟩ := Jobs.update_get h hjob
    refine ⟨job', hjob', hcase.imp_right ?_⟩
    rintro ⟨hmoves, rfl, rfl, hheld, rfl⟩
    exact ⟨hmoves, .completed hheld⟩
  | retry h =>
    unfold JobService.retry at h
    split at h
    · cases h
    split at h
    · cases h
    obtain ⟨job', hjob', hcase⟩ := Jobs.update_get (Except.ok.inj h) hjob
    refine ⟨job', hjob', hcase.imp_right ?_⟩
    rintro ⟨hmoves, rfl, rfl, hheld, rfl⟩
    exact ⟨hmoves, .retried hheld⟩
  | cancel h =>
    obtain ⟨job', hjob', hcase⟩ := Jobs.update_get h hjob
    refine ⟨job', hjob', hcase.imp_right ?_⟩
    rintro ⟨hmoves, rfl, rfl, hp, rfl⟩
    exact ⟨hmoves, .cancelled hp⟩
  | @recoverExpired _ now _ _ _ h =>
    obtain rfl := recoverExpired_eq_ok h
    obtain ⟨job', hjob', hcase⟩ := Jobs.modifyAll_get (f := (·.recover now)) (fun _ => rfl)
      (fun a ha => (Store.mem_select ha).1) hjob
    refine ⟨job', hjob', hcase.imp_right fun ⟨hp, hmem, he⟩ => ⟨hp, ?_⟩⟩
    have hexp := (Store.mem_select hmem).2
    rw [Bool.and_eq_true] at hexp
    rw [he]
    exact .recovered hexp.1

/-- A job that is not there is not reported, and it comes into the table pending, with no attempt
and no lease. -/
theorem Step.get_none (h : Step db l db') (hnone : db.get id = none) :
    l.moves id = false ∧ ∀ job', db'.get id = some job' →
      ∃ (jobType : String) (payload : J) (key : String) (maxAttempts : Nat)
        (availableAt createdAt : Time), 1 ≤ maxAttempts ∧ job' =
          { id, jobType, payload, idempotencyKey := key, maxAttempts, availableAt, createdAt } := by
  -- every operation but `enqueue` leaves the keys as they are
  have hsame : db'.get id = none → ∀ job', db'.get id = some job' →
      ∃ (jobType : String) (payload : J) (key : String) (maxAttempts : Nat)
        (availableAt createdAt : Time), 1 ≤ maxAttempts ∧ job' =
          { id, jobType, payload, idempotencyKey := key, maxAttempts, availableAt, createdAt } := by
    intro hn job' hjob'
    rw [hn] at hjob'
    cases hjob'
  cases h with
  | enqueue h =>
    obtain ⟨hmax, -, rfl⟩ := enqueue_eq_ok h
    refine ⟨rfl, fun job' hjob' => ?_⟩
    rcases Store.of_get_insert hjob' with ⟨rfl, rfl, -⟩ | hold
    · exact ⟨_, _, _, _, _, _, hmax, rfl⟩
    · rw [hnone] at hold
      cases hold
  | claim h =>
    obtain ⟨rfl, rfl⟩ := claim_eq_ok h
    refine ⟨?_, hsame (Store.get_modifyAll_none _ hnone)⟩
    rw [moves, any_id_start]
    exact any_id_none (fun a ha => (Store.mem_select ha).1) hnone
  | heartbeat h =>
    unfold JobService.heartbeat at h
    split at h
    · cases h
    obtain ⟨hn, hm⟩ := Jobs.update_get_none (Except.ok.inj h) hnone
    exact ⟨hm, hsame hn⟩
  | complete h =>
    obtain ⟨hn, hm⟩ := Jobs.update_get_none h hnone
    exact ⟨hm, hsame hn⟩
  | retry h =>
    unfold JobService.retry at h
    split at h
    · cases h
    split at h
    · cases h
    obtain ⟨hn, hm⟩ := Jobs.update_get_none (Except.ok.inj h) hnone
    exact ⟨hm, hsame hn⟩
  | cancel h =>
    obtain ⟨hn, hm⟩ := Jobs.update_get_none h hnone
    exact ⟨hm, hsame hn⟩
  | recoverExpired h =>
    obtain rfl := recoverExpired_eq_ok h
    exact ⟨any_id_none (fun a ha => (Store.mem_select ha).1) hnone,
      hsame (Store.get_modifyAll_none _ hnone)⟩

end JobTxn

/-! ## The columns of a job agree with its status -/

/-- The job has ended. -/
def Job.Ended (job : Job J) : Prop :=
  job.status = .succeeded ∨ job.status = .failed ∨ job.status = .cancelled

/-- The job waits to be claimed. -/
def Job.Queued (job : Job J) : Prop := job.status = .pending ∨ job.status = .retrying

/-- The lease columns, the end and the counters of a job agree with its status. -/
structure Job.Coherent (job : Job J) : Prop where
  leased : job.status = .running →
    (∃ owner, job.leaseOwner = some owner) ∧ (∃ token, job.leaseToken = some token) ∧
      ∃ expiry, job.leaseExpiresAt = some expiry
  cleared : job.status ≠ .running →
    job.leaseOwner = none ∧ job.leaseToken = none ∧ job.leaseExpiresAt = none
  finished : job.finishedAt ≠ none ↔ job.Ended
  attempts_le : job.attempts ≤ job.maxAttempts
  attempts_lt : job.Queued → job.attempts < job.maxAttempts

section
variable {job job' : Job J} {l : JobTxn J} {token : UUID} {now : Time}

theorem Job.heldBy_iff : job.heldBy token now = true ↔
    job.status = .running ∧ job.leaseToken = some token ∧ after job.leaseExpiresAt now = true := by
  simp [Job.heldBy, and_assoc]

theorem Job.expired_iff : job.expired now = true ↔
    job.status = .running ∧ atMost job.leaseExpiresAt now = true := by
  simp [Job.expired]

theorem Job.claimable_iff : job.claimable now = true ↔
    job.Queued ∧ job.availableAt ≤ now ∧ job.attempts < job.maxAttempts := by
  simp [Job.claimable, Job.Queued, and_assoc]

/-- A job whose lease is cleared on its release: failed for good, or waiting with attempts left. -/
theorem Job.coherent_release (hle : job.attempts ≤ job.maxAttempts)
    (howner : job.leaseOwner = none) (htoken : job.leaseToken = none)
    (hlease : job.leaseExpiresAt = none)
    (hst : job.status = .failed ∧ job.finishedAt ≠ none ∨
      job.status = .retrying ∧ job.finishedAt = none ∧ job.attempts < job.maxAttempts) :
    job.Coherent := by
  rcases hst with ⟨hst, hfin⟩ | ⟨hst, hfin, hlt⟩
  · exact ⟨by simp [hst], fun _ => ⟨howner, htoken, hlease⟩, by simp [hfin, Job.Ended, hst], hle,
      by simp [Job.Queued, hst]⟩
  · exact ⟨by simp [hst], fun _ => ⟨howner, htoken, hlease⟩, by simp [hfin, Job.Ended, hst], hle,
      fun _ => hlt⟩

/-- Each operation keeps the columns in agreement. -/
theorem JobMove.coherent (h : JobMove l job job') (hc : job.Coherent) : job'.Coherent := by
  have hle := hc.attempts_le
  cases h with
  | claimed hcl =>
    obtain ⟨-, -, hlt⟩ := Job.claimable_iff.1 hcl
    exact ⟨fun _ => ⟨⟨_, rfl⟩, ⟨_, rfl⟩, ⟨_, rfl⟩⟩, fun h => absurd rfl h,
      by simp [Job.start, Job.Ended], hlt, by simp [Job.start, Job.Queued]⟩
  | extended hheld =>
    obtain ⟨hst, -⟩ := Job.heldBy_iff.1 hheld
    obtain ⟨howner, htoken, -⟩ := hc.leased hst
    exact ⟨fun _ => ⟨howner, htoken, ⟨_, rfl⟩⟩, fun h => absurd hst h, hc.finished, hle,
      hc.attempts_lt⟩
  | completed =>
    exact ⟨by simp [Job.complete], fun _ => ⟨rfl, rfl, rfl⟩, by simp [Job.complete, Job.Ended], hle,
      by simp [Job.complete, Job.Queued]⟩
  | retried hheld =>
    unfold Job.retry Job.clearLease
    split
    · exact Job.coherent_release hle rfl rfl rfl (.inl ⟨rfl, by simp⟩)
    · rename_i hex
      simp only [Job.exhausted, decide_eq_true_eq, not_le] at hex
      exact Job.coherent_release hle rfl rfl rfl (.inr ⟨rfl, rfl, hex⟩)
  | cancelled hcan =>
    have hrun : job.status ≠ .running := by
      intro hst
      simp [Job.cancellable, hst] at hcan
    exact ⟨by simp, fun _ => hc.cleared hrun, by simp [Job.Ended], hle, by simp [Job.Queued]⟩
  | recovered =>
    refine Job.coherent_release hle rfl rfl rfl ?_
    by_cases hex : job.exhausted = true
    · exact .inl (by simp [Job.recover, Job.clearLease, hex])
    · have hlt : job.attempts < job.maxAttempts := by simpa [Job.exhausted] using hex
      exact .inr (by simp [Job.recover, Job.clearLease, hex, hlt])

/-- A step keeps every job coherent. -/
theorem JobTxn.Step.coherent {db db' : Jobs J} (h : JobTxn.Step db l db')
    (hc : ∀ id job, db.get id = some job → job.Coherent) {id : UUID}
    (hjob' : db'.get id = some job') : job'.Coherent := by
  cases hjob : db.get id with
  | some job =>
    obtain ⟨r, hr, ⟨-, rfl⟩ | ⟨-, hm⟩⟩ := h.get hjob
    · obtain rfl : r = job' := Option.some.inj (hr.symm.trans hjob')
      exact hc id r hjob
    · obtain rfl : r = job' := Option.some.inj (hr.symm.trans hjob')
      exact hm.coherent (hc id job hjob)
  | none =>
    obtain ⟨_, _, _, _, _, _, hmax, rfl⟩ := (h.get_none hjob).2 job' hjob'
    exact ⟨by simp, fun _ => ⟨rfl, rfl, rfl⟩, by simp [Job.Ended], Nat.zero_le _, fun _ => hmax⟩

end

/-- Every job of a table that a run reached is coherent. -/
theorem run_coherent {db : Jobs J} {tr : List (JobTxn J)}
    (run : Lts.Run JobTxn.Step Store.empty tr db) :
    ∀ id job, db.get id = some job → job.Coherent := by
  refine run.invariant (I := fun db => ∀ id job, db.get id = some job → job.Coherent) ?_ ?_
  · intro db l db' hc h id job hjob
    exact h.coherent hc hjob
  · intro id job hjob
    cases hjob

/-- **Job record coherence.** In every table that any sequence of operations reaches, with any times
and limits: a job is running exactly when its three lease columns are set and otherwise all three
are null, it has an end exactly when its status is final, its attempts stay within the maximum, and
a queued job has attempts left, so it can be claimed from the time it is available. -/
theorem job_coherence {db : Jobs J} {tr : List (JobTxn J)}
    (run : Lts.Run JobTxn.Step Store.empty tr db) {job : Job J} (hjob : job ∈ db.rows) :
    (job.status = .running ↔
      job.leaseOwner ≠ none ∧ job.leaseToken ≠ none ∧ job.leaseExpiresAt ≠ none) ∧
    (job.status ≠ .running →
      job.leaseOwner = none ∧ job.leaseToken = none ∧ job.leaseExpiresAt = none) ∧
    (job.finishedAt ≠ none ↔ job.Ended) ∧ job.attempts ≤ job.maxAttempts ∧
    (job.Queued → job.attempts < job.maxAttempts ∧
      ∀ now, job.availableAt ≤ now → job.claimable now = true) := by
  have hc := run_coherent run job.id job (Store.mem_rows.1 hjob)
  refine ⟨⟨fun hst => ?_, fun ⟨howner, _⟩ => ?_⟩, hc.cleared, hc.finished, hc.attempts_le,
    fun hq => ⟨hc.attempts_lt hq, fun now hav => Job.claimable_iff.2 ⟨hq, hav, hc.attempts_lt hq⟩⟩⟩
  · obtain ⟨⟨owner, howner⟩, ⟨token, htoken⟩, ⟨expiry, hexpiry⟩⟩ := hc.leased hst
    simp [howner, htoken, hexpiry]
  · by_contra hst
    exact howner (hc.cleared hst).1

namespace JobFixture

/-- A queued email job. -/
def job : Job Unit :=
  { id := 1, jobType := "send_email", payload := (), idempotencyKey := "order:one:email",
    maxAttempts := 3, availableAt := 0, createdAt := 0 }

/-- The job under a lease of thirty seconds with the token 5. -/
def running : Job Unit := job.start "worker-1" 5 (seconds 30) 0

/-- The table with one job. -/
def table (job : Job Unit) : Jobs Unit := ⟨[job], by simp [Table.Keyed]⟩

theorem enqueued : JobTxn.Step Store.empty
    (.enqueue "send_email" () "order:one:email" 3 0 1 0) (table job) :=
  .enqueue rfl

theorem claimed : JobTxn.Step (table job)
    (.claim "worker-1" (seconds 30) 1 0 (fun _ => false) (fun _ => 5) [running]) (table running) :=
  .claim rfl

end JobFixture

/-- Queued and claimed, the job carries a whole lease. -/
theorem job_coherence_running : JobFixture.running.status = .running ↔
    JobFixture.running.leaseOwner ≠ none ∧ JobFixture.running.leaseToken ≠ none ∧
      JobFixture.running.leaseExpiresAt ≠ none :=
  (job_coherence ((Lts.Run.single JobFixture.enqueued).snoc JobFixture.claimed)
    (List.mem_singleton.2 rfl)).1

end Ekumidayomi
