import Ekumidayomi.Jobs.Fencing
import Ekumidayomi.Lib.Amortized
import Mathlib.Data.List.Perm.Subperm

/-!
# The queue of waiting jobs

`claim` hands out the first jobs that are due, in the order `available_at, created_at, id`, and as
many as its limit allows (`claimed_first`). A job that is released comes back later than the clock,
so nothing that was claimed before a waiting job gets before it again: however many workers there
are, the claims that pass a due job over hand out no more jobs than were before it, and those
enqueued before it since (`overtaking_bounded`).
-/

namespace Ekumidayomi

variable {J : Type}

namespace Job

theorem claimOrder_total (a b : Job J) : a.claimOrder b = true ∨ b.claimOrder a = true := by
  simp only [claimOrder, Bool.or_eq_true, Bool.and_eq_true, decide_eq_true_eq]
  lia

theorem claimOrder_trans (a b c : Job J) (hab : a.claimOrder b = true)
    (hbc : b.claimOrder c = true) : a.claimOrder c = true := by
  simp only [claimOrder, Bool.or_eq_true, Bool.and_eq_true, decide_eq_true_eq] at *
  lia

/-- The job waits, and is before `x` in the order of claims. -/
def ahead (x job : Job J) : Bool := job.cancellable && job.claimOrder x && decide (job.id ≠ x.id)

theorem cancellable_iff {job : Job J} : job.cancellable = true ↔ job.Queued := by
  simp [cancellable, Queued]

theorem not_ahead_of_later {x job : Job J} (h : x.availableAt < job.availableAt) :
    ahead x job = false := by
  have hnot : job.claimOrder x = false := by
    simp only [claimOrder, Bool.or_eq_false_iff, Bool.and_eq_false_iff, decide_eq_false_iff_not]
    lia
  rw [ahead, hnot, Bool.and_false, Bool.false_and]

theorem not_ahead_of_status {x job : Job J} (h : ¬ job.Queued) : ahead x job = false := by
  rw [← cancellable_iff, Bool.not_eq_true] at h
  rw [ahead, h, Bool.false_and, Bool.false_and]

end Job

/-- The jobs that wait before `x`. -/
def Jobs.ahead (db : Jobs J) (x : Job J) : List UUID := (db.rows.filter (Job.ahead x)).map (·.id)

theorem Jobs.ahead_nodup (db : Jobs J) (x : Job J) : (db.ahead x).Nodup :=
  List.Nodup.sublist (List.Sublist.map _ List.filter_sublist) db.keyed

theorem Jobs.mem_ahead {db : Jobs J} {x : Job J} {id : UUID} :
    id ∈ db.ahead x ↔ ∃ job, db.get id = some job ∧ Job.ahead x job = true := by
  simp only [Jobs.ahead, List.mem_map, List.mem_filter]
  constructor
  · rintro ⟨job, ⟨hjob, hahead⟩, rfl⟩
    exact ⟨job, Store.mem_rows.1 hjob, hahead⟩
  · rintro ⟨job, hjob, hahead⟩
    exact ⟨job, ⟨Store.mem_of_get hjob, hahead⟩, Store.key_of_get hjob⟩

namespace JobTxn

/-- The jobs that a claim hands out over `x`, which is due and not locked: its limit. -/
def overtakes (x : Job J) : JobTxn J → Nat
  | .claim _ _ limit now locked _ jobs =>
    if x.availableAt ≤ now ∧ locked x.id = false ∧ jobs.any (·.id = x.id) = false then limit else 0
  | _ => 0

/-- The new job that `enqueue` puts before `x`. -/
def joins (x : Job J) : JobTxn J → Nat
  | .enqueue jobType payload idempotencyKey maxAttempts availableAt id createdAt =>
    if Job.ahead x
      { id, jobType, payload, idempotencyKey, maxAttempts, availableAt, createdAt } then 1 else 0
  | _ => 0

section
variable {db db' : Jobs J} {l : JobTxn J} {x job job' : Job J} {id : UUID} {clock : Time}

theorem retry_validJitter {token : UUID} {errorCode : String} {jitter : Int} {now : Time}
    {released : Bool}
    (h : JobService.retry db id token errorCode jitter now = .ok (db', released)) :
    0 ≤ jitter := by
  unfold JobService.retry at h
  split at h
  · cases h
  split at h
  · cases h
  next hjitter =>
    simp only [validJitter, Bool.not_eq_true', Bool.not_eq_false, Bool.and_eq_true,
      decide_eq_true_eq] at hjitter
    exact hjitter.1

/-- What is moved does not wait before a job that was due before the clock. -/
theorem Step.not_ahead (h : Step db l db') (hnow : ∀ now, l.now = some now → clock ≤ now)
    (hdue : x.availableAt < clock) (hmove : JobMove l job job') : Job.ahead x job' = false := by
  cases hmove with
  | claimed => exact Job.not_ahead_of_status (by simp [Job.Queued, Job.start])
  | extended hheld =>
    refine Job.not_ahead_of_status ?_
    simp [Job.Queued, (Job.heldBy_iff.1 hheld).1]
  | completed => exact Job.not_ahead_of_status (by simp [Job.Queued, Job.complete])
  | @retried token errorCode jitter now job _ =>
    have hclock : clock ≤ now := hnow now rfl
    have hjitter : 0 ≤ jitter := by
      cases h with
      | retry h => exact retry_validJitter h
    unfold Job.retry Job.clearLease
    split
    · exact Job.not_ahead_of_status (by simp [Job.Queued])
    · refine Job.not_ahead_of_later ?_
      simp only [seconds]
      lia
  | cancelled => exact Job.not_ahead_of_status (by simp [Job.Queued])
  | @recovered now =>
    have hclock : clock ≤ now := hnow now rfl
    exact Job.not_ahead_of_later (Int.lt_of_lt_of_le hdue hclock)

/-- A job that was not there was added by `enqueue`. -/
theorem Step.enqueued (h : Step db l db') (hnone : db.get id = none)
    (hjob' : db'.get id = some job') :
    ∃ jobType payload key maxAttempts availableAt createdAt,
      l = .enqueue jobType payload key maxAttempts availableAt id createdAt ∧
        job' = { id, jobType, payload, idempotencyKey := key, maxAttempts, availableAt,
                 createdAt } := by
  have hgone : db'.get id ≠ none := by
    rw [hjob']
    exact Option.some_ne_none job'
  cases h with
  | enqueue h =>
    obtain ⟨-, -, rfl⟩ := enqueue_eq_ok h
    rcases Store.of_get_insert hjob' with ⟨rfl, rfl, -⟩ | hold
    · exact ⟨_, _, _, _, _, _, rfl, rfl⟩
    · rw [hnone] at hold
      cases hold
  | claim h =>
    obtain ⟨rfl, -⟩ := claim_eq_ok h
    exact absurd (Store.get_modifyAll_none _ hnone) hgone
  | heartbeat h =>
    unfold JobService.heartbeat at h
    split at h
    · cases h
    exact absurd (Jobs.update_get_none (Except.ok.inj h) hnone).1 hgone
  | complete h => exact absurd (Jobs.update_get_none h hnone).1 hgone
  | retry h =>
    unfold JobService.retry at h
    split at h
    · cases h
    split at h
    · cases h
    exact absurd (Jobs.update_get_none (Except.ok.inj h) hnone).1 hgone
  | cancel h => exact absurd (Jobs.update_get_none h hnone).1 hgone
  | recoverExpired h =>
    obtain rfl := recoverExpired_eq_ok h
    exact absurd (Store.get_modifyAll_none _ hnone) hgone

/-- A job that a step does not move stays as it is. -/
theorem Step.get_still (h : Step db l db') (hjob : db.get id = some job)
    (hstill : l.moves id = false) : db'.get id = some job := by
  obtain ⟨job', hjob', ⟨-, rfl⟩ | ⟨hmoves, -⟩⟩ := h.get hjob
  · exact hjob'
  · rw [hstill] at hmoves
    cases hmoves

/-- Who waits before `x` after a step did so before it, or has just joined. -/
theorem Step.mem_ahead (h : Step db l db') (hnow : ∀ now, l.now = some now → clock ≤ now)
    (hdue : x.availableAt < clock) (hid : id ∈ db'.ahead x) :
    id ∈ db.ahead x ∨ db.get id = none ∧ l.joins x = 1 := by
  obtain ⟨job', hjob', hahead⟩ := Jobs.mem_ahead.1 hid
  cases hjob : db.get id with
  | some job =>
    obtain ⟨found, hfound, hcase⟩ := h.get hjob
    obtain rfl : found = job' := Option.some.inj (hfound.symm.trans hjob')
    rcases hcase with ⟨-, rfl⟩ | ⟨-, hmove⟩
    · exact .inl (Jobs.mem_ahead.2 ⟨_, hjob, hahead⟩)
    · rw [h.not_ahead hnow hdue hmove] at hahead
      cases hahead
  | none =>
    obtain ⟨_, _, _, _, _, _, rfl, rfl⟩ := h.enqueued hjob hjob'
    exact .inr ⟨rfl, if_pos hahead⟩

/-- **The first jobs that are due.** A claim that leaves out a job that is due and not locked has
reached its limit, with jobs that were before it. -/
theorem claimed_first {limit : Nat} {now : Time} {locked : UUID → Bool}
    (hx : db.get x.id = some x) (hdue : x.claimable now = true) (hfree : locked x.id = false)
    (hnot : x ∉ JobService.claimed db limit now locked) :
    (JobService.claimed db limit now locked).length = limit ∧
      ∀ job ∈ JobService.claimed db limit now locked, Job.ahead x job = true := by
  have hmatch : (x.claimable now && !locked x.id) = true := by
    rw [hdue, hfree]
    rfl
  obtain ⟨hlength, hbefore⟩ := Store.select_passed Job.claimOrder_total Job.claimOrder_trans
    (Store.mem_of_get hx) hmatch hnot
  refine ⟨hlength, fun job hjob => ?_⟩
  obtain ⟨hrow, hclaim⟩ := Store.mem_select hjob
  rw [Bool.and_eq_true] at hclaim
  have hne : job.id ≠ x.id := by
    intro hid
    have hsame := Store.mem_rows.1 hrow
    rw [hid, hx] at hsame
    exact hnot (Option.some.inj hsame ▸ hjob)
  have hqueued := Job.cancellable_iff.2 (Job.claimable_iff.1 hclaim.1).1
  rw [Job.ahead, hqueued, hbefore job hjob, decide_eq_true hne]
  rfl

/-- A claim takes the jobs that it hands out over `x` from those that wait before `x`. -/
theorem Step.overtakes_le (h : Step db l db') (hx : db.get x.id = some x) (hqueued : x.Queued)
    (hleft : x.attempts < x.maxAttempts) (hstays : ∀ id ∈ db'.ahead x, id ∈ db.ahead x) :
    (db'.ahead x).length + l.overtakes x ≤ (db.ahead x).length := by
  by_cases hover : l.overtakes x = 0
  · rw [hover]
    exact (List.subperm_of_subset (db'.ahead_nodup x) hstays).length_le
  cases l with
  | claim worker lease limit now locked token jobs =>
    obtain ⟨⟨hat, hfree, hnot⟩, -⟩ := ite_ne_right_iff.1 hover
    rw [overtakes, if_pos ⟨hat, hfree, hnot⟩]
    cases h with
    | claim h =>
      obtain ⟨rfl, rfl⟩ := claim_eq_ok h
      have hsub : ∀ a ∈ JobService.claimed db limit now locked, a ∈ db.rows :=
        fun a ha => (Store.mem_select ha).1
      rw [any_id_start, ← Bool.not_eq_true, any_id_eq hsub hx] at hnot
      obtain ⟨hlength, hahead⟩ :=
        claimed_first hx (Job.claimable_iff.2 ⟨hqueued, hat, hleft⟩) hfree hnot
      -- those handed out wait no longer, so that they and those still waiting are two parts
      have hapart : (Jobs.ahead (db.modifyAll (JobService.claimed db limit now locked)
          (fun job => job.start worker (token job.id) lease now) fun _ => rfl) x ++
            (JobService.claimed db limit now locked).map (·.id)).Nodup := by
        refine (Jobs.ahead_nodup _ x).append (Store.nodup_select db _ _ limit) ?_
        intro id hid hid'
        obtain ⟨job, hjob, rfl⟩ := List.mem_map.1 hid'
        obtain ⟨job', hjob', hahead'⟩ := Jobs.mem_ahead.1 hid
        obtain ⟨found, hfound, ⟨hout, -⟩ | ⟨-, rfl⟩⟩ := Store.get_modifyAll
          (f := fun job => job.start worker (token job.id) lease now) (fun _ => rfl) hsub
          (Store.mem_rows.1 (hsub job hjob))
        · exact hout hjob
        · obtain rfl := Option.some.inj (hfound.symm.trans hjob')
          rw [Job.not_ahead_of_status (by simp [Job.Queued, Job.start])] at hahead'
          cases hahead'
      have hle := (@List.subperm_of_subset _ _ (db.ahead x) hapart ?_).length_le
      · rwa [List.length_append, List.length_map, hlength] at hle
      · intro id hid
        rcases List.mem_append.1 hid with hid | hid
        · exact hstays id hid
        · obtain ⟨job, hjob, rfl⟩ := List.mem_map.1 hid
          exact Jobs.mem_ahead.2 ⟨job, Store.mem_rows.1 (hsub job hjob), hahead job hjob⟩
  | _ => exact absurd rfl hover

/-- A step that overtakes `x` pays for it with the jobs that wait before `x`. -/
theorem Step.paid (h : Step db l db') (hnow : ∀ now, l.now = some now → clock ≤ now)
    (hx : db.get x.id = some x) (hqueued : x.Queued) (hleft : x.attempts < x.maxAttempts)
    (hdue : x.availableAt < clock) :
    (db'.ahead x).length + l.overtakes x ≤ (db.ahead x).length + l.joins x := by
  by_cases hnew : ∃ id ∈ db'.ahead x, db.get id = none ∧ l.joins x = 1
  · obtain ⟨id, hid, hnone, hjoins⟩ := hnew
    obtain ⟨job', hjob', -⟩ := Jobs.mem_ahead.1 hid
    obtain ⟨_, _, _, _, _, _, rfl, -⟩ := h.enqueued hnone hjob'
    have hsub : ∀ id' ∈ db'.ahead x, id' ∈ db.ahead x ++ [id] := by
      intro id' hid'
      refine List.mem_append.2 ((h.mem_ahead hnow hdue hid').imp_right fun hnone' => ?_)
      obtain ⟨job'', hjob'', -⟩ := Jobs.mem_ahead.1 hid'
      obtain ⟨_, _, _, _, _, _, hl, -⟩ := h.enqueued hnone'.1 hjob''
      cases hl
      exact List.mem_singleton_self id
    have hle := (List.subperm_of_subset (db'.ahead_nodup x) hsub).length_le
    rw [List.length_append, List.length_singleton] at hle
    rwa [hjoins]
  · refine Nat.le_add_right_of_le (h.overtakes_le hx hqueued hleft fun id hid => ?_)
    exact (h.mem_ahead hnow hdue hid).resolve_right fun hjoined => hnew ⟨id, hid, hjoined⟩

end

end JobTxn

namespace JobSystem

variable {s₀ s s' : JobSystem J} {tr₀ tr : List (JobTxn J)}

/-- A table that the system reaches is one that the operations reach. -/
theorem run_coherent (h0 : s₀.db = Store.empty) (run : Lts.Run Step s₀ tr₀ s) :
    ∀ id job, s.db.get id = some job → job.Coherent := by
  refine run.invariant (I := fun s => ∀ id job, s.db.get id = some job → job.Coherent) ?_ ?_
  · intro s l s' hc hstep id job hjob
    exact hstep.step.coherent hc hjob
  · intro id job hjob
    rw [h0] at hjob
    cases hjob

/-- **Overtaking is bounded.** In every run, with any number of workers and any locks: while a job
that is due waits and nothing moves it, the claims that pass it over, though it is not locked, hand
out no more jobs, each its whole limit, than waited before the job at first, and those that have
been enqueued before it since. -/
theorem overtaking_bounded (h0 : s₀.db = Store.empty) (run₀ : Lts.Run Step s₀ tr₀ s)
    (run : Lts.Run Step s tr s') {x : Job J} (hx : s.db.get x.id = some x) (hqueued : x.Queued)
    (hdue : x.availableAt < s.clock) (hwaits : ∀ l ∈ tr, l.moves x.id = false) :
    s'.db.get x.id = some x ∧
      (tr.map (·.overtakes x)).sum ≤ (s.db.ahead x).length + (tr.map (·.joins x)).sum := by
  have hleft := (run_coherent h0 run₀ x.id x hx).attempts_lt hqueued
  obtain ⟨⟨hx', -⟩, hpaid⟩ := run.amortized (fun s => (s.db.ahead x).length) (·.overtakes x)
    (·.joins x) (I := fun s => s.db.get x.id = some x ∧ x.availableAt < s.clock)
    (P := fun l => l.moves x.id = false)
    (fun h hstill hstep => ⟨⟨hstep.step.get_still h.1 hstill,
      Int.lt_of_lt_of_le h.2 hstep.clock_mono⟩,
      hstep.step.paid hstep.clock_le h.1 hqueued hleft h.2⟩) ⟨hx, hdue⟩ hwaits
  exact ⟨hx', Nat.le_of_add_left_le hpaid⟩

end JobSystem

namespace JobFixture

/-- A second email job, queued after the first. -/
def second : Job Unit :=
  { id := 2, jobType := "send_email", payload := (), idempotencyKey := "order:two:email",
    maxAttempts := 3, availableAt := 0, createdAt := 1 }

/-- The table with both jobs. -/
def both (job : Job Unit) : Jobs Unit :=
  ⟨[{ job with id := 1 }, second], by simp [Table.Keyed, second]⟩

/-- The first job under a lease of thirty seconds. -/
def runningFirst : Job Unit := job.start "worker-1" 5 (seconds 30) 1

/-- The claim that leaves the second job waiting. -/
def firstClaim : JobTxn Unit :=
  .claim "worker-1" (seconds 30) 1 1 (fun _ => false) (fun _ => 5) [runningFirst]

theorem bothEnqueued : Lts.Run JobSystem.Step { db := (Store.empty : Jobs Unit), clock := 1 }
    [.enqueue "send_email" () "order:one:email" 3 0 1 0,
      .enqueue "send_email" () "order:two:email" 3 0 2 1] { db := both job, clock := 1 } := by
  refine (@Lts.Run.single _ _ _ _ { db := table job, clock := 1 } _ ?_).snoc ?_
  · exact ⟨enqueued, by simp [JobTxn.now], rfl, by simp [JobTxn.handed], by simp [JobTxn.handed],
      rfl⟩
  · exact ⟨.enqueue rfl, by simp [JobTxn.now], rfl, by simp [JobTxn.handed],
      by simp [JobTxn.handed], rfl⟩

theorem firstClaimed : JobSystem.Step { db := both job, clock := 1 } firstClaim
    { db := both runningFirst, clock := 1, tokens := [5] } := by
  refine ⟨.claim rfl, ?_, rfl, by simp [JobTxn.handed, firstClaim], ?_, rfl⟩
  · rintro now ⟨⟩
    exact le_refl _
  · intro a ha b hb _
    rw [List.mem_singleton.1 ha, List.mem_singleton.1 hb]

end JobFixture

/-- One claim of one job passes over the second job, and one job was before it. -/
theorem JobSystem.overtaking_bounded_second :
    JobFixture.firstClaim.overtakes JobFixture.second = 1 ∧
      ([JobFixture.firstClaim].map (·.overtakes JobFixture.second)).sum ≤
        ((JobFixture.both JobFixture.job).ahead JobFixture.second).length +
          ([JobFixture.firstClaim].map (·.joins JobFixture.second)).sum := by
  refine ⟨rfl, (JobSystem.overtaking_bounded rfl JobFixture.bothEnqueued
    (Lts.Run.single JobFixture.firstClaimed) rfl (.inl rfl) (by decide) ?_).2⟩
  intro l hl
  obtain rfl := List.mem_singleton.1 hl
  rfl

end Ekumidayomi
