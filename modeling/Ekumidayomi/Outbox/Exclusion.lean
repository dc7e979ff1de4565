import Ekumidayomi.Outbox.LeasedWorker

/-!
# One worker inside `deliver`

A lease starts at a clock read of the claim transaction and has to cover what follows it: the rest
of that unit of work, `prepare`, the unit of work of `bind` and `deliver`. With every section inside
its bound (`Timely`) the latest instant a section can start stays ahead of the lease (`Covered`),
and the settings leave room for the last one. A row under a live lease is moved only by its holder
(`Guarded`), so two workers never deliver one message at a time.
-/

namespace Ekumidayomi

section
variable {P Q : Type}

/-- The section a worker is in started early enough for a lease that ends at `expiresAt`. -/
def Phase.Covered (settings : OutboxWorkerSettings) (expiresAt : Time) : Phase P Q → Prop
  | .idle | .claiming _ | .finalizing _ _ _ => True
  | .claimed openedAt _ => openedAt + seconds settings.leaseSeconds ≤ expiresAt
  | .preparing _ startedAt =>
    startedAt + seconds settings.leaseSeconds ≤ expiresAt + seconds unitOfWorkSeconds
  | .binding _ _ openedAt | .bound _ _ openedAt => openedAt + seconds settings.leaseSeconds ≤
      expiresAt + seconds unitOfWorkSeconds + seconds settings.prepareSeconds
  | .delivering _ _ startedAt _ => startedAt + seconds settings.leaseSeconds ≤
      expiresAt + 2 * seconds unitOfWorkSeconds + seconds settings.prepareSeconds

/-- A move that starts a section in time for the lease, from a section that did and has not run
over its bound. -/
theorem LocalMove.covered {handlers : String → ExternalOutboxHandler P Q} {clock expiresAt : Time}
    {phase phase' : Phase P Q} {settings : OutboxWorkerSettings}
    (h : LocalMove handlers clock phase phase') (ht : phase.InTime settings clock)
    (hc : phase.Covered settings expiresAt) : phase'.Covered settings expiresAt := by
  cases h with
  | openClaim | invalidEvent | refused | preparationTimeout | noLongerEligible | returned
  | submissionTimeout | handlerFailure => trivial
  | startPrepare =>
    simp only [Phase.Covered, Phase.InTime] at *
    lia
  | prepared =>
    simp only [Phase.Covered, Phase.InTime] at *
    lia

/-- A covered `deliver` that has not run over its bound is over before the lease is. -/
theorem Phase.Covered.lt {settings : OutboxWorkerSettings} {clock expiresAt : Time} {c : Claim}
    {d : PreparedDelivery P} {startedAt : Time} {posts : List Q}
    (hc : (Phase.delivering c d startedAt posts).Covered settings expiresAt)
    (ht : (Phase.delivering c d startedAt posts).InTime settings clock) : clock < expiresAt := by
  have hsum := settings.lease_covers
  simp only [Phase.Covered, Phase.InTime, seconds, unitOfWorkSeconds] at hc ht
  lia

/-- A worker's step keeps its section in time for its lease. -/
theorem WorkerStep.covered {handlers : String → ExternalOutboxHandler P Q} {s s' : Repo}
    {worker worker' : LeasedOutboxWorker P Q}
    {l : Option (Txn P)} {entries : List (Entry P Q)} {c : Claim}
    (h : WorkerStep handlers s worker l entries s' worker') (hk : s.db.Keyed)
    (ht : worker.phase.InTime worker.settings s.clock)
    (hw : ∀ c, worker.phase.claim? = some c → ∃ lease ∈ s.issued, lease.claim = c ∧
      worker.phase.Covered worker.settings lease.expiresAt)
    (hc : worker'.phase.claim? = some c) :
    ∃ lease ∈ s'.issued, lease.claim = c ∧
      worker'.phase.Covered worker'.settings lease.expiresAt := by
  cases h with
  | start => cases hc
  | @claim _ _ openedAt reads result hp hle h =>
    cases result with
    | none => cases hc
    | some c' =>
      cases hc
      obtain ⟨-, hi, -⟩ := h.claimed hk
      refine ⟨_, hi ▸ List.mem_cons_self, rfl, ?_⟩
      simp only [Option.elim_some, Phase.Covered]
      lia
  | @bind _ _ c' d openedAt _ _ allowed hp h =>
    cases allowed with
    | false => cases hc
    | true =>
      cases hc
      obtain ⟨lease, hl, rfl, hcov⟩ := hw c (by rw [hp]; rfl)
      rw [hp] at hcov
      exact ⟨lease, h.lease_mono hl, rfl, hcov⟩
  | finish => cases hc
  | move h =>
    obtain ⟨lease, hl, rfl, hcov⟩ := hw c (h.claim?.symm.trans hc)
    exact ⟨lease, hl, rfl, h.covered ht hcov⟩
  | deliver hp =>
    cases hc
    obtain ⟨lease, hl, rfl, hcov⟩ := hw c (by rw [hp]; rfl)
    refine ⟨lease, hl, rfl, ?_⟩
    rw [hp] at hcov ht
    simp only [Phase.Covered, Phase.InTime] at *
    lia
  | post hp =>
    cases hc
    obtain ⟨lease, hl, rfl, hcov⟩ := hw c (by rw [hp]; rfl)
    rw [hp] at hcov
    exact ⟨lease, hl, rfl, hcov⟩

end

namespace World

variable {P Q : Type} {handlers : String → ExternalOutboxHandler P Q} {w w' : World P Q} {a : Act P}
  {i : Nat} {c : Claim}

/-- The sections of the workers started in time for their leases. -/
def Covered (w : World P Q) : Prop :=
  ∀ i c, w.Holds i c → ∃ lease ∈ w.repo.issued, lease.claim = c ∧
    (w.workers i).phase.Covered (w.workers i).settings lease.expiresAt

/-- The claim is the one on its row, or its lease is over. -/
def Guarded (w : World P Q) (c : Claim) : Prop :=
  (∃ row, w.repo.db.message c.messageId = some row ∧ row.claimToken = some c.token ∧
    row.status = .processing) ∨
  ∃ lease ∈ w.repo.issued, lease.claim = c ∧ lease.expiresAt ≤ w.repo.clock

theorem Step.covered (h : Step handlers w a w') (hw : w.Leased) (ht : w.Timely)
    (hcov : w.Covered) : w'.Covered := by
  intro i c hc
  cases h with
  | outside _ h =>
    obtain ⟨lease, hl, he, hcov⟩ := hcov i c hc
    exact ⟨lease, h.lease_mono hl, he, hcov⟩
  | @work k l entries s worker h =>
    by_cases hk : i = k
    · subst hk
      simp only [Holds, Function.update_self] at hc ⊢
      exact h.covered hw.fenced.keyed (ht i) (hcov i) hc
    · simp only [Holds, Function.update_of_ne hk] at hc ⊢
      obtain ⟨lease, hl, he, hcov⟩ := hcov i c hc
      exact ⟨lease, Step.issued_mono (.work h) hl, he, hcov⟩

/-- A row under the claim of a worker is moved by that worker, or after the lease. -/
theorem Step.guarded (h : Step handlers w a w') (hw : w.Leased)
    (hg : ∀ i c, w.Holds i c → w.Guarded c) (hc : w'.Holds i c) : w'.Guarded c := by
  have hk := hw.fenced.keyed
  rcases h.holds hc with hold | ⟨reads, -, hcl⟩
  swap
  · obtain ⟨-, -, row, -, he, hrow⟩ := hcl.claimed hk
    exact .inl ⟨_, hrow, by rw [he]; rfl, rfl⟩
  rcases hg i c hold with ⟨row, hrow, ht, hst⟩ | ⟨lease, hl, he, hexp⟩
  swap
  · exact .inr ⟨lease, h.issued_mono hl, he, le_trans hexp h.clock_le⟩
  obtain ⟨row', hrow', rfl | ⟨l, hl, hcom, hm⟩⟩ := h.row hk hrow
  · exact .inl ⟨_, hrow', ht, hst⟩
  obtain ⟨lease, hfind, htok, hexp⟩ := hw.fenced.held hrow ht
  have hmem := List.mem_of_find?_eq_some hfind
  have hclaim : lease.claim = c := hw.fenced.claim_eq ⟨lease, hmem, rfl⟩ (hw.issued hold) htok
  -- once another claim may take the row, the lease on it is over
  have hover : ∀ now, now ≤ w.repo.clock → atMost row.leaseExpiresAt now = true → w'.Guarded c := by
    intro now hnow hle
    rw [hexp, atMost_some, decide_eq_true_eq] at hle
    exact .inr ⟨lease, h.issued_mono hmem, hclaim, le_trans hle (le_trans hnow h.clock_le)⟩
  have hidle : (w'.workers i).phase ≠ .idle := by
    intro hp
    rw [Holds, hp] at hc
    cases hc
  rcases hcom with ⟨-, ho⟩ | ⟨k, ha, hcalls⟩
  · cases hm with
    | replayed _ hdead => simp [hst] at hdead
    | _ => cases ho
  · cases hm with
    | claim hm =>
      have hnow := hl.reads_le
      cases hm with
      | swept hsw =>
        simp only [sweepable, hst, Bool.and_eq_true, Bool.or_eq_true] at hsw
        exact hover _ hnow (by simpa using hsw.1.2)
      | tooOld hcl | leased hcl =>
        simp only [claimable, hst, Bool.and_eq_true, Bool.or_eq_true] at hcl
        exact hover _ hnow (by simpa using hcl.1.1.2)
    | contentChanged howns | bindExpired howns =>
      obtain ⟨d, hp, -⟩ := hcalls
      obtain rfl := hw.self hold (by rw [Holds, hp]; rfl) ht howns
      exact absurd (h.idle ha rfl) hidle
    | bound => exact .inl ⟨_, hrow', ht, hst⟩
    | finished howns =>
      obtain rfl := hw.self hold (by rw [Holds, show _ = _ from hcalls]; rfl) ht howns
      exact absurd (h.idle ha trivial) hidle
    | _ => cases hcalls

/-- The invariant of timely workers. -/
structure Exclusive (w : World P Q) : Prop where
  leased : w.Leased
  timely : w.Timely
  covered : w.Covered
  guarded : ∀ i c, w.Holds i c → w.Guarded c

theorem Initial.exclusive (h : w.Initial) : w.Exclusive where
  leased := h.leased
  timely i := by
    rw [h.idle]
    trivial
  covered i c hc := by
    rw [Holds, h.idle] at hc
    cases hc
  guarded i c hc := by
    rw [Holds, h.idle] at hc
    cases hc

theorem TimelyStep.exclusive (h : TimelyStep handlers w a w') (hw : w.Exclusive) :
    w'.Exclusive where
  leased := h.1.leased hw.leased
  timely := h.2
  covered := h.1.covered hw.leased hw.timely hw.covered
  guarded _ _ hc := h.1.guarded hw.leased hw.guarded hc

/-- A worker inside `deliver` is there before its lease is over. -/
theorem Exclusive.lt {d : PreparedDelivery P} {startedAt : Time} {posts : List Q}
    (hw : w.Exclusive) (hp : (w.workers i).phase = .delivering c d startedAt posts) {lease : Lease}
    (hl : lease ∈ w.repo.issued) (he : lease.claim = c) : w.repo.clock < lease.expiresAt := by
  obtain ⟨lease', hl', he', hcov⟩ := hw.covered i c (by rw [Holds, hp]; rfl)
  have hsame : lease' = lease := hw.leased.fenced.lease_eq hl' hl (by rw [he, he'])
  have ht := hw.timely i
  rw [hp] at hcov ht
  exact hsame ▸ hcov.lt ht

/-- **No two workers submit one message at once.** In every state of a run in which every section
stays inside its bound, a worker inside `deliver` is there strictly before the end of its lease, so
`deliver` returns before it; and no two workers are inside `deliver` for the same message. -/
theorem exclusive_delivery {w₀ : World P Q} {tr : List (Act P)} (h₀ : w₀.Initial)
    (run : Lts.Run (TimelyStep handlers) w₀ tr w) :
    (∀ i c d startedAt posts, (w.workers i).phase = .delivering c d startedAt posts →
      ∃ lease ∈ w.repo.issued, lease.claim = c ∧ w.repo.clock < lease.expiresAt) ∧
    ∀ i j c c' d d' startedAt startedAt' posts posts',
      (w.workers i).phase = .delivering c d startedAt posts →
      (w.workers j).phase = .delivering c' d' startedAt' posts' →
      c.messageId = c'.messageId → i = j := by
  have hw : w.Exclusive := run.invariant (fun hw h => h.exclusive hw) h₀.exclusive
  -- the row of a message that is being delivered carries the claim of the worker
  have hrow : ∀ {i c d startedAt posts}, (w.workers i).phase = .delivering c d startedAt posts →
      ∃ row, w.repo.db.message c.messageId = some row ∧ row.claimToken = some c.token := by
    intro i c d startedAt posts hp
    rcases hw.guarded i c (by rw [Holds, hp]; rfl) with ⟨row, hrow, ht, -⟩ | ⟨lease, hl, he, hexp⟩
    · exact ⟨row, hrow, ht⟩
    · have := hw.lt hp hl he
      lia
  refine ⟨fun i c d startedAt posts hp => ?_, ?_⟩
  · obtain ⟨lease, hl, he, -⟩ := hw.covered i c (by rw [Holds, hp]; rfl)
    exact ⟨lease, hl, he, hw.lt hp hl he⟩
  · intro i j c c' d d' startedAt startedAt' posts posts' hp hp' hid
    obtain ⟨row, h1, ht⟩ := hrow hp
    obtain ⟨row', h2, ht'⟩ := hrow hp'
    rw [hid, h2] at h1
    obtain rfl := Option.some.inj h1
    exact hw.leased.distinct (by rw [Holds, hp]; rfl) (by rw [Holds, hp']; rfl)
      (Option.some.inj (ht.symm.trans ht'))

/-- The `deliver` of the fixture, twenty seconds after it started. -/
def lateDelivery : World Unit Unit :=
  { Fixture.firstDelivery with repo := { Fixture.boundRepo with clock := seconds 20 } }

/-- At the very end of its bound `deliver` still runs under the lease. -/
theorem exclusive_delivery_late : ∃ lease ∈ lateDelivery.repo.issued,
    lease.claim = Fixture.claim 1 1 ∧ lateDelivery.repo.clock < lease.expiresAt := by
  have htick : TimelyStep Fixture.handlers Fixture.firstDelivery (.outside (.tick (seconds 20)))
      lateDelivery := by
    refine ⟨.outside rfl (.tick (by decide)), fun i => ?_⟩
    by_cases hi : i = 0
    · subst hi
      show (Phase.delivering _ _ _ _ : Phase Unit Unit).InTime {} (seconds 20)
      decide
    · simp [lateDelivery, Fixture.firstDelivery, Fixture.world, Function.update_of_ne hi,
        Fixture.worker, Phase.InTime]
  obtain ⟨tr, run⟩ := Fixture.firstDelivery_run
  exact (exclusive_delivery Fixture.world_initial (run.snoc htick)).1 0 _ _ _ _ rfl

end World

end Ekumidayomi
