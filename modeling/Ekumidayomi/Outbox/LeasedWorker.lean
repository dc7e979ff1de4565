import Ekumidayomi.Outbox.Fencing

/-!
# Worker processes around the leased repository

`outbox/leased_worker.py`. A `World` is the outbox with any number of `LeasedOutboxWorker`
processes, each at one point of `process_one` (`Phase`). A step is one transaction of a worker, one
move of a worker between transactions, a POST of a running `deliver`, a process that dies and is
started again, with other settings perhaps, or something outside the workers: the clock, a new
message, a replay or a resume. All clocks are the database's. A worker that leaves one bounded
section enters the next at the same instant.

Beside that the state keeps a record that no step reads: the `deliver` calls so far, the requests
they posted and the results that a `finish` applied.
-/

namespace Ekumidayomi

/-- `ExternalOutboxHandler`: what `prepare` may return for an event, the requests a running
`deliver` may have posted, and what it may then return. -/
structure ExternalOutboxHandler (P Q : Type) where
  prepare : DomainEvent → Preparation P → Prop
  submits : PreparedDelivery P → Dict → List Q → Prop
  returns : PreparedDelivery P → Dict → List Q → DeliveryOutcome → Prop

/-- Where a worker stands in `process_one`. -/
inductive Phase (P Q : Type)
  | idle
  /-- In the unit of work of `claim`, opened at `openedAt`. -/
  | claiming (openedAt : Time)
  /-- The claim is committed and its unit of work is still open. -/
  | claimed (openedAt : Time) (claim : Claim)
  | preparing (claim : Claim) (startedAt : Time)
  /-- In the unit of work of `bind`. -/
  | binding (claim : Claim) (prepared : PreparedDelivery P) (openedAt : Time)
  /-- `bind` returned `True` and its unit of work is still open. -/
  | bound (claim : Claim) (prepared : PreparedDelivery P) (openedAt : Time)
  | delivering (claim : Claim) (prepared : PreparedDelivery P) (startedAt : Time) (posts : List Q)
  /-- In the unit of work of `finish`. -/
  | finalizing (claim : Claim) (result : DeliveryOutcome) (openedAt : Time)

/-- The claim a worker works on. -/
def Phase.claim? {P Q : Type} : Phase P Q → Option Claim
  | .idle | .claiming _ => none
  | .claimed _ c | .preparing c _ | .binding c _ _ | .bound c _ _ | .delivering c _ _ _
  | .finalizing c _ _ => some c

/-- The bound of a unit of work: `asyncio.timeout(15)` in `delivery_worker.factory`. -/
def unitOfWorkSeconds : Nat := 15

/-- The section a worker is in has not run longer than its bound. -/
def Phase.InTime {P Q : Type} (settings : OutboxWorkerSettings) (clock : Time) : Phase P Q → Prop
  | .idle | .finalizing _ _ _ => True
  | .claiming openedAt | .claimed openedAt _ | .binding _ _ openedAt | .bound _ _ openedAt =>
    clock ≤ openedAt + seconds unitOfWorkSeconds
  | .preparing _ startedAt => clock ≤ startedAt + seconds settings.prepareSeconds
  | .delivering _ _ startedAt _ => clock ≤ startedAt + seconds settings.sendSeconds

instance {P Q : Type} (settings : OutboxWorkerSettings) (clock : Time) :
    (phase : Phase P Q) → Decidable (phase.InTime settings clock)
  | .idle | .finalizing _ _ _ => inferInstanceAs (Decidable True)
  | .claiming _ | .claimed _ _ | .binding _ _ _ | .bound _ _ _ | .preparing _ _
  | .delivering _ _ _ _ => inferInstanceAs (Decidable (_ ≤ _))

/-- What a `LeasedOutboxWorker` is built with; `eventTypes` are the keys of its handlers. -/
structure WorkerConfig where
  group : String := "auth_email"
  eventTypes : List String
  settings : OutboxWorkerSettings
  registered : eventTypes ≠ [] := by decide

/-- `LeasedOutboxWorker`, at one point of its loop. -/
structure LeasedOutboxWorker (P Q : Type) extends WorkerConfig where
  phase : Phase P Q := .idle

/-- A call of `deliver`. -/
structure Delivery (P : Type) where
  claim : Claim
  prepared : PreparedDelivery P
  startedAt : Time

/-- An entry of the record: `deliver` was called, a request was posted, or a `finish` with the token
and an outcome of the kind returned `True`. -/
inductive Entry (P Q : Type)
  | delivered (call : Delivery P)
  | posted (request : Q)
  | applied (token : UUID) (kind : OutcomeKind)

/-- The outbox, the workers, and the record of what they did, the newest first. -/
structure World (P Q : Type) where
  repo : Repo
  workers : Nat → LeasedOutboxWorker P Q
  record : List (Entry P Q) := []

/-! ## What a worker does between its transactions -/

/-- `DeliveryOutcome(OutcomeKind.PERMANENT, "invalid_event")`. -/
def invalidEvent : DeliveryOutcome := { kind := .permanent, code := "invalid_event" }

/-- `DeliveryOutcome(OutcomeKind.RETRY, "preparation_timeout")`. -/
def preparationTimeout : DeliveryOutcome := { kind := .retry, code := "preparation_timeout" }

/-- `DeliveryOutcome(OutcomeKind.SKIPPED, "no_longer_eligible")`. -/
def noLongerEligible : DeliveryOutcome := { kind := .skipped, code := "no_longer_eligible" }

/-- `DeliveryOutcome(OutcomeKind.UNCERTAIN, "submission_timeout")`. -/
def submissionTimeout : DeliveryOutcome := { kind := .uncertain, code := "submission_timeout" }

/-- `DeliveryOutcome(OutcomeKind.BLOCKED, "handler_failure")`. -/
def handlerFailure : DeliveryOutcome := { kind := .blocked, code := "handler_failure" }

section
variable {P Q : Type} (handlers : String → ExternalOutboxHandler P Q)

/-- The moves of `process_one` at the instant `clock` that neither commit nor start `deliver`. A
`TimeoutError` of `prepare` or `deliver` may come from the handler itself, so it is not tied to the
bound of the section. -/
inductive LocalMove (clock : Time) : Phase P Q → Phase P Q → Prop
  | openClaim : LocalMove clock .idle (.claiming clock)
  | invalidEvent {openedAt : Time} {c : Claim} : c.event = none →
      LocalMove clock (.claimed openedAt c) (.finalizing c invalidEvent clock)
  | startPrepare {openedAt : Time} {c : Claim} : c.event ≠ none →
      LocalMove clock (.claimed openedAt c) (.preparing c clock)
  | prepared {c : Claim} {startedAt : Time} {event : DomainEvent} {d : PreparedDelivery P} :
      c.event = some event → (handlers event.eventType).prepare event (.prepared d) →
      LocalMove clock (.preparing c startedAt) (.binding c d clock)
  | refused {c : Claim} {startedAt : Time} {event : DomainEvent} {result : DeliveryOutcome} :
      c.event = some event → (handlers event.eventType).prepare event (.outcome result) →
      LocalMove clock (.preparing c startedAt) (.finalizing c result clock)
  | preparationTimeout {c : Claim} {startedAt : Time} :
      LocalMove clock (.preparing c startedAt) (.finalizing c preparationTimeout clock)
  | noLongerEligible {c : Claim} {d : PreparedDelivery P} {openedAt : Time} :
      min d.expiresAt c.deadline ≤ clock →
      LocalMove clock (.bound c d openedAt) (.finalizing c noLongerEligible clock)
  | returned {c : Claim} {d : PreparedDelivery P} {startedAt : Time} {posts : List Q}
      {event : DomainEvent} {result : DeliveryOutcome} : c.event = some event →
      (handlers event.eventType).returns d c.receipts posts result →
      LocalMove clock (.delivering c d startedAt posts) (.finalizing c result clock)
  | submissionTimeout {c : Claim} {d : PreparedDelivery P} {startedAt : Time} {posts : List Q} :
      LocalMove clock (.delivering c d startedAt posts) (.finalizing c submissionTimeout clock)
  | handlerFailure {c : Claim} {d : PreparedDelivery P} {startedAt : Time} {posts : List Q} :
      LocalMove clock (.delivering c d startedAt posts) (.finalizing c handlerFailure clock)

/-- What a worker does in one step: the transaction it commits, if any, and the entries it leaves in
the record, with the outbox and the worker before and after. A process may die at any point and be
started again with another configuration. -/
inductive WorkerStep : Repo → LeasedOutboxWorker P Q → Option (Txn P) → List (Entry P Q) → Repo →
    LeasedOutboxWorker P Q → Prop
  | start {repo : Repo} {worker : LeasedOutboxWorker P Q} {config : WorkerConfig} :
      WorkerStep repo worker none [] repo { config with phase := .idle }
  | claim {repo repo' : Repo} {worker : LeasedOutboxWorker P Q} {openedAt : Time}
      {reads : ClaimReads} {result : Option Claim} : worker.phase = .claiming openedAt →
      openedAt ≤ reads.now →
      Repo.Step (P := P) repo (.claim worker.group worker.eventTypes worker.settings reads result)
        repo' →
      WorkerStep repo worker
        (some (.claim worker.group worker.eventTypes worker.settings reads result)) [] repo'
        { worker with phase := result.elim .idle (.claimed openedAt) }
  | bind {repo repo' : Repo} {worker : LeasedOutboxWorker P Q} {c : Claim}
      {d : PreparedDelivery P} {openedAt ownedAt now : Time} {allowed : Bool} :
      worker.phase = .binding c d openedAt →
      Repo.Step (P := P) repo
        (.bind worker.group c d.fingerprint d.expiresAt openedAt ownedAt now allowed) repo' →
      WorkerStep repo worker
        (some (.bind worker.group c d.fingerprint d.expiresAt openedAt ownedAt now allowed)) []
        repo' { worker with phase := if allowed then .bound c d openedAt else .idle }
  | finish {repo repo' : Repo} {worker : LeasedOutboxWorker P Q} {c : Claim}
      {result : DeliveryOutcome} {jitter : Nat} {delay : Int} {openedAt ownedAt now : Time}
      {applied : Bool} : worker.phase = .finalizing c result openedAt →
      nextDelay c.attempts result worker.settings jitter = some delay →
      Repo.Step (P := P) repo
        (.finish worker.group c result delay openedAt ownedAt now applied) repo' →
      WorkerStep repo worker
        (some (.finish worker.group c result delay openedAt ownedAt now applied))
        (if applied then [.applied c.token result.kind] else []) repo'
        { worker with phase := .idle }
  | move {repo : Repo} {worker : LeasedOutboxWorker P Q} {phase : Phase P Q} :
      LocalMove handlers repo.clock worker.phase phase →
      WorkerStep repo worker none [] repo { worker with phase }
  | deliver {repo : Repo} {worker : LeasedOutboxWorker P Q} {c : Claim} {d : PreparedDelivery P}
      {openedAt : Time} : worker.phase = .bound c d openedAt →
      repo.clock < min d.expiresAt c.deadline →
      WorkerStep repo worker none [.delivered ⟨c, d, repo.clock⟩] repo
        { worker with phase := .delivering c d repo.clock [] }
  | post {repo : Repo} {worker : LeasedOutboxWorker P Q} {c : Claim} {d : PreparedDelivery P}
      {startedAt : Time} {posts : List Q} {q : Q} {event : DomainEvent} :
      worker.phase = .delivering c d startedAt posts → c.event = some event →
      (handlers event.eventType).submits d c.receipts (posts ++ [q]) →
      WorkerStep repo worker none [.posted q] repo
        { worker with phase := .delivering c d startedAt (posts ++ [q]) }

end

/-- The transaction of `claim` that a worker calls. -/
def LeasedOutboxWorker.claimTxn {P Q : Type} (worker : LeasedOutboxWorker P Q) (reads : ClaimReads)
    (result : Option Claim) : Txn P :=
  .claim worker.group worker.eventTypes worker.settings reads result

/-- The transactions a worker calls at its point of `process_one`. -/
def LeasedOutboxWorker.Calls {P Q : Type} (worker : LeasedOutboxWorker P Q) : Txn P → Prop
  | .claim _ eventTypes settings reads _ => eventTypes = worker.eventTypes ∧
      settings = worker.settings ∧ ∃ openedAt, worker.phase = .claiming openedAt ∧
        openedAt ≤ reads.now
  | .bind _ c fingerprint expiresAt openedAt _ _ _ =>
      ∃ d, worker.phase = .binding c d openedAt ∧ fingerprint = d.fingerprint ∧
        expiresAt = d.expiresAt
  | .finish _ c result _ openedAt _ _ _ => worker.phase = .finalizing c result openedAt
  | _ => False

/-- What happens outside the workers: the clock, a new message, a replay or a resume. -/
def Txn.isOutside {P : Type} : Txn P → Bool
  | .tick _ | .add .. | .replay .. | .resume _ => true
  | _ => false

/-- The label of a step: who moved, and the transaction that was committed. -/
inductive Act (P : Type)
  | outside (txn : Txn P)
  | work (worker : Nat) (txn : Option (Txn P))

/-- The step commits a `finish`. -/
def Act.isFinish {P : Type} : Act P → Bool
  | .work _ (some (.finish ..)) => true
  | _ => false

namespace World

variable {P Q : Type}

/-- One step of the workers and of what surrounds them. -/
inductive Step (handlers : String → ExternalOutboxHandler P Q) :
    World P Q → Act P → World P Q → Prop
  | outside {w : World P Q} {l : Txn P} {repo : Repo} : l.isOutside = true →
      Repo.Step w.repo l repo → Step handlers w (.outside l) { w with repo }
  | work {w : World P Q} {i : Nat} {l : Option (Txn P)} {entries : List (Entry P Q)} {repo : Repo}
      {worker : LeasedOutboxWorker P Q} :
      WorkerStep handlers w.repo (w.workers i) l entries repo worker →
      Step handlers w (.work i l)
        { repo, workers := Function.update w.workers i worker, record := entries ++ w.record }

/-- Nobody has claimed or delivered anything yet. -/
structure Initial (w : World P Q) : Prop where
  repo : w.repo.Initial
  unbound : ∀ row ∈ w.repo.db.messages, row.deliveryFingerprint = none ∧ row.deadlineAt = none
  idle : ∀ i, (w.workers i).phase = .idle
  record : w.record = []

/-- Every worker is inside the bound of its section. -/
def Timely (w : World P Q) : Prop :=
  ∀ i, (w.workers i).phase.InTime (w.workers i).settings w.repo.clock

/-- A step after which every worker is still inside its bound. -/
def TimelyStep (handlers : String → ExternalOutboxHandler P Q) (w : World P Q) (a : Act P)
    (w' : World P Q) : Prop := Step handlers w a w' ∧ w'.Timely

/-- The worker `i` holds the claim `c`. -/
def Holds (w : World P Q) (i : Nat) (c : Claim) : Prop := (w.workers i).phase.claim? = some c

/-- `deliver` was called so. -/
def Delivered (w : World P Q) (d : Delivery P) : Prop := .delivered d ∈ w.record

end World

section
variable {P Q : Type} {handlers : String → ExternalOutboxHandler P Q}

/-- A move between transactions keeps the claim a worker holds. -/
theorem LocalMove.claim? {clock : Time} {phase phase' : Phase P Q}
    (h : LocalMove handlers clock phase phase') : phase'.claim? = phase.claim? := by
  cases h <;> rfl

variable {s s' : Repo} {worker worker' : LeasedOutboxWorker P Q} {l : Option (Txn P)}
  {entries : List (Entry P Q)} {c : Claim}

/-- A worker's step is a transaction that it calls, or leaves the outbox alone. -/
theorem WorkerStep.txn (h : WorkerStep handlers s worker l entries s' worker') :
    (l = none ∧ s' = s) ∨ ∃ txn, l = some txn ∧ Repo.Step s txn s' ∧ worker.Calls txn := by
  cases h with
  | claim hp hle h => exact .inr ⟨_, rfl, h, rfl, rfl, _, hp, hle⟩
  | bind hp h => exact .inr ⟨_, rfl, h, _, hp, rfl, rfl⟩
  | finish hp _ h => exact .inr ⟨_, rfl, h, hp⟩
  | start | move | deliver | post => exact .inl ⟨rfl, rfl⟩

/-- A worker holds a claim that it held before, or the one its transaction just returned. -/
theorem WorkerStep.holds (h : WorkerStep handlers s worker l entries s' worker')
    (hc : worker'.phase.claim? = some c) : worker.phase.claim? = some c ∨
      ∃ reads, l = some (worker.claimTxn reads (some c)) ∧
        Repo.Step s (worker.claimTxn (P := P) reads (some c)) s' := by
  cases h with
  | start => cases hc
  | @claim _ _ _ reads result _ _ h =>
    cases result with
    | none => cases hc
    | some c' =>
      cases hc
      exact .inr ⟨reads, rfl, h⟩
  | @bind _ _ c' _ _ _ _ allowed hp h =>
    cases allowed with
    | false => cases hc
    | true => exact .inl (by rw [hp]; exact hc)
  | finish => cases hc
  | move h => exact .inl (h.claim?.symm.trans hc)
  | deliver hp | post hp => exact .inl (by rw [hp]; exact hc)

/-- A `deliver` call starts right after a bind, before the deadline and the end of its purpose. -/
theorem WorkerStep.delivered (h : WorkerStep handlers s worker l entries s' worker')
    {call : Delivery P} (hc : .delivered call ∈ entries) :
    (∃ openedAt, worker.phase = .bound call.claim call.prepared openedAt) ∧
      call.startedAt = s.clock ∧ s.clock < min call.prepared.expiresAt call.claim.deadline := by
  cases h with
  | deliver hp hlt =>
    cases List.mem_singleton.1 hc
    exact ⟨⟨_, hp⟩, rfl, hlt⟩
  | @finish _ _ _ _ _ _ _ _ _ applied => cases applied <;> simp at hc
  | post => simp at hc
  | start | claim | bind | move => cases hc

end

section
variable {P : Type} {s s' : Repo} {l : Txn P}

theorem Repo.Step.clock_le (h : Step s l s') : s.clock ≤ s'.clock := by
  cases h with
  | tick h => exact h
  | @claim _ _ _ _ _ result => cases result <;> exact le_refl _
  | _ => exact le_refl _

theorem Repo.Step.lease_mono (h : Step s l s') {lease : Lease} (hl : lease ∈ s.issued) :
    lease ∈ s'.issued := by
  rcases h.issued with hi | ⟨_, _, _, _, _, -, -, -, hi⟩
  · exact hi ▸ hl
  · exact hi ▸ List.mem_cons_of_mem _ hl

/-- A lease after a step was there before, or the step is the claim transaction that gave it. -/
theorem Repo.Step.lease_inv (h : Step s l s') {lease : Lease} (hl : lease ∈ s'.issued) :
    lease ∈ s.issued ∨ ∃ group eventTypes settings reads,
      l = .claim group eventTypes settings reads (some lease.claim) := by
  rcases h.issued with hi | ⟨group, eventTypes, settings, reads, c, rfl, -, -, hi⟩
  · exact .inl (hi ▸ hl)
  · rw [hi, List.mem_cons] at hl
    rcases hl with rfl | hl
    · exact .inr ⟨group, eventTypes, settings, reads, rfl⟩
    · exact .inl hl

/-- The clock a claim reads is not ahead of the database. -/
theorem Repo.Step.reads_le {group : String} {eventTypes : List String}
    {settings : OutboxWorkerSettings} {reads : ClaimReads} {result : Option Claim}
    (h : Step (P := P) s (.claim group eventTypes settings reads result) s') :
    reads.now ≤ s.clock := by
  cases h with
  | claim h => exact h

/-- A claim transaction hands out the claim it returns, under a fresh token, for the row it
leases. -/
theorem Repo.Step.claimed {group : String} {eventTypes : List String}
    {settings : OutboxWorkerSettings} {reads : ClaimReads} {c : Claim} (hk : s.db.Keyed)
    (h : Step (P := P) s (.claim group eventTypes settings reads (some c)) s') :
    c.token ∉ s.tokens ∧ s'.issued = ⟨c, reads.now + seconds settings.leaseSeconds⟩ :: s.issued ∧
    ∃ row, s.db.message c.messageId = some row ∧
      c = (row.lease reads.now settings reads.token).toClaim
        (claimDeadline row reads.now settings) reads.token ∧
      s'.db.message c.messageId = some (row.lease reads.now settings reads.token) := by
  cases h with
  | claim _ hfresh h =>
    obtain ⟨row, hrow, -, -, hc, hrow'⟩ := Repo.claim_eq_some hk h
    exact ⟨by rw [hc]; exact hfresh, rfl, row, hrow, hc, hrow'⟩

end

namespace World

variable {P Q : Type} {handlers : String → ExternalOutboxHandler P Q} {w w' : World P Q} {a : Act P}
  {i j : Nat} {c c' : Claim}

/-- The transaction of a step comes from outside, or from the worker that calls it. -/
def Commits (w : World P Q) (a : Act P) (l : Txn P) : Prop :=
  (a = .outside l ∧ l.isOutside = true) ∨ ∃ k, a = .work k (some l) ∧ (w.workers k).Calls l

/-- A step is a transaction of the outbox, or leaves it alone. -/
theorem Step.txn (h : Step handlers w a w') :
    w'.repo = w.repo ∨ ∃ l, Repo.Step w.repo l w'.repo ∧ w.Commits a l := by
  cases h with
  | outside ho h => exact .inr ⟨_, h, .inl ⟨rfl, ho⟩⟩
  | work h =>
    rcases h.txn with ⟨-, he⟩ | ⟨l, rfl, h, hc⟩
    · exact .inl he
    · exact .inr ⟨l, h, .inr ⟨_, rfl, hc⟩⟩

/-- **What a step does to a row**: it leaves the row alone, or its transaction moves it. -/
theorem Step.row (h : Step handlers w a w') (hk : w.repo.db.Keyed) {id : UUID} {row : OutboxMessage}
    (hrow : w.repo.db.message id = some row) :
    ∃ row', w'.repo.db.message id = some row' ∧ (row' = row ∨ ∃ l, Repo.Step w.repo l w'.repo ∧
      w.Commits a l ∧ RowMove w.repo.db l row row') := by
  rcases h.txn with he | ⟨l, h, hc⟩
  · exact ⟨row, he ▸ hrow, .inl rfl⟩
  · obtain ⟨row', hrow', hm⟩ := h.message hk hrow
    exact ⟨row', hrow', hm.imp_right fun hm => ⟨l, h, hc, hm⟩⟩

/-- A row after a step was there before, or it is a new one without claim or deadline. -/
theorem Step.row_inv (h : Step handlers w a w') (hk : w.repo.db.Keyed) {id : UUID}
    {row' : OutboxMessage} (hrow' : w'.repo.db.message id = some row') :
    (∃ row, w.repo.db.message id = some row ∧ (row' = row ∨ ∃ l, Repo.Step w.repo l w'.repo ∧
      w.Commits a l ∧ RowMove w.repo.db l row row')) ∨
    (row'.claimToken = none ∧ row'.deadlineAt = none ∧ row'.deliveryFingerprint = none ∧
      w.repo.db.message id = none) := by
  cases hold : w.repo.db.message id with
  | some row =>
    obtain ⟨r, hr, hm⟩ := h.row hk hold
    obtain rfl := Option.some.inj (hr.symm.trans hrow')
    exact .inl ⟨row, rfl, hm⟩
  | none =>
    refine .inr ?_
    rcases h.txn with he | ⟨l, h, -⟩
    · rw [he, hold] at hrow'
      cases hrow'
    · rcases h.message_inv hk hrow' with ⟨row, hrow, -⟩ | ⟨-, -, h1, -, h2, h3, -⟩
      · rw [hold] at hrow
        cases hrow
      · exact ⟨h1, h3, h2, rfl⟩

/-- What a step adds to the record of the `deliver` calls: one that starts now, right after a bind,
before the deadline and the end of its purpose. -/
theorem Step.delivered (h : Step handlers w a w') {call : Delivery P} (hc : w'.Delivered call) :
    w.Delivered call ∨
      ((∃ i openedAt, (w.workers i).phase = .bound call.claim call.prepared openedAt) ∧
      call.startedAt = w.repo.clock ∧
      w.repo.clock < min call.prepared.expiresAt call.claim.deadline) := by
  cases h with
  | outside => exact .inl hc
  | @work k l entries s worker h =>
    rcases List.mem_append.1 hc with hc | hc
    · exact .inr ((h.delivered hc).imp_left fun hp => ⟨k, hp⟩)
    · exact .inl hc

theorem Step.fenced (h : Step handlers w a w') (hw : w.repo.Fenced) : w'.repo.Fenced := by
  rcases h.txn with he | ⟨l, h, -⟩
  · rwa [he]
  · exact h.fenced hw

theorem Step.issued_mono (h : Step handlers w a w') {lease : Lease}
    (hl : lease ∈ w.repo.issued) : lease ∈ w'.repo.issued := by
  rcases h.txn with he | ⟨l, h, -⟩
  · rwa [he]
  · exact h.lease_mono hl

theorem Step.clock_le (h : Step handlers w a w') : w.repo.clock ≤ w'.repo.clock := by
  rcases h.txn with he | ⟨l, h, -⟩
  · rw [he]
  · exact h.clock_le

/-- A worker whose `bind` was refused, or who finished, goes back to polling. -/
theorem Step.idle (h : Step handlers w a w') {l : Txn P} (ha : a = .work i (some l))
    (hl : match l with
      | .bind _ _ _ _ _ _ _ allowed => allowed = false
      | .finish .. => True
      | _ => False) : (w'.workers i).phase = .idle := by
  cases ha
  cases h with
  | work h =>
    simp only [Function.update_self]
    cases h with
    | claim => cases hl
    | bind =>
      cases hl
      rfl
    | finish => rfl

/-- The invariant of the workers: the claims they hold were handed out, one to each. -/
structure Leased (w : World P Q) : Prop where
  fenced : w.repo.Fenced
  issued : ∀ {i c}, w.Holds i c → w.repo.IsIssued c
  distinct : ∀ {i j c c'}, w.Holds i c → w.Holds j c' → c.token = c'.token → i = j

theorem Initial.leased (h : w.Initial) : w.Leased where
  fenced := h.repo.fenced
  issued hc := by
    rw [Holds, h.idle] at hc
    cases hc
  distinct hc := by
    rw [Holds, h.idle] at hc
    cases hc

/-- Whoever passes `owned` on a row with the token of a held claim is the worker that holds it. -/
theorem Leased.self (hw : w.Leased) {row : OutboxMessage} {ownedAt : Time} (hi : w.Holds i c)
    (hj : w.Holds j c') (ht : row.claimToken = some c.token) (howns : owns c' ownedAt row = true) :
    j = i :=
  hw.distinct hj hi (Option.some.inj ((owns_iff.1 howns).2.1.symm.trans ht))

/-- A worker holds a claim that it held before, or its own transaction just returned it. -/
theorem Step.holds (h : Step handlers w a w') (hc : w'.Holds i c) : w.Holds i c ∨
    ∃ reads, a = .work i (some ((w.workers i).claimTxn reads (some c))) ∧
      Repo.Step w.repo ((w.workers i).claimTxn (P := P) reads (some c)) w'.repo := by
  cases h with
  | outside => exact .inl hc
  | @work k l entries s worker h =>
    by_cases hk : i = k
    · subst hk
      simp only [Holds, Function.update_self] at hc
      rcases h.holds hc with hc | ⟨reads, rfl, hcl⟩
      · exact .inl hc
      · exact .inr ⟨reads, rfl, hcl⟩
    · simp only [Holds, Function.update_of_ne hk] at hc
      exact .inl hc

theorem Step.leased (h : Step handlers w a w') (hw : w.Leased) : w'.Leased where
  fenced := h.fenced hw.fenced
  issued hc := by
    rcases h.holds hc with hc | ⟨reads, -, h⟩
    · obtain ⟨lease, hl, he⟩ := hw.issued hc
      exact ⟨lease, h.issued_mono hl, he⟩
    · obtain ⟨-, hi, -⟩ := h.claimed hw.fenced.keyed
      exact ⟨_, hi ▸ List.mem_cons_self, rfl⟩
  distinct {i j c c'} hc hc' he := by
    rcases h.holds hc with hc | ⟨reads, rfl, hcl⟩ <;>
      rcases h.holds hc' with hc' | ⟨reads', ha, hcl'⟩
    · exact hw.distinct hc hc' he
    · exact absurd (he ▸ (hw.issued hc).token_mem) (hcl'.claimed hw.fenced.keyed).1
    · exact absurd (he ▸ (hw.issued hc').token_mem) (hcl.claimed hw.fenced.keyed).1
    · cases ha
      rfl

end World

/-! ## One worker on the message of the fixture -/

namespace Fixture

/-- A handler that may prepare, post and return anything. -/
def handlers : String → ExternalOutboxHandler Unit Unit :=
  fun _ => ⟨fun _ _ => True, fun _ _ _ => True, fun _ _ _ _ => True⟩

/-- A prepared delivery that keeps its purpose for ten minutes. -/
def prepared : PreparedDelivery Unit :=
  { payload := (), fingerprint := hexdigest (List.replicate 32 0xab), expiresAt := seconds 600 }

section
variable {P Q : Type}

/-- A worker of the group. -/
def worker (settings : OutboxWorkerSettings) (phase : Phase P Q) : LeasedOutboxWorker P Q :=
  { eventTypes := [challengeEmailEvent], settings, phase }

/-- The first worker is at `phase`, the others are idle. -/
def world (settings : OutboxWorkerSettings) (repo : Repo) (phase : Phase P Q)
    (record : List (Entry P Q)) : World P Q :=
  { repo, record
    workers := Function.update (fun _ => worker default .idle) 0 (worker settings phase) }

theorem world_initial {settings : OutboxWorkerSettings} :
    (world settings repo .idle [] : World P Q).Initial where
  repo := ⟨by simp [world, Outbox.Keyed, Table.Keyed, repo], rfl, by simp [world, repo, message]⟩
  unbound := by simp [world, repo, message]
  idle i := by
    by_cases hi : i = 0
    · subst hi; rfl
    · simp [world, Function.update_of_ne hi, worker]
  record := rfl

variable {handlers : String → ExternalOutboxHandler P Q} {settings settings' : OutboxWorkerSettings}
  {repo repo' : Repo} {phase phase' : Phase P Q} {l : Option (Txn P)}
  {entries record : List (Entry P Q)}

/-- A step of the first worker. -/
theorem world_step
    (h : WorkerStep handlers repo (worker settings phase) l entries repo' (worker settings' phase')) :
    World.Step handlers (world settings repo phase record) (.work 0 l)
      (world settings' repo' phase' (entries ++ record)) := by
  have h' : WorkerStep handlers (world settings repo phase record).repo
      ((world settings repo phase record).workers 0) l entries repo' (worker settings' phase') := h
  have hstep := World.Step.work h'
  simpa only [world, Function.update_idem] using hstep

/-- A step of the first worker that leaves it inside its bound. -/
theorem world_timely
    (h : WorkerStep handlers repo (worker settings phase) l entries repo' (worker settings' phase'))
    (ht : phase'.InTime settings' repo'.clock) :
    World.TimelyStep handlers (world settings repo phase record) (.work 0 l)
      (world settings' repo' phase' (entries ++ record)) := by
  refine ⟨world_step h, fun i => ?_⟩
  by_cases hi : i = 0
  · subst hi
    exact ht
  · simp [world, Function.update_of_ne hi, worker, Phase.InTime]

/-- A timely step that finishes nothing. -/
def OpenStep (handlers : String → ExternalOutboxHandler P Q) (w : World P Q) (a : Act P)
    (w' : World P Q) : Prop := World.TimelyStep handlers w a w' ∧ a.isFinish = false

/-- One attempt of the first worker up to its `deliver`, at one instant: a claim transaction that
returns `c`, a handler that prepares `d`, and a bind that is allowed. -/
theorem attempt (token : UUID) {c : Claim} {d : PreparedDelivery P} {e : DomainEvent}
    {db db' : Outbox} (htok : token ∉ repo.tokens) (he : c.event = some e)
    (hclaim : LeasedOutboxRepository.claim repo.db "auth_email" [challengeEmailEvent] settings
      { now := repo.clock, token } = .ok (db, some c))
    (hprep : (handlers e.eventType).prepare e (.prepared d))
    (hbind : LeasedOutboxRepository.bind db "auth_email" c d.fingerprint d.expiresAt repo.clock
      repo.clock = .ok (db', true))
    (hlt : repo.clock < min d.expiresAt c.deadline) :
    ∃ tr, Lts.Run (OpenStep handlers) (world settings repo .idle record) tr
      (world settings
        { repo with
          db := db', issued := ⟨c, repo.clock + seconds settings.leaseSeconds⟩ :: repo.issued }
        (.delivering c d repo.clock []) (.delivered ⟨c, d, repo.clock⟩ :: record)) := by
  have htime : ∀ n, repo.clock ≤ repo.clock + seconds n := by
    intro n
    simp only [seconds]
    lia
  let claimed : Repo :=
    { repo with db, issued := ⟨c, repo.clock + seconds settings.leaseSeconds⟩ :: repo.issued }
  let claimTxn : Txn P := .claim "auth_email" [challengeEmailEvent] settings
    { now := repo.clock, token } (some c)
  let bindTxn : Txn P := .bind "auth_email" c d.fingerprint d.expiresAt repo.clock repo.clock
    repo.clock true
  have h1 : WorkerStep handlers repo (worker settings .idle) none [] repo
      (worker settings (.claiming repo.clock)) := .move .openClaim
  have hstep : Repo.Step repo claimTxn claimed := .claim (le_refl _) htok hclaim
  have h2 : WorkerStep handlers repo (worker settings (.claiming repo.clock)) (some claimTxn) []
      claimed (worker settings (.claimed repo.clock c)) := .claim rfl (le_refl _) hstep
  have h3 : WorkerStep handlers claimed (worker settings (.claimed repo.clock c)) none [] claimed
      (worker settings (.preparing c repo.clock)) := .move (.startPrepare (by rw [he]; simp))
  have h4 : WorkerStep handlers claimed (worker settings (.preparing c repo.clock)) none [] claimed
      (worker settings (.binding c d repo.clock)) := .move (.prepared he hprep)
  have hbound : Repo.Step claimed bindTxn { claimed with db := db' } :=
    .bind ⟨_, List.mem_cons_self, rfl⟩ (le_refl _) (le_refl _) (le_refl _) hbind
  have h5 : WorkerStep handlers claimed (worker settings (.binding c d repo.clock)) (some bindTxn)
      [] { claimed with db := db' } (worker settings (.bound c d repo.clock)) := .bind rfl hbound
  have h6 : WorkerStep handlers { claimed with db := db' }
      (worker settings (.bound c d repo.clock)) none [.delivered ⟨c, d, repo.clock⟩]
      { claimed with db := db' } (worker settings (.delivering c d repo.clock [])) :=
    .deliver rfl hlt
  exact ⟨_, (((((Lts.Run.nil.snoc ⟨world_timely h1 (htime _), rfl⟩).snoc
    ⟨world_timely h2 (htime _), rfl⟩).snoc ⟨world_timely h3 (htime _), rfl⟩).snoc
    ⟨world_timely h4 (htime _), rfl⟩).snoc ⟨world_timely h5 (htime _), rfl⟩).snoc
    ⟨world_timely h6 (htime _), rfl⟩⟩

end

/-- The message bound by the claim of the first attempt. -/
def boundRepo : Repo :=
  { claimedRepo with
    db :=
      { messages := [(message.lease 0 default 1).bound (seconds 600) prepared.fingerprint]
        controls := [control 0] } }

/-- The first attempt has called `deliver`. -/
def firstDelivery : World Unit Unit :=
  world default boundRepo (.delivering (claim 1 1) prepared 0 []) [.delivered ⟨claim 1 1, prepared, 0⟩]

theorem firstDelivery_run :
    ∃ tr, Lts.Run (World.TimelyStep handlers) (world {} repo .idle []) tr firstDelivery := by
  obtain ⟨tr, run⟩ : ∃ tr, Lts.Run (OpenStep handlers) (world {} repo .idle []) tr firstDelivery :=
    attempt 1 (by decide) rfl claim_repo trivial rfl (by decide)
  exact ⟨tr, run.weaken And.left⟩

end Fixture

end Ekumidayomi
