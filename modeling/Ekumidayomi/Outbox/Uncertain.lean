import Ekumidayomi.Outbox.Binding

/-!
# Attempts whose result is unknown

An attempt that called `deliver` may leave its provider result unknown (`Lost`). When the message
later runs out of attempts or of time (`Exhausted` lists the places where that is decided), every
place but one looks at the fingerprint and makes the row uncertain. `next_status` looks at the
outcome of the last attempt alone: a retry at the end of the budget makes the row dead, and an
attempt skipped past the deadline makes it skipped. Runs without such a finish (`CarefulStep`) keep
the uncertainty (`uncertain_kept`); `uncertain_forgotten` is a run with one.
-/

namespace Ekumidayomi

/-- The row leaves automatic retry because its attempts or its time are used up: in the sweep or the
age check of `claim`, in `bind`, or in `finish` after an outcome that asks for another attempt, or
that skips a message past its deadline. -/
inductive Exhausted {P : Type} : Txn P → OutboxMessage → OutboxMessage → Prop
  | swept {group : String} {eventTypes : List String} {settings : OutboxWorkerSettings}
      {reads : ClaimReads} {result : Option Claim} {row : OutboxMessage} :
      Exhausted (.claim group eventTypes settings reads result) row row.sweep
  | tooOld {group : String} {eventTypes : List String} {settings : OutboxWorkerSettings}
      {reads : ClaimReads} {row : OutboxMessage} {deadline : Time} :
      Exhausted (.claim group eventTypes settings reads none) row (row.tooOld deadline)
  | bindExpired {group : String} {c : Claim} {fingerprint : String}
      {expiresAt calledAt ownedAt now : Time} {row : OutboxMessage} {deadline : Time} :
      Exhausted (.bind group c fingerprint expiresAt calledAt ownedAt now false) row
        (row.bindExpired deadline)
  | retried {group : String} {c : Claim} {result : DeliveryOutcome} {delay : Int}
      {calledAt ownedAt now : Time} {row : OutboxMessage} :
      result.kind = .retry ∨ result.kind = .uncertain →
      row.retryBudget ≤ row.attempts ∨ row.deadlineAt.getD c.deadline ≤ now + delay →
      Exhausted (.finish group c result delay calledAt ownedAt now true) row
        (row.finished c result delay now)
  | skipped {group : String} {c : Claim} {result : DeliveryOutcome} {delay : Int}
      {calledAt ownedAt now : Time} {row : OutboxMessage} :
      result.kind = .skipped → row.deadlineAt.getD c.deadline ≤ now →
      Exhausted (.finish group c result delay calledAt ownedAt now true) row
        (row.finished c result delay now)

/-- An uncertain row is moved by no transaction. -/
theorem RowMove.not_uncertain {P : Type} {db : Outbox} {l : Txn P} {row row' : OutboxMessage}
    (h : RowMove db l row row') : row.status ≠ .uncertain := by
  intro hs
  cases h with
  | claim h =>
    cases h with
    | swept h => simp [sweepable, hs] at h
    | tooOld h | leased h => simp [claimable, hs] at h
  | contentChanged h | bindExpired h | bound h | finished h => simp [owns, hs] at h
  | replayed _ h => simp [hs] at h
  | batchClaimed h => simp [batchClaimable, hs] at h
  | published _ h | failed _ h => simp [hs] at h
  | released h => simp [staleClaim, hs] at h

/-- What the outcome of the last attempt makes of a row with a fingerprint whose attempts or time
are used up, when it asks for another attempt. -/
theorem finishStatus_exhausted {row : OutboxMessage} {c : Claim} {result : DeliveryOutcome}
    {availableAt : Time} (hf : truthy row.deliveryFingerprint = true)
    (hk : result.kind = .retry ∨ result.kind = .uncertain)
    (hex : row.retryBudget ≤ row.attempts ∨ row.deadlineAt.getD c.deadline ≤ availableAt) :
    finishStatus row c result availableAt =
      if result.kind = .retry ∧ row.retryBudget ≤ row.attempts then .dead else .uncertain := by
  by_cases hb : row.retryBudget ≤ row.attempts
  · rcases hk with hk | hk <;> simp [finishStatus, nextStatus, hk, hb]
  · have hd := hex.resolve_left hb
    rcases hk with hk | hk <;> simp [finishStatus, nextStatus, hk, hb, hd, hf]

/-- A `finish` whose claim owns its row is applied. -/
theorem finish_applied {db db' : Outbox} {group : String} {c : Claim} {result : DeliveryOutcome}
    {delay : Int} {ownedAt now : Time} {applied : Bool} {row : OutboxMessage}
    (hrow : db.message c.messageId = some row) (howns : owns c ownedAt row = true)
    (h : LeasedOutboxRepository.finish db group c result delay ownedAt now = (db', applied)) :
    applied = true := by
  unfold LeasedOutboxRepository.finish at h
  split at h
  next hnone =>
    exact absurd howns (List.find?_eq_none.1 hnone row (Table.mem_of_find hrow))
  next => exact (Prod.mk.inj h).2.symm

/-- An applied finish is that of a worker that held the claim, and takes it off the row. -/
theorem WorkerStep.applied {P Q : Type} {handlers : String → ExternalOutboxHandler P Q}
    {s s' : Repo} {worker worker' : LeasedOutboxWorker P Q} {l : Option (Txn P)}
    {entries : List (Entry P Q)} (h : WorkerStep handlers s worker l entries s' worker')
    (hk : s.db.Keyed) {t : UUID} {kind : OutcomeKind} (ha : .applied t kind ∈ entries) :
    ∃ c, worker.phase.claim? = some c ∧ c.token = t ∧ s'.Closed c := by
  cases h with
  | @finish _ _ c result _ _ _ _ _ applied hp _ h =>
    cases applied with
    | false => cases ha
    | true =>
      cases List.mem_singleton.1 ha
      refine ⟨c, by rw [hp]; rfl, rfl, ?_⟩
      cases h with
      | finish _ _ _ _ h =>
        obtain ⟨row, -, -, -, hrow'⟩ := Repo.finish_eq_true hk h
        intro r hr
        rw [hrow'] at hr
        obtain rfl := Option.some.inj hr
        exact fun h => nomatch h
  | deliver | post => simp at ha
  | start | claim | bind | move => cases ha

namespace World

variable {P Q : Type} {handlers : String → ExternalOutboxHandler P Q} {w w' : World P Q} {a : Act P}
  {i : Nat} {c c' : Claim} {id : UUID}

/-- The provider result of the attempt is unknown: its finish was applied with an uncertain outcome,
or its lease has expired without one. -/
def Lost (w : World P Q) (c : Claim) : Prop :=
  .applied c.token .uncertain ∈ w.record ∨
  ((∀ kind, .applied c.token kind ∉ w.record) ∧
    ∃ lease ∈ w.repo.issued, lease.claim = c ∧ lease.expiresAt ≤ w.repo.clock)

/-- Some attempt of the message called `deliver` and its provider result is unknown. -/
def Unknown (w : World P Q) (id : UUID) : Prop :=
  ∃ call, w.Delivered call ∧ call.claim.messageId = id ∧ w.Lost call.claim

/-- Some attempt other than `c` of the message of `c` called `deliver` and its result is unknown. -/
def OtherUnknown (w : World P Q) (c : Claim) : Prop :=
  ∃ call, w.Delivered call ∧ call.claim.messageId = c.messageId ∧ call.claim.token ≠ c.token ∧
    w.Lost call.claim

/-- The message leaves automatic retry in this step, its attempts or its time used up. -/
def GivesUp (w : World P Q) (a : Act P) (w' : World P Q) (id : UUID) : Prop :=
  ∃ l row row', w.Commits a l ∧ w.repo.db.message id = some row ∧
    w'.repo.db.message id = some row' ∧ RowMove w.repo.db l row row' ∧ Exhausted l row row'

/-- The step is not a `finish` that makes a message with an unknown result dead or skipped because
it is exhausted: one that acts on the row of its claim, while another attempt of the message is
unknown, with a retry at the end of the budget or with a skip past the deadline. -/
def Careful (w : World P Q) (a : Act P) : Prop :=
  ∀ k group c result delay calledAt ownedAt now applied row,
    a = .work k (some (.finish group c result delay calledAt ownedAt now applied)) →
    w.repo.db.message c.messageId = some row → owns c ownedAt row = true → w.OtherUnknown c →
    ¬ (result.kind = .retry ∧ row.retryBudget ≤ row.attempts) ∧
    ¬ (result.kind = .skipped ∧ row.deadlineAt.getD c.deadline ≤ now)

/-- A careful step. -/
def CarefulStep (handlers : String → ExternalOutboxHandler P Q) (w : World P Q) (a : Act P)
    (w' : World P Q) : Prop := Step handlers w a w' ∧ w.Careful a

/-- What a `finish` transaction leaves in the record. -/
theorem Step.finish_record {l : Txn P} {group : String} {result : DeliveryOutcome} {delay : Int}
    {calledAt ownedAt now : Time} {applied : Bool} (h : Step handlers w (.work i (some l)) w')
    (hl : l = .finish group c result delay calledAt ownedAt now applied) :
    w'.record = (if applied then [.applied c.token result.kind] else []) ++ w.record ∧
      w'.repo.clock = w.repo.clock ∧ w'.repo.issued = w.repo.issued := by
  subst hl
  cases h with
  | @work _ _ entries s worker h =>
    cases h with
    | finish _ _ h =>
      refine ⟨rfl, ?_⟩
      show s.clock = _ ∧ s.issued = _
      cases h with
      | finish => exact ⟨rfl, rfl⟩

/-- The invariant of the record: what was delivered carries its fingerprint, and a claim with an
applied finish is off its row. -/
structure Reported (w : World P Q) : Prop where
  printed : w.Printed
  closed : ∀ {t kind}, .applied t kind ∈ w.record →
    ∃ c, w.repo.IsIssued c ∧ c.token = t ∧ w.repo.Closed c

theorem Initial.reported (h : w.Initial) : w.Reported where
  printed := h.printed
  closed ha := by
    rw [h.record] at ha
    cases ha

/-- A claim that still passes `owned` has no applied finish. -/
theorem Reported.not_applied (hw : w.Reported) (hc : w.repo.IsIssued c) {row : OutboxMessage}
    {ownedAt : Time} (hrow : w.repo.db.message c.messageId = some row)
    (howns : owns c ownedAt row = true) (kind : OutcomeKind) :
    .applied c.token kind ∉ w.record := by
  intro ha
  obtain ⟨c', hc', ht, hcl⟩ := hw.closed ha
  obtain rfl := hw.printed.leased.fenced.claim_eq hc' hc ht
  exact hcl row hrow (owns_iff.1 howns).2.1

theorem Step.closed (h : Step handlers w a w') (hw : w.repo.Fenced) (hc : w.repo.IsIssued c)
    (hcl : w.repo.Closed c) : w'.repo.Closed c := by
  rcases h.txn with he | ⟨l, h, -⟩
  · rwa [he]
  · exact h.closed hw hc hcl

theorem Step.reported (h : Step handlers w a w') (hw : w.Reported) : w'.Reported where
  printed := h.printed hw.printed
  closed {t kind} ha := by
    have hl := hw.printed.leased
    have hold : .applied t kind ∈ w.record →
        ∃ c, w'.repo.IsIssued c ∧ c.token = t ∧ w'.repo.Closed c := by
      intro ha
      obtain ⟨c, ⟨lease, hm, he⟩, ht, hcl⟩ := hw.closed ha
      exact ⟨c, ⟨lease, h.issued_mono hm, he⟩, ht, h.closed hl.fenced ⟨lease, hm, he⟩ hcl⟩
    cases h with
    | outside => exact hold ha
    | @work k l entries s worker hstep =>
      rcases List.mem_append.1 ha with ha | ha
      swap
      · exact hold ha
      obtain ⟨c, hp, ht, hcl⟩ := hstep.applied hl.fenced.keyed ha
      obtain ⟨lease, hm, he⟩ := hl.issued (i := k) hp
      exact ⟨c, ⟨lease, Step.issued_mono (.work hstep) hm, he⟩, ht, hcl⟩

/-- After a finish with an outcome of another kind, the attempts that are unknown are other ones,
and were so before. -/
theorem Reported.otherUnknown (hw : w.Reported) {group : String} {result : DeliveryOutcome}
    {delay : Int} {calledAt ownedAt now : Time} {row : OutboxMessage}
    (h : Step handlers w
      (.work i (some (.finish group c result delay calledAt ownedAt now true))) w')
    (hkind : result.kind ≠ .uncertain) (hi : w.repo.IsIssued c)
    (hrow : w.repo.db.message c.messageId = some row) (howns : owns c ownedAt row = true)
    (hu : w'.Unknown c.messageId) : w.OtherUnknown c := by
  obtain ⟨call, hcall, hid, hlost⟩ := hu
  obtain ⟨hrec, hclock, hissued⟩ := h.finish_record rfl
  have hmem : ∀ {t kind}, .applied t kind ∈ w'.record ↔
      (t = c.token ∧ kind = result.kind) ∨ .applied t kind ∈ w.record := by
    intro t kind
    simp [hrec]
  have hcall' : w.Delivered call := by
    simpa [Delivered, hrec] using hcall
  have hne : call.claim.token ≠ c.token := by
    intro ht
    rcases hlost with hlost | ⟨hlost, -⟩
    · rw [ht, hmem] at hlost
      rcases hlost with ⟨-, hk⟩ | hlost
      · exact hkind hk.symm
      · exact hw.not_applied hi hrow howns _ hlost
    · exact hlost result.kind (hmem.2 (.inl ⟨ht, rfl⟩))
  refine ⟨call, hcall', hid, hne, ?_⟩
  rcases hlost with hlost | ⟨hlost, lease, hl, he, hexp⟩
  · exact .inl ((hmem.1 hlost).resolve_left fun h => hne h.1)
  · exact .inr ⟨fun kind hk => hlost kind (hmem.2 (.inr hk)), lease, hissued ▸ hl, he,
      hclock ▸ hexp⟩

/-- A careful step that gives a message up makes it uncertain, when the result of one of its
attempts is unknown. -/
theorem CarefulStep.uncertain (h : CarefulStep handlers w a w') (hw : w.Reported)
    (hg : w.GivesUp a w' id) (hu : w'.Unknown id) :
    ∃ row, w'.repo.db.message id = some row ∧ row.status = .uncertain := by
  obtain ⟨h, hcareful⟩ := h
  obtain ⟨l, row, row', hcom, hrow, hrow', hm, hex⟩ := hg
  refine ⟨row', hrow', ?_⟩
  -- whatever was delivered is bound, so the row carries a fingerprint
  have hprint : truthy row'.deliveryFingerprint = true := by
    obtain ⟨call, hcall, hid, -⟩ := hu
    obtain ⟨hhex, r, hr, hf⟩ := (h.printed hw.printed).delivered hcall
    rw [hid, hrow'] at hr
    obtain rfl := Option.some.inj hr
    rw [hf]
    exact truthy_of_isHex64 hhex
  -- a finish on the row is that of the worker which holds the claim
  have hfinish : ∀ {group c result delay calledAt ownedAt now},
      l = .finish group c result delay calledAt ownedAt now true → result.kind ≠ .uncertain →
      ¬ (result.kind = .retry ∧ row.retryBudget ≤ row.attempts) ∧
      ¬ (result.kind = .skipped ∧ row.deadlineAt.getD c.deadline ≤ now) := by
    rintro group c result delay calledAt ownedAt now rfl hkind
    rcases hcom with ⟨-, ho⟩ | ⟨k, rfl, hcalls⟩
    · cases ho
    cases hm with
    | finished howns =>
      have hkey : row.id = id := Table.key_of_find hrow
      have hid : c.messageId = id := (owns_iff.1 howns).1.symm.trans hkey
      have hi := hw.printed.leased.issued (i := k) (c := c)
        (by rw [Holds, show _ = _ from hcalls]; rfl)
      subst hid
      exact hcareful k group c result delay calledAt ownedAt now true row rfl hrow howns
        (hw.otherUnknown h hkind hi hrow howns hu)
  cases hex with
  | swept | tooOld | bindExpired => exact if_pos hprint
  | retried hkind hex =>
    have hprint : truthy row.deliveryFingerprint = true := hprint
    show finishStatus _ _ _ _ = _
    rw [finishStatus_exhausted hprint hkind hex, if_neg]
    rintro ⟨hk, hb⟩
    exact (hfinish rfl (by simp [hk])).1 ⟨hk, hb⟩
  | skipped hkind hd =>
    exact absurd ⟨hkind, hd⟩ (hfinish rfl (by simp [hkind])).2

/-- After a finish the other attempts that were unknown still are. -/
theorem Step.unknown {group : String} {result : DeliveryOutcome} {delay : Int}
    {calledAt ownedAt now : Time} {applied : Bool}
    (h : Step handlers w
      (.work i (some (.finish group c result delay calledAt ownedAt now applied))) w')
    (hu : w.OtherUnknown c) : w'.Unknown c.messageId := by
  obtain ⟨call, hcall, hid, hne, hlost⟩ := hu
  obtain ⟨hrec, hclock, hissued⟩ := h.finish_record rfl
  refine ⟨call, ?_, hid, ?_⟩
  · rw [Delivered, hrec]
    exact List.mem_append_right _ hcall
  rcases hlost with hlost | ⟨hlost, lease, hl, he, hexp⟩
  · refine .inl ?_
    rw [hrec]
    exact List.mem_append_right _ hlost
  · refine .inr ⟨fun kind hk => ?_, lease, hissued ▸ hl, he, hclock ▸ hexp⟩
    rw [hrec, List.mem_append] at hk
    rcases hk with hk | hk
    · cases applied with
      | false => cases hk
      | true => exact hne (Entry.applied.inj (List.mem_singleton.1 hk)).1
    · exact hlost kind hk

/-- What a `finish` transaction computes, and that it is committed by the worker that calls it. -/
theorem Step.finish_eq {group : String} {result : DeliveryOutcome} {delay : Int}
    {calledAt ownedAt now : Time} {applied : Bool}
    (h : Step handlers w
      (.work i (some (.finish group c result delay calledAt ownedAt now applied))) w') :
    LeasedOutboxRepository.finish w.repo.db group c result delay ownedAt now =
        (w'.repo.db, applied) ∧
      w.Commits (.work i (some (.finish group c result delay calledAt ownedAt now applied)))
        (.finish group c result delay calledAt ownedAt now applied) := by
  cases h with
  | work h =>
    obtain ⟨hnone, -⟩ | ⟨_, htxn, hstep, hcalls⟩ := h.txn
    · cases hnone
    cases htxn
    refine ⟨?_, .inr ⟨i, rfl, hcalls⟩⟩
    cases hstep with
    | finish _ _ _ _ hfinish => exact hfinish

/-- A step that is not careful gives a message up and makes it dead or skipped, although the result
of one of its attempts is unknown. -/
theorem Step.forgets (h : Step handlers w a w') (hk : w.repo.db.Keyed) (hcareless : ¬ w.Careful a) :
    ∃ id row, w.GivesUp a w' id ∧ w'.Unknown id ∧ w'.repo.db.message id = some row ∧
      (row.status = .dead ∨ row.status = .skipped) := by
  unfold Careful at hcareless
  push Not at hcareless
  obtain ⟨k, group, c, result, delay, calledAt, ownedAt, now, applied, row, rfl, hrow, howns, hu,
    hlast⟩ := hcareless
  obtain ⟨hfinish, hcom⟩ := h.finish_eq
  obtain rfl := finish_applied hrow howns hfinish
  obtain ⟨own, -, hown, -, hrow'⟩ := Repo.finish_eq_true hk hfinish
  obtain rfl : own = row := Option.some.inj (hown.symm.trans hrow)
  -- a skip past the deadline, unless it is a retry at the end of the budget
  by_cases hretry : result.kind = .retry ∧ own.retryBudget ≤ own.attempts
  · refine ⟨_, _, ⟨_, own, _, hcom, hrow, hrow', .finished howns,
      .retried (.inl hretry.1) (.inl hretry.2)⟩, h.unknown hu, hrow', .inl ?_⟩
    show finishStatus own c result (now + delay) = .dead
    simp [finishStatus, nextStatus, hretry]
  · obtain ⟨hskip, hdeadline⟩ := hlast fun hk => not_le.1 fun hb => hretry ⟨hk, hb⟩
    refine ⟨_, _, ⟨_, own, _, hcom, hrow, hrow', .finished howns, .skipped hskip hdeadline⟩,
      h.unknown hu, hrow', .inr ?_⟩
    show finishStatus own c result (now + delay) = .skipped
    simp [finishStatus, nextStatus, hskip]

/-- The condition is exact at each step: the careful steps are those after which every message
given up with an unknown result is uncertain. -/
theorem Step.careful_iff (h : Step handlers w a w') (hw : w.Reported) :
    w.Careful a ↔ ∀ id, w.GivesUp a w' id → w'.Unknown id →
      ∃ row, w'.repo.db.message id = some row ∧ row.status = .uncertain := by
  constructor
  · intro hcareful id hg hu
    exact CarefulStep.uncertain ⟨h, hcareful⟩ hw hg hu
  · intro huncertain
    by_contra hcareless
    obtain ⟨id, row, hg, hu, hrow, hs⟩ := h.forgets hw.printed.leased.fenced.keyed hcareless
    obtain ⟨row', hrow', hs'⟩ := huncertain id hg hu
    obtain rfl := Option.some.inj (hrow.symm.trans hrow')
    rcases hs with hs | hs <;> rw [hs] at hs' <;> cases hs'

/-- An uncertain row is the same row in every later state. -/
theorem uncertain_run {tr : List (Act P)} {row : OutboxMessage}
    (run : Lts.Run (Step handlers) w tr w') (hk : w.repo.db.Keyed)
    (hrow : w.repo.db.message id = some row) (hs : row.status = .uncertain) :
    w'.repo.db.message id = some row := by
  refine (run.invariant (I := fun w => w.repo.db.Keyed ∧ w.repo.db.message id = some row) ?_
    ⟨hk, hrow⟩).2
  rintro w a w' ⟨hk, hrow⟩ h
  have hk' : w'.repo.db.Keyed := by
    rcases h.txn with he | ⟨l, h, -⟩
    · rwa [he]
    · exact h.keyed hk
  obtain ⟨row', hrow', rfl | ⟨l, -, -, hm⟩⟩ := h.row hk hrow
  · exact ⟨hk', hrow'⟩
  · exact absurd hs hm.not_uncertain

/-- **Uncertain outcomes are kept by careful steps.** In every run of careful steps, a message that
leaves automatic retry because its attempts or its time are used up, while the provider result of
one of its `deliver` calls is unknown, becomes uncertain and stays so. -/
theorem uncertain_kept {w₀ w'' : World P Q} {tr tr' : List (Act P)} (h₀ : w₀.Initial)
    (run : Lts.Run (CarefulStep handlers) w₀ tr w) (step : CarefulStep handlers w a w')
    (rest : Lts.Run (CarefulStep handlers) w' tr' w'') (hg : w.GivesUp a w' id)
    (hu : w'.Unknown id) :
    ∃ row, w'.repo.db.message id = some row ∧ row.status = .uncertain ∧
      w''.repo.db.message id = some row := by
  have hw : w.Reported := run.invariant (fun hw h => h.1.reported hw) h₀.reported
  obtain ⟨row, hrow, hs⟩ := step.uncertain hw hg hu
  have hk' := (step.1.reported hw).printed.leased.fenced.keyed
  exact ⟨row, hrow, hs, uncertain_run (rest.weaken And.left) hk' hrow hs⟩

/-! ## An attempt that times out, and what comes after it -/

/-- Settings with two attempts. -/
def twoAttempts : OutboxWorkerSettings :=
  { (default : OutboxWorkerSettings) with maxAttempts := 2, maxAttempts_range := by decide }

/-- The start, with a worker under these settings. -/
def unclaimed : World Unit Unit := Fixture.world twoAttempts Fixture.repo .idle []

/-- The claim of the first attempt. -/
def firstClaim : Claim := { Fixture.claim 1 1 with retryBudget := 2 }

/-- The row when the first attempt has called `deliver`. -/
def deliveredRow : OutboxMessage :=
  (Fixture.message.lease 0 twoAttempts 1).bound (seconds 600) Fixture.prepared.fingerprint

/-- The outbox with the one row, at `clock`, after the claim `issued`. -/
def oneRow (row : OutboxMessage) (heartbeatAt clock : Time) (issued : List Lease) : Repo :=
  { db := { messages := [row], controls := [Fixture.control heartbeatAt] }, clock, issued }

/-- The row after the submission timed out: it waits for the second attempt. -/
def timedOutRow : OutboxMessage := deliveredRow.finished firstClaim submissionTimeout (seconds 1) 0

/-- The state after the first attempt, at `clock`. -/
def timedOut (clock : Time) : World Unit Unit :=
  Fixture.world twoAttempts (oneRow timedOutRow 0 clock [⟨firstClaim, seconds 120⟩]) .idle
    [.applied 1 .uncertain, .delivered ⟨firstClaim, Fixture.prepared, 0⟩]

/-- A step that is no finish is careful. -/
theorem careful_of_not_finish (h : a.isFinish = false) : w.Careful a := by
  rintro k group c result delay calledAt ownedAt now applied row rfl
  cases h

theorem timedOut_run :
    ∃ tr, Lts.Run (CarefulStep Fixture.handlers) unclaimed tr (timedOut 0) := by
  let delivering : Repo := oneRow deliveredRow 0 0 [⟨firstClaim, seconds 120⟩]
  let call : Delivery Unit := ⟨firstClaim, Fixture.prepared, 0⟩
  obtain ⟨tr, run⟩ : ∃ tr, Lts.Run (Fixture.OpenStep Fixture.handlers) unclaimed tr
      (Fixture.world twoAttempts delivering (.delivering firstClaim Fixture.prepared 0 [])
        [.delivered call]) :=
    Fixture.attempt 1 (by decide) rfl rfl trivial rfl (by decide)
  have h1 : WorkerStep Fixture.handlers delivering
      (Fixture.worker twoAttempts (.delivering firstClaim Fixture.prepared 0 [])) none [] delivering
      (Fixture.worker twoAttempts (.finalizing firstClaim submissionTimeout 0)) :=
    .move .submissionTimeout
  have hfinish : Repo.Step (P := Unit) delivering
      (.finish "auth_email" firstClaim submissionTimeout (seconds 1) 0 0 0 true)
      (oneRow timedOutRow 0 0 [⟨firstClaim, seconds 120⟩]) :=
    .finish ⟨_, List.mem_singleton.2 rfl, rfl⟩ (le_refl _) (le_refl _) (le_refl _) rfl
  have hdelay : nextDelay 1 submissionTimeout twoAttempts 0 = some (seconds 1) := by decide
  have h2 : WorkerStep Fixture.handlers delivering
      (Fixture.worker twoAttempts (.finalizing firstClaim submissionTimeout 0))
      (some (.finish "auth_email" firstClaim submissionTimeout (seconds 1) 0 0 0 true))
      [.applied 1 .uncertain] (oneRow timedOutRow 0 0 [⟨firstClaim, seconds 120⟩])
      (Fixture.worker twoAttempts .idle) := .finish rfl hdelay hfinish
  refine ⟨_, ((run.weaken fun h => ⟨h.1.1, careful_of_not_finish h.2⟩).snoc
    ⟨Fixture.world_step h1, careful_of_not_finish rfl⟩).snoc ⟨Fixture.world_step h2, ?_⟩⟩
  -- the only call so far is that of the claim itself
  rintro k group c result delay calledAt ownedAt now applied row ha - - ⟨other, hcall, -, hne, -⟩
  cases ha
  have hother : other = call := by simpa [Delivered, Fixture.world] using hcall
  exact absurd (by rw [hother]) hne

/-- Ten minutes later a worker polls and sweeps the message. -/
def swept : World Unit Unit :=
  Fixture.world twoAttempts
    (oneRow timedOutRow.sweep (seconds 600) (seconds 600) [⟨firstClaim, seconds 120⟩]) .idle
    [.applied 1 .uncertain, .delivered ⟨firstClaim, Fixture.prepared, 0⟩]

/-- The result of the first attempt is unknown, and past its deadline the message is uncertain. -/
theorem uncertain_kept_swept :
    ∃ row, swept.repo.db.message 1 = some row ∧ row.status = .uncertain ∧
      swept.repo.db.message 1 = some row := by
  obtain ⟨tr, run⟩ := timedOut_run
  have htick : Step Fixture.handlers (timedOut 0) (.outside (.tick (seconds 600)))
      (timedOut (seconds 600)) := .outside rfl (.tick (by decide))
  let repo : Repo := oneRow timedOutRow 0 (seconds 600) [⟨firstClaim, seconds 120⟩]
  let claiming : World Unit Unit := Fixture.world twoAttempts repo (.claiming (seconds 600))
    [.applied 1 .uncertain, .delivered ⟨firstClaim, Fixture.prepared, 0⟩]
  have hopen : Step Fixture.handlers (timedOut (seconds 600)) (.work 0 none) claiming :=
    Fixture.world_step (.move .openClaim)
  let txn : Txn Unit := .claim "auth_email" [challengeEmailEvent] twoAttempts
    { now := seconds 600, token := 2 } none
  have hclaim : Repo.Step repo txn swept.repo := .claim (le_refl _) (by decide) rfl
  have hsweep : Step Fixture.handlers claiming (.work 0 (some txn)) swept :=
    Fixture.world_step (.claim rfl (le_refl _) hclaim)
  have hgives : claiming.GivesUp (.work 0 (some txn)) swept 1 :=
    ⟨txn, timedOutRow, timedOutRow.sweep, .inr ⟨0, rfl, rfl, rfl, _, rfl, le_refl _⟩, rfl, rfl,
      .claim (.swept rfl), .swept⟩
  have hunknown : swept.Unknown 1 :=
    ⟨⟨firstClaim, Fixture.prepared, 0⟩, by simp [Delivered, swept, Fixture.world], rfl,
      .inl (by simp [swept, Fixture.world, firstClaim, Fixture.claim])⟩
  have hrun := (run.snoc ⟨htick, careful_of_not_finish rfl⟩).snoc
    ⟨hopen, careful_of_not_finish rfl⟩
  exact uncertain_kept Fixture.world_initial hrun ⟨hsweep, careful_of_not_finish rfl⟩ .nil hgives
    hunknown

/-- The claim of the second attempt. -/
def lastClaim : Claim :=
  { firstClaim with token := 2, attempts := 2, deadline := seconds 600 }

/-- The row under the second claim. -/
def reclaimedRow : OutboxMessage := timedOutRow.lease (seconds 2) twoAttempts 2

/-- The second attempt at `phase` and `clock`, with the row as it is. -/
def lastAttempt (row : OutboxMessage) (clock : Time) (phase : Phase Unit Unit)
    (record : List (Entry Unit Unit)) : World Unit Unit :=
  Fixture.world twoAttempts
    (oneRow row (seconds 2) clock [⟨lastClaim, seconds 122⟩, ⟨firstClaim, seconds 120⟩]) phase
    (record ++ [.applied 1 .uncertain, .delivered ⟨firstClaim, Fixture.prepared, 0⟩])

theorem claim_timedOut :
    LeasedOutboxRepository.claim (oneRow timedOutRow 0 (seconds 2) []).db "auth_email"
      [challengeEmailEvent] twoAttempts { now := seconds 2, token := 2 } =
      .ok ((oneRow reclaimedRow (seconds 2) (seconds 2) []).db, some lastClaim) := rfl

/-- The second and last attempt times out while it prepares. The message is given up and becomes
dead, although the provider may have accepted the first submission. -/
theorem uncertain_forgotten : ∃ (tr : List (Act Unit)) (w w' : World Unit Unit) (a : Act Unit)
    (row : OutboxMessage), unclaimed.Initial ∧
      Lts.Run (Step Fixture.handlers) unclaimed tr w ∧
      Step Fixture.handlers w a w' ∧ w.GivesUp a w' 1 ∧ w'.Unknown 1 ∧
      w'.repo.db.message 1 = some row ∧ row.status = .dead := by
  obtain ⟨tr, run⟩ := timedOut_run
  have htick : Step Fixture.handlers (timedOut 0) (.outside (.tick (seconds 2)))
      (timedOut (seconds 2)) := .outside rfl (.tick (by decide))
  let repo : Repo := oneRow timedOutRow 0 (seconds 2) [⟨firstClaim, seconds 120⟩]
  let claiming : World Unit Unit := Fixture.world twoAttempts repo (.claiming (seconds 2))
    [.applied 1 .uncertain, .delivered ⟨firstClaim, Fixture.prepared, 0⟩]
  have hopen : Step Fixture.handlers (timedOut (seconds 2)) (.work 0 none) claiming :=
    Fixture.world_step (.move .openClaim)
  let claimed := lastAttempt reclaimedRow (seconds 2) (.claimed (seconds 2) lastClaim) []
  let txn : Txn Unit := .claim "auth_email" [challengeEmailEvent] twoAttempts
    { now := seconds 2, token := 2 } (some lastClaim)
  have hclaim : Repo.Step repo txn claimed.repo := .claim (le_refl _) (by decide) claim_timedOut
  have h1 : Step Fixture.handlers claiming (.work 0 (some txn)) claimed :=
    Fixture.world_step (.claim rfl (le_refl _) hclaim)
  let preparing := fun clock =>
    lastAttempt reclaimedRow clock (.preparing lastClaim (seconds 2)) []
  have h2 : Step Fixture.handlers claimed (.work 0 none) (preparing (seconds 2)) :=
    Fixture.world_step (.move (.startPrepare (by simp [lastClaim, firstClaim, Fixture.claim])))
  have h3 : Step Fixture.handlers (preparing (seconds 2)) (.outside (.tick (seconds 12)))
      (preparing (seconds 12)) := .outside rfl (.tick (by decide))
  let finalizing := lastAttempt reclaimedRow (seconds 12)
    (.finalizing lastClaim preparationTimeout (seconds 12)) []
  have h4 : Step Fixture.handlers (preparing (seconds 12)) (.work 0 none) finalizing :=
    Fixture.world_step (.move .preparationTimeout)
  let dead := reclaimedRow.finished lastClaim preparationTimeout (seconds 1) (seconds 12)
  let given := lastAttempt dead (seconds 12) .idle [.applied 2 .retry]
  let finish : Txn Unit := .finish "auth_email" lastClaim preparationTimeout (seconds 1)
    (seconds 12) (seconds 12) (seconds 12) true
  have hfinish : Repo.Step finalizing.repo finish given.repo :=
    .finish ⟨_, List.mem_cons_self, rfl⟩ (le_refl _) (le_refl _) (le_refl _) rfl
  have hdelay : nextDelay 2 preparationTimeout twoAttempts 0 = some (seconds 1) := by decide
  have h5 : Step Fixture.handlers finalizing (.work 0 (some finish)) given :=
    Fixture.world_step (.finish rfl hdelay hfinish)
  have howns : owns lastClaim (seconds 12) reclaimedRow = true := by decide
  have hgives : finalizing.GivesUp (.work 0 (some finish)) given 1 :=
    ⟨finish, reclaimedRow, dead, .inr ⟨0, rfl, rfl⟩, rfl, rfl, .finished howns,
      .retried (.inl rfl) (.inl (by decide))⟩
  have hunknown : given.Unknown 1 :=
    ⟨⟨firstClaim, Fixture.prepared, 0⟩, by simp [Delivered, given, lastAttempt, Fixture.world],
      rfl, .inl (by simp [given, lastAttempt, Fixture.world, firstClaim, Fixture.claim])⟩
  have hrun := ((((((run.weaken And.left).snoc htick).snoc hopen).snoc h1).snoc h2).snoc h3).snoc h4
  have hrow : given.repo.db.message 1 = some dead := rfl
  exact ⟨_, finalizing, given, _, dead, Fixture.world_initial, hrun, h5, hgives, hunknown, hrow,
    rfl⟩

end World

end Ekumidayomi
