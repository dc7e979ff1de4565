import Ekumidayomi.Outbox.LeasedWorker

/-!
# The deduplication window of a message

The first claim of a message fixes an instant `t₀`: the deadline it writes lies at most the greatest
`max_age_seconds` after it. Later claims, binds and replays only lower the deadline (`Stamped` says
why a bind does: it narrows the deadline its own claim wrote), a claim carries the deadline of its
row, and `deliver` starts before the deadline of its claim, so all calls for one message start in
the window of that length after `t₀` (`Window`).
-/

namespace Ekumidayomi

/-- The greatest `max_age_seconds`: 23 hours. -/
def maxAgeBound : Nat := 82800

/-- A claim lowers a deadline, -/
theorem claimDeadline_le {row : OutboxMessage} {now d : Time} {settings : OutboxWorkerSettings}
    (hd : row.deadlineAt = some d) : claimDeadline row now settings ≤ d := by
  rw [claimDeadline, hd]
  exact min_le_left _ _

/-- and the first one lies in the window after the claim. -/
theorem claimDeadline_first {row : OutboxMessage} {now : Time} {settings : OutboxWorkerSettings}
    (hd : row.deadlineAt = none) :
    claimDeadline row now settings ≤ now + seconds maxAgeBound := by
  have hmax : seconds settings.maxAgeSeconds ≤ seconds maxAgeBound := by
    have := settings.maxAgeSeconds_range.2
    simp only [seconds, maxAgeBound]
    lia
  rw [claimDeadline, hd, Option.getD_none]
  exact le_trans (min_le_left _ _) (by lia)

/-- What a transaction of the workers or from outside does to the deadline of a row: nothing, or it
writes the one a claim computes, or it narrows the deadline of the claim that binds. -/
theorem RowMove.deadline {P : Type} {db : Outbox} {l : Txn P} {row row' : OutboxMessage}
    (h : RowMove db l row row') : row'.deadlineAt = row.deadlineAt ∨
      (∃ group eventTypes settings reads result,
        l = .claim group eventTypes settings reads result ∧
        row'.deadlineAt = some (claimDeadline row reads.now settings)) ∨
      ∃ group c fingerprint expiresAt calledAt ownedAt now allowed,
        l = .bind group c fingerprint expiresAt calledAt ownedAt now allowed ∧
        owns c ownedAt row = true ∧ row'.deadlineAt = some (min c.deadline expiresAt) := by
  cases h with
  | claim h =>
    cases h with
    | swept => exact .inl rfl
    | tooOld | leased => exact .inr (.inl ⟨_, _, _, _, _, rfl, rfl⟩)
  | bindExpired h | bound h => exact .inr (.inr ⟨_, _, _, _, _, _, _, _, rfl, h, rfl⟩)
  | contentChanged | finished | replayed | batchClaimed | published | failed | released =>
    exact .inl rfl

/-- The claim of a worker that has not called `bind` yet. -/
def Phase.unbound? {P Q : Type} : Phase P Q → Option Claim
  | .claimed _ c | .preparing c _ | .binding c _ _ => some c
  | _ => none

section
variable {P Q : Type} {handlers : String → ExternalOutboxHandler P Q} {s s' : Repo}
  {worker worker' : LeasedOutboxWorker P Q} {l : Option (Txn P)} {entries : List (Entry P Q)}
  {c : Claim}

theorem Phase.claim?_of_unbound? {phase : Phase P Q} (h : phase.unbound? = some c) :
    phase.claim? = some c := by
  cases phase <;> first | exact h | cases h

/-- A worker that is about to bind has just claimed, or has committed nothing since. -/
theorem WorkerStep.unbound (h : WorkerStep handlers s worker l entries s' worker')
    (hc : worker'.phase.unbound? = some c) : (worker.phase.unbound? = some c ∧ l = none) ∨
      ∃ reads, l = some (worker.claimTxn reads (some c)) ∧
        Repo.Step s (worker.claimTxn (P := P) reads (some c)) s' := by
  cases h with
  | @claim _ _ _ reads result _ _ h =>
    cases result with
    | none => cases hc
    | some c' =>
      cases hc
      exact .inr ⟨reads, rfl, h⟩
  | @bind _ _ _ _ _ _ _ allowed => cases allowed <;> cases hc
  | @move worker _ h =>
    refine .inl ⟨?_, rfl⟩
    generalize worker.phase = phase at h
    cases h <;> first | exact hc | cases hc
  | start | finish | deliver | post => cases hc

end

namespace World

variable {P Q : Type} {handlers : String → ExternalOutboxHandler P Q} {w w' : World P Q} {a : Act P}
  {i : Nat} {c : Claim} {id : UUID} {row : OutboxMessage} {d t₀ : Time}

/-- A claimed row that its worker has not bound yet carries the deadline of the claim. -/
def Stamped (w : World P Q) : Prop :=
  ∀ i c row, (w.workers i).phase.unbound? = some c → w.repo.db.message c.messageId = some row →
    row.claimToken = some c.token → row.status = .processing → row.deadlineAt = some c.deadline

/-- A worker that is about to bind has just claimed, or has committed nothing in this step. -/
theorem Step.unbound (h : Step handlers w a w') (hc : (w'.workers i).phase.unbound? = some c) :
    ((w.workers i).phase.unbound? = some c ∧ ∀ l, a ≠ .work i (some l)) ∨
    ∃ reads, a = .work i (some ((w.workers i).claimTxn reads (some c))) ∧
      Repo.Step w.repo ((w.workers i).claimTxn (P := P) reads (some c)) w'.repo := by
  cases h with
  | outside => exact .inl ⟨hc, fun _ h => nomatch h⟩
  | @work k l entries s worker h =>
    by_cases hk : i = k
    · subst hk
      simp only [Function.update_self] at hc
      rcases h.unbound hc with ⟨hc, rfl⟩ | ⟨reads, rfl, hcl⟩
      · exact .inl ⟨hc, fun _ h => nomatch h⟩
      · exact .inr ⟨reads, rfl, hcl⟩
    · simp only [Function.update_of_ne hk] at hc
      refine .inl ⟨hc, fun _ h => ?_⟩
      cases h
      exact hk rfl

theorem Step.stamped (h : Step handlers w a w') (hw : w.Leased) (hs : w.Stamped) : w'.Stamped := by
  intro i c row' hc hrow' ht hst
  have hk := hw.fenced.keyed
  rcases h.unbound hc with ⟨hold, hno⟩ | ⟨reads, -, hcl⟩
  swap
  · obtain ⟨-, -, row, -, he, hrow⟩ := hcl.claimed hk
    obtain rfl := Option.some.inj (hrow.symm.trans hrow')
    rw [he]
    rfl
  have hholds : w.Holds i c := Phase.claim?_of_unbound? hold
  rcases h.row_inv hk hrow' with ⟨row, hrow, rfl | ⟨l, hl, hcom, hm⟩⟩ | ⟨hnone, -⟩
  · exact hs i c _ hold hrow ht hst
  swap
  · rw [hnone] at ht
    cases ht
  rcases hcom with ⟨-, ho⟩ | ⟨k, ha, hcalls⟩
  · cases hm with
    | replayed => cases ht
    | _ => cases ho
  · cases hm with
    | claim hm =>
      cases hm with
      | swept => cases ht
      | tooOld =>
        simp only [OutboxMessage.tooOld] at hst
        split at hst <;> cases hst
      | leased =>
        -- the token is fresh, so it is not that of a claim handed out before
        have hmem := (hw.issued hholds).token_mem
        rw [← Option.some.inj ht] at hmem
        exact absurd hmem (hl.claimed hk).1
    | contentChanged | bindExpired | finished => cases ht
    | bound howns =>
      obtain ⟨d, hp, -⟩ := hcalls
      obtain rfl := hw.self hholds (by rw [Holds, hp]; rfl) ht howns
      exact absurd ha (hno _)
    | _ => cases hcalls

/-- Deadlines never move back: a step keeps the deadline of a row or lowers it. -/
theorem Step.deadline_le (h : Step handlers w a w') (hw : w.Leased) (hs : w.Stamped)
    (hrow : w.repo.db.message id = some row) (hd : row.deadlineAt = some d) :
    ∃ row' d', w'.repo.db.message id = some row' ∧ row'.deadlineAt = some d' ∧ d' ≤ d := by
  obtain ⟨row', hrow', rfl | ⟨l, hl, hcom, hm⟩⟩ := h.row hw.fenced.keyed hrow
  · exact ⟨_, d, hrow', hd, le_refl d⟩
  refine ⟨row', ?_⟩
  rcases hm.deadline with he | ⟨_, _, settings, reads, _, rfl, he⟩ |
    ⟨_, c, _, expiresAt, _, _, _, _, rfl, howns, he⟩
  · exact ⟨d, hrow', he.trans hd, le_refl d⟩
  · exact ⟨_, hrow', he, claimDeadline_le hd⟩
  · refine ⟨_, hrow', he, ?_⟩
    rcases hcom with ⟨-, ho⟩ | ⟨k, -, e, hp, -⟩
    · cases ho
    obtain ⟨hid, ht, hst, -⟩ := owns_iff.1 howns
    have hkey : row.id = id := Table.key_of_find hrow
    have hstamp := hs k c row (by rw [hp]; rfl) (by rw [← hid, hkey]; exact hrow) ht hst
    rw [hd] at hstamp
    exact le_of_le_of_eq (min_le_left _ _) (Option.some.inj hstamp).symm

/-! ## The window -/

/-- No claim of the message was ever handed out and it has no deadline. -/
structure Untouched (w : World P Q) (id : UUID) : Prop where
  row : ∀ row, w.repo.db.message id = some row → row.deadlineAt = none
  claims : ∀ lease ∈ w.repo.issued, lease.claim.messageId ≠ id

/-- The message has a deadline in the window after `t₀`, so have its claims, and nothing was
delivered before `t₀`. -/
structure Window (w : World P Q) (id : UUID) (t₀ : Time) : Prop where
  started : t₀ ≤ w.repo.clock
  row : ∃ row d, w.repo.db.message id = some row ∧ row.deadlineAt = some d ∧
    d ≤ t₀ + seconds maxAgeBound
  claims : ∀ lease ∈ w.repo.issued, lease.claim.messageId = id →
    lease.claim.deadline ≤ t₀ + seconds maxAgeBound
  calls : ∀ call, w.Delivered call → call.claim.messageId = id → t₀ ≤ call.startedAt

/-- The invariant of the deadlines. -/
structure Bounded (w : World P Q) : Prop where
  leased : w.Leased
  stamped : w.Stamped
  issued : ∀ call, w.Delivered call → w.repo.IsIssued call.claim
  inTime : ∀ call, w.Delivered call →
    call.startedAt < min call.claim.deadline call.prepared.expiresAt
  window : ∀ id, w.Untouched id ∨ ∃ t₀, w.Window id t₀

/-- Of a message that nobody claimed nothing was delivered. -/
theorem Untouched.not_delivered (hw : w.Bounded) (hu : w.Untouched id) {call : Delivery P}
    (hc : w.Delivered call) : call.claim.messageId ≠ id := by
  obtain ⟨lease, hl, he⟩ := hw.issued call hc
  exact he ▸ hu.claims lease hl

/-- The calls in the record after a step do not start before a window that is open. -/
theorem Step.calls (h : Step handlers w a w') (ht : t₀ ≤ w.repo.clock)
    (hcalls : ∀ call, w.Delivered call → call.claim.messageId = id → t₀ ≤ call.startedAt)
    {call : Delivery P} (hc : w'.Delivered call) (he : call.claim.messageId = id) :
    t₀ ≤ call.startedAt := by
  rcases h.delivered hc with hc | ⟨-, hs, -⟩
  · exact hcalls call hc he
  · rw [hs]
    exact ht

/-- An open window stays open: its message keeps a deadline in it, and so do new claims. -/
theorem Step.window (h : Step handlers w a w') (hw : w.Bounded) (ht : w.Window id t₀) :
    w'.Window id t₀ where
  started := le_trans ht.started h.clock_le
  row := by
    obtain ⟨row, d, hrow, hd, hle⟩ := ht.row
    obtain ⟨row', d', hrow', hd', hle'⟩ := h.deadline_le hw.leased hw.stamped hrow hd
    exact ⟨row', d', hrow', hd', le_trans hle' hle⟩
  claims lease hl he := by
    rcases h.txn with hr | ⟨l, hstep, -⟩
    · exact ht.claims lease (hr ▸ hl) he
    rcases hstep.lease_inv hl with hl | ⟨_, _, settings, reads, rfl⟩
    · exact ht.claims lease hl he
    · obtain ⟨-, -, row, hrow, hc, -⟩ := hstep.claimed hw.leased.fenced.keyed
      obtain ⟨row₀, d, hrow₀, hd, hle⟩ := ht.row
      rw [he, hrow₀] at hrow
      obtain rfl := Option.some.inj hrow
      rw [hc]
      exact le_trans (claimDeadline_le hd) hle
  calls _ hc he := h.calls ht.started ht.calls hc he

/-- The first claim of a message opens its window at the clock that it read. -/
theorem Step.window_first (h : Step handlers w a w') (hw : w.Bounded) (hu : w.Untouched id) :
    w'.Untouched id ∨ ∃ t₀, w'.Window id t₀ := by
  have hk := hw.leased.fenced.keyed
  -- a claim handed out in this step left its deadline on the row
  have hnew : ∀ lease ∈ w'.repo.issued, lease.claim.messageId = id → ∃ row,
      w'.repo.db.message id = some row ∧ row.deadlineAt = some lease.claim.deadline := by
    intro lease hl he
    rcases h.txn with hr | ⟨l, hstep, -⟩
    · exact absurd he (hu.claims lease (hr ▸ hl))
    rcases hstep.lease_inv hl with hl | ⟨_, _, settings, reads, rfl⟩
    · exact absurd he (hu.claims lease hl)
    · obtain ⟨-, -, row, -, hc, hrow'⟩ := hstep.claimed hk
      exact ⟨_, he ▸ hrow', by rw [hc]; rfl⟩
  by_cases hrow : ∃ row d, w'.repo.db.message id = some row ∧ row.deadlineAt = some d
  swap
  · refine .inl ⟨fun row hr => ?_, fun lease hl he => ?_⟩
    · exact Option.eq_none_iff_forall_not_mem.2 fun d hd => hrow ⟨row, d, hr, hd⟩
    · obtain ⟨row, hr, hd⟩ := hnew lease hl he
      exact hrow ⟨row, _, hr, hd⟩
  obtain ⟨row', d, hrow', hd⟩ := hrow
  rcases h.row_inv hk hrow' with ⟨row, hrow, rfl | ⟨l, hl, hcom, hm⟩⟩ | ⟨-, hnone, -⟩
  · rw [hu.row _ hrow] at hd
    cases hd
  swap
  · rw [hnone] at hd
    cases hd
  have hold := hu.row row hrow
  rcases hm.deadline with he | ⟨_, _, settings, reads, _, rfl, he⟩ |
    ⟨_, c, _, _, _, _, _, _, rfl, howns, -⟩
  · rw [he, hold] at hd
    cases hd
  · have hdle : d ≤ reads.now + seconds maxAgeBound := by
      rw [he] at hd
      exact Option.some.inj hd ▸ claimDeadline_first hold
    refine .inr ⟨reads.now, le_trans hl.reads_le h.clock_le, ⟨row', d, hrow', hd, hdle⟩, ?_, ?_⟩
    · intro lease hl he
      obtain ⟨r, hr, hrd⟩ := hnew lease hl he
      obtain rfl := Option.some.inj (hr.symm.trans hrow')
      obtain rfl := Option.some.inj (hrd.symm.trans hd)
      exact hdle
    · exact fun _ hc => h.calls hl.reads_le
        (fun _ hc he => absurd he (hu.not_delivered hw hc)) hc
  · -- a bind would need a claim of the message
    rcases hcom with ⟨-, ho⟩ | ⟨k, -, e, hp, -⟩
    · cases ho
    obtain ⟨lease, hl, he⟩ := hw.leased.issued (i := k) (c := c) (by rw [Holds, hp]; rfl)
    have hkey : row.id = id := Table.key_of_find hrow
    exact absurd (by rw [he, ← (owns_iff.1 howns).1, hkey]) (hu.claims lease hl)

theorem Initial.bounded (h : w.Initial) : w.Bounded where
  leased := h.leased
  stamped i c row hc := by
    rw [h.idle] at hc
    cases hc
  issued call hc := by
    rw [Delivered, h.record] at hc
    cases hc
  inTime call hc := by
    rw [Delivered, h.record] at hc
    cases hc
  window id := .inl
    { row := fun row hrow => (h.unbound row (Table.mem_of_find hrow)).2
      claims := by simp [h.repo.issued] }

theorem Step.bounded (h : Step handlers w a w') (hw : w.Bounded) : w'.Bounded where
  leased := h.leased hw.leased
  stamped := h.stamped hw.leased hw.stamped
  issued call hc := by
    have hissued : w.repo.IsIssued call.claim := by
      rcases h.delivered hc with hc | ⟨⟨i, openedAt, hp⟩, -⟩
      · exact hw.issued call hc
      · exact hw.leased.issued (by rw [Holds, hp]; rfl)
    obtain ⟨lease, hl, he⟩ := hissued
    exact ⟨lease, h.issued_mono hl, he⟩
  inTime call hc := by
    rcases h.delivered hc with hc | ⟨-, hs, hlt⟩
    · exact hw.inTime call hc
    · rw [hs, min_comm]
      exact hlt
  window id := by
    rcases hw.window id with hu | ⟨t₀, ht⟩
    · exact h.window_first hw hu
    · exact .inr ⟨t₀, h.window hw ht⟩

/-- Calls for one message start in its window. -/
theorem Bounded.calls_lt (hw : w.Bounded) {call call' : Delivery P} (hc : w.Delivered call)
    (hc' : w.Delivered call') (he : call.claim.messageId = call'.claim.messageId) :
    call'.startedAt < call.startedAt + seconds maxAgeBound := by
  rcases hw.window call'.claim.messageId with hu | ⟨t₀, ht⟩
  · exact absurd rfl (hu.not_delivered hw hc')
  · obtain ⟨lease, hl, hcl⟩ := hw.issued call' hc'
    have h1 := ht.calls call hc he
    have h2 := ht.claims lease hl (by rw [hcl])
    have h3 := lt_of_lt_of_le (hw.inTime call' hc') (min_le_left _ _)
    rw [hcl] at h2
    lia

/-- **Submissions stay inside the deduplication window.** From every state of every run: a deadline,
once set, is only ever lowered; every `deliver` call so far started before the deadline of its claim
and the end of its purpose; and any two calls for one message started less than 23 hours apart. -/
theorem submission_window {w₀ : World P Q} {tr : List (Act P)} (h₀ : w₀.Initial)
    (run : Lts.Run (Step handlers) w₀ tr w) :
    (∀ tr' w', Lts.Run (Step handlers) w tr' w' → ∀ id row d,
      w.repo.db.message id = some row → row.deadlineAt = some d →
      ∃ row' d', w'.repo.db.message id = some row' ∧ row'.deadlineAt = some d' ∧ d' ≤ d) ∧
    (∀ call, w.Delivered call →
      call.startedAt < min call.claim.deadline call.prepared.expiresAt) ∧
    ∀ call call', w.Delivered call → w.Delivered call' →
      call.claim.messageId = call'.claim.messageId →
      call'.startedAt - call.startedAt < seconds maxAgeBound := by
  have hw : w.Bounded := run.invariant (fun hw h => h.bounded hw) h₀.bounded
  refine ⟨?_, hw.inTime, fun call call' hc hc' he => ?_⟩
  · intro tr' w' rest id row d hrow hd
    refine (rest.invariant (I := fun w' => w'.Bounded ∧ ∃ row' d',
      w'.repo.db.message id = some row' ∧ row'.deadlineAt = some d' ∧ d' ≤ d) ?_
      ⟨hw, row, d, hrow, hd, le_refl d⟩).2
    rintro w l w' ⟨hw, row, d₁, hrow, hd, hle⟩ h
    obtain ⟨row', d', hrow', hd', hle'⟩ := h.deadline_le hw.leased hw.stamped hrow hd
    exact ⟨h.bounded hw, row', d', hrow', hd', le_trans hle' hle⟩
  · have := hw.calls_lt hc hc' he
    lia

/-- A longer `max_age_seconds`. -/
def longer : OutboxWorkerSettings :=
  { (default : OutboxWorkerSettings) with
    maxAgeSeconds := 7200
    maxAgeSeconds_range := by decide }

/-- The process dies inside `deliver` and is started again with a longer `max_age_seconds`. -/
def restarted (clock : Time) : World Unit Unit :=
  Fixture.world longer { Fixture.boundRepo with clock } .idle
    [.delivered ⟨Fixture.claim 1 1, Fixture.prepared, 0⟩]

/-- The second attempt, 200 seconds later, keeps the deadline of the first. -/
def secondDelivery : World Unit Unit :=
  Fixture.world longer
    { db :=
        { messages := [(((Fixture.message.lease 0 default 1).bound (seconds 600)
            Fixture.prepared.fingerprint).lease (seconds 200) longer 2).bound
            (seconds 600) Fixture.prepared.fingerprint]
          controls := [Fixture.control (seconds 200)] }
      clock := seconds 200
      issued := [⟨{ Fixture.claim 2 2 with deadline := seconds 600 }, seconds 320⟩,
        ⟨Fixture.claim 1 1, seconds 120⟩] }
    (.delivering { Fixture.claim 2 2 with deadline := seconds 600 } Fixture.prepared
      (seconds 200) [])
    [.delivered ⟨{ Fixture.claim 2 2 with deadline := seconds 600 }, Fixture.prepared, seconds 200⟩,
      .delivered ⟨Fixture.claim 1 1, Fixture.prepared, 0⟩]

/-- Two attempts of one message, under different settings, stay inside the window. -/
theorem submission_window_restarted : seconds 200 - 0 < seconds maxAgeBound := by
  obtain ⟨tr, run⟩ := Fixture.firstDelivery_run
  have hdie : Step Fixture.handlers Fixture.firstDelivery (.work 0 none) (restarted 0) :=
    Fixture.world_step .start
  have htick : Step Fixture.handlers (restarted 0) (.outside (.tick (seconds 200)))
      (restarted (seconds 200)) := .outside rfl (.tick (by decide))
  obtain ⟨tr', run'⟩ : ∃ tr', Lts.Run (Fixture.OpenStep Fixture.handlers)
      (restarted (seconds 200)) tr' secondDelivery :=
    Fixture.attempt 2 (by decide) rfl rfl trivial rfl (by decide)
  have hrun := (((run.weaken And.left).snoc hdie).snoc htick).append
    (run'.weaken fun h => h.1.1)
  exact (submission_window Fixture.world_initial hrun).2.2 ⟨Fixture.claim 1 1, Fixture.prepared, 0⟩
    ⟨{ Fixture.claim 2 2 with deadline := seconds 600 }, Fixture.prepared, seconds 200⟩
    (by simp [Delivered, secondDelivery, Fixture.world])
    (by simp [Delivered, secondDelivery, Fixture.world]) rfl

end World

end Ekumidayomi
