import Ekumidayomi.Outbox.Coherence

/-!
# Attempt budgets over replays

`retry_budget` is written by the first claim of a row and by each replay. That a replay grants three
attempts and no more rests on a row with no attempts not being replayable: such a row is only ever
ended by a claim that found its deadline passed, and a replay, which reads the clock under the row's
lock, finds it passed as well. So the state keeps beside the tables when each row was last changed
(`Stamped`), and a replay reads the clock no earlier.
-/

namespace Ekumidayomi

/-- The tables, and for each row the clock at the commit of the last transaction that changed it. -/
structure Stamped where
  repo : Repo
  stamp : UUID → Time

/-- The transaction is a replay of the row `id`. -/
def Txn.replays {P : Type} (id : UUID) : Txn P → Bool
  | .replay mid .. => mid = id
  | _ => false

/-- The transaction claims the row `id`. -/
def Txn.claims {P : Type} (id : UUID) : Txn P → Bool
  | .claim _ _ _ _ (some c) => c.messageId = id
  | _ => false

namespace Stamped

variable {P : Type}

/-- A step of the leased repository or of a recovery operation. `replay` reads the clock after it
has locked the row, so after whatever changed the row was committed. -/
structure Step (s : Stamped) (l : Txn P) (s' : Stamped) : Prop where
  step : Repo.Step s.repo l s'.repo
  leased : l.Leased
  locked : ∀ id handlers prepare now, l = .replay id handlers prepare now → s.stamp id ≤ now
  changed : ∀ id, s'.repo.db.message id ≠ s.repo.db.message id → s'.stamp id = s.repo.clock
  kept : ∀ id, s'.repo.db.message id = s.repo.db.message id → s'.stamp id = s.stamp id

end Stamped

/-- What the budget of a row promises, when the row was last changed at `stamp`. -/
structure OutboxMessage.Budgeted (row : OutboxMessage) (stamp : Time) : Prop where
  le : row.attempts ≤ row.retryBudget
  cap : row.retryBudget ≤ 100
  queued : row.status = .pending ∨ row.status = .failed → row.attempts < row.retryBudget
  failed : row.status = .failed → ∃ d, row.deadlineAt = some d ∧ row.availableAt < d
  processing : row.status = .processing → 0 < row.attempts ∧ ∃ d, row.deadlineAt = some d
  /-- a row with no attempts is waiting for the first, or its deadline has passed -/
  untried : row.attempts = 0 → row.status = .pending ∨ ∃ d ≤ stamp, row.deadlineAt = some d

section
variable {P : Type} {messages : List OutboxMessage} {db : Outbox} {l : Txn P}
  {row row' : OutboxMessage} {eventTypes : List String} {now ownedAt stamp clock : Time} {c : Claim}
  {settings : OutboxWorkerSettings} {reads : ClaimReads} {result : Option Claim}

theorem lt_of_claimable (h : claimable messages eventTypes now row = true) :
    row.attempts < row.retryBudget := by
  simp only [claimable, Bool.and_eq_true, decide_eq_true_eq] at h
  exact h.1.2

theorem OutboxMessage.status_sweep_ne (row : OutboxMessage) :
    row.sweep.status ≠ .pending ∧ row.sweep.status ≠ .failed ∧ row.sweep.status ≠ .processing := by
  unfold OutboxMessage.sweep
  split <;> simp

/-- A row that the sweep ends with no attempts is past its deadline. -/
theorem OutboxMessage.Budgeted.sweep (h : row.Budgeted stamp) (hle : now ≤ clock)
    (hsw : sweepable eventTypes now row = true) : row.sweep.Budgeted clock := by
  obtain ⟨hp, hf, hr⟩ := row.status_sweep_ne
  refine ⟨h.le, h.cap, fun hq => (hq.elim hp hf).elim, fun hq => (hf hq).elim,
    fun hq => (hr hq).elim, fun hz => .inr ?_⟩
  have hz : row.attempts = 0 := hz
  simp only [sweepable, Bool.and_eq_true, Bool.or_eq_true, decide_eq_true_eq] at hsw
  obtain ⟨⟨-, ⟨hst, -⟩ | hst⟩, hover⟩ := hsw
  · have := (h.processing hst).1
    omega
  · have hlt := h.queued hst
    rcases hover with hover | hover
    · omega
    · cases hd : row.deadlineAt with
      | none => simp [hd] at hover
      | some d =>
        rw [hd, atMost_some, decide_eq_true_eq] at hover
        exact ⟨d, hover.trans hle, hd⟩

/-- The branch for a row that is too old writes the deadline that has passed. -/
theorem OutboxMessage.Budgeted.tooOld {deadline : Time} (h : row.Budgeted stamp)
    (hle : deadline ≤ clock) : (row.tooOld deadline).Budgeted clock := by
  have hp : (row.tooOld deadline).status ≠ .pending ∧ (row.tooOld deadline).status ≠ .failed := by
    unfold OutboxMessage.tooOld
    split <;> simp
  exact ⟨h.le, h.cap, fun hq => (hq.elim hp.1 hp.2).elim, fun hq => (hp.2 hq).elim,
    fun hq => (OutboxMessage.status_tooOld_ne hq).elim, fun _ => .inr ⟨deadline, hle, rfl⟩⟩

/-- A lease takes one attempt of the budget, which the first lease sets. -/
theorem OutboxMessage.Budgeted.lease {token : UUID} (h : row.Budgeted stamp)
    (hlt : row.attempts < row.retryBudget) : (row.lease now settings token).Budgeted clock := by
  have hmax := settings.maxAttempts_range
  have hcap := h.cap
  refine ⟨?_, ?_, fun hq => ?_, fun hq => ?_, fun _ => ⟨Nat.succ_pos _, _, rfl⟩,
    fun hz => (Nat.succ_ne_zero _ hz).elim⟩
  · show row.attempts + 1 ≤ if row.attempts = 0 then settings.maxAttempts else row.retryBudget
    split <;> omega
  · show (if row.attempts = 0 then settings.maxAttempts else row.retryBudget) ≤ 100
    split <;> omega
  · rcases hq with hq | hq <;> cases hq
  · cases hq

/-- What `finish` leaves failed has attempts left and becomes available before its deadline. -/
theorem OutboxMessage.Budgeted.finished {result : DeliveryOutcome} {delay : Int}
    (h : row.Budgeted stamp) (hst : row.status = .processing) :
    (row.finished c result delay now).Budgeted clock := by
  obtain ⟨hpos, d, hd⟩ := h.processing hst
  have hcases := finishStatus_cases row c result (now + delay)
  refine ⟨h.le, h.cap, fun hq => ?_, fun hq => ?_, fun hq => (finishStatus_ne_processing hq).elim,
    fun hz => ?_⟩
  · rcases hcases with ⟨-, hlt, -⟩ | hmem
    · exact hlt
    · have hq : finishStatus row c result (now + delay) = .pending ∨
          finishStatus row c result (now + delay) = .failed := hq
      rcases hq with hq | hq <;> simp [hq] at hmem
  · have hq : finishStatus row c result (now + delay) = .failed := hq
    rcases hcases with ⟨-, -, hlt⟩ | hmem
    · rw [hd] at hlt
      exact ⟨d, hd, hlt⟩
    · simp [hq] at hmem
  · have hz : row.attempts = 0 := hz
    omega

/-- A replay is of a row that was tried, and it grants up to three attempts more. -/
theorem OutboxMessage.Budgeted.replayed (clock : Time) (h : row.Budgeted stamp)
    (hst : row.status = .dead ∨ row.status = .blocked) (hatt : row.attempts < maxReplayAttempts)
    (hd : Ekumidayomi.after row.deadlineAt now = true) (hle : stamp ≤ now) :
    0 < row.attempts ∧ (row.replayed now).Budgeted clock := by
  have hpos : 0 < row.attempts := by
    refine Nat.pos_of_ne_zero fun hz => ?_
    rcases h.untried hz with hp | ⟨d, hds, he⟩
    · rw [hp] at hst
      rcases hst with hst | hst <;> cases hst
    · rw [he, after_some, decide_eq_true_eq] at hd
      lia
  have hmin : row.attempts < min maxReplayAttempts (row.attempts + 3) := by
    omega
  refine ⟨hpos, hmin.le, min_le_left _ _, fun _ => hmin, fun hq => ?_, fun hq => ?_, fun hz => ?_⟩
  · cases hq
  · cases hq
  · exact absurd hz hpos.ne'

/-- The other ends of a lease keep the counters. -/
theorem OutboxMessage.Budgeted.ended (h : row.Budgeted stamp) (hst : row.status = .processing)
    (hatt : row'.attempts = row.attempts) (hbud : row'.retryBudget = row.retryBudget)
    (hq : row'.status ≠ .pending ∧ row'.status ≠ .failed ∧ row'.status ≠ .processing) :
    row'.Budgeted clock := by
  refine ⟨hatt ▸ hbud ▸ h.le, hbud ▸ h.cap, fun hs => (hs.elim hq.1 hq.2.1).elim,
    fun hs => (hq.2.1 hs).elim, fun hs => (hq.2.2 hs).elim, fun hz => ?_⟩
  have := (h.processing hst).1
  omega

/-- A leased transaction keeps the promise of the budget, whatever it does to the row. -/
theorem RowMove.budgeted (h : RowMove db l row row') (hl : l.Leased) (hb : row.Budgeted stamp)
    (hread : ∀ group eventTypes settings reads result,
      l = .claim group eventTypes settings reads result → reads.now ≤ clock)
    (hlock : ∀ handlers prepare now, l = .replay row.id handlers prepare now → stamp ≤ now) :
    row'.Budgeted clock := by
  cases h with
  | claim hm =>
    have hle := hread _ _ _ _ _ rfl
    cases hm with
    | swept hsw => exact hb.sweep hle hsw
    | tooOld _ hdl => exact hb.tooOld (hdl.trans hle)
    | leased hcl => exact hb.lease (lt_of_claimable hcl)
  | contentChanged hown =>
    exact hb.ended (owns_iff.1 hown).2.2.1 rfl rfl (by simp [OutboxMessage.contentChanged])
  | bindExpired hown =>
    refine hb.ended (owns_iff.1 hown).2.2.1 rfl rfl ?_
    unfold OutboxMessage.bindExpired
    split <;> simp
  | bound hown =>
    have hst := (owns_iff.1 hown).2.2.1
    refine ⟨hb.le, hb.cap, hb.queued, fun hf => ?_, fun _ => ⟨(hb.processing hst).1, _, rfl⟩,
      fun hz => absurd hz (hb.processing hst).1.ne'⟩
    have hf : row.status = .failed := hf
    rw [hst] at hf
    cases hf
  | finished hown => exact hb.finished (owns_iff.1 hown).2.2.1
  | replayed hid hst hatt hd =>
    exact (hb.replayed _ hst hatt hd (hlock _ _ _ (by rw [hid]))).2
  | _ => exact hl.elim

/-- Once a row was tried, only a replay writes its budget. -/
theorem RowMove.retryBudget_eq (h : RowMove db l row row') (hl : l.Leased)
    (hpos : 0 < row.attempts) (hnot : l.replays row.id = false) :
    row'.retryBudget = row.retryBudget := by
  cases h with
  | claim hm =>
    cases hm with
    | swept | tooOld => rfl
    | leased =>
      show (if row.attempts = 0 then _ else _) = _
      rw [if_neg hpos.ne']
  | contentChanged | bindExpired | bound | finished => rfl
  | replayed hid => simp [Txn.replays, hid] at hnot
  | _ => exact hl.elim

end

/-! ## Along a run -/

namespace Repo

variable {P : Type} {s s' : Repo} {l : Txn P} {id : UUID} {row row' : OutboxMessage}

/-- The attempts of a row grow by one at each claim of it, and never otherwise. -/
theorem Step.attempts_eq (h : Step s l s') (hl : l.Leased) (hk : s.db.Keyed)
    (hrow : s.db.message id = some row) (hrow' : s'.db.message id = some row') :
    row'.attempts = row.attempts + if l.claims id then 1 else 0 := by
  by_cases hc : l.claims id = true
  · cases h with
    | @claim _ _ settings reads db result _ _ h =>
      cases result with
      | none => cases hc
      | some c =>
        obtain rfl : c.messageId = id := of_decide_eq_true hc
        obtain ⟨r, hr, -, -, -, hr'⟩ := claim_eq_some hk h
        obtain rfl : r = row := Option.some.inj (hr.symm.trans hrow)
        obtain rfl : r.lease reads.now settings reads.token = row' :=
          Option.some.inj (hr'.symm.trans hrow')
        simp [hc, OutboxMessage.lease]
    | _ => cases hc
  · rw [if_neg hc]
    obtain ⟨r, hr, hm⟩ := h.message hk hrow
    obtain rfl : r = row' := Option.some.inj (hr.symm.trans hrow')
    rcases hm with rfl | hm
    · rfl
    cases hm with
    | claim hm =>
      cases hm with
      | swept | tooOld => rfl
      | leased =>
        refine absurd ?_ hc
        show decide (row.id = id) = true
        simp [Table.key_of_find hrow]
    | contentChanged | bindExpired | bound | finished | replayed => rfl
    | _ => exact hl.elim

/-- Only a row of the table is claimed. -/
theorem Step.not_claims (h : Step s l s') (hk : s.db.Keyed) (hnone : s.db.message id = none) :
    l.claims id = false := by
  by_contra hc
  rw [Bool.not_eq_false] at hc
  cases h with
  | @claim _ _ _ _ _ result _ _ h =>
    cases result with
    | none => cases hc
    | some c =>
      obtain rfl : c.messageId = id := of_decide_eq_true hc
      obtain ⟨r, hr, -⟩ := claim_eq_some hk h
      rw [hnone] at hr
      cases hr
  | _ => cases hc

/-- A row that a step brings in is staged with the default budget. -/
theorem Step.budget_of_new (h : Step s l s') (hk : s.db.Keyed) (hnone : s.db.message id = none)
    (hrow : s'.db.message id = some row) :
    row.status = .pending ∧ row.attempts = 0 ∧ row.retryBudget = 5 := by
  rcases h.message_inv hk hrow with ⟨_, hr, -⟩ | ⟨hst, hatt, -, -, -, -, -, -, -, _, _, _, rfl⟩
  · rw [hnone] at hr
    cases hr
  refine ⟨hst, hatt, ?_⟩
  cases h with
  | add h =>
    unfold OutboxRepository.add at h
    simp only at h
    split at h
    · cases h
    split at h
    · cases h
    cases h
    rcases List.mem_append.1 (Table.mem_of_find hrow) with hmem | hmem
    · exact absurd (Table.key_of_find hrow) (Table.find_eq_none.1 hnone row hmem)
    · rw [List.mem_singleton.1 hmem]

/-- The clock that a claim read is not after its commit. -/
theorem Step.claim_now (h : Step s l s') (group : String) (eventTypes : List String)
    (settings : OutboxWorkerSettings) (reads : ClaimReads) (result : Option Claim)
    (hl : l = .claim group eventTypes settings reads result) : reads.now ≤ s.clock := by
  subst hl
  cases h with
  | claim hle => exact hle

end Repo

namespace Stamped

variable {P : Type} {s s' : Stamped} {l : Txn P} {id : UUID} {row row' : OutboxMessage}

/-- The row `id`, if it is there, keeps the promise of its budget, and its attempts are the
claims that `n` counts. -/
def Counted (id : UUID) (n : Nat) (s : Stamped) : Prop :=
  match s.repo.db.message id with
  | none => n = 0
  | some row => row.attempts = n ∧ row.Budgeted (s.stamp id)

/-- One step counts its claim. -/
theorem Step.counted {n : Nat} (h : s.Step l s') (hk : s.repo.db.Keyed) (hn : s.Counted id n) :
    s'.Counted id (n + if l.claims id then 1 else 0) := by
  unfold Counted at hn ⊢
  cases hrow : s.repo.db.message id with
  | none =>
    rw [hrow] at hn
    have hn : n = 0 := hn
    rw [h.step.not_claims hk hrow, hn]
    cases hrow' : s'.repo.db.message id with
    | none => rfl
    | some row' =>
      -- the row was staged by this step
      obtain ⟨hst, hatt, hbud⟩ := h.step.budget_of_new hk hrow hrow'
      exact ⟨hatt, by omega, by omega, fun _ => by omega, fun hf => by simp [hst] at hf,
        fun hp => by simp [hst] at hp, fun _ => .inl hst⟩
  | some row =>
    rw [hrow] at hn
    obtain ⟨hatt, hb⟩ := hn
    obtain ⟨row', hrow', hm⟩ := h.step.message hk hrow
    rw [hrow']
    refine ⟨by rw [h.step.attempts_eq h.leased hk hrow hrow', hatt], ?_⟩
    by_cases heq : s'.repo.db.message id = s.repo.db.message id
    · rw [h.kept id heq]
      rw [hrow, hrow'] at heq
      exact Option.some.inj heq ▸ hb
    · rw [h.changed id heq]
      rcases hm with rfl | hm
      · exact absurd (hrow'.trans hrow.symm) heq
      · refine hm.budgeted h.leased hb h.step.claim_now fun handlers prepare now hl => ?_
        rw [Table.key_of_find hrow] at hl
        exact h.locked id handlers prepare now hl

/-- Along a run the attempts of a row are the claims of it. -/
theorem run_counted {tr : List (Txn P)} {n : Nat} (run : Lts.Run Step s tr s')
    (hk : s.repo.db.Keyed) (hn : s.Counted id n) :
    s'.repo.db.Keyed ∧ s'.Counted id (n + tr.countP (·.claims id)) := by
  refine run.history (I := fun tr s => s.repo.db.Keyed ∧ s.Counted id (n + tr.countP (·.claims id)))
    ?_ ⟨hk, by simpa using hn⟩
  rintro tr s l s' ⟨hk, hn⟩ h
  refine ⟨h.step.keyed hk, ?_⟩
  rw [List.countP_append, List.countP_singleton, ← Nat.add_assoc]
  exact h.counted hk hn

/-- Without a replay of it, the budget of a row that was tried stays as it is. -/
theorem run_retryBudget {tr : List (Txn P)} (run : Lts.Run Step s tr s') (hk : s.repo.db.Keyed)
    (hrow : s.repo.db.message id = some row) (hpos : 0 < row.attempts)
    (hnot : ∀ l ∈ tr, l.replays id = false) :
    ∃ row', s'.repo.db.message id = some row' ∧ 0 < row'.attempts ∧
      row'.retryBudget = row.retryBudget := by
  have hall : (∀ l ∈ tr, l.replays id = false) → s'.repo.db.Keyed ∧
      ∃ row', s'.repo.db.message id = some row' ∧ 0 < row'.attempts ∧
        row'.retryBudget = row.retryBudget := by
    refine run.history (I := fun tr s' => (∀ l ∈ tr, l.replays id = false) → s'.repo.db.Keyed ∧
      ∃ row', s'.repo.db.message id = some row' ∧ 0 < row'.attempts ∧
        row'.retryBudget = row.retryBudget) ?_ fun _ => ⟨hk, row, hrow, hpos, rfl⟩
    intro tr s l s' ih h hnot
    obtain ⟨hk, row₁, hrow₁, hpos₁, hbud₁⟩ := ih fun l hl => hnot l (List.mem_append_left _ hl)
    obtain ⟨row₂, hrow₂, hm⟩ := h.step.message hk hrow₁
    have hatt := h.step.attempts_eq h.leased hk hrow₁ hrow₂
    refine ⟨h.step.keyed hk, row₂, hrow₂, by omega, ?_⟩
    rcases hm with rfl | hm
    · exact hbud₁
    · have hnl := hnot l (List.mem_append_right _ (List.mem_singleton_self l))
      rw [← Table.key_of_find hrow₁] at hnl
      rw [hm.retryBudget_eq h.leased hpos₁ hnl, hbud₁]
  exact (hall hnot).2

/-- A replay leaves a row that was tried, with at most three attempts more. -/
theorem Step.replay_grants {handlers : List String} {prepare : DomainEvent → Preparation P}
    {now : Time} {n : Nat} (h : s.Step (.replay id handlers prepare now) s')
    (hn : s.Counted id n) :
    ∃ row, s'.repo.db.message id = some row ∧ 0 < row.attempts ∧
      row.retryBudget ≤ row.attempts + 3 := by
  have hlock := h.locked id handlers prepare now rfl
  cases hs : s'.repo
  have hstep := h.step
  rw [hs] at hstep
  cases hstep with
  | replay _ hr =>
    obtain ⟨row, event, delivery, hrow, -, hst, hd, hatt, -, -, -, -, rfl⟩ := Repo.replay_eq_ok hr
    unfold Counted at hn
    rw [hrow] at hn
    obtain ⟨hpos, -⟩ := hn.2.replayed 0 hst hatt hd hlock
    refine ⟨row.replayed now, ?_, hpos, min_le_right _ _⟩
    exact Outbox.message_modify_self (·.replayed now) (fun _ => rfl) hrow

/-- A queued row with attempts left is held back by earlier versions of its aggregate only. -/
theorem claimable_of_queued {messages : List OutboxMessage} {eventTypes : List String} {now : Time}
    (hst : row.status = .pending ∨ row.status = .failed) (hlt : row.attempts < row.retryBudget)
    (htype : eventTypes.contains row.eventType = true) (hav : row.availableAt ≤ now) :
    claimable messages eventTypes now row = !blocked messages row := by
  have hst : (decide (row.status = .pending) || decide (row.status = .failed)) = true := by
    simpa using hst
  simp only [claimable, htype, hst, hav, hlt, decide_true, Bool.true_and, Bool.true_or]

/-- **Attempt budgets.** For a row staged during a run of claims, binds, finishes and replays: its
attempts are the claims of it so far and grow by one exactly with each of them; they stay within the
budget, and the budget within one hundred; a queued row has attempts left, so that once it is
available only an earlier version of its aggregate holds it back, and a failed one becomes available
before its deadline; and from one replay of the row to the next, at most three claims succeed. -/
theorem attempt_budgets {s₀ s : Stamped} {tr : List (Txn P)} (id : UUID) (hk : s₀.repo.db.Keyed)
    (hnew : s₀.repo.db.message id = none) (run : Lts.Run Step s₀ tr s) :
    (∀ row, s.repo.db.message id = some row →
      row.attempts = tr.countP (·.claims id) ∧
      (∀ (l : Txn P) s' row', s.Step l s' → s'.repo.db.message id = some row' →
        row'.attempts = row.attempts + if l.claims id then 1 else 0) ∧
      row.attempts ≤ row.retryBudget ∧ row.retryBudget ≤ 100 ∧
      (row.status = .pending ∨ row.status = .failed →
        row.attempts < row.retryBudget ∧
        ∀ messages eventTypes now, eventTypes.contains row.eventType = true →
          row.availableAt ≤ now → claimable messages eventTypes now row = !blocked messages row) ∧
      (row.status = .failed → ∃ d, row.deadlineAt = some d ∧ row.availableAt < d)) ∧
    ∀ handlers (prepare : DomainEvent → Preparation P) now s₁ (tr' : List (Txn P)) s₂,
      s.Step (.replay id handlers prepare now) s₁ → Lts.Run Step s₁ tr' s₂ →
      (∀ l ∈ tr', l.replays id = false) → tr'.countP (·.claims id) ≤ 3 := by
  have h0 : s₀.Counted id 0 := by
    unfold Counted
    rw [hnew]
  obtain ⟨hks, hn⟩ := run_counted run hk h0
  rw [Nat.zero_add] at hn
  constructor
  · intro row hrow
    have hb := hn
    unfold Counted at hb
    rw [hrow] at hb
    obtain ⟨hatt, hb⟩ := hb
    refine ⟨hatt, fun l s' row' h hrow' => h.step.attempts_eq h.leased hks hrow hrow', hb.le, hb.cap,
      fun hst => ⟨hb.queued hst, fun messages eventTypes now htype hav => ?_⟩, hb.failed⟩
    exact claimable_of_queued hst (hb.queued hst) htype hav
  · intro handlers prepare now s₁ tr' s₂ h run' hnot
    obtain ⟨row₁, hrow₁, hpos, hgrant⟩ := h.replay_grants hn
    have hks₁ := h.step.keyed hks
    have hn₁ := h.counted hks hn
    obtain ⟨row₂, hrow₂, -, hbud⟩ := run_retryBudget run' hks₁ hrow₁ hpos hnot
    obtain ⟨-, hn₂⟩ := run_counted run' hks₁ hn₁
    unfold Counted at hn₁ hn₂
    rw [hrow₁] at hn₁
    rw [hrow₂] at hn₂
    have h1 := hn₁.1
    have h2 := hn₂.1
    have h3 := hn₂.2.le
    omega

/-- Staged and claimed once, with every clock at zero. -/
theorem attempt_budgets_claimedRepo :
    (Fixture.message.lease 0 {} 1).attempts = 1 ∧
      (Fixture.message.lease 0 {} 1).attempts ≤ (Fixture.message.lease 0 {} 1).retryBudget := by
  have hadd : Step (P := Unit) ⟨{ db := {}, clock := 0 }, fun _ => 0⟩
    (.add Fixture.event none none 1)
      ⟨Fixture.repo, fun _ => 0⟩ :=
    ⟨Repo.add_message, trivial, nofun, fun _ _ => rfl, fun _ _ => rfl⟩
  have hclaim : Step (P := Unit) ⟨Fixture.repo, fun _ => 0⟩
      (.claim "auth_email" [challengeEmailEvent] {} { now := 0, token := 1 }
        (some (Fixture.claim 1 1))) ⟨Fixture.claimedRepo, fun _ => 0⟩ :=
    ⟨Repo.claim_message_first, trivial, nofun, fun _ _ => rfl, fun _ _ => rfl⟩
  have hk : Outbox.Keyed {} := List.nodup_nil
  obtain ⟨hatt, -, hle, -⟩ := (attempt_budgets 1 hk rfl
    ((Lts.Run.single hadd).snoc hclaim)).1 _ rfl
  exact ⟨hatt, hle⟩

end Stamped

end Ekumidayomi
