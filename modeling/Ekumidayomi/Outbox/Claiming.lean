import Mathlib.Data.List.Sort
import Mathlib.Order.MinMax
import Ekumidayomi.Outbox.System

/-!
# When a claim takes work

`claim` ends at most a hundred rows in its sweep and then selects the first claimable row that is
left. When that row is too old, `claim` ends it as well and returns `None`: it does not go on to the
next row, as the sweep does. So a deliverable row is claimed unless a stale row stands before it in
the order of the query (`claims_work_iff`). Rows are compared as they are before the sweep, since it
leaves every row that it does not end and does not change which rows are blocked
(`blocked_sweptTable`).
-/

namespace Ekumidayomi

/-- An element of a strictly sorted list is among the first `n` when fewer than `n` are smaller. -/
theorem mem_take_iff_countP_lt {α : Type*} {key : α → Nat} {l : List α}
    (hl : l.Pairwise (key · < key ·)) {a : α} {n : Nat} :
    a ∈ l.take n ↔ a ∈ l ∧ l.countP (key · < key a) < n := by
  induction l generalizing n with
  | nil => simp
  | cons b l ih =>
    obtain ⟨hb, hl⟩ := List.pairwise_cons.1 hl
    cases n with
    | zero => simp
    | succ n =>
      rw [List.take_succ_cons, List.mem_cons, List.mem_cons, ih hl, List.countP_cons]
      have hfirst : l.countP (key · < key b) = 0 := by
        rw [List.countP_eq_zero]
        intro c hc
        have := hb c hc
        simp only [decide_eq_true_eq]
        omega
      constructor
      · rintro (rfl | ⟨hmem, hlt⟩)
        · refine ⟨.inl rfl, ?_⟩
          rw [hfirst, if_neg (by simp)]
          omega
        · refine ⟨.inr hmem, ?_⟩
          split <;> omega
      · rintro ⟨rfl | hmem, hlt⟩
        · exact .inl rfl
        · rw [if_pos (by simpa using hb a hmem)] at hlt
          exact .inr ⟨hmem, by omega⟩

/-! ## The rows that the sweep ends -/

/-- The row is among the first hundred, by `id`, of those that the sweep may end. -/
def EndedBySweep (messages : List OutboxMessage) (eventTypes : List String) (reads : ClaimReads)
    (row : OutboxMessage) : Prop :=
  sweepable eventTypes reads.now row = true ∧ reads.sweepLocked row.id = false ∧
    (messages.filter fun r => sweepable eventTypes reads.now r && !reads.sweepLocked r.id &&
      decide (r.id < row.id)).length < 100

instance : Std.Total (fun a b : OutboxMessage => decide (a.id ≤ b.id) = true) where
  total a b := by simpa using BitVec.le_total a.id b.id

instance : IsTrans OutboxMessage (fun a b => decide (a.id ≤ b.id) = true) where
  trans a b c hab hbc := by
    simp only [decide_eq_true_eq] at hab hbc ⊢
    exact BitVec.le_trans hab hbc

section
variable {messages : List OutboxMessage} {eventTypes : List String} {reads : ClaimReads}
  {row : OutboxMessage}

theorem mem_sweptRows (hk : Table.Keyed (·.id) messages) (hmem : row ∈ messages) :
    row ∈ sweptRows messages eventTypes reads ↔ EndedBySweep messages eventTypes reads row := by
  let chosen := messages.filter fun r => sweepable eventTypes reads.now r && !reads.sweepLocked r.id
  let sorted := chosen.insertionSort (fun a b => decide (a.id ≤ b.id) = true)
  have hperm : sorted.Perm chosen := List.perm_insertionSort _ _
  have hids : (sorted.map (·.id)).Nodup := by
    refine (hperm.map _).nodup_iff.2 ?_
    exact List.Nodup.sublist (List.filter_sublist.map _) hk
  have hsorted : sorted.Pairwise (fun a b => a.id.toNat < b.id.toNat) := by
    refine ((List.pairwise_insertionSort _ chosen).and (List.pairwise_map.1 hids)).imp ?_
    rintro a b ⟨hle, hne⟩
    have hle : a.id ≤ b.id := by simpa using hle
    exact BitVec.lt_def.1 (BitVec.lt_of_le_ne hle hne)
  have htake : row ∈ sweptRows messages eventTypes reads ↔ row ∈ sorted.take 100 := Iff.rfl
  rw [htake, mem_take_iff_countP_lt hsorted, hperm.mem_iff, hperm.countP_eq,
    List.countP_eq_length_filter, List.filter_filter]
  simp only [EndedBySweep, chosen, List.mem_filter, hmem, true_and, Bool.and_eq_true,
    Bool.not_eq_true', and_assoc, BitVec.lt_def, Bool.and_comm, Bool.and_left_comm]

/-- The sweep leaves a row that it does not end. -/
theorem mem_sweptTable (hk : Table.Keyed (·.id) messages) (hmem : row ∈ messages)
    (hnot : row ∉ sweptRows messages eventTypes reads) :
    row ∈ sweptTable messages eventTypes reads := by
  refine List.mem_map.2 ⟨row, hmem, if_neg fun hany => hnot ?_⟩
  obtain ⟨r, hr, hid⟩ := List.any_eq_true.1 hany
  rw [← hk.eq_of_key (mem_selectForUpdate hr).1 hmem (of_decide_eq_true hid)]
  exact hr

/-- A version that the sweep may end is unfinished, and stays so. -/
theorem settled_false_of_sweepable (h : sweepable eventTypes reads.now row = true) :
    (row.status = .published || row.status = .skipped : Bool) = false := by
  simp only [sweepable, Bool.and_eq_true, Bool.or_eq_true, decide_eq_true_eq] at h
  rcases h.1.2 with ⟨hst, -⟩ | hst | hst <;> rw [hst] <;> rfl

theorem settled_false_sweep :
    (row.sweep.status = .published || row.sweep.status = .skipped : Bool) = false := by
  rw [OutboxMessage.sweep]
  split <;> rfl

/-- The sweep does not change which rows wait for an earlier version. -/
theorem blocked_sweptTable (hk : Table.Keyed (·.id) messages) :
    blocked (sweptTable messages eventTypes reads) row = blocked messages row := by
  rw [blocked, blocked, sweptTable, modifyRows, Table.update, List.any_map]
  rw [Bool.eq_iff_iff, List.any_eq_true, List.any_eq_true]
  refine exists_congr fun earlier => and_congr_right fun hmem => ?_
  by_cases hany : (sweptRows messages eventTypes reads).any (·.id = earlier.id) = true
  · obtain ⟨r, hr, hid⟩ := List.any_eq_true.1 hany
    have hr := mem_selectForUpdate hr
    rw [hk.eq_of_key hr.1 hmem (of_decide_eq_true hid)] at hr
    rw [Function.comp_apply, if_pos hany, settled_false_of_sweepable hr.2.1]
    rw [settled_false_sweep]
    rfl
  · rw [Function.comp_apply, if_neg hany]

/-! ## The row that `claim` selects -/

/-- A row of the registered types that a claim should find: claimable, unlocked and not too old. -/
structure Deliverable (messages : List OutboxMessage) (eventTypes : List String)
    (settings : OutboxWorkerSettings) (reads : ClaimReads) (row : OutboxMessage) : Prop where
  mem : row ∈ messages
  claimable : claimable messages eventTypes reads.now row = true
  unlocked : reads.rowLocked row.id = false
  deadline : ∀ deadline, row.deadlineAt = some deadline → reads.now < deadline
  young : reads.now < row.occurredAt + seconds settings.maxAgeSeconds

/-- A claimable row that is too old, and that the sweep does not end. -/
structure Stale (messages : List OutboxMessage) (eventTypes : List String)
    (settings : OutboxWorkerSettings) (reads : ClaimReads) (row : OutboxMessage) : Prop where
  mem : row ∈ messages
  claimable : claimable messages eventTypes reads.now row = true
  unlocked : reads.rowLocked row.id = false
  left : ¬ EndedBySweep messages eventTypes reads row
  old : (∃ deadline, row.deadlineAt = some deadline ∧ deadline ≤ reads.now) ∨
    row.occurredAt + seconds settings.maxAgeSeconds ≤ reads.now

instance : Std.Total (fun a b : OutboxMessage => claimOrder a b = true) where
  total a b := by
    have hid := BitVec.le_total a.id b.id
    rcases Int.lt_trichotomy a.availableAt b.availableAt with hlt | heq | hgt
    · exact .inl (by simp [claimOrder, hlt])
    · exact hid.imp (fun h => by simp [claimOrder, heq, h]) fun h => by simp [claimOrder, heq, h]
    · exact .inr (by simp [claimOrder, hgt])

theorem claimOrder_iff {a b : OutboxMessage} : claimOrder a b = true ↔
    a.availableAt < b.availableAt ∨ a.availableAt = b.availableAt ∧ a.id ≤ b.id := by
  simp [claimOrder]

theorem claimOrder_antisymm {a b : OutboxMessage} (hab : claimOrder a b = true)
    (hba : claimOrder b a = true) : a.id = b.id := by
  rw [claimOrder_iff] at hab hba
  rcases hab with hlt | ⟨heq, hle⟩
  · rcases hba with hlt' | ⟨heq', -⟩
    · exact absurd (Int.lt_trans hlt hlt') (Int.lt_irrefl _)
    · exact absurd (heq' ▸ hlt) (Int.lt_irrefl _)
  · rcases hba with hlt' | ⟨-, hle'⟩
    · exact absurd (heq ▸ hlt') (Int.lt_irrefl _)
    · exact BitVec.le_antisymm hle hle'

instance : IsTrans OutboxMessage (fun a b => claimOrder a b = true) where
  trans a b c hab hbc := by
    rw [claimOrder_iff] at hab hbc ⊢
    rcases hab with hab | ⟨hab, hid⟩
    · rcases hbc with hbc | ⟨hbc, -⟩
      · exact .inl (Int.lt_trans hab hbc)
      · exact .inl (hbc ▸ hab)
    · rcases hbc with hbc | ⟨hbc, hid'⟩
      · exact .inl (hab ▸ hbc)
      · exact .inr ⟨hab.trans hbc, BitVec.le_trans hid hid'⟩

/-- The first row of the order. -/
theorem selectedRow_first (h : selectedRow messages eventTypes reads = some row) {r : OutboxMessage}
    (hmem : r ∈ messages) (hclaimable : claimable messages eventTypes reads.now r = true)
    (hunlocked : reads.rowLocked r.id = false) : claimOrder row r = true := by
  let sorted := (messages.filter fun row => claimable messages eventTypes reads.now row &&
    !reads.rowLocked row.id).insertionSort (claimOrder · · = true)
  have hsorted : sorted.Pairwise (claimOrder · · = true) := List.pairwise_insertionSort _ _
  have hr : r ∈ sorted := by
    rw [List.mem_insertionSort, List.mem_filter]
    exact ⟨hmem, by simp [hclaimable, hunlocked]⟩
  have hhead : (sorted.take 1).head? = some row := h
  cases hcase : sorted with
  | nil =>
    rw [hcase] at hr
    cases hr
  | cons first rest =>
    rw [hcase] at hhead hr hsorted
    cases hhead
    rcases List.mem_cons.1 hr with rfl | hr
    · exact claimOrder_iff.2 (.inr ⟨rfl, BitVec.le_refl _⟩)
    · exact (List.pairwise_cons.1 hsorted).1 r hr

theorem selectedRow_isSome (hmem : row ∈ messages)
    (hclaimable : claimable messages eventTypes reads.now row = true)
    (hunlocked : reads.rowLocked row.id = false) :
    ∃ first, selectedRow messages eventTypes reads = some first := by
  let sorted := (messages.filter fun row => claimable messages eventTypes reads.now row &&
    !reads.rowLocked row.id).insertionSort (claimOrder · · = true)
  have hr : row ∈ sorted := by
    rw [List.mem_insertionSort, List.mem_filter]
    exact ⟨hmem, by simp [hclaimable, hunlocked]⟩
  cases hcase : sorted with
  | nil =>
    rw [hcase] at hr
    cases hr
  | cons first rest =>
    refine ⟨first, ?_⟩
    show (sorted.take 1).head? = some first
    rw [hcase]
    rfl

/-- The rows that `claim` selects from are those it could take before the sweep and that the sweep
leaves. -/
theorem candidate_sweptTable (hk : Table.Keyed (·.id) messages) :
    (row ∈ sweptTable messages eventTypes reads ∧
      claimable (sweptTable messages eventTypes reads) eventTypes reads.now row = true) ↔
    row ∈ messages ∧ claimable messages eventTypes reads.now row = true ∧
      ¬ EndedBySweep messages eventTypes reads row := by
  have hsame : claimable (sweptTable messages eventTypes reads) eventTypes reads.now row =
      claimable messages eventTypes reads.now row := by
    rw [claimable, claimable, blocked_sweptTable hk]
  rw [hsame]
  constructor
  · rintro ⟨hmem, hclaimable⟩
    obtain ⟨a, ha, ⟨hnot, rfl⟩ | ⟨-, rfl⟩⟩ :=
      mem_modifyRows hk (fun r hr => (mem_selectForUpdate hr).1) hmem
    · exact ⟨ha, hclaimable, fun hend => hnot ((mem_sweptRows hk ha).2 hend)⟩
    · rw [not_claimable_sweep] at hclaimable
      cases hclaimable
  · rintro ⟨hmem, hclaimable, hleft⟩
    exact ⟨mem_sweptTable hk hmem fun hswept => hleft ((mem_sweptRows hk hmem).1 hswept),
      hclaimable⟩

variable {settings : OutboxWorkerSettings}

/-- A row that is not too old keeps its deadline. -/
theorem claimDeadline_le_iff : claimDeadline row reads.now settings ≤ reads.now ↔
    (∃ deadline, row.deadlineAt = some deadline ∧ deadline ≤ reads.now) ∨
      row.occurredAt + seconds settings.maxAgeSeconds ≤ reads.now := by
  have hpos : ¬ reads.now + seconds settings.maxAgeSeconds ≤ reads.now := by
    have hrange := settings.maxAgeSeconds_range.1
    have hseconds : 0 < seconds settings.maxAgeSeconds := by
      rw [seconds]
      omega
    exact Int.not_le.2 (Int.lt_add_of_pos_right _ hseconds)
  rw [claimDeadline, min_le_iff]
  cases hdeadline : row.deadlineAt with
  | none => simp only [Option.getD_none, hpos, reduceCtorEq, false_and, exists_false]
  | some deadline => simp

/-- A row that the sweep could end is out of attempts, or past its deadline. -/
theorem Deliverable.not_ended (h : Deliverable messages eventTypes settings reads row) :
    ¬ EndedBySweep messages eventTypes reads row := by
  rintro ⟨hsweep, -⟩
  have hclaimable := h.claimable
  simp only [Ekumidayomi.claimable, sweepable, Bool.and_eq_true, Bool.or_eq_true,
    decide_eq_true_eq]
    at hclaimable hsweep
  rcases hsweep.2 with hspent | hpast
  · exact Nat.not_lt.2 hspent hclaimable.1.2
  · cases hdeadline : row.deadlineAt with
    | none =>
      rw [hdeadline] at hpast
      cases hpast
    | some deadline =>
      rw [hdeadline, atMost_some, decide_eq_true_eq] at hpast
      exact Int.not_le.2 (h.deadline deadline hdeadline) hpast

end

/-! ## Claims -/

/-- A claim finds a row when the group is not paused and there is one to deliver. -/
def ClaimsWork (db : Outbox) (group : String) (eventTypes : List String)
    (settings : OutboxWorkerSettings) (reads : ClaimReads) : Prop :=
  (db.control group).any (·.paused) = false →
    (∃ row, Deliverable db.messages eventTypes settings reads row) →
      ∃ db' claim, LeasedOutboxRepository.claim db group eventTypes settings reads =
        .ok (db', some claim)

/-- The group is paused, or there is nothing to deliver, or some row to deliver comes before every
stale row in the order `available_at, id`. -/
def NoStaleAhead (db : Outbox) (group : String) (eventTypes : List String)
    (settings : OutboxWorkerSettings) (reads : ClaimReads) : Prop :=
  (db.control group).any (·.paused) = true ∨
  (¬ ∃ row, Deliverable db.messages eventTypes settings reads row) ∨
  ∃ row, Deliverable db.messages eventTypes settings reads row ∧
    ∀ stale, Stale db.messages eventTypes settings reads stale → claimOrder stale row = false

section
variable {db : Outbox} {group : String} {eventTypes : List String}
  {settings : OutboxWorkerSettings} {reads : ClaimReads} {row : OutboxMessage}

/-- Past the pause, a claim is made when the selected row is not too old. -/
theorem claims_iff_selected
    (hsafe : (eventTypes.isEmpty || eventTypes.any (!isSafeName ·)) = false)
    (hpaused : (db.control group).any (·.paused) = false) :
    (∃ db' claim, LeasedOutboxRepository.claim db group eventTypes settings reads =
      .ok (db', some claim)) ↔
    ∃ row, selectedRow (sweptTable db.messages eventTypes reads) eventTypes reads = some row ∧
      ¬ claimDeadline row reads.now settings ≤ reads.now := by
  unfold LeasedOutboxRepository.claim claimNext
  simp only [hsafe, hpaused, Bool.false_eq_true, if_false, Outbox.messages_heartbeat]
  cases selectedRow (sweptTable db.messages eventTypes reads) eventTypes reads with
  | none => simp
  | some row =>
    by_cases hold : claimDeadline row reads.now settings ≤ reads.now
    · simp [hold]
    · simp [hold, Int.not_le.1 hold]

/-- The selected row, among the rows before the sweep. -/
theorem selectedRow_candidate (hk : db.Keyed)
    (h : selectedRow (sweptTable db.messages eventTypes reads) eventTypes reads = some row) :
    row ∈ db.messages ∧ claimable db.messages eventTypes reads.now row = true ∧
      reads.rowLocked row.id = false ∧ ¬ EndedBySweep db.messages eventTypes reads row := by
  have hsel := mem_selectForUpdate (List.mem_of_mem_head? h)
  obtain ⟨hmem, hclaimable, hleft⟩ := (candidate_sweptTable hk).1 ⟨hsel.1, hsel.2.1⟩
  exact ⟨hmem, hclaimable, hsel.2.2, hleft⟩

/-- The selected row is the first in the order of those that the claim may take before the sweep and
that the sweep leaves. -/
theorem selectedRow_iff (hk : db.Keyed) :
    selectedRow (sweptTable db.messages eventTypes reads) eventTypes reads = some row ↔
      (row ∈ db.messages ∧ claimable db.messages eventTypes reads.now row = true ∧
        reads.rowLocked row.id = false ∧ ¬ EndedBySweep db.messages eventTypes reads row) ∧
      ∀ other ∈ db.messages, claimable db.messages eventTypes reads.now other = true →
        reads.rowLocked other.id = false → ¬ EndedBySweep db.messages eventTypes reads other →
          claimOrder row other = true := by
  constructor
  · intro h
    refine ⟨selectedRow_candidate hk h, fun other hmem hclaimable hunlocked hleft => ?_⟩
    have hcand := (candidate_sweptTable hk).2 ⟨hmem, hclaimable, hleft⟩
    exact selectedRow_first h hcand.1 hcand.2 hunlocked
  · rintro ⟨⟨hmem, hclaimable, hunlocked, hleft⟩, hfirst⟩
    have hcand := (candidate_sweptTable hk).2 ⟨hmem, hclaimable, hleft⟩
    obtain ⟨first, hsel⟩ := selectedRow_isSome hcand.1 hcand.2 hunlocked
    obtain ⟨hmem', hclaimable', hunlocked', hleft'⟩ := selectedRow_candidate hk hsel
    have hid : first.id = row.id := claimOrder_antisymm
      (selectedRow_first hsel hcand.1 hcand.2 hunlocked)
      (hfirst first hmem' hclaimable' hunlocked' hleft')
    rw [hsel, hk.eq_of_key hmem' hmem hid]

/-- In a table with distinct keys, a claim takes work exactly when no stale row is ahead of it. -/
theorem claims_work_iff (hk : db.Keyed)
    (hsafe : (eventTypes.isEmpty || eventTypes.any (!isSafeName ·)) = false) :
    ClaimsWork db group eventTypes settings reads ↔
      NoStaleAhead db group eventTypes settings reads := by
  cases hpaused : (db.control group).any (·.paused) with
  | true => simp [ClaimsWork, NoStaleAhead, hpaused]
  | false =>
    rw [ClaimsWork, claims_iff_selected hsafe hpaused]
    constructor
    · intro h
      by_cases hdeliverable : ∃ row, Deliverable db.messages eventTypes settings reads row
      · -- the selected row is itself the one before the stale ones
        obtain ⟨row, hsel, hyoung⟩ := h hpaused hdeliverable
        obtain ⟨hmem, hclaimable, hunlocked, -⟩ := selectedRow_candidate hk hsel
        rw [claimDeadline_le_iff, not_or] at hyoung
        refine .inr (.inr ⟨row, ⟨hmem, hclaimable, hunlocked, ?_, Int.not_le.1 hyoung.2⟩, ?_⟩)
        · intro deadline hdeadline
          exact Int.not_le.1 fun hle => hyoung.1 ⟨deadline, hdeadline, hle⟩
        · intro stale hstale
          by_contra hbefore
          rw [Bool.not_eq_false] at hbefore
          have hcand := (candidate_sweptTable hk).2 ⟨hstale.mem, hstale.claimable, hstale.left⟩
          have hfirst := selectedRow_first hsel hcand.1 hcand.2 hstale.unlocked
          obtain rfl := hk.eq_of_key hstale.mem hmem (claimOrder_antisymm hbefore hfirst)
          exact hstale.old.elim hyoung.1 hyoung.2
      · exact .inr (.inl hdeliverable)
    · intro h _ hdeliverable
      rcases h with hpaused' | hnone | ⟨row, hrow, hahead⟩
      · rw [hpaused] at hpaused'
        cases hpaused'
      · exact absurd hdeliverable hnone
      · have hcand := (candidate_sweptTable hk).2 ⟨hrow.mem, hrow.claimable, hrow.not_ended⟩
        obtain ⟨first, hsel⟩ := selectedRow_isSome hcand.1 hcand.2 hrow.unlocked
        refine ⟨first, hsel, fun hold => ?_⟩
        obtain ⟨hmem, hclaimable, hunlocked, hleft⟩ := selectedRow_candidate hk hsel
        have hstale : Stale db.messages eventTypes settings reads first :=
          ⟨hmem, hclaimable, hunlocked, hleft, claimDeadline_le_iff.1 hold⟩
        have hfirst := selectedRow_first hsel hcand.1 hcand.2 hrow.unlocked
        rw [hahead first hstale] at hfirst
        cases hfirst

end

/-- A message that occurred more than an hour before the claim below. -/
def oldMessage : OutboxMessage := { Fixture.message with occurredAt := -seconds 4000 }

/-- A message of another aggregate that has just occurred. -/
def youngMessage : OutboxMessage :=
    { Fixture.message with id := 2, eventId := 8, aggregateId := 10 }

/-- The old message is ended, and the young one is not claimed. -/
theorem not_claimsWork_oldMessage :
    ¬ ClaimsWork { messages := [oldMessage, youngMessage] } "auth_email" [challengeEmailEvent] {}
      { now := 0, token := 1 } := by
  intro h
  have hyoung : Deliverable [oldMessage, youngMessage] [challengeEmailEvent] {}
      { now := 0, token := 1 } youngMessage := by
    refine ⟨by simp, by decide, rfl, ?_, by decide⟩
    intro deadline hdeadline
    cases hdeadline
  obtain ⟨db', claim, hclaim⟩ := h rfl ⟨youngMessage, hyoung⟩
  have hnone : (LeasedOutboxRepository.claim { messages := [oldMessage, youngMessage] } "auth_email"
      [challengeEmailEvent] {} { now := 0, token := 1 }).toOption.map (·.2.isSome) =
        some false := rfl
  rw [hclaim] at hnone
  cases hnone

/-- A message as old, of a third aggregate, that comes after the young one in the order of the
query. -/
def laterMessage : OutboxMessage := { oldMessage with id := 3, eventId := 9, aggregateId := 11 }

/-- The old message does not keep the young one before it from being claimed. -/
theorem claims_work_youngMessage :
    Outbox.Keyed { messages := [laterMessage, youngMessage] } ∧
    Stale [laterMessage, youngMessage] [challengeEmailEvent] {} { now := 0, token := 1 }
      laterMessage ∧
    ClaimsWork { messages := [laterMessage, youngMessage] } "auth_email" [challengeEmailEvent] {}
      { now := 0, token := 1 } := by
  have hk : Outbox.Keyed { messages := [laterMessage, youngMessage] } := List.nodup_cons.2
    ⟨by decide, List.nodup_singleton _⟩
  have hstale : Stale [laterMessage, youngMessage] [challengeEmailEvent] {} { now := 0, token := 1 }
      laterMessage :=
    ⟨by simp, by decide, rfl, fun h => absurd h.1 (by decide), .inr (by decide)⟩
  have hyoung : Deliverable [laterMessage, youngMessage] [challengeEmailEvent] {}
      { now := 0, token := 1 } youngMessage := by
    refine ⟨by simp, by decide, rfl, ?_, by decide⟩
    intro deadline hdeadline
    cases hdeadline
  refine ⟨hk, hstale, (claims_work_iff hk (by decide)).2 (.inr (.inr ⟨_, hyoung, ?_⟩))⟩
  intro stale h
  rcases List.mem_pair.1 h.mem with rfl | rfl
  · decide
  · rcases h.old with ⟨deadline, hdeadline, -⟩ | hpast
    · cases hdeadline
    · exact absurd hpast (by decide)

end Ekumidayomi
