import Ekumidayomi.Outbox.System

/-!
# Delivery in the order of an aggregate

Both claimers leave a row alone while an earlier version of its aggregate is open. A row that is
published or skipped is moved by no transaction (`RowMove.not_settled`), so what a claim finds
settled stays as it is in every later state. The two subqueries differ on skipped rows, which only
the leased claimer counts as done (`oneOrderingRule_iff`).
-/

namespace Ekumidayomi

/-- The two statuses that do not hold back later versions. -/
def OutboxMessage.Settled (row : OutboxMessage) : Prop :=
  row.status = .published ∨ row.status = .skipped

/-- `earlier` is a strictly earlier version of the aggregate of `row`. -/
def OutboxMessage.Precedes (earlier row : OutboxMessage) : Prop :=
  earlier.aggregateType = row.aggregateType ∧ earlier.aggregateId = row.aggregateId ∧
    earlier.aggregateVersion < row.aggregateVersion

section
variable {P : Type} {messages : List OutboxMessage} {db : Outbox} {l : Txn P}
  {row row' earlier : OutboxMessage} {eventTypes : List String} {now ownedAt : Time} {c : Claim}

/-- A row that the sweep takes is open. -/
theorem not_settled_of_sweepable (h : sweepable eventTypes now row = true) : ¬ row.Settled := by
  simp only [sweepable, Bool.and_eq_true, Bool.or_eq_true, decide_eq_true_eq] at h
  rintro (hs | hs) <;> simp [hs] at h

/-- A claimable row is open. -/
theorem not_settled_of_claimable (h : claimable messages eventTypes now row = true) :
    ¬ row.Settled := by
  simp only [claimable, Bool.and_eq_true, Bool.or_eq_true, decide_eq_true_eq] at h
  rintro (hs | hs) <;> simp [hs] at h

/-- An owned row is open. -/
theorem not_settled_of_owns (h : owns c ownedAt row = true) : ¬ row.Settled := by
  obtain ⟨-, -, hst, -⟩ := owns_iff.1 h
  rintro (hs | hs) <;> simp [hs] at hst

/-- No transaction moves a settled row: published and skipped are absorbing. -/
theorem RowMove.not_settled (h : RowMove db l row row') : ¬ row.Settled := by
  cases h with
  | claim h =>
    cases h with
    | swept h => exact not_settled_of_sweepable h
    | tooOld h | leased h => exact not_settled_of_claimable h
  | contentChanged h | bindExpired h | bound h | finished h => exact not_settled_of_owns h
  | replayed _ h => rintro (hs | hs) <;> simp [hs] at h
  | batchClaimed h =>
    simp only [batchClaimable, Bool.and_eq_true, Bool.or_eq_true, decide_eq_true_eq] at h
    rintro (hs | hs) <;> simp [hs] at h
  | published _ h | failed _ h => rintro (hs | hs) <;> simp [hs] at h
  | released h =>
    simp only [staleClaim, Bool.and_eq_true, decide_eq_true_eq] at h
    rintro (hs | hs) <;> simp [hs] at h

/-- The earlier versions of a row that the leased claimer takes are settled. -/
theorem settled_of_claimable (h : claimable messages eventTypes now row = true)
    (hmem : earlier ∈ messages) (hpre : earlier.Precedes row) : earlier.Settled := by
  simp only [claimable, Bool.and_eq_true, Bool.not_eq_true'] at h
  have hb := List.any_eq_false.1 h.2 earlier hmem
  obtain ⟨h1, h2, h3⟩ := hpre
  rw [OutboxMessage.Settled, or_iff_not_imp_left]
  simpa [h1, h2, h3] using hb

/-- The earlier versions of a row that the ordinary claimer takes are published. -/
theorem published_of_batchClaimable {maxAttempts : Nat} {types : Option (List String)}
    (h : batchClaimable messages maxAttempts now types row = true) (hmem : earlier ∈ messages)
    (hpre : earlier.Precedes row) : earlier.status = .published := by
  simp only [batchClaimable, Bool.and_eq_true, Bool.not_eq_true'] at h
  have hb := List.any_eq_false.1 h.1.2 earlier hmem
  obtain ⟨h1, h2, h3⟩ := hpre
  simpa [h1, h2, h3] using hb

end

/-! ## The two ordering rules -/

/-- An earlier version of the aggregate of `row` is neither published nor skipped. -/
def HeldBack (messages : List OutboxMessage) (row : OutboxMessage) : Prop :=
  ∃ earlier ∈ messages, earlier.Precedes row ∧ ¬ earlier.Settled

/-- Both claimers hold the row back exactly when an earlier version of its aggregate is open. -/
def OneOrderingRule (messages : List OutboxMessage) (row : OutboxMessage) : Prop :=
  (earlierUnpublished messages row = true ↔ HeldBack messages row) ∧
    (blocked messages row = true ↔ HeldBack messages row)

section
variable {messages : List OutboxMessage} {row : OutboxMessage}

/-- The subquery of the ordinary claimer. -/
theorem earlierUnpublished_iff : earlierUnpublished messages row = true ↔
    ∃ earlier ∈ messages, earlier.Precedes row ∧ earlier.status ≠ .published := by
  simp [earlierUnpublished, OutboxMessage.Precedes, and_assoc]

/-- The subquery of the leased claimer. -/
theorem blocked_iff : blocked messages row = true ↔ HeldBack messages row := by
  simp [blocked, HeldBack, OutboxMessage.Precedes, OutboxMessage.Settled, and_assoc]

/-- The two claimers follow one ordering rule on a row exactly when it has no skipped earlier
version or has an open one as well: `earlier_unpublished` leaves skipped rows out of what is
done. -/
theorem oneOrderingRule_iff (messages : List OutboxMessage) (row : OutboxMessage) :
    OneOrderingRule messages row ↔
      ((∃ earlier ∈ messages, earlier.Precedes row ∧ earlier.status = .skipped) →
        HeldBack messages row) := by
  rw [OneOrderingRule, earlierUnpublished_iff, blocked_iff]
  constructor
  · rintro ⟨hrule, -⟩ ⟨earlier, hmem, hpre, hskipped⟩
    exact hrule.1 ⟨earlier, hmem, hpre, by simp [hskipped]⟩
  · intro hskip
    refine ⟨⟨?_, ?_⟩, Iff.rfl⟩
    · rintro ⟨earlier, hmem, hpre, hst⟩
      by_cases hs : earlier.status = .skipped
      · exact hskip ⟨earlier, hmem, hpre, hs⟩
      · exact ⟨earlier, hmem, hpre, fun h => h.elim hst hs⟩
    · rintro ⟨earlier, hmem, hpre, hopen⟩
      exact ⟨earlier, hmem, hpre, fun hst => hopen (.inl hst)⟩

end

/-- The keys of the rows that a transaction claimed. -/
def claimedIds {P : Type} : Txn P → List UUID
  | .claim _ _ _ _ (some c) => [c.messageId]
  | .claimBatch _ _ _ _ _ rows => rows.map (·.id)
  | _ => []

namespace Repo

variable {P : Type} {s s' : Repo} {l : Txn P} {id : UUID} {row : OutboxMessage}

/-- A settled row is the same row in every later state. -/
theorem settled_run {tr : List (Txn P)} (run : Lts.Run Step s tr s') (hk : s.db.Keyed)
    (hrow : s.db.message id = some row) (hs : row.Settled) : s'.db.message id = some row := by
  refine (run.invariant (I := fun s => s.db.Keyed ∧ s.db.message id = some row) ?_ ⟨hk, hrow⟩).2
  rintro s l s' ⟨hk, hrow⟩ h
  obtain ⟨row', hrow', he | hm⟩ := h.message hk hrow
  · exact ⟨h.keyed hk, he ▸ hrow'⟩
  · exact absurd hs hm.not_settled

/-- When a transaction claims a row, the earlier versions of its aggregate are settled. -/
theorem Step.claimed_in_order (h : Step s l s') (hk : s.db.Keyed) (hid : id ∈ claimedIds l) :
    ∃ row, s'.db.message id = some row ∧ row.status = .processing ∧
      ∀ earlier ∈ s'.db.messages, earlier.Precedes row → earlier.Settled := by
  cases h with
  | @claim _ eventTypes settings reads db result _ _ h =>
    cases result with
    | none => cases hid
    | some c =>
      obtain rfl := List.mem_singleton.1 hid
      obtain ⟨row, -, hcl, -, -, hrow'⟩ := claim_eq_some hk h
      refine ⟨_, hrow', rfl, fun earlier hmem hpre => ?_⟩
      have hne : earlier.id ≠ c.messageId := by
        -- the claimed row itself is no earlier version of itself
        intro he
        have hk' : (s.afterClaim settings reads db (some c)).db.Keyed :=
          Step.keyed (P := P) (.claim (by assumption) (by assumption) h) hk
        have hself := hk'.eq_of_key hmem (Table.mem_of_find hrow')
          (he.trans (Table.key_of_find hrow').symm)
        rw [hself] at hpre
        exact absurd hpre.2.2 (lt_irrefl _)
      exact settled_of_claimable hcl (claim_others h hmem hne) hpre
  | @claimBatch maxAttempts limit claimedAt eventTypes locked db rows h =>
    obtain ⟨rfl, rfl⟩ := claimBatch_eq_ok h
    obtain ⟨r, hr, rfl⟩ := List.mem_map.1 hid
    obtain ⟨row, hsel, rfl⟩ := List.mem_map.1 hr
    obtain ⟨hmem, hcl, -⟩ := mem_selectForUpdate hsel
    have hsub : ∀ r ∈ selectForUpdate s.db.messages
        (batchClaimable s.db.messages maxAttempts claimedAt eventTypes) batchOrder limit locked,
        r ∈ s.db.messages := fun r hr => (mem_selectForUpdate hr).1
    refine ⟨row.batchClaim claimedAt,
      find_modifyRows_selected (f := (·.batchClaim claimedAt)) hk (fun _ => rfl) hmem hsel, rfl,
      fun earlier hearlier hpre => ?_⟩
    obtain ⟨a, ha, ⟨-, rfl⟩ | ⟨hasel, rfl⟩⟩ := mem_modifyRows hk hsub hearlier
    · exact .inl (published_of_batchClaimable hcl ha hpre)
    · -- a row claimed in the same batch was open, but an earlier version is published
      have hpub := published_of_batchClaimable hcl ha hpre
      have hcl' := (mem_selectForUpdate hasel).2.1
      simp [batchClaimable, hpub] at hcl'
  | _ => cases hid

/-- **In-order delivery per aggregate.** Whenever a transaction of a run claims a row, every row
then in the table with the same aggregate and a strictly smaller version is published or skipped,
and it is the same row in every later state. -/
theorem in_order_delivery {s₀ s₃ : Repo} {before after : List (Txn P)} (hk : s₀.db.Keyed)
    (run : Lts.Run Step s₀ before s) (step : Step s l s') (hid : id ∈ claimedIds l)
    (rest : Lts.Run Step s' after s₃) :
    ∃ row, s'.db.message id = some row ∧ row.status = .processing ∧
      ∀ earlier ∈ s'.db.messages, earlier.Precedes row →
        earlier.Settled ∧ s₃.db.message earlier.id = some earlier := by
  have hks : s.db.Keyed :=
    run.invariant (I := fun s => s.db.Keyed) (fun hk h => h.keyed hk) hk
  have hks' := step.keyed hks
  obtain ⟨row, hrow, hst, hpre⟩ := step.claimed_in_order hks hid
  refine ⟨row, hrow, hst, fun earlier hmem hp => ?_⟩
  have hset := hpre earlier hmem hp
  exact ⟨hset, settled_run rest hks' (hks'.find hmem) hset⟩

/-- The second version of the aggregate of the fixture. -/
def secondVersion : OutboxMessage :=
  { Fixture.message with id := 2, eventId := 8, aggregateVersion := 2 }

/-- Two versions of one aggregate, the first already published. -/
def twoVersions : Repo :=
  { db := { messages := [{ Fixture.message with status := .published }, secondVersion] }
    clock := 0 }

/-- The first version was skipped: the leased claimer goes on to the second, and the ordinary
claimer never does. -/
theorem not_oneOrderingRule_skipped :
    ¬ OneOrderingRule [{ Fixture.message with status := .skipped }, secondVersion]
      secondVersion := by
  rintro ⟨hrule, hleased⟩
  have hunpublished : earlierUnpublished
      [{ Fixture.message with status := .skipped }, secondVersion] secondVersion = true := rfl
  have hblocked := hleased.2 (hrule.1 hunpublished)
  cases hblocked

/-- The claim of the second version. -/
def secondClaim : Claim :=
  { Fixture.claim 1 1 with
    messageId := 2, event := some { Fixture.event with eventId := 8, aggregateVersion := 2 } }

/-- The second version claimed. -/
def secondClaimed : Repo :=
  { db :=
      { messages := [{ Fixture.message with status := .published }, secondVersion.lease 0 default 1]
        controls := [Fixture.control 0] }
    clock := 0
    issued := [⟨secondClaim, seconds 120⟩] }

/-- The second version is claimed once the first is published, which stays so. -/
theorem in_order_delivery_secondClaimed :
    ∃ row, secondClaimed.db.message 2 = some row ∧ row.status = .processing ∧
      ∀ earlier ∈ secondClaimed.db.messages, earlier.Precedes row →
        earlier.Settled ∧ secondClaimed.db.message earlier.id = some earlier := by
  have hk : twoVersions.db.Keyed := by
    simp [Outbox.Keyed, Table.Keyed, twoVersions, Fixture.message, secondVersion]
  have step : Step (P := Unit) twoVersions
      (.claim "auth_email" [challengeEmailEvent] {} { now := 0, token := 1 } (some secondClaim))
      secondClaimed :=
    .claim (le_refl _) (by decide) rfl
  exact in_order_delivery hk .nil step (List.mem_singleton.2 rfl) .nil

end Repo

end Ekumidayomi
