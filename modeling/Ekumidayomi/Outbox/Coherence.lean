import Ekumidayomi.Outbox.Claiming

/-!
# Leases and the status column

A leased row carries a claim token and the end of its lease, and the two columns are meant to be set
exactly while the row is processing. Of the branches that take a row out of processing, all but one
clear the two columns. The exception is the branch of `claim` for a row that is too old: a row whose
lease has run out, which the sweep did not take and whose deadline under the settings of this call
has passed, keeps both when it is the first of its query (`Txn.Abandons`).
-/

namespace Ekumidayomi

/-- The lease columns of a row are set exactly while it is processing. -/
def OutboxMessage.Coherent (row : OutboxMessage) : Prop :=
  (row.claimToken ≠ none ↔ row.status = .processing) ∧
    (row.leaseExpiresAt ≠ none ↔ row.status = .processing)

/-- Every row of the table is coherent. -/
def Outbox.Coherent (db : Outbox) : Prop := ∀ row ∈ db.messages, row.Coherent

section
variable {P : Type}

/-- The transactions of `LeasedOutboxRepository` and of the recovery operations, with the staging of
rows; those of the ordinary repository are left out. -/
def Txn.Leased : Txn P → Prop
  | .claimBatch .. | .markPublished .. | .markFailed .. | .recoverStaleClaims .. => False
  | _ => True

/-- A claim on a running group, with a row still processing, under a lease that has run out, whose
deadline has passed and that the sweep does not end, and with no other row that it may take and that
the sweep leaves before that row in the order `available_at, id`. -/
def Txn.Abandons (db : Outbox) : Txn P → Prop
  | .claim group eventTypes settings reads _ =>
    (db.control group).any (·.paused) = false ∧
      ∃ row, Stale db.messages eventTypes settings reads row ∧ row.status = .processing ∧
        ∀ other ∈ db.messages, claimable db.messages eventTypes reads.now other = true →
          reads.rowLocked other.id = false → ¬ EndedBySweep db.messages eventTypes reads other →
            claimOrder row other = true
  | _ => False

/-- A row is abandoned when the claim selects it after its sweep. -/
theorem Txn.abandons_iff {db : Outbox} {group : String} {eventTypes : List String}
    {settings : OutboxWorkerSettings} {reads : ClaimReads} {result : Option Claim} (hk : db.Keyed) :
    Txn.Abandons (P := P) db (.claim group eventTypes settings reads result) ↔
      (db.control group).any (·.paused) = false ∧
        ∃ row, selectedRow (sweptTable db.messages eventTypes reads) eventTypes reads = some row ∧
          row.status = .processing ∧ claimDeadline row reads.now settings ≤ reads.now := by
  refine and_congr_right fun _ => exists_congr fun row => ?_
  rw [selectedRow_iff hk]
  constructor
  · rintro ⟨hstale, hst, hfirst⟩
    exact ⟨⟨⟨hstale.mem, hstale.claimable, hstale.unlocked, hstale.left⟩, hfirst⟩, hst,
      claimDeadline_le_iff.2 hstale.old⟩
  · rintro ⟨⟨⟨hmem, hclaimable, hunlocked, hleft⟩, hfirst⟩, hst, hold⟩
    exact ⟨⟨hmem, hclaimable, hunlocked, hleft, claimDeadline_le_iff.1 hold⟩, hst, hfirst⟩

end

/-! ## Coherence of one row -/

section
variable {row : OutboxMessage} {now ownedAt deadline : Time} {c : Claim}

theorem OutboxMessage.coherent_of_cleared (htok : row.claimToken = none)
    (hlease : row.leaseExpiresAt = none) (hst : row.status ≠ .processing) : row.Coherent := by
  simp [OutboxMessage.Coherent, htok, hlease, hst]

/-- A coherent row that is not processing has neither column set. -/
theorem OutboxMessage.Coherent.cleared (h : row.Coherent) (hst : row.status ≠ .processing) :
    row.claimToken = none ∧ row.leaseExpiresAt = none := by
  constructor
  · by_contra htok
    exact hst (h.1.1 htok)
  · by_contra hlease
    exact hst (h.2.1 hlease)

theorem OutboxMessage.status_tooOld_ne : (row.tooOld deadline).status ≠ .processing := by
  unfold OutboxMessage.tooOld
  split <;> simp

/-- The sweep clears both columns. -/
theorem OutboxMessage.coherent_sweep : row.sweep.Coherent := by
  refine OutboxMessage.coherent_of_cleared rfl rfl ?_
  unfold OutboxMessage.sweep
  split <;> simp

/-- The branch for a row that is too old keeps what the row has. -/
theorem OutboxMessage.coherent_tooOld (h : row.Coherent) (hst : row.status ≠ .processing) :
    (row.tooOld deadline).Coherent :=
  OutboxMessage.coherent_of_cleared (h.cleared hst).1 (h.cleared hst).2
    OutboxMessage.status_tooOld_ne

theorem OutboxMessage.coherent_bindExpired : (row.bindExpired deadline).Coherent := by
  refine OutboxMessage.coherent_of_cleared rfl rfl ?_
  unfold OutboxMessage.bindExpired
  split <;> simp

theorem OutboxMessage.coherent_finished {result : DeliveryOutcome} {delay : Int} :
    (row.finished c result delay now).Coherent :=
  OutboxMessage.coherent_of_cleared rfl rfl finishStatus_ne_processing

end

/-! ## Coherence along a run -/

namespace Repo

variable {P : Type} {s s' : Repo} {l : Txn P} {id : UUID} {row row' : OutboxMessage}

/-- A claim on a group that is not paused sweeps and selects. -/
theorem claim_running {db db' : Outbox} {group : String} {eventTypes : List String}
    {settings : OutboxWorkerSettings} {reads : ClaimReads} {result : Option Claim}
    (h : LeasedOutboxRepository.claim db group eventTypes settings reads = .ok (db', result))
    (hrun : (db.control group).any (·.paused) = false) :
    claimNext (db.heartbeat group reads.now) eventTypes settings reads = (db', result) := by
  unfold LeasedOutboxRepository.claim at h
  split at h
  · cases h
  · simpa [hrun] using h

/-- Past the pause check, a claim keeps a row coherent unless it finds the row too old while the row
is processing. -/
theorem claimNext_coherent {db db' : Outbox} {eventTypes : List String}
    {settings : OutboxWorkerSettings} {reads : ClaimReads} {result : Option Claim} (hk : db.Keyed)
    (hrow : db.message id = some row) (hcoh : row.Coherent)
    (h : claimNext db eventTypes settings reads = (db', result))
    (hnot : ∀ r, selectedRow (sweptTable db.messages eventTypes reads) eventTypes reads = some r →
      r.status = .processing → reads.now < claimDeadline r reads.now settings)
    (hrow' : db'.message id = some row') : row'.Coherent := by
  obtain ⟨row₁, hrow₁, hsweep⟩ := find_sweptTable eventTypes reads hk hrow
  have hcoh₁ : row₁.Coherent := by
    rcases hsweep with rfl | ⟨-, rfl⟩
    · exact hcoh
    · exact OutboxMessage.coherent_sweep
  unfold claimNext at h
  simp only at h
  split at h
  · cases h
    obtain rfl : row₁ = row' := Option.some.inj (hrow₁.symm.trans hrow')
    exact hcoh₁
  rename_i r hsel
  have hr : { db with messages := sweptTable db.messages eventTypes reads }.message r.id = some r :=
    (keyed_sweptTable hk).find (selectedRow_eq_some hsel).1
  by_cases hid : id = r.id
  · -- the selected row
    subst hid
    obtain rfl : row₁ = r := Option.some.inj (hrow₁.symm.trans hr)
    split at h
    · rename_i hdl
      cases h
      rw [Outbox.message_modify_self (·.tooOld _) (fun _ => rfl) hr] at hrow'
      cases hrow'
      exact OutboxMessage.coherent_tooOld hcoh₁ fun hst => absurd (hnot _ hsel hst) (not_lt.2 hdl)
    · cases h
      rw [Outbox.message_modify_self (·.lease ..) (fun _ => rfl) hr] at hrow'
      cases hrow'
      simp [OutboxMessage.Coherent, OutboxMessage.lease]
  · -- on any other row only the sweep is seen
    have hsame : db'.message id = some row₁ := by
      split at h
      · cases h
        exact (Outbox.message_modify_ne (·.tooOld _) (fun _ => rfl) hid).trans hrow₁
      · cases h
        exact (Outbox.message_modify_ne (·.lease ..) (fun _ => rfl) hid).trans hrow₁
    obtain rfl : row₁ = row' := Option.some.inj (hsame.symm.trans hrow')
    exact hcoh₁

/-- A claim that abandons no row keeps every row coherent. -/
theorem claim_coherent {db db' : Outbox} {group : String} {eventTypes : List String}
    {settings : OutboxWorkerSettings} {reads : ClaimReads} {result : Option Claim} (hk : db.Keyed)
    (hrow : db.message id = some row) (hcoh : row.Coherent)
    (h : LeasedOutboxRepository.claim db group eventTypes settings reads = .ok (db', result))
    (hnot : ¬ Txn.Abandons (P := P) db (.claim group eventTypes settings reads result))
    (hrow' : db'.message id = some row') : row'.Coherent := by
  cases hp : (db.control group).any (·.paused) with
  | false =>
    have hk' : (db.heartbeat group reads.now).Keyed := by simpa [Outbox.Keyed] using hk
    have hbeat : (db.heartbeat group reads.now).message id = some row := by
      simpa [Outbox.message] using hrow
    refine claimNext_coherent hk' hbeat hcoh (claim_running h hp) (fun r hsel hst => ?_) hrow'
    rw [Outbox.messages_heartbeat] at hsel
    exact not_le.1 fun hle => hnot ((Txn.abandons_iff hk).2 ⟨hp, r, hsel, hst, hle⟩)
  | true =>
    -- a paused group only beats
    unfold LeasedOutboxRepository.claim at h
    split at h
    · cases h
    simp only at h
    cases h
    have hbeat : (db.heartbeat group reads.now).message id = some row := by
      simpa [Outbox.message] using hrow
    obtain rfl : row = row' := Option.some.inj (hbeat.symm.trans hrow')
    exact hcoh

/-- A claim that abandons a row leaves it settled with its token and lease. -/
theorem claim_abandons {db db' : Outbox} {group : String} {eventTypes : List String}
    {settings : OutboxWorkerSettings} {reads : ClaimReads} {result : Option Claim} (hk : db.Keyed)
    (hcoh : db.Coherent)
    (h : LeasedOutboxRepository.claim db group eventTypes settings reads = .ok (db', result))
    (hab : Txn.Abandons (P := P) db (.claim group eventTypes settings reads result)) :
    ¬ db'.Coherent := by
  obtain ⟨hp, r, hsel, hst, hdl⟩ := (Txn.abandons_iff hk).1 hab
  have hrun := claim_running h hp
  unfold claimNext at hrun
  simp only [Outbox.messages_heartbeat, hsel, hdl, if_true] at hrun
  cases hrun
  have hr : Table.find (·.id) (sweptTable db.messages eventTypes reads) r.id = some r :=
    (keyed_sweptTable hk).find (selectedRow_eq_some hsel).1
  have hold : r.Coherent := hcoh r (Table.mem_of_find (selectedRow_unswept hk hsel))
  intro hcoh'
  have hnew := hcoh' _ (Table.mem_of_find
    (Outbox.message_modify_self (·.tooOld (claimDeadline r reads.now settings)) (fun _ => rfl) hr))
  exact OutboxMessage.status_tooOld_ne (hnew.1.1 (hold.1.2 hst))

/-- One leased transaction keeps the table coherent exactly when it abandons no row. -/
theorem Step.coherent_iff (h : Step s l s') (hl : l.Leased) (hk : s.db.Keyed)
    (hcoh : s.db.Coherent) : s'.db.Coherent ↔ ¬ l.Abandons s.db := by
  constructor
  · intro hcoh' hab
    cases h with
    | claim _ _ h =>
      rw [afterClaim_db] at hcoh'
      exact claim_abandons hk hcoh h hab hcoh'
    | _ => exact hab
  · intro hnot row' hmem
    have hrow' : s'.db.message row'.id = some row' := (h.keyed hk).find hmem
    rcases h.message_inv hk hrow' with ⟨row, hrow, rfl | hm⟩ | ⟨hst, -, htok, hlease, -⟩
    · exact hcoh _ (Table.mem_of_find hrow)
    · have hrc := hcoh row (Table.mem_of_find hrow)
      cases hm with
      | claim hm =>
        cases h with
        | claim _ _ h =>
          rw [afterClaim_db] at hrow'
          exact claim_coherent hk hrow hrc h hnot hrow'
      | contentChanged =>
        exact OutboxMessage.coherent_of_cleared rfl rfl (by simp [OutboxMessage.contentChanged])
      | bindExpired => exact OutboxMessage.coherent_bindExpired
      | bound => exact hrc
      | finished => exact OutboxMessage.coherent_finished
      | replayed =>
        exact OutboxMessage.coherent_of_cleared rfl rfl (by simp [OutboxMessage.replayed])
      | _ => exact hl.elim
    · exact OutboxMessage.coherent_of_cleared htok hlease (by simp [hst])

/-- A leased transaction that abandons no row. -/
def KeptStep (s : Repo) (l : Txn P) (s' : Repo) : Prop :=
  Step s l s' ∧ l.Leased ∧ ¬ l.Abandons s.db

/-- **Lease coherence.** From a table without rows, as long as no claim abandons a row, the lease
columns of every row are set exactly while it is processing; and from every state reached so, the
next leased transaction keeps this exactly when it abandons no row. -/
theorem lease_coherence {s₀ s : Repo} {tr : List (Txn P)} (h0 : s₀.db.messages = [])
    (run : Lts.Run KeptStep s₀ tr s) :
    s.db.Coherent ∧
      ∀ l s', Step s l s' → l.Leased → (s'.db.Coherent ↔ ¬ Txn.Abandons (P := P) s.db l) := by
  have hinv : s.db.Keyed ∧ s.db.Coherent := by
    refine run.invariant (I := fun s => s.db.Keyed ∧ s.db.Coherent) ?_ ⟨?_, ?_⟩
    · rintro s l s' ⟨hk, hcoh⟩ ⟨h, hl, hnot⟩
      exact ⟨h.keyed hk, (h.coherent_iff hl hk hcoh).2 hnot⟩
    · simp [Outbox.Keyed, Table.Keyed, h0]
    · simp [Outbox.Coherent, h0]
  exact ⟨hinv.2, fun l s' h hl => h.coherent_iff hl hinv.1 hinv.2⟩

/-- The message staged on an empty table. -/
theorem add_message : Step (P := Unit) { db := {}, clock := 0 } (.add Fixture.event none none 1)
    Fixture.repo :=
  .add rfl

/-- The staged message claimed for the first time. -/
theorem claim_message_first : Step (P := Unit) Fixture.repo
    (.claim "auth_email" [challengeEmailEvent] {} { now := 0, token := 1 }
      (some (Fixture.claim 1 1))) Fixture.claimedRepo :=
  .claim (le_refl _) (by decide) Fixture.claim_repo

/-- The message is staged and claimed, and the table is coherent. -/
theorem lease_coherence_claimedRepo : Fixture.claimedRepo.db.Coherent := by
  have hadd : KeptStep (P := Unit) { db := {}, clock := 0 } (.add Fixture.event none none 1)
      Fixture.repo := ⟨add_message, trivial, id⟩
  have hclaim : KeptStep (P := Unit) Fixture.repo
      (.claim "auth_email" [challengeEmailEvent] {} { now := 0, token := 1 }
        (some (Fixture.claim 1 1))) Fixture.claimedRepo := by
    refine ⟨claim_message_first, trivial, ?_⟩
    rintro ⟨-, row, hstale, hst, -⟩
    obtain rfl : row = Fixture.message := List.mem_singleton.1 hstale.mem
    cases hst
  exact (lease_coherence rfl ((Lts.Run.single hadd).snoc hclaim)).1

/-- The claimed message two minutes later, found too old by a claim with a shorter window. -/
def abandonedRepo : Repo :=
  { db :=
      { messages := [(Fixture.message.lease 0 default 1).tooOld (seconds 60)]
        controls := [Fixture.control (seconds 121)] }
    clock := seconds 121
    issued := [⟨Fixture.claim 1 1, seconds 120⟩] }

/-- A run of `add`, two claims and a clock advance ends with a dead row under a token. -/
theorem not_coherent_abandonedRepo :
    ¬ ∀ (tr : List (Txn Unit)) (s : Repo), (∀ l ∈ tr, l.Leased) →
      Lts.Run Step { db := {}, clock := 0 } tr s → s.db.Coherent := by
  intro h
  have htick : Step (P := Unit) Fixture.claimedRepo (.tick (seconds 121))
      { Fixture.claimedRepo with clock := seconds 121 } := .tick (by decide)
  have hclaim : Step (P := Unit) { Fixture.claimedRepo with clock := seconds 121 }
      (.claim "auth_email" [challengeEmailEvent] { maxAgeSeconds := 60 }
        { now := seconds 121, token := 2 } none) abandonedRepo :=
    .claim (le_refl _) (by decide) rfl
  have hrun := (((Lts.Run.single add_message).snoc claim_message_first).snoc htick).snoc hclaim
  have hcoh := h _ _ (by simp [Txn.Leased]) hrun
  have := (hcoh _ (List.mem_singleton.2 rfl)).1
  revert this
  decide

end Repo

end Ekumidayomi
