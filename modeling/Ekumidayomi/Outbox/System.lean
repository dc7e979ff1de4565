import Ekumidayomi.Lib.Run
import Ekumidayomi.Outbox.LeasedRepository

/-!
# The outbox as a transition system

Every transaction of the two repositories and of the recovery operations is a step on one table,
in any order and with any arguments (`Repo.step`). A label records the arguments of a call, what it
read and what it returned; the clock of the database never goes back. The state keeps, beside the
tables, the claims handed out so far with their leases (`issued`), which no transaction reads.

`RowMove` says once what a transaction can do to a row: `Repo.step_message` shows that a step leaves
each row alone or moves it so, and the invariants of the other modules are proved from `RowMove`.
-/

namespace Ekumidayomi

/-- A claim that a committed transaction returned, with the lease it was given. -/
structure Lease where
  claim : Claim
  expiresAt : Time
  deriving Repr

/-- The tables, the database clock and the claims handed out so far, the newest first. -/
structure Repo where
  db : Outbox
  clock : Time
  issued : List Lease := []

/-- One committed transaction: its call, what it read and what it returned. A transaction that
rolls back changes nothing and is no step. -/
inductive Txn (P : Type)
  | tick (clock : Time)
  | add (event : DomainEvent) (idempotencyKey : Option String) (availableAt : Option Time)
      (id : UUID)
  | claim (group : String) (eventTypes : List String) (settings : OutboxWorkerSettings)
      (reads : ClaimReads) (result : Option Claim)
  | bind (group : String) (claim : Claim) (fingerprint : String) (expiresAt : Time)
      (calledAt ownedAt now : Time) (allowed : Bool)
  | finish (group : String) (claim : Claim) (result : DeliveryOutcome) (delay : Int)
      (calledAt ownedAt now : Time) (applied : Bool)
  | replay (id : UUID) (handlers : List String) (prepare : DomainEvent → Preparation P)
      (now : Time)
  | resume (group : String)
  | claimBatch (maxAttempts limit : Nat) (claimedAt : Time) (eventTypes : Option (List String))
      (locked : UUID → Bool) (rows : List OutboxMessage)
  | markPublished (id : UUID) (publishedAt : Time) (changed : Bool)
  | markFailed (id : UUID) (errorCode : String) (availableAt : Time) (changed : Bool)
  | recoverStaleClaims (staleBefore availableAt : Time) (limit : Nat) (locked : UUID → Bool)

namespace Repo

variable {P : Type}

/-- The tokens handed out so far. -/
def tokens (s : Repo) : List UUID := s.issued.map (·.claim.token)

/-- The claim `c` was handed out. -/
def IsIssued (s : Repo) (c : Claim) : Prop := ∃ l ∈ s.issued, l.claim = c

/-- The state after a claim transaction. -/
def afterClaim (s : Repo) (settings : OutboxWorkerSettings) (reads : ClaimReads) (db : Outbox) :
    Option Claim → Repo
  | none => { s with db }
  | some c =>
    { s with db, issued := ⟨c, reads.now + seconds settings.leaseSeconds⟩ :: s.issued }

@[simp] theorem afterClaim_db (s : Repo) (settings : OutboxWorkerSettings) (reads : ClaimReads)
    (db : Outbox) (result : Option Claim) : (s.afterClaim settings reads db result).db = db := by
  cases result <;> rfl

/-- One step of the system. The clock a claim read may lie before waits for locks, so it is only
bounded by the clock at which the transaction takes effect; the reads of `bind` and `finish` come
after the call and in the order of the source. -/
inductive Step : Repo → Txn P → Repo → Prop
  | tick {s : Repo} {clock : Time} : s.clock ≤ clock → Step s (.tick clock) { s with clock }
  | add {s : Repo} {event : DomainEvent} {key : Option String} {availableAt : Option Time}
      {id : UUID} {db : Outbox} :
      OutboxRepository.add s.db event key availableAt id = .ok db →
      Step s (.add event key availableAt id) { s with db }
  | claim {s : Repo} {group : String} {eventTypes : List String}
      {settings : OutboxWorkerSettings} {reads : ClaimReads} {db : Outbox}
      {result : Option Claim} :
      reads.now ≤ s.clock → reads.token ∉ s.tokens →
      LeasedOutboxRepository.claim s.db group eventTypes settings reads = .ok (db, result) →
      Step s (.claim group eventTypes settings reads result) (s.afterClaim settings reads db result)
  | bind {s : Repo} {group : String} {c : Claim} {fingerprint : String} {expiresAt : Time}
      {calledAt ownedAt now : Time} {allowed : Bool} {db : Outbox} :
      s.IsIssued c → calledAt ≤ ownedAt → ownedAt ≤ now → now ≤ s.clock →
      LeasedOutboxRepository.bind s.db group c fingerprint expiresAt ownedAt now =
        .ok (db, allowed) →
      Step s (.bind group c fingerprint expiresAt calledAt ownedAt now allowed) { s with db }
  | finish {s : Repo} {group : String} {c : Claim} {result : DeliveryOutcome} {delay : Int}
      {calledAt ownedAt now : Time} {applied : Bool} {db : Outbox} :
      s.IsIssued c → calledAt ≤ ownedAt → ownedAt ≤ now → now ≤ s.clock →
      LeasedOutboxRepository.finish s.db group c result delay ownedAt now = (db, applied) →
      Step s (.finish group c result delay calledAt ownedAt now applied) { s with db }
  | replay {s : Repo} {id : UUID} {handlers : List String}
      {prepare : DomainEvent → Preparation P} {now : Time} {db : Outbox} :
      now ≤ s.clock → Ekumidayomi.replay s.db id handlers prepare now = .ok db →
      Step s (.replay id handlers prepare now) { s with db }
  | resume {s : Repo} {group : String} {db : Outbox} :
      Ekumidayomi.resume s.db group = .ok db → Step s (.resume group) { s with db }
  | claimBatch {s : Repo} {maxAttempts limit : Nat} {claimedAt : Time}
      {eventTypes : Option (List String)} {locked : UUID → Bool} {db : Outbox}
      {rows : List OutboxMessage} :
      OutboxRepository.claimBatch s.db maxAttempts limit claimedAt eventTypes locked =
        .ok (db, rows) →
      Step s (.claimBatch maxAttempts limit claimedAt eventTypes locked rows) { s with db }
  | markPublished {s : Repo} {id : UUID} {publishedAt : Time} {db : Outbox} {changed : Bool} :
      OutboxRepository.markPublished s.db id publishedAt = (db, changed) →
      Step s (.markPublished id publishedAt changed) { s with db }
  | markFailed {s : Repo} {id : UUID} {errorCode : String} {availableAt : Time} {db : Outbox}
      {changed : Bool} :
      OutboxRepository.markFailed s.db id errorCode availableAt = .ok (db, changed) →
      Step s (.markFailed id errorCode availableAt changed) { s with db }
  | recoverStaleClaims {s : Repo} {staleBefore availableAt : Time} {limit : Nat}
      {locked : UUID → Bool} {db : Outbox} {count : Nat} :
      OutboxRepository.recoverStaleClaims s.db staleBefore availableAt limit locked =
        .ok (db, count) →
      Step s (.recoverStaleClaims staleBefore availableAt limit locked) { s with db }

end Repo

/-! ## What a transaction can do to a row -/

/-- What `claim` can do to a row, in the table it reads after its sweep. -/
inductive ClaimMove (messages : List OutboxMessage) (eventTypes : List String)
    (settings : OutboxWorkerSettings) (reads : ClaimReads) : Option Claim → OutboxMessage →
    OutboxMessage → Prop
  | swept {result : Option Claim}
    {row : OutboxMessage} : sweepable eventTypes reads.now row = true →
      ClaimMove messages eventTypes settings reads result row row.sweep
  | tooOld {row : OutboxMessage} : claimable messages eventTypes reads.now row = true →
      claimDeadline row reads.now settings ≤ reads.now →
      ClaimMove messages eventTypes settings reads none row
        (row.tooOld (claimDeadline row reads.now settings))
  | leased {row : OutboxMessage} : claimable messages eventTypes reads.now row = true →
      reads.now < claimDeadline row reads.now settings →
      ClaimMove messages eventTypes settings reads
        (some ((row.lease reads.now settings reads.token).toClaim
          (claimDeadline row reads.now settings) reads.token))
        row (row.lease reads.now settings reads.token)

/-- What a transaction can do to a row of the table `db`. -/
inductive RowMove {P : Type} (db : Outbox) : Txn P → OutboxMessage → OutboxMessage → Prop
  | claim {group : String} {eventTypes : List String} {settings : OutboxWorkerSettings}
      {reads : ClaimReads} {result : Option Claim} {row row' : OutboxMessage} :
      ClaimMove (sweptTable db.messages eventTypes reads) eventTypes settings reads result row
        row' →
      RowMove db (.claim group eventTypes settings reads result) row row'
  | contentChanged {group : String} {c : Claim} {fingerprint : String} {expiresAt : Time}
      {calledAt ownedAt now : Time} {row : OutboxMessage} :
      owns c ownedAt row = true → row.deliveryFingerprint.any (· ≠ fingerprint) = true →
      RowMove db (.bind group c fingerprint expiresAt calledAt ownedAt now false) row
        row.contentChanged
  | bindExpired {group : String} {c : Claim} {fingerprint : String} {expiresAt : Time}
      {calledAt ownedAt now : Time} {row : OutboxMessage} :
      owns c ownedAt row = true → min c.deadline expiresAt ≤ now →
      RowMove db (.bind group c fingerprint expiresAt calledAt ownedAt now false) row
        (row.bindExpired (min c.deadline expiresAt))
  | bound {group : String} {c : Claim} {fingerprint : String} {expiresAt : Time}
      {calledAt ownedAt now : Time} {row : OutboxMessage} :
      owns c ownedAt row = true → isHex64 fingerprint = true →
      row.deliveryFingerprint.all (· = fingerprint) = true →
      now < min c.deadline expiresAt →
      RowMove db (.bind group c fingerprint expiresAt calledAt ownedAt now true) row
        (row.bound (min c.deadline expiresAt) fingerprint)
  | finished {group : String} {c : Claim} {result : DeliveryOutcome} {delay : Int}
      {calledAt ownedAt now : Time} {row : OutboxMessage} :
      owns c ownedAt row = true →
      RowMove db (.finish group c result delay calledAt ownedAt now true) row
        (row.finished c result delay now)
  | replayed {id : UUID} {handlers : List String} {prepare : DomainEvent → Preparation P}
      {now : Time} {row : OutboxMessage} :
      row.id = id → row.status = .dead ∨ row.status = .blocked → row.attempts < maxReplayAttempts →
      after row.deadlineAt now = true →
      RowMove db (.replay id handlers prepare now) row (row.replayed now)
  | batchClaimed {maxAttempts limit : Nat} {claimedAt : Time}
      {eventTypes : Option (List String)} {locked : UUID → Bool} {rows : List OutboxMessage}
      {row : OutboxMessage} : batchClaimable db.messages maxAttempts claimedAt eventTypes row = true →
      RowMove db (.claimBatch maxAttempts limit claimedAt eventTypes locked rows) row
        (row.batchClaim claimedAt)
  | published {id : UUID} {publishedAt : Time} {row : OutboxMessage} :
      row.id = id → row.status = .processing → row.claimToken = none →
      RowMove db (.markPublished id publishedAt true) row
        (row.publish publishedAt)
  | failed {id : UUID} {errorCode : String} {availableAt : Time} {row : OutboxMessage} :
      row.id = id → row.status = .processing →
      RowMove db (.markFailed id errorCode availableAt true) row
        (row.fail errorCode availableAt)
  | released {staleBefore availableAt : Time} {limit : Nat} {locked : UUID → Bool}
      {row : OutboxMessage} : staleClaim staleBefore row = true →
      RowMove db (.recoverStaleClaims staleBefore availableAt limit locked) row
        (row.release availableAt)

/-! ## Rows of the table after a transaction -/

section
variable {db db' : Outbox} {id : UUID} {row : OutboxMessage} {group : String}
  {eventTypes : List String} {settings : OutboxWorkerSettings} {reads : ClaimReads}
  {result : Option Claim} {c : Claim} {ownedAt now : Time}

@[simp] theorem Outbox.messages_heartbeat : (db.heartbeat group now).messages = db.messages := by
  unfold Outbox.heartbeat
  split <;> rfl

/-- The row `owned` returns is the claim's row, and it passes the condition. -/
theorem owned_eq_some (h : LeasedOutboxRepository.owned db c ownedAt = some row) :
    row ∈ db.messages ∧ owns c ownedAt row = true :=
  ⟨List.mem_of_find?_eq_some h, List.find?_some h⟩

theorem owns_iff : owns c ownedAt row = true ↔ row.id = c.messageId ∧
    row.claimToken = some c.token ∧ row.status = .processing ∧
    after row.leaseExpiresAt ownedAt = true := by
  simp [owns, and_assoc]

/-- The sweep leaves a row alone or settles it. -/
theorem find_sweptTable (eventTypes : List String) (reads : ClaimReads) (hk : db.Keyed)
    (hrow : db.message id = some row) :
    ∃ row', Table.find (·.id) (sweptTable db.messages eventTypes reads) id = some row' ∧
      (row' = row ∨ sweepable eventTypes reads.now row = true ∧ row' = row.sweep) := by
  have hsub : ∀ r ∈ sweptRows db.messages eventTypes reads, r ∈ db.messages :=
    fun r hr => (mem_selectForUpdate hr).1
  obtain ⟨row', hrow', h⟩ := find_modifyRows (f := OutboxMessage.sweep) hk (fun _ => rfl) hrow hsub
  exact ⟨row', hrow', h.imp_right fun ⟨hmem, he⟩ => ⟨(mem_selectForUpdate hmem).2.1, he⟩⟩

/-- A row that the sweep settled is not claimable afterwards. -/
theorem not_claimable_sweep {messages : List OutboxMessage} {now : Time} :
    claimable messages eventTypes now row.sweep = false := by
  by_cases h : truthy row.deliveryFingerprint <;> simp [claimable, OutboxMessage.sweep, h]

theorem ids_sweptTable (messages : List OutboxMessage) (eventTypes : List String)
    (reads : ClaimReads) :
    (sweptTable messages eventTypes reads).map (·.id) = messages.map (·.id) :=
  ids_modifyRows _ _ OutboxMessage.sweep fun _ => rfl

theorem keyed_sweptTable (hk : db.Keyed) :
    Table.Keyed (·.id) (sweptTable db.messages eventTypes reads) := by
  rw [Table.Keyed, ids_sweptTable]
  exact hk

/-- The row `claim` takes is a row of the table that it found claimable. -/
theorem selectedRow_eq_some {messages : List OutboxMessage}
    (h : selectedRow messages eventTypes reads = some row) :
    row ∈ messages ∧ claimable messages eventTypes reads.now row = true := by
  have := mem_selectForUpdate (List.mem_of_mem_head? h)
  exact ⟨this.1, this.2.1⟩

/-- The row `claim` takes was not swept: it is a row of the table before the sweep. -/
theorem selectedRow_unswept (hk : db.Keyed)
    (h : selectedRow (sweptTable db.messages eventTypes reads) eventTypes reads = some row) :
    db.message row.id = some row := by
  obtain ⟨hmem, hcl⟩ := selectedRow_eq_some h
  have hid : row.id ∈ db.messages.map (·.id) := by
    rw [← ids_sweptTable db.messages eventTypes reads]
    exact List.mem_map_of_mem hmem
  obtain ⟨row₀, hrow₀, hid⟩ := List.mem_map.1 hid
  have hfind : db.message row.id = some row₀ := hid ▸ hk.find hrow₀
  obtain ⟨row₁, hrow₁, hsweep⟩ := find_sweptTable eventTypes reads hk hfind
  obtain rfl : row₁ = row := Option.some.inj (hrow₁.symm.trans ((keyed_sweptTable hk).find hmem))
  rcases hsweep with rfl | ⟨-, rfl⟩
  · exact hfind
  · rw [not_claimable_sweep] at hcl
    cases hcl

/-- What the part of `claim` after the pause check does to a row. -/
theorem claimNext_message (hk : db.Keyed) (hrow : db.message id = some row)
    (h : claimNext db eventTypes settings reads = (db', result)) :
    ∃ row', db'.message id = some row' ∧ (row' = row ∨
      ClaimMove (sweptTable db.messages eventTypes reads) eventTypes settings reads result row
        row') := by
  obtain ⟨row₁, hrow₁, hsweep⟩ := find_sweptTable eventTypes reads hk hrow
  -- without a selected row, or on any other row, only the sweep is seen
  have hswept : row₁ = row ∨ ClaimMove (sweptTable db.messages eventTypes reads) eventTypes
      settings reads result row row₁ := by
    rcases hsweep with he | ⟨hs, he⟩
    · exact .inl he
    · exact .inr (he ▸ .swept hs)
  unfold claimNext at h
  simp only at h
  split at h
  · cases h
    exact ⟨row₁, hrow₁, hswept⟩
  rename_i sel hsel
  obtain ⟨hmem, hcl⟩ := selectedRow_eq_some hsel
  have hfind := (keyed_sweptTable hk).find hmem
  have hsel₀ : sel.id = id → sel = row := by
    intro hid
    have := selectedRow_unswept hk hsel
    rw [hid, hrow] at this
    exact (Option.some.inj this).symm
  have hpick : ∀ f : OutboxMessage → OutboxMessage, (∀ row, (f row).id = row.id) →
      ClaimMove (sweptTable db.messages eventTypes reads) eventTypes settings reads result sel
        (f sel) →
      ∃ row', (Outbox.modify { db with messages := sweptTable db.messages eventTypes reads }
        sel.id f).message id = some row' ∧ (row' = row ∨
          ClaimMove (sweptTable db.messages eventTypes reads) eventTypes settings reads result row
            row') := by
    intro f hf hm
    by_cases hid : sel.id = id
    · rw [← hsel₀ hid, ← hid]
      exact ⟨_, Outbox.message_modify_self f hf hfind, .inr hm⟩
    · exact ⟨row₁, (Outbox.message_modify_ne f hf (Ne.symm hid)).trans hrow₁, hswept⟩
  split at h
  · rename_i hle
    cases h
    exact hpick (·.tooOld _) (fun _ => rfl) (.tooOld hcl hle)
  · rename_i hle
    cases h
    exact hpick (·.lease ..) (fun _ => rfl) (.leased hcl (not_le.1 hle))

end

namespace Repo

variable {P : Type} {s s' : Repo} {l : Txn P} {id : UUID} {row row' : OutboxMessage}

/-- What `add` appends: one pending row without claim, lease or fingerprint. -/
theorem add_eq_ok {db db' : Outbox} {event : DomainEvent} {key : Option String}
    {availableAt : Option Time} (h : OutboxRepository.add db event key availableAt id = .ok db') :
    ∃ new : OutboxMessage, (new.id = id ∧ new.eventId = event.eventId ∧ new.status = .pending ∧
      new.attempts = 0 ∧ new.claimToken = none ∧ new.leaseExpiresAt = none ∧
      new.deliveryFingerprint = none ∧ new.deadlineAt = none ∧
      ∀ row ∈ db.messages, row.id ≠ id ∧ row.eventId ≠ event.eventId) ∧
      db' = { db with messages := db.messages ++ [new] } := by
  unfold OutboxRepository.add at h
  simp only at h
  split at h
  · cases h
  split at h
  · cases h
  rename_i hnew
  cases h
  refine ⟨_, ⟨rfl, rfl, rfl, rfl, rfl, rfl, rfl, rfl, fun row hmem => ?_⟩, rfl⟩
  simp only [List.any_eq_true, not_exists, not_and, Bool.or_eq_true, decide_eq_true_eq, not_or]
    at hnew
  exact (hnew row hmem).1

/-- `resume` changes control rows only. -/
theorem resume_eq_ok {db db' : Outbox} {group : String}
    (h : Ekumidayomi.resume db group = .ok db') :
    ∃ controls, db' = { db with controls } := by
  unfold Ekumidayomi.resume at h
  split at h
  · split at h
    · cases h
      exact ⟨_, rfl⟩
    · cases h
  · cases h

/-- The rows `claim_batch` takes, and the table it leaves. -/
theorem claimBatch_eq_ok {db db' : Outbox} {maxAttempts limit : Nat} {claimedAt : Time}
    {eventTypes : Option (List String)} {locked : UUID → Bool} {rows : List OutboxMessage}
    (h : OutboxRepository.claimBatch db maxAttempts limit claimedAt eventTypes locked =
      .ok (db', rows)) :
    let selected := selectForUpdate db.messages
      (batchClaimable db.messages maxAttempts claimedAt eventTypes) batchOrder limit locked
    db' = { db with messages := modifyRows db.messages selected (·.batchClaim claimedAt) } ∧
      rows = selected.map (·.batchClaim claimedAt) := by
  unfold OutboxRepository.claimBatch at h
  split at h
  · cases h
  split at h
  · cases h
  cases h
  exact ⟨rfl, rfl⟩

/-- The table `recover_stale_claims` leaves. -/
theorem recoverStaleClaims_eq_ok {db db' : Outbox} {staleBefore availableAt : Time} {limit : Nat}
    {locked : UUID → Bool} {count : Nat}
    (h : OutboxRepository.recoverStaleClaims db staleBefore availableAt limit locked =
      .ok (db', count)) :
    let selected := selectForUpdate db.messages (staleClaim staleBefore) staleOrder limit locked
    db' = { db with messages := modifyRows db.messages selected (·.release availableAt) } := by
  unfold OutboxRepository.recoverStaleClaims at h
  split at h
  · cases h
  cases h
  rfl

/-- What `claim` does to a row. -/
theorem claim_message {db db' : Outbox} {group : String} {eventTypes : List String}
    {settings : OutboxWorkerSettings} {reads : ClaimReads} {result : Option Claim} (hk : db.Keyed)
    (hrow : db.message id = some row)
    (h : LeasedOutboxRepository.claim db group eventTypes settings reads = .ok (db', result)) :
    ∃ row', db'.message id = some row' ∧
      (row' = row ∨
        RowMove (P := P) db (.claim group eventTypes settings reads result) row row') := by
  unfold LeasedOutboxRepository.claim at h
  split at h
  · cases h
  simp only at h
  have hrow' : (db.heartbeat group reads.now).message id = some row := by
    simpa [Outbox.message] using hrow
  split at h
  · cases h
    exact ⟨row, hrow', .inl rfl⟩
  · have hk' : (db.heartbeat group reads.now).Keyed := by simpa [Outbox.Keyed] using hk
    obtain ⟨row', hrow', hmove⟩ := claimNext_message hk' hrow' (Except.ok.inj h)
    rw [Outbox.messages_heartbeat] at hmove
    exact ⟨row', hrow', hmove.imp_right .claim⟩

/-- A returned claim is of a row that was claimable and is now leased under the new token. -/
theorem claim_eq_some {db db' : Outbox} {group : String} {eventTypes : List String}
    {settings : OutboxWorkerSettings} {reads : ClaimReads} {c : Claim} (hk : db.Keyed)
    (h : LeasedOutboxRepository.claim db group eventTypes settings reads = .ok (db', some c)) :
    ∃ row, db.message c.messageId = some row ∧
      claimable (sweptTable db.messages eventTypes reads) eventTypes reads.now row = true ∧
      reads.now < claimDeadline row reads.now settings ∧
      c = (row.lease reads.now settings reads.token).toClaim
        (claimDeadline row reads.now settings) reads.token ∧
      db'.message c.messageId = some (row.lease reads.now settings reads.token) := by
  unfold LeasedOutboxRepository.claim at h
  split at h
  · cases h
  simp only at h
  split at h
  · cases h
  unfold claimNext at h
  simp only [Outbox.messages_heartbeat] at h
  split at h
  · cases h
  rename_i row hsel
  split at h
  · cases h
  rename_i hle
  cases h
  obtain ⟨hmem, hcl⟩ := selectedRow_eq_some hsel
  refine ⟨row, selectedRow_unswept hk hsel, hcl, not_le.1 hle, rfl, ?_⟩
  exact Outbox.message_modify_self (·.lease ..) (fun _ => rfl) ((keyed_sweptTable hk).find hmem)

/-- The rows beside a claimed one are those the sweep left. -/
theorem claim_others {db db' : Outbox} {group : String} {eventTypes : List String}
    {settings : OutboxWorkerSettings} {reads : ClaimReads} {c : Claim}
    (h : LeasedOutboxRepository.claim db group eventTypes settings reads = .ok (db', some c))
    (hrow : row ∈ db'.messages) (hid : row.id ≠ c.messageId) :
    row ∈ sweptTable db.messages eventTypes reads := by
  unfold LeasedOutboxRepository.claim at h
  split at h
  · cases h
  simp only at h
  split at h
  · cases h
  unfold claimNext at h
  simp only [Outbox.messages_heartbeat] at h
  split at h
  · cases h
  rename_i sel hsel
  split at h
  · cases h
  cases h
  obtain ⟨a, ha, rfl⟩ := Outbox.mem_modify hrow
  split at hid
  · rename_i he
    exact absurd he hid
  · rename_i he
    rwa [if_neg he]

/-- What `bind` does to a row. -/
theorem bind_message {db db' : Outbox} {group : String} {c : Claim} {fingerprint : String}
    {expiresAt calledAt ownedAt now : Time} {allowed : Bool} (hk : db.Keyed)
    (hrow : db.message id = some row)
    (h : LeasedOutboxRepository.bind db group c fingerprint expiresAt ownedAt now =
      .ok (db', allowed)) :
    ∃ row', db'.message id = some row' ∧ (row' = row ∨ RowMove (P := P) db
      (.bind group c fingerprint expiresAt calledAt ownedAt now allowed) row row') := by
  unfold LeasedOutboxRepository.bind at h
  split at h
  · cases h
  rename_i hhex
  split at h
  · cases h
    exact ⟨row, hrow, .inl rfl⟩
  rename_i own hown
  obtain ⟨hmem, howns⟩ := owned_eq_some hown
  have hfind : db.message own.id = some own := hk.find hmem
  split at h
  · rename_i hfp
    cases h
    exact Outbox.message_modify_cases OutboxMessage.contentChanged (fun _ => rfl) hfind hrow
      (.contentChanged howns hfp)
  rename_i hfp
  simp only at h
  split at h
  · rename_i hle
    cases h
    exact Outbox.message_modify_cases (·.bindExpired _) (fun _ => rfl) hfind hrow
      (.bindExpired howns hle)
  · rename_i hle
    cases h
    refine Outbox.message_modify_cases (·.bound ..) (fun _ => rfl) hfind hrow
      (.bound howns (by simpa using hhex) ?_ (not_le.1 hle))
    cases hf : own.deliveryFingerprint with
    | none => rfl
    | some f => simpa [hf] using hfp

/-- What `finish` does to a row. -/
theorem finish_message {db db' : Outbox} {group : String} {c : Claim} {result : DeliveryOutcome}
    {delay : Int} {calledAt ownedAt now : Time} {applied : Bool} (hk : db.Keyed)
    (hrow : db.message id = some row)
    (h : LeasedOutboxRepository.finish db group c result delay ownedAt now = (db', applied)) :
    ∃ row', db'.message id = some row' ∧ (row' = row ∨ RowMove (P := P) db
      (.finish group c result delay calledAt ownedAt now applied) row row') := by
  unfold LeasedOutboxRepository.finish at h
  split at h
  · cases h
    exact ⟨row, hrow, .inl rfl⟩
  rename_i own hown
  obtain ⟨hmem, howns⟩ := owned_eq_some hown
  obtain ⟨rfl, rfl⟩ := Prod.mk.inj h
  obtain ⟨row', hrow', hm⟩ := Outbox.message_modify_cases (·.finished c result delay now)
    (fun _ => rfl) (hk.find hmem) hrow
    (@RowMove.finished P db group c result delay calledAt ownedAt now own howns)
  refine ⟨row', ?_, hm⟩
  split
  · exact hrow'
  · exact hrow'

/-- What `replay` requires, and what it does to the table. -/
theorem replay_eq_ok {db db' : Outbox} {handlers : List String}
    {prepare : DomainEvent → Preparation P} {now : Time}
    (h : Ekumidayomi.replay db id handlers prepare now = .ok db') :
    ∃ row event delivery, db.message id = some row ∧ handlers.contains row.eventType = true ∧
      (row.status = .dead ∨ row.status = .blocked) ∧ after row.deadlineAt now = true ∧
      row.attempts < maxReplayAttempts ∧ row.toEvent = .ok event ∧
      prepare event = .prepared delivery ∧ now < delivery.expiresAt ∧
      row.deliveryFingerprint.all (· = delivery.fingerprint) = true ∧
      db' = db.modify id (·.replayed now) := by
  unfold Ekumidayomi.replay at h
  split at h
  · cases h
  rename_i row hrow
  split at h
  · cases h
  rename_i hel
  split at h
  · cases h
  rename_i hex
  split at h
  · cases h
  rename_i event hev
  split at h
  · cases h
  rename_i delivery hprep
  split at h
  · cases h
  rename_i hexp
  split at h
  · cases h
  rename_i hfp
  cases h
  simp only [Bool.or_eq_true, Bool.not_eq_true', not_or, Bool.not_eq_false, decide_eq_true_eq]
    at hel hex
  refine ⟨row, event, delivery, hrow, hel.1, hel.2, ?_, not_le.1 hex.2, hev, hprep, not_le.1 hexp,
    ?_, rfl⟩
  · cases hd : row.deadlineAt with
    | none => simp [hd] at hex
    | some d => simpa [hd] using hex.1.2
  · cases hf : row.deliveryFingerprint with
    | none => rfl
    | some f => simpa [hf] using hfp

/-- What `mark_published` does to a row. -/
theorem markPublished_message {db db' : Outbox} {mid : UUID} {publishedAt : Time} {changed : Bool}
    (hrow : db.message id = some row)
    (h : OutboxRepository.markPublished db mid publishedAt = (db', changed)) :
    ∃ row', db'.message id = some row' ∧
      (row' = row ∨ RowMove (P := P) db (.markPublished mid publishedAt changed) row row') := by
  unfold OutboxRepository.markPublished at h
  split at h
  · cases h
    exact ⟨row, hrow, .inl rfl⟩
  rename_i r hr
  split at h
  · cases h
    exact ⟨row, hrow, .inl rfl⟩
  split at h
  · cases h
    exact ⟨row, hrow, .inl rfl⟩
  rename_i htok
  split at h
  · cases h
    exact ⟨row, hrow, .inl rfl⟩
  rename_i hst
  cases h
  exact Outbox.message_modify_cases (·.publish publishedAt) (fun _ => rfl) hr hrow
    (.published (Table.key_of_find hr) (not_not.1 hst) (by simpa using htok))

/-- What `mark_failed` does to a row. -/
theorem markFailed_message {db db' : Outbox} {mid : UUID} {errorCode : String} {availableAt : Time}
    {changed : Bool} (hrow : db.message id = some row)
    (h : OutboxRepository.markFailed db mid errorCode availableAt = .ok (db', changed)) :
    ∃ row', db'.message id = some row' ∧
      (row' = row ∨
        RowMove (P := P) db (.markFailed mid errorCode availableAt changed) row row') := by
  unfold OutboxRepository.markFailed at h
  split at h
  · cases h
  split at h
  · cases h
    exact ⟨row, hrow, .inl rfl⟩
  rename_i r hr
  split at h
  · cases h
    exact ⟨row, hrow, .inl rfl⟩
  rename_i hst
  cases h
  exact Outbox.message_modify_cases (·.fail errorCode availableAt) (fun _ => rfl) hr hrow
    (.failed (Table.key_of_find hr) (not_not.1 hst))

/-- **What a step does to a row**: it leaves the row alone, or it moves it as `RowMove` says. -/
theorem Step.message (h : Step s l s') (hk : s.db.Keyed) (hrow : s.db.message id = some row) :
    ∃ row', s'.db.message id = some row' ∧ (row' = row ∨ RowMove s.db l row row') := by
  cases h with
  | tick => exact ⟨row, hrow, .inl rfl⟩
  | add h =>
    obtain ⟨new, -, rfl⟩ := add_eq_ok h
    have hrow : Table.find (·.id) s.db.messages id = some row := hrow
    refine ⟨row, ?_, .inl rfl⟩
    rw [Outbox.message, Table.find_append, hrow]
    rfl
  | claim _ _ h =>
    rw [afterClaim_db]
    exact claim_message hk hrow h
  | bind _ _ _ _ h => exact bind_message hk hrow h
  | finish _ _ _ _ h => exact finish_message hk hrow h
  | replay _ h =>
    obtain ⟨r, event, delivery, hr, -, hst, hdl, hatt, -, -, -, -, rfl⟩ := replay_eq_ok h
    exact Outbox.message_modify_cases (·.replayed _) (fun _ => rfl) hr hrow
      (.replayed (Table.key_of_find hr) hst hatt hdl)
  | resume h =>
    obtain ⟨controls, rfl⟩ := resume_eq_ok h
    exact ⟨row, hrow, .inl rfl⟩
  | claimBatch h =>
    obtain ⟨rfl, -⟩ := claimBatch_eq_ok h
    obtain ⟨row', hrow', he⟩ := find_modifyRows (f := (·.batchClaim _)) hk (fun _ => rfl)
      hrow fun r hr => (mem_selectForUpdate hr).1
    refine ⟨row', hrow', he.imp_right fun ⟨hmem, he⟩ => ?_⟩
    rw [he]
    exact .batchClaimed (mem_selectForUpdate hmem).2.1
  | markPublished h => exact markPublished_message hrow h
  | markFailed h => exact markFailed_message hrow h
  | recoverStaleClaims h =>
    obtain rfl := recoverStaleClaims_eq_ok h
    obtain ⟨row', hrow', he⟩ := find_modifyRows (f := (·.release _)) hk (fun _ => rfl)
      hrow fun r hr => (mem_selectForUpdate hr).1
    refine ⟨row', hrow', he.imp_right fun ⟨hmem, he⟩ => ?_⟩
    rw [he]
    exact .released (mem_selectForUpdate hmem).2.1

/-! ## Keys of the table after a transaction -/

/-- `claim` neither adds nor removes a row. -/
theorem claim_ids {db db' : Outbox} {group : String} {eventTypes : List String}
    {settings : OutboxWorkerSettings} {reads : ClaimReads} {result : Option Claim}
    (h : LeasedOutboxRepository.claim db group eventTypes settings reads = .ok (db', result)) :
    db'.messages.map (·.id) = db.messages.map (·.id) := by
  unfold LeasedOutboxRepository.claim at h
  split at h
  · cases h
  simp only at h
  split at h
  · cases h
    rw [Outbox.messages_heartbeat]
  unfold claimNext at h
  simp only [Outbox.messages_heartbeat] at h
  split at h
  · cases h
    exact ids_sweptTable _ _ _
  split at h
  · cases h
    exact (Outbox.ids_modify _ (·.tooOld _) fun _ => rfl).trans
      (ids_sweptTable _ _ _)
  · cases h
    exact (Outbox.ids_modify _ (·.lease ..) fun _ => rfl).trans
      (ids_sweptTable _ _ _)

/-- `bind` neither adds nor removes a row. -/
theorem bind_ids {db db' : Outbox} {group : String} {c : Claim} {fingerprint : String}
    {expiresAt ownedAt now : Time} {allowed : Bool}
    (h : LeasedOutboxRepository.bind db group c fingerprint expiresAt ownedAt now =
      .ok (db', allowed)) : db'.messages.map (·.id) = db.messages.map (·.id) := by
  unfold LeasedOutboxRepository.bind at h
  split at h
  · cases h
  split at h
  · cases h
    rfl
  split at h
  · cases h
    exact Outbox.ids_modify db OutboxMessage.contentChanged fun _ => rfl
  simp only at h
  split at h
  · cases h
    exact Outbox.ids_modify db (·.bindExpired _) fun _ => rfl
  · cases h
    exact Outbox.ids_modify db (·.bound ..) fun _ => rfl

/-- `finish` neither adds nor removes a row. -/
theorem finish_ids {db db' : Outbox} {group : String} {c : Claim} {result : DeliveryOutcome}
    {delay : Int} {ownedAt now : Time} {applied : Bool}
    (h : LeasedOutboxRepository.finish db group c result delay ownedAt now = (db', applied)) :
    db'.messages.map (·.id) = db.messages.map (·.id) := by
  unfold LeasedOutboxRepository.finish at h
  split at h
  · cases h
    rfl
  simp only at h
  obtain ⟨rfl, rfl⟩ := Prod.mk.inj h
  split
  · exact Outbox.ids_modify db (·.finished ..) fun _ => rfl
  · exact Outbox.ids_modify db (·.finished ..) fun _ => rfl

/-- Rows are only ever added, one at a time and by `add`. -/
theorem Step.ids (h : Step s l s') :
    s'.db.messages.map (·.id) = s.db.messages.map (·.id) ∨
      ∃ event key availableAt id new, l = .add event key availableAt id ∧
        (new.id = id ∧ new.eventId = event.eventId ∧ new.status = .pending ∧
          new.attempts = 0 ∧ new.claimToken = none ∧ new.leaseExpiresAt = none ∧
          new.deliveryFingerprint = none ∧ new.deadlineAt = none ∧
          ∀ row ∈ s.db.messages, row.id ≠ id ∧ row.eventId ≠ event.eventId) ∧
        s'.db.messages = s.db.messages ++ [new] ∧ s'.issued = s.issued := by
  cases h with
  | tick => exact .inl rfl
  | @add event key availableAt id _ h =>
    obtain ⟨new, hnew, rfl⟩ := add_eq_ok h
    exact .inr ⟨event, key, availableAt, id, new, rfl, hnew, rfl, rfl⟩
  | claim _ _ h =>
    rw [afterClaim_db]
    exact .inl (claim_ids h)
  | bind _ _ _ _ h => exact .inl (bind_ids h)
  | finish _ _ _ _ h => exact .inl (finish_ids h)
  | replay _ h =>
    obtain ⟨_, _, _, -, -, -, -, -, -, -, -, -, rfl⟩ := replay_eq_ok h
    exact .inl (Outbox.ids_modify s.db (·.replayed _) fun _ => rfl)
  | resume h =>
    obtain ⟨controls, rfl⟩ := resume_eq_ok h
    exact .inl rfl
  | claimBatch h =>
    obtain ⟨rfl, -⟩ := claimBatch_eq_ok h
    exact .inl (ids_modifyRows _ _ (·.batchClaim _) fun _ => rfl)
  | markPublished h =>
    refine .inl ?_
    unfold OutboxRepository.markPublished at h
    split at h
    · cases h; rfl
    split at h
    · cases h; rfl
    split at h
    · cases h; rfl
    split at h
    · cases h; rfl
    cases h
    exact Outbox.ids_modify s.db (·.publish _) fun _ => rfl
  | markFailed h =>
    refine .inl ?_
    unfold OutboxRepository.markFailed at h
    split at h
    · cases h
    split at h
    · cases h; rfl
    split at h
    · cases h; rfl
    cases h
    exact Outbox.ids_modify s.db (·.fail ..) fun _ => rfl
  | recoverStaleClaims h =>
    obtain rfl := recoverStaleClaims_eq_ok h
    exact .inl (ids_modifyRows _ _ (·.release _) fun _ => rfl)

/-- Every step keeps the primary keys distinct. -/
theorem Step.keyed (h : Step s l s') (hk : s.db.Keyed) : s'.db.Keyed := by
  rcases h.ids with he | ⟨event, key, availableAt, id, new, -, hnew, he, -⟩
  · show (s'.db.messages.map (·.id)).Nodup
    rw [he]
    exact hk
  · show Table.Keyed (·.id) s'.db.messages
    rw [he]
    have hk : Table.Keyed (·.id) s.db.messages := hk
    refine hk.append fun row hrow => ?_
    rw [hnew.1]
    exact (hnew.2.2.2.2.2.2.2.2 row hrow).1

/-- A row of the new table was there before, or it is the one `add` appended. -/
theorem Step.message_inv (h : Step s l s') (hk : s.db.Keyed) (hrow : s'.db.message id = some row') :
    (∃ row, s.db.message id = some row ∧ (row' = row ∨ RowMove s.db l row row')) ∨
      (row'.status = .pending ∧ row'.attempts = 0 ∧ row'.claimToken = none ∧
        row'.leaseExpiresAt = none ∧ row'.deliveryFingerprint = none ∧ row'.deadlineAt = none ∧
        s.db.message id = none ∧ s'.issued = s.issued ∧
        (∀ row ∈ s.db.messages, row.eventId ≠ row'.eventId) ∧
        ∃ event key availableAt, l = .add event key availableAt id) := by
  cases hold : s.db.message id with
  | some row =>
    obtain ⟨r, hr, hm⟩ := h.message hk hold
    obtain rfl : r = row' := Option.some.inj (hr.symm.trans hrow)
    exact .inl ⟨row, rfl, hm⟩
  | none =>
    refine .inr ?_
    have hnot := Table.find_eq_none.1 hold
    rcases h.ids with he | ⟨event, key, availableAt, nid, new, hl, hnew, he, hiss⟩
    · have hmem : id ∈ s'.db.messages.map (·.id) :=
        Table.key_of_find hrow ▸ List.mem_map_of_mem (Table.mem_of_find hrow)
      rw [he] at hmem
      obtain ⟨row, hrow, hid⟩ := List.mem_map.1 hmem
      exact absurd hid (hnot row hrow)
    · have hmem := Table.mem_of_find hrow
      rw [he, List.mem_append, List.mem_singleton] at hmem
      rcases hmem with hmem | rfl
      · exact absurd (Table.key_of_find hrow) (hnot row' hmem)
      · obtain ⟨hid, hev, h1, h2, h3, h4, h5, h6, hfresh⟩ := hnew
        obtain rfl : nid = id := hid.symm.trans (Table.key_of_find hrow)
        exact ⟨h1, h2, h3, h4, h5, h6, rfl, hiss, fun row hrow => hev ▸ (hfresh row hrow).2,
          event, key, availableAt, hl⟩

end Repo

/-! ## A table with one message -/

namespace Fixture

/-- A staged challenge email. -/
def message : OutboxMessage :=
  { id := 1, eventId := 7, idempotencyKey := "event:" ++ uuidStr 7,
    eventType := challengeEmailEvent, aggregateType := "email_challenge", aggregateId := 9,
    aggregateVersion := 1, occurredAt := 0,
    payload := [("challenge_id", .str (Unicode.ofString (uuidStr 9)))], availableAt := 0 }

/-- The event the message carries. -/
def event : DomainEvent :=
  { eventId := 7, eventType := challengeEmailEvent, aggregateType := "email_challenge",
    aggregateId := 9, aggregateVersion := 1, occurredAt := 0,
    payload := [("challenge_id", .str (Unicode.ofString (uuidStr 9)))] }

/-- The control row of the worker group after a heartbeat. -/
def control (heartbeatAt : Time) : WorkerControl := { workerGroup := "auth_email", heartbeatAt }

/-- The table holds the message and nobody has claimed anything. -/
def repo : Repo := { db := { messages := [message] }, clock := 0 }

/-- The claim with the token `token` that finds the message after `attempts` claims of it. -/
def claim (token : UUID) (attempts : Nat) : Claim :=
  { messageId := 1, token, event := some event, attempts, retryBudget := 5,
    deadline := seconds 3600, receipts := [] }

/-- The message claimed once, at the start. -/
def claimedRepo : Repo :=
  { db := { messages := [message.lease 0 default 1], controls := [control 0] }, clock := 0,
    issued := [⟨claim 1 1, seconds 120⟩] }

theorem claim_repo :
    LeasedOutboxRepository.claim repo.db "auth_email" [challengeEmailEvent] {}
      { now := 0, token := 1 } = .ok (claimedRepo.db, some (claim 1 1)) := rfl

end Fixture

end Ekumidayomi
