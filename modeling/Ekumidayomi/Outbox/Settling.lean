import Ekumidayomi.Outbox.LeasedWorker

/-!
# Whether a claimed message is settled

`LeasedOutboxWorker.process_one` from its claim to its end, for one handler and for any result of
its two calls. The other transactions of the table come between those of the worker; they leave the
row that is leased to it. Every exit but two passes `finish`, or a `bind` that has ended the row: an
exception of `prepare` other than a timeout is not caught, as one of `deliver` is, and a fingerprint
that `bind` refuses raises. Then the worker's loop stops, and the row stays under the claim's token
(`settles_iff`).
-/

namespace Ekumidayomi

/-- What a call of `prepare` does. -/
inductive Prepare (P : Type)
  | returned (value : Preparation P)
  | timeout
  /-- An exception other than a `TimeoutError`. -/
  | raised
  deriving DecidableEq, Repr

/-- What a call of `deliver` does. -/
inductive Deliver
  | returned (result : DeliveryOutcome)
  | timeout
  | raised
  deriving DecidableEq, Repr

/-- A handler, by what its calls do. -/
structure HandlerCalls (P : Type) where
  prepare : DomainEvent → Prepare P
  deliver : PreparedDelivery P → Dict → Deliver

/-- What a run of `process_one` reads besides the tables, and what others commit between its
transactions. -/
structure ProcessReads where
  claim : ClaimReads
  afterClaim : Outbox → Outbox := id
  bindOwnedAt : Time
  bindNow : Time
  utcNow : Time
  afterBind : Outbox → Outbox := id
  finishOwnedAt : Time
  finishNow : Time
  jitter : Nat

inductive ProcessError
  | outbox (e : OutboxError)
  /-- The exception of the handler. -/
  | handler
  /-- No delay is computed for the attempt. -/
  | delay
  deriving Repr

section
variable {P : Type}

/-- `_finalize`. -/
def finalize (settings : OutboxWorkerSettings) (group : String) (reads : ProcessReads) (db : Outbox)
    (c : Claim) (result : DeliveryOutcome) : Outbox × Except ProcessError Bool :=
  match nextDelay c.attempts result settings reads.jitter with
  | none => (db, .error .delay)
  | some delay =>
    ((LeasedOutboxRepository.finish db group c result delay reads.finishOwnedAt
      reads.finishNow).1, .ok true)

/-- The result that a call of `deliver` leads to. -/
def Deliver.result : Deliver → DeliveryOutcome
  | .returned result => result
  | .timeout => submissionTimeout
  | .raised => handlerFailure

/-- `process_one` after its claim. -/
def processClaim (settings : OutboxWorkerSettings) (group : String)
    (handlers : String → HandlerCalls P) (reads : ProcessReads) (db : Outbox) (c : Claim) :
    Outbox × Except ProcessError Bool :=
  match c.event with
  | none => finalize settings group reads db c invalidEvent
  | some event =>
    match (handlers event.eventType).prepare event with
    | .timeout => finalize settings group reads db c preparationTimeout
    | .raised => (db, .error .handler)
    | .returned (.outcome result) => finalize settings group reads db c result
    | .returned (.prepared d) =>
      match LeasedOutboxRepository.bind db group c d.fingerprint d.expiresAt reads.bindOwnedAt
          reads.bindNow with
      | .error e => (db, .error (.outbox e))
      | .ok (db, false) => (db, .ok true)
      | .ok (db, true) =>
        let db := reads.afterBind db
        if min d.expiresAt c.deadline ≤ reads.utcNow then
          finalize settings group reads db c noLongerEligible
        else
          finalize settings group reads db c
            ((handlers event.eventType).deliver d c.receipts).result

/-- `LeasedOutboxWorker.process_one`, with the tables that it leaves when it raises. -/
def processOne (settings : OutboxWorkerSettings) (group : String) (eventTypes : List String)
    (handlers : String → HandlerCalls P) (reads : ProcessReads) (db : Outbox) :
    Outbox × Except ProcessError Bool :=
  match LeasedOutboxRepository.claim db group eventTypes settings reads.claim with
  | .error e => (db, .error (.outbox e))
  | .ok (db, none) => (db, .ok false)
  | .ok (db, some c) => processClaim settings group handlers reads (reads.afterClaim db) c

end

/-! ## Rows under a lease -/

/-- The row of the claim is leased to it until `expiresAt`. -/
structure Leased (db : Outbox) (c : Claim) (expiresAt : Time) : Prop where
  keyed : db.Keyed
  row : ∃ row, db.message c.messageId = some row ∧ row.claimToken = some c.token ∧
    row.status = .processing ∧ row.leaseExpiresAt = some expiresAt

/-- The row of the claim is no longer processing under its token. -/
def Settled (db : Outbox) (c : Claim) : Prop :=
  ∀ row, db.message c.messageId = some row → ¬ (row.status = .processing ∧
    row.claimToken = some c.token)

/-- Transactions of others that leave the row of the claim. -/
def LeavesRow (c : Claim) (others : Outbox → Outbox) : Prop :=
  ∀ db, db.Keyed → (others db).Keyed ∧ (others db).message c.messageId = db.message c.messageId

section
variable {db db' : Outbox} {c : Claim} {expiresAt ownedAt now : Time} {group : String}
  {settings : OutboxWorkerSettings} {eventTypes : List String} {reads : ClaimReads}

theorem Leased.others (h : Leased db c expiresAt) {others : Outbox → Outbox}
    (hothers : LeavesRow c others) : Leased (others db) c expiresAt := by
  obtain ⟨hkeyed, hmessage⟩ := hothers db h.keyed
  exact ⟨hkeyed, by rw [hmessage]; exact h.row⟩

theorem Leased.not_settled (h : Leased db c expiresAt) : ¬ Settled db c := by
  obtain ⟨row, hrow, htoken, hstatus, -⟩ := h.row
  exact fun hsettled => hsettled row hrow ⟨hstatus, htoken⟩

/-- A claim leases its row. -/
theorem leased_claim (hk : db.Keyed)
    (h : LeasedOutboxRepository.claim db group eventTypes settings reads = .ok (db', some c)) :
    Leased db' c (reads.now + seconds settings.leaseSeconds) ∧ 1 ≤ c.attempts := by
  have hkeyed : db'.Keyed := by
    rw [Outbox.Keyed, Table.Keyed, Repo.claim_ids h]
    exact hk
  obtain ⟨row, -, -, -, rfl, hrow⟩ := Repo.claim_eq_some hk h
  exact ⟨⟨hkeyed, _, hrow, rfl, rfl, rfl⟩, Nat.succ_pos _⟩

/-- Before the lease ends, `owned` finds the row. -/
theorem Leased.owned (h : Leased db c expiresAt) (hlt : ownedAt < expiresAt) :
    ∃ row, LeasedOutboxRepository.owned db c ownedAt = some row ∧
      db.message c.messageId = some row ∧ row.claimToken = some c.token ∧
      row.status = .processing ∧ row.leaseExpiresAt = some expiresAt ∧ row.id = c.messageId := by
  obtain ⟨row, hrow, htoken, hstatus, hlease⟩ := h.row
  have hid : row.id = c.messageId := Table.key_of_find hrow
  have howns : owns c ownedAt row = true := by
    rw [owns_iff, hlease]
    exact ⟨hid, htoken, hstatus, by simpa [after] using hlt⟩
  have hsome : (LeasedOutboxRepository.owned db c ownedAt).isSome = true := by
    rw [LeasedOutboxRepository.owned, List.find?_isSome]
    exact ⟨row, Table.mem_of_find hrow, howns⟩
  obtain ⟨found, hfound⟩ := Option.isSome_iff_exists.1 hsome
  obtain ⟨hmem, howns'⟩ := owned_eq_some hfound
  have hsame : found = row :=
    h.keyed.eq_of_key hmem (Table.mem_of_find hrow) ((owns_iff.1 howns').1.trans hid.symm)
  exact ⟨row, hsame ▸ hfound, hrow, htoken, hstatus, hlease, hid⟩

/-- A `finish` before the lease ends settles the row. -/
theorem Leased.finish (h : Leased db c expiresAt) (hlt : ownedAt < expiresAt)
    (result : DeliveryOutcome) (delay : Int) :
    Settled (LeasedOutboxRepository.finish db group c result delay ownedAt now).1 c := by
  obtain ⟨row, hown, hrow, -, -, -, hid⟩ := h.owned hlt
  have hmod := Outbox.message_modify_self (·.finished c result delay now) (fun _ => rfl) hrow
  have hfinish : (LeasedOutboxRepository.finish db group c result delay ownedAt now).1.message
      c.messageId = some (row.finished c result delay now) := by
    rw [LeasedOutboxRepository.finish, hown]
    dsimp only
    rw [hid]
    split
    · exact hmod
    · exact hmod
  intro row' hrow' hopen
  rw [hfinish] at hrow'
  cases hrow'
  exact finishStatus_ne_processing hopen.1

/-- A `bind` before the lease ends settles the row, or leaves it leased. -/
theorem Leased.bind (h : Leased db c expiresAt) (hlt : ownedAt < expiresAt) {fingerprint : String}
    (hhex : isHex64 fingerprint = true) (group : String) (purpose now : Time) :
    (∃ db', LeasedOutboxRepository.bind db group c fingerprint purpose ownedAt now =
      .ok (db', false) ∧ Settled db' c) ∨
    ∃ db', LeasedOutboxRepository.bind db group c fingerprint purpose ownedAt now =
      .ok (db', true) ∧ Leased db' c expiresAt := by
  obtain ⟨row, hown, hrow, htoken, hstatus, hlease, hid⟩ := h.owned hlt
  -- the row after each of the three changes
  have hmod : ∀ f : OutboxMessage → OutboxMessage, (∀ row, (f row).id = row.id) →
      (db.modify row.id f).message c.messageId = some (f row) := by
    intro f hf
    rw [hid]
    exact Outbox.message_modify_self f hf hrow
  unfold LeasedOutboxRepository.bind
  rw [hown, if_neg (by simp [hhex])]
  dsimp only
  split
  · refine .inl ⟨_, rfl, fun row' hrow' hopen => ?_⟩
    rw [Outbox.message_pause, hmod OutboxMessage.contentChanged fun _ => rfl] at hrow'
    cases hrow'
    cases hopen.2
  · split
    · refine .inl ⟨_, rfl, fun row' hrow' hopen => ?_⟩
      rw [hmod (·.bindExpired _) fun _ => rfl] at hrow'
      cases hrow'
      cases hopen.2
    · refine .inr ⟨_, rfl, ?_, _, hmod (·.bound _ _) fun _ => rfl, htoken, hstatus, hlease⟩
      rw [Outbox.Keyed, Table.Keyed, Outbox.ids_modify db (·.bound _ _) fun _ => rfl]
      exact h.keyed

end

/-! ## `process_one` -/

/-- The draw of `next_delay` is in its range. -/
def InRange (settings : OutboxWorkerSettings) (attempts jitter : Nat) : Prop :=
  (jitter : Int) ≤ seconds (min settings.retryMaxSeconds
    (settings.retryBaseSeconds * 2 ^ min (attempts - 1) 20))

/-- The handler prepares the claimed event without an exception of its own, and a prepared delivery
has a fingerprint that `bind` takes. -/
def PreparesSafely {P : Type} (handlers : String → HandlerCalls P) (c : Claim) : Prop :=
  ∀ event, c.event = some event → (handlers event.eventType).prepare event ≠ .raised ∧
    ∀ d, (handlers event.eventType).prepare event = .returned (.prepared d) →
      isHex64 d.fingerprint = true

section
variable {P : Type} {settings : OutboxWorkerSettings} {group : String}
  {handlers : String → HandlerCalls P} {reads : ProcessReads} {db : Outbox} {c : Claim}
  {expiresAt : Time}

theorem Leased.finalize (h : Leased db c expiresAt) (hlt : reads.finishOwnedAt < expiresAt)
    (hattempts : 1 ≤ c.attempts) (hdraw : InRange settings c.attempts reads.jitter)
    (result : DeliveryOutcome) :
    (Ekumidayomi.finalize settings group reads db c result).2.toOption = some true ∧
      Settled (Ekumidayomi.finalize settings group reads db c result).1 c := by
  have hdelay : ∃ delay, nextDelay c.attempts result settings reads.jitter = some delay :=
    ⟨_, (if_neg (Nat.not_lt.2 hattempts)).trans (if_pos hdraw)⟩
  obtain ⟨delay, hdelay⟩ := hdelay
  rw [Ekumidayomi.finalize, hdelay]
  exact ⟨rfl, h.finish hlt result delay⟩

/-- After the claim: a leased row is settled by a safe handler. -/
theorem processClaim_settles (h : Leased db c expiresAt) (hbind : reads.bindOwnedAt < expiresAt)
    (hfinish : reads.finishOwnedAt < expiresAt) (hothers : LeavesRow c reads.afterBind)
    (hattempts : 1 ≤ c.attempts) (hdraw : InRange settings c.attempts reads.jitter)
    (hsafe : PreparesSafely handlers c) :
    (processClaim settings group handlers reads db c).2.toOption = some true ∧
      Settled (processClaim settings group handlers reads db c).1 c := by
  have hfinal : ∀ {db : Outbox}, Leased db c expiresAt → ∀ result,
      (finalize settings group reads db c result).2.toOption = some true ∧
        Settled (finalize settings group reads db c result).1 c :=
    fun h => h.finalize hfinish hattempts hdraw
  unfold processClaim
  cases hevent : c.event with
  | none => exact hfinal h _
  | some event =>
    obtain ⟨hraised, hhex⟩ := hsafe event hevent
    dsimp only
    cases hprepare : (handlers event.eventType).prepare event with
    | timeout => exact hfinal h _
    | raised => exact absurd hprepare hraised
    | returned value =>
      cases value with
      | outcome result => exact hfinal h _
      | prepared d =>
        dsimp only
        rcases h.bind hbind (hhex d hprepare) group d.expiresAt reads.bindNow with
          ⟨db', heq, hsettled⟩ | ⟨db', heq, hleased⟩
        · rw [heq]
          exact ⟨rfl, hsettled⟩
        · rw [heq]
          dsimp only
          split
          · exact hfinal (hleased.others hothers) _
          · exact hfinal (hleased.others hothers) _

/-- After the claim: otherwise the worker raises. -/
theorem processClaim_raises (hraises : ¬ PreparesSafely handlers c) :
    (processClaim settings group handlers reads db c).2.toOption = none := by
  unfold PreparesSafely at hraises
  push Not at hraises
  obtain ⟨event, hevent, hprepare⟩ := hraises
  unfold processClaim
  rw [hevent]
  dsimp only
  cases hcase : (handlers event.eventType).prepare event with
  | raised => rfl
  | timeout =>
    obtain ⟨d, hd, -⟩ := hprepare (by simp [hcase])
    rw [hcase] at hd
    cases hd
  | returned value =>
    obtain ⟨d, hd, hhex⟩ := hprepare (by simp [hcase])
    rw [hcase] at hd
    cases hd
    dsimp only
    rw [LeasedOutboxRepository.bind, if_pos (by simpa using hhex)]
    rfl

/-- After a claim, with database operations inside the lease, `process_one` returns `True` and
leaves the row settled exactly when the handler prepares the claimed event safely. -/
theorem settles_iff {eventTypes : List String} {db' : Outbox} (hk : db.Keyed)
    (hclaim : LeasedOutboxRepository.claim db group eventTypes settings reads.claim =
      .ok (db', some c))
    (hclaimed : LeavesRow c reads.afterClaim) (hbound : LeavesRow c reads.afterBind)
    (hbind : reads.bindOwnedAt < reads.claim.now + seconds settings.leaseSeconds)
    (hfinish : reads.finishOwnedAt < reads.claim.now + seconds settings.leaseSeconds)
    (hdraw : InRange settings c.attempts reads.jitter) :
    ((processOne settings group eventTypes handlers reads db).2.toOption = some true ∧
      Settled (processOne settings group eventTypes handlers reads db).1 c) ↔
    PreparesSafely handlers c := by
  obtain ⟨hleased, hattempts⟩ := leased_claim hk hclaim
  unfold processOne
  rw [hclaim]
  dsimp only
  constructor
  · intro h
    by_contra hraises
    rw [processClaim_raises hraises] at h
    cases h.1
  · exact processClaim_settles (hleased.others hclaimed) hbind hfinish hbound hattempts hdraw

end

namespace Fixture

/-- A claim at the start, and the other transactions a second later. -/
def processReads : ProcessReads :=
  { claim := { now := 0, token := 1 }, bindOwnedAt := seconds 1, bindNow := seconds 1
    utcNow := seconds 1, finishOwnedAt := seconds 1, finishNow := seconds 1, jitter := 0 }

/-- A handler whose `prepare` raises on every event. -/
def poisoned (_ : String) : HandlerCalls Unit := ⟨fun _ => .raised, fun _ _ => .raised⟩

/-- A handler whose `prepare` times out. -/
def slow (_ : String) : HandlerCalls Unit := ⟨fun _ => .timeout, fun _ _ => .raised⟩

end Fixture

/-- An exception of `prepare` leaves `process_one`, and the row under the claim's token. -/
theorem not_settled_poisoned :
    (processOne {} "auth_email" [challengeEmailEvent] Fixture.poisoned Fixture.processReads
      Fixture.repo.db).2.toOption ≠ some true ∧
    ¬ Settled (processOne {} "auth_email" [challengeEmailEvent] Fixture.poisoned
      Fixture.processReads Fixture.repo.db).1 (Fixture.claim 1 1) := by
  constructor
  · intro h
    have hnone : (none : Option Bool) = some true := h
    cases hnone
  · intro hsettled
    exact hsettled (Fixture.message.lease 0 {} 1) rfl ⟨rfl, rfl⟩

/-- A timeout of `prepare` settles the row for a retry. -/
theorem settles_slow :
    ((processOne {} "auth_email" [challengeEmailEvent] Fixture.slow Fixture.processReads
      Fixture.repo.db).2.toOption = some true ∧
    Settled (processOne {} "auth_email" [challengeEmailEvent] Fixture.slow Fixture.processReads
      Fixture.repo.db).1 (Fixture.claim 1 1)) ↔ PreparesSafely Fixture.slow (Fixture.claim 1 1) := by
  have hk : Fixture.repo.db.Keyed := List.nodup_singleton _
  exact settles_iff hk Fixture.claim_repo (fun _ h => ⟨h, rfl⟩) (fun _ h => ⟨h, rfl⟩) (by decide)
    (by decide) (by unfold InRange; decide)

end Ekumidayomi
