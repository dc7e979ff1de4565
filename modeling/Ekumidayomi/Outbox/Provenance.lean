import Ekumidayomi.Outbox.Binding

/-!
# Where a posted request comes from

Every request posted so far belongs to a `deliver` call of a claim that was handed out, what was
delivered is what the handler prepared for the event of that claim, and the event is that of the row
(`Traced`). Events of the table have distinct identifiers, so requests for one event belong to one
row.
-/

namespace Ekumidayomi

/-- A transaction keeps the event of a row. -/
theorem RowMove.eventId {P : Type} {db : Outbox} {l : Txn P} {row row' : OutboxMessage}
    (h : RowMove db l row row') : row'.eventId = row.eventId := by
  cases h with
  | claim h => cases h <;> rfl
  | _ => rfl

/-- The event read from a row carries the identifier of the row. -/
theorem OutboxMessage.toEvent_eventId {row : OutboxMessage} {event : DomainEvent}
    (h : row.toEvent.toOption = some event) : event.eventId = row.eventId := by
  cases hr : row.toEvent with
  | error e =>
    rw [hr] at h
    cases h
  | ok event' =>
    rw [hr] at h
    obtain rfl := Option.some.inj h
    exact (DomainEvent.create_envelope hr).1

namespace Repo

variable {P : Type} {s s' : Repo} {l : Txn P}

/-- `event_id` is unique in the table. -/
def UniqueEvents (s : Repo) : Prop :=
  ∀ {id id' row row'}, s.db.message id = some row → s.db.message id' = some row' →
    row.eventId = row'.eventId → id = id'

/-- The claims handed out carry the event of their row. -/
def Named (s : Repo) : Prop :=
  ∀ lease ∈ s.issued, ∀ event, lease.claim.event = some event →
    ∃ row, s.db.message lease.claim.messageId = some row ∧ row.eventId = event.eventId

/-- A row after a step has the event it had before, or it is new and so is its event. -/
theorem Step.eventId_inv (h : Step s l s') (hk : s.db.Keyed) {id : UUID} {row' : OutboxMessage}
    (hrow' : s'.db.message id = some row') :
    (∃ row, s.db.message id = some row ∧ row.eventId = row'.eventId) ∨
    ((∀ row ∈ s.db.messages, row.eventId ≠ row'.eventId) ∧
      ∃ event key availableAt, l = .add event key availableAt id) := by
  rcases h.message_inv hk hrow' with ⟨row, hrow, hm⟩ | ⟨-, -, -, -, -, -, -, -, hfresh⟩
  · refine .inl ⟨row, hrow, ?_⟩
    rcases hm with rfl | hm
    · rfl
    · exact hm.eventId.symm
  · exact .inr hfresh

theorem Step.uniqueEvents (h : Step s l s') (hk : s.db.Keyed) (hu : s.UniqueEvents) :
    s'.UniqueEvents := by
  intro id id' row row' hrow hrow' he
  rcases h.eventId_inv hk hrow with ⟨r, hr, hre⟩ | ⟨hfresh, _, _, _, hl⟩ <;>
    rcases h.eventId_inv hk hrow' with ⟨r', hr', hre'⟩ | ⟨hfresh', _, _, _, hl'⟩
  · exact hu hr hr' (by rw [hre, hre', he])
  · exact absurd (hre.trans he) (hfresh' r (Table.mem_of_find hr))
  · exact absurd (hre'.trans he.symm) (hfresh r' (Table.mem_of_find hr'))
  · rw [hl] at hl'
    cases hl'
    rfl

theorem Step.named (h : Step s l s') (hk : s.db.Keyed) (hn : s.Named) : s'.Named := by
  intro lease hl event he
  rcases h.lease_inv hl with hold | ⟨_, _, settings, reads, rfl⟩
  · obtain ⟨row, hrow, hid⟩ := hn lease hold event he
    obtain ⟨row', hrow', rfl | hm⟩ := h.message hk hrow
    · exact ⟨_, hrow', hid⟩
    · exact ⟨row', hrow', hm.eventId.trans hid⟩
  · obtain ⟨-, -, row, -, hc, hrow'⟩ := h.claimed hk
    refine ⟨_, hrow', ?_⟩
    rw [hc] at he
    exact (OutboxMessage.toEvent_eventId he).symm

end Repo

/-- What a worker has prepared and not finished yet. -/
def Phase.prepared? {P Q : Type} : Phase P Q → Option (Claim × PreparedDelivery P)
  | .binding c d _ | .bound c d _ | .delivering c d _ _ => some (c, d)
  | _ => none

section
variable {P Q : Type} (handlers : String → ExternalOutboxHandler P Q)

/-- The handler prepared `d` for the event of the claim. -/
def Prepares (c : Claim) (d : PreparedDelivery P) : Prop :=
  ∃ event, c.event = some event ∧ (handlers event.eventType).prepare event (.prepared d)

/-- A `deliver` call of the claim may have posted the request. -/
def Submits (call : Delivery P) (q : Q) : Prop :=
  ∃ event posts, call.claim.event = some event ∧
    (handlers event.eventType).submits call.prepared call.claim.receipts posts ∧ q ∈ posts

variable {handlers} {s s' : Repo} {worker worker' : LeasedOutboxWorker P Q} {l : Option (Txn P)}
  {entries : List (Entry P Q)} {c : Claim} {d : PreparedDelivery P}

/-- What a worker has prepared it had before, or its handler just returned it. -/
theorem WorkerStep.prepared (h : WorkerStep handlers s worker l entries s' worker')
    (hp : worker'.phase.prepared? = some (c, d)) :
    worker.phase.prepared? = some (c, d) ∨ Prepares handlers c d := by
  cases h with
  | @claim _ _ _ _ result => cases result <;> cases hp
  | @bind _ _ _ _ _ _ _ allowed hp' =>
    cases allowed with
    | false => cases hp
    | true =>
      rw [hp']
      exact .inl hp
  | @move worker phase h =>
    generalize worker.phase = old at h
    cases h with
    | prepared he hd =>
      cases hp
      exact .inr ⟨_, he, hd⟩
    | _ => cases hp
  | deliver hp' | post hp' =>
    rw [hp']
    exact .inl hp
  | start | finish => cases hp

/-- A worker that is delivering was so before, or has just been recorded. -/
theorem WorkerStep.delivering (h : WorkerStep handlers s worker l entries s' worker')
    {startedAt : Time} {posts : List Q} (hp : worker'.phase = .delivering c d startedAt posts) :
    (∃ posts', worker.phase = .delivering c d startedAt posts') ∨
      .delivered ⟨c, d, startedAt⟩ ∈ entries := by
  cases h with
  | @claim _ _ _ _ result => cases result <;> cases hp
  | @bind _ _ _ _ _ _ _ allowed => cases allowed <;> cases hp
  | @move worker phase h =>
    generalize worker.phase = old at h
    cases h <;> cases hp
  | deliver =>
    cases hp
    exact .inr (List.mem_singleton.2 rfl)
  | post hp' =>
    cases hp
    exact .inl ⟨_, hp'⟩
  | start | finish => cases hp

/-- A request is posted by a worker that is delivering. -/
theorem WorkerStep.posted (h : WorkerStep handlers s worker l entries s' worker') {q : Q}
    (hq : .posted q ∈ entries) : ∃ c d startedAt posts,
      worker.phase = .delivering c d startedAt posts ∧ Submits handlers ⟨c, d, startedAt⟩ q := by
  cases h with
  | post hp he hsub =>
    cases List.mem_singleton.1 hq
    exact ⟨_, _, _, _, hp, _, _, he, hsub, by simp⟩
  | @finish _ _ _ _ _ _ _ _ _ applied => cases applied <;> simp at hq
  | deliver => simp at hq
  | start | claim | bind | move => cases hq

end

namespace World

variable {P Q : Type} {handlers : String → ExternalOutboxHandler P Q} {w w' : World P Q} {a : Act P}

/-- The invariant of the requests. -/
structure Traced (handlers : String → ExternalOutboxHandler P Q) (w : World P Q) : Prop where
  printed : w.Printed
  unique : w.repo.UniqueEvents
  named : w.repo.Named
  prepared : ∀ {i c d}, (w.workers i).phase.prepared? = some (c, d) → Prepares handlers c d
  delivered : ∀ {call}, w.Delivered call →
    w.repo.IsIssued call.claim ∧ Prepares handlers call.claim call.prepared
  delivering : ∀ {i c d startedAt posts},
    (w.workers i).phase = .delivering c d startedAt posts → w.Delivered ⟨c, d, startedAt⟩
  posted : ∀ {q}, .posted q ∈ w.record → ∃ call, w.Delivered call ∧ Submits handlers call q

theorem Initial.traced (h : w.Initial) (hu : w.repo.UniqueEvents) : w.Traced handlers where
  printed := h.printed
  unique := hu
  named lease hl := by
    rw [h.repo.issued] at hl
    cases hl
  prepared hp := by
    rw [h.idle] at hp
    cases hp
  delivered hc := by
    rw [Delivered, h.record] at hc
    cases hc
  delivering hp := by
    rw [h.idle] at hp
    cases hp
  posted hq := by
    rw [h.record] at hq
    cases hq

theorem Step.delivered_mono (h : Step handlers w a w') {call : Delivery P} (hc : w.Delivered call) :
    w'.Delivered call := by
  cases h with
  | outside => exact hc
  | work => exact List.mem_append_right _ hc

theorem Step.traced (h : Step handlers w a w') (hw : w.Traced handlers) : w'.Traced handlers where
  printed := h.printed hw.printed
  unique := by
    rcases h.txn with he | ⟨l, hl, -⟩
    · rw [he]
      exact hw.unique
    · exact hl.uniqueEvents hw.printed.leased.fenced.keyed hw.unique
  named := by
    rcases h.txn with he | ⟨l, hl, -⟩
    · rw [he]
      exact hw.named
    · exact hl.named hw.printed.leased.fenced.keyed hw.named
  prepared {i c d} hp := by
    cases h with
    | outside => exact hw.prepared hp
    | @work k l entries s worker h =>
      by_cases hk : i = k
      · subst hk
        simp only [Function.update_self] at hp
        rcases h.prepared hp with hp | hp
        · exact hw.prepared hp
        · exact hp
      · simp only [Function.update_of_ne hk] at hp
        exact hw.prepared hp
  delivered hc := by
    rcases h.delivered hc with hc | ⟨⟨i, openedAt, hp⟩, -⟩
    · obtain ⟨⟨lease, hl, he⟩, hprep⟩ := hw.delivered hc
      exact ⟨⟨lease, h.issued_mono hl, he⟩, hprep⟩
    · obtain ⟨lease, hl, he⟩ := hw.printed.leased.issued (i := i) (by rw [Holds, hp]; rfl)
      exact ⟨⟨lease, h.issued_mono hl, he⟩, hw.prepared (i := i) (by rw [hp]; rfl)⟩
  delivering {i c d startedAt posts} hp := by
    have hmono := @Step.delivered_mono _ _ _ _ _ _ h
    cases h with
    | outside => exact hw.delivering hp
    | @work k l entries s worker h =>
      by_cases hk : i = k
      · subst hk
        simp only [Function.update_self] at hp
        rcases h.delivering hp with ⟨posts', hp⟩ | hp
        · exact hmono (hw.delivering hp)
        · exact List.mem_append_left _ hp
      · simp only [Function.update_of_ne hk] at hp
        exact hmono (hw.delivering hp)
  posted {q} hq := by
    have hmono := @Step.delivered_mono _ _ _ _ _ _ h
    have hold : .posted q ∈ w.record → ∃ call, w'.Delivered call ∧ Submits handlers call q := by
      intro hq
      obtain ⟨call, hc, hs⟩ := hw.posted hq
      exact ⟨call, hmono hc, hs⟩
    cases h with
    | outside => exact hold hq
    | work h =>
      rcases List.mem_append.1 hq with hq | hq
      · obtain ⟨c, d, startedAt, posts, hp, hs⟩ := h.posted hq
        exact ⟨_, hmono (hw.delivering hp), hs⟩
      · exact hold hq

/-- Calls for one event are calls for one row, and were bound with one fingerprint. -/
theorem Traced.fingerprint_eq (hw : w.Traced handlers) {call call' : Delivery P}
    (hc : w.Delivered call) (hc' : w.Delivered call') {event event' : DomainEvent}
    (he : call.claim.event = some event) (he' : call'.claim.event = some event')
    (hid : event.eventId = event'.eventId) :
    call.prepared.fingerprint = call'.prepared.fingerprint := by
  have hprint : ∀ {call event}, w.Delivered call → call.claim.event = some event →
      ∃ row, w.repo.db.message call.claim.messageId = some row ∧ row.eventId = event.eventId ∧
        row.deliveryFingerprint = some call.prepared.fingerprint := by
    intro call event hc he
    obtain ⟨lease, hl, hcl⟩ := (hw.delivered hc).1
    obtain ⟨row, hrow, hev⟩ := hw.named lease hl event (hcl ▸ he)
    obtain ⟨-, r, hr, hf⟩ := hw.printed.delivered hc
    rw [hcl, hr] at hrow
    obtain rfl := Option.some.inj hrow
    exact ⟨r, hr, hev, hf⟩
  obtain ⟨row, hrow, hev, hf⟩ := hprint hc he
  obtain ⟨row', hrow', hev', hf'⟩ := hprint hc' he'
  have hmid := hw.unique hrow hrow' (by rw [hev, hev', hid])
  rw [hmid, hrow'] at hrow
  obtain rfl := Option.some.inj hrow
  exact Option.some.inj (hf.symm.trans hf')

end World

end Ekumidayomi
