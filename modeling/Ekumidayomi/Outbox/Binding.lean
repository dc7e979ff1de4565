import Ekumidayomi.Outbox.LeasedWorker

/-!
# Bound content

A bind writes the fingerprint of what it is about to submit, and no transaction changes a
fingerprint once it is there (`RowMove.fingerprint`). So whatever was delivered for a message was
prepared with the fingerprint on its row (`Printed`).
-/

namespace Ekumidayomi

/-- What a transaction does to the fingerprint of a row: nothing, or it is the bind that sets it. -/
theorem RowMove.fingerprint {P : Type} {db : Outbox} {l : Txn P} {row row' : OutboxMessage}
    (h : RowMove db l row row') : row'.deliveryFingerprint = row.deliveryFingerprint ∨
      ∃ group c fingerprint expiresAt calledAt ownedAt now,
        l = .bind group c fingerprint expiresAt calledAt ownedAt now true ∧
        row.deliveryFingerprint.all (· = fingerprint) = true ∧
        row'.deliveryFingerprint = some fingerprint := by
  cases h with
  | claim h =>
    cases h with
    | swept | tooOld | leased => exact .inl rfl
  | bound _ _ hall => exact .inr ⟨_, _, _, _, _, _, _, rfl, hall, rfl⟩
  | contentChanged | bindExpired | finished | replayed | batchClaimed | published | failed
  | released => exact .inl rfl

/-- A fingerprint on a row stays. -/
theorem RowMove.fingerprint_kept {P : Type} {db : Outbox} {l : Txn P} {row row' : OutboxMessage}
    {f : String} (h : RowMove db l row row') (hf : row.deliveryFingerprint = some f) :
    row'.deliveryFingerprint = some f := by
  rcases h.fingerprint with he | ⟨_, _, fingerprint, _, _, _, _, -, hall, he⟩
  · rw [he, hf]
  · have hsame : f = fingerprint := by simpa [hf] using hall
    rw [he, hsame]

/-- What `bind` requires when it returns `True`, and what it leaves on the row. -/
theorem bind_eq_true {db db' : Outbox} {group : String} {c : Claim} {fingerprint : String}
    {expiresAt ownedAt now : Time} (hk : db.Keyed)
    (h : LeasedOutboxRepository.bind db group c fingerprint expiresAt ownedAt now =
      .ok (db', true)) : isHex64 fingerprint = true ∧ ∃ row,
        db.message c.messageId = some row ∧ owns c ownedAt row = true ∧
        db'.message c.messageId = some (row.bound (min c.deadline expiresAt) fingerprint) := by
  unfold LeasedOutboxRepository.bind at h
  split at h
  · cases h
  rename_i hhex
  split at h
  · cases h
  rename_i row hown
  split at h
  · cases h
  simp only at h
  split at h
  · cases h
  cases h
  obtain ⟨hmem, howns⟩ := owned_eq_some hown
  have hid := (owns_iff.1 howns).1
  have hrow : db.message c.messageId = some row := hid ▸ hk.find hmem
  refine ⟨by simpa using hhex, row, hrow, howns, ?_⟩
  rw [hid]
  exact Outbox.message_modify_self (·.bound _ _) (fun _ => rfl) hrow

theorem Repo.Step.bound {P : Type} {s s' : Repo} {group : String} {c : Claim} {fingerprint : String}
    {expiresAt calledAt ownedAt now : Time} (hk : s.db.Keyed)
    (h : Step (P := P) s (.bind group c fingerprint expiresAt calledAt ownedAt now true) s') :
    isHex64 fingerprint = true ∧ ∃ row, s'.db.message c.messageId = some row ∧
      row.deliveryFingerprint = some fingerprint := by
  cases h with
  | bind _ _ _ _ h =>
    obtain ⟨hhex, row, -, -, hrow'⟩ := bind_eq_true hk h
    exact ⟨hhex, _, hrow', rfl⟩

/-- What a worker has bound and not finished yet. -/
def Phase.submission? {P Q : Type} : Phase P Q → Option (Claim × PreparedDelivery P)
  | .bound c d _ | .delivering c d _ _ => some (c, d)
  | _ => none

/-- A submission is bound by a transaction and delivered by `deliver`; no other move makes one. -/
theorem LocalMove.submission? {P Q : Type} {handlers : String → ExternalOutboxHandler P Q}
    {clock : Time} {phase phase' : Phase P Q} (h : LocalMove handlers clock phase phase') :
    phase'.submission? = none := by
  cases h <;> rfl

namespace World

variable {P Q : Type} {handlers : String → ExternalOutboxHandler P Q} {w w' : World P Q} {a : Act P}
  {i : Nat} {c : Claim} {d : PreparedDelivery P}

/-- The row of the claim carries the fingerprint of the prepared delivery. -/
def CarriesPrint (w : World P Q) (c : Claim) (d : PreparedDelivery P) : Prop :=
  isHex64 d.fingerprint = true ∧ ∃ row, w.repo.db.message c.messageId = some row ∧
    row.deliveryFingerprint = some d.fingerprint

/-- Everything bound or delivered carries the fingerprint on its row. -/
structure Printed (w : World P Q) : Prop where
  leased : w.Leased
  held : ∀ {i c d}, (w.workers i).phase.submission? = some (c, d) → w.CarriesPrint c d
  delivered : ∀ {call}, w.Delivered call → w.CarriesPrint call.claim call.prepared

theorem Initial.printed (h : w.Initial) : w.Printed where
  leased := h.leased
  held hp := by
    rw [h.idle] at hp
    cases hp
  delivered hc := by
    rw [Delivered, h.record] at hc
    cases hc

theorem Step.carriesPrint (h : Step handlers w a w') (hk : w.repo.db.Keyed)
    (hp : w.CarriesPrint c d) : w'.CarriesPrint c d := by
  obtain ⟨hhex, row, hrow, hf⟩ := hp
  obtain ⟨row', hrow', rfl | ⟨l, -, -, hm⟩⟩ := h.row hk hrow
  · exact ⟨hhex, _, hrow', hf⟩
  · exact ⟨hhex, row', hrow', hm.fingerprint_kept hf⟩

/-- A worker holds what it had bound before, or its bind just returned `True`. -/
theorem Step.submission (h : Step handlers w a w')
    (hp : (w'.workers i).phase.submission? = some (c, d)) :
    (w.workers i).phase.submission? = some (c, d) ∨
    ∃ group expiresAt calledAt ownedAt now, Repo.Step w.repo
      (.bind (P := P) group c d.fingerprint expiresAt calledAt ownedAt now true) w'.repo := by
  cases h with
  | outside => exact .inl hp
  | @work k l entries s worker h =>
    by_cases hk : i = k
    swap
    · simp only [Function.update_of_ne hk] at hp
      exact .inl hp
    subst hk
    simp only [Function.update_self] at hp
    cases h with
    | @claim _ _ _ _ result => cases result <;> cases hp
    | @bind _ _ c' d' _ _ _ allowed hp' h =>
      cases allowed with
      | false => cases hp
      | true =>
        cases hp
        exact .inr ⟨_, _, _, _, _, h⟩
    | move h =>
      rw [h.submission?] at hp
      cases hp
    | deliver hp' | post hp' => exact .inl (by rw [hp']; exact hp)
    | start | finish => cases hp

theorem Step.printed (h : Step handlers w a w') (hw : w.Printed) : w'.Printed where
  leased := h.leased hw.leased
  held hp := by
    rcases h.submission hp with hp | ⟨_, _, _, _, _, hb⟩
    · exact h.carriesPrint hw.leased.fenced.keyed (hw.held hp)
    · exact hb.bound hw.leased.fenced.keyed
  delivered hc := by
    rcases h.delivered hc with hc | ⟨⟨i, openedAt, hp⟩, -⟩
    · exact h.carriesPrint hw.leased.fenced.keyed (hw.delivered hc)
    · exact h.carriesPrint hw.leased.fenced.keyed (hw.held (i := i) (by rw [hp]; rfl))

end World

end Ekumidayomi
