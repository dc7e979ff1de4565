import Ekumidayomi.Auth.Along
import Ekumidayomi.Auth.Indexes
import Ekumidayomi.Outbox.Payloads

/-!
# What the transactions of the identity services account for

A row is inserted when its unique columns were found vacant under their locks, and when the user it
belongs to was read or is created by the same transaction. A challenge is inserted after the event
that announces it; an identity, a credential, a challenge and a change of password come with the
audit record that tells of them, and so does an identity that is deleted (`Account`). A change of
access is recorded after it is written, an event is followed by its challenge, and a wrong code by
the record of the failure, so that these hold of the transaction as a whole (`Settled`).
-/

namespace Ekumidayomi

open Transact

/-! ## Evidence -/

/-- The record that tells of an action. -/
structure AuditRecord.Tells (a : AuditRecord) (actorId : Option UUID) (action : String)
    (targetId : UUID) (outcome : AuditOutcome) (metadata : List (String × AuditValue)) : Prop where
  actor : a.actorId = actorId
  action : a.action = action
  target : a.targetId = targetId
  outcome : a.outcome = outcome
  metadata : a.metadata = metadata

/-- The event by which the mail of a challenge is requested. -/
structure DomainEvent.Announces (event : DomainEvent) (row : EmailChallenge) : Prop where
  eventType : event.eventType = "email_challenge_requested"
  aggregateType : event.aggregateType = "email_challenge"
  aggregateId : event.aggregateId = row.id
  version : event.aggregateVersion = 1
  occurredAt : event.occurredAt = row.createdAt
  payload : event.payload = [("challenge_id", .str (Unicode.ofString (uuidStr row.id)))]

/-- The user that the row of a write belongs to. -/
def Op.owner : Op → Option UUID
  | .insertCredential row => some row.userId
  | .insertSession row => some row.userId
  | .insertIdentity row => some row.userId
  | _ => none

namespace Ledger

/-- One of the writes records the action. -/
def Recorded (ops : List Op) (actorId : Option UUID) (action : String) (targetId : UUID)
    (outcome : AuditOutcome) (metadata : List (String × AuditValue)) : Prop :=
  ∃ a, .addAudit a ∈ ops ∧ a.Tells actorId action targetId outcome metadata

theorem Recorded.mono {ops ops' : List Op} {actorId : Option UUID} {action : String}
    {targetId : UUID} {outcome : AuditOutcome} {metadata : List (String × AuditValue)}
    (hsub : ∀ op ∈ ops, op ∈ ops') (h : Recorded ops actorId action targetId outcome metadata) :
    Recorded ops' actorId action targetId outcome metadata := by
  obtain ⟨a, ha, htells⟩ := h
  exact ⟨a, hsub _ ha, htells⟩

/-! ## Accounts -/

section
variable {sv : Services}

/-- The user was read, or is created by one of the writes. -/
def Known (c : Ctx (schema sv)) (ops : List Op) (userId : UUID) : Prop :=
  (∃ row, .insertUser row ∈ ops ∧ row.id = userId) ∨
    ∃ r ∈ c.reads, Db.user r.db userId ≠ none

/-- The evidence that stands before a write. -/
def Evidenced (c : Ctx (schema sv)) (op : Op) (post : List Op) : Prop :=
  match op with
  | .insertUser row => row.role = Role.customer.value ∧ row.isActive = true
  | .insertCredential row =>
    Recorded post none "auth.registration_completed" row.userId .succeeded [] ∨
      Recorded post none "identity.admin_bootstrapped" row.userId .succeeded []
  | .setPassword userId _ => Recorded post none "identity.password_reset" userId .succeeded [] ∨
      ∃ hash, .verified userId hash ∈ c.marks
  | .insertIdentity row => Recorded post (some row.userId) "identity.provider_linked" row.userId
      .succeeded [("provider", .str row.provider)]
  | .deleteIdentity row => Recorded post (some row.userId) "identity.provider_unlinked" row.userId
      .succeeded [("provider", .str row.provider)] ∧
      ∃ r ∈ c.reads, Db.identity r.db row.id = some row
  | .deleteChallenge row => ∃ r ∈ c.reads, Db.challenge r.db row.id ≠ none
  | .insertChallenge row => (∃ event, .addEvent event ∈ post ∧ event.Announces row) ∧
      ∃ isResend, Recorded post none "auth.challenge_issued" row.id .succeeded
        [("purpose", .str row.purpose), ("is_resend", .bool isResend)]
  | .addEvent event => event.eventId ∈ c.drawn ∧ event.aggregateId ∈ c.drawn ∧
      ∀ e, .addEvent e ∈ post → e.eventId ≠ event.eventId ∧ e.aggregateId ≠ event.aggregateId
  | _ => True

/-- Why a transaction may make a write after the writes `post`. -/
structure Account (c : Ctx (schema sv)) (op : Op) (post : List Op) : Prop where
  email : (emailIndex sv).Checked c op post
  secret : (secretIndex sv).Checked c op post
  purpose : (purposeIndex sv).Checked c op post
  subject : (subjectIndex sv).Checked c op post
  provider : (providerIndex sv).Checked c op post
  owner : ∀ userId, op.owner = some userId → Known c post userId
  evidence : Evidenced c op post

/-- A change of access that is told of: the user was made by the same transaction, or was read under
the lock of its row. -/
def Told (c : Ctx (schema sv)) (ops : List Op) (id : UUID) (role : String) (isActive : Bool) :
    Prop :=
  ((∃ row, .insertUser row ∈ ops ∧ row.id = id) ∧
    Recorded ops none "identity.admin_bootstrapped" id .succeeded []) ∨
  ∃ r ∈ c.reads, .user id ∈ r.held ∧ ∃ target, Db.user r.db id = some target ∧ ∃ admin,
    Recorded ops (some admin) "identity.access_changed" id .succeeded
      [("old_role", .str target.role), ("new_role", .str role),
        ("old_active", .bool target.isActive), ("new_active", .bool isActive)]

/-- What holds of a transaction that commits with the writes `ops`. -/
structure Settled (c : Ctx (schema sv)) (ops : List Op) : Prop where
  access : ∀ id role isActive, .setAccess id role isActive ∈ ops → Told c ops id role isActive
  event : ∀ event, .addEvent event ∈ ops → ∃ row, .insertChallenge row ∈ ops ∧ event.Announces row
  guess : ∀ id, .wrongCode id ∈ c.marks → ∃ purpose : ChallengePurpose,
    Recorded ops none "auth.challenge_verification_failed" id .denied
      [("purpose", .str purpose.value)]

/-- The transaction has an account of every write, and is settled once it has made the writes
`more`. -/
structure Owing (more : List Op) (c : Ctx (schema sv)) : Prop where
  booked : c.Booked Account
  settled : Settled c (more ++ c.buf)

/-- The transaction has an account of every write, and is settled. -/
abbrev Sound (c : Ctx (schema sv)) : Prop := Owing [] c

end

/-! ## Writes that need no account -/

end Ledger

/-- The write needs no account. -/
def Op.isPlain : Op → Prop
  | .setVerified _ _ | .revokeSession _ _ | .setAuthenticated _ _ | .setAttempts _ _
  | .setConsumed _ _ | .setLastLogin _ _ | .addAudit _ => True
  | _ => False

/-- The write adds a row with unique columns. -/
def Op.isIndexed : Op → Bool
  | .insertUser _ | .insertSession _ | .insertChallenge _ | .insertIdentity _ => true
  | _ => false

/-- The write is settled by another. -/
def Op.isOwed : Op → Bool
  | .setAccess _ _ _ | .addEvent _ => true
  | _ => false

/-- The mark needs no evidence. -/
def Note.isPlain : Note → Prop
  | .wrongCode _ => False
  | _ => True

namespace Ledger

section
variable {sv : Services} {c c' : Ctx (schema sv)} {op : Op} {ops post : List Op}

theorem Known.le {userId : UUID} (hle : c.Le c') (h : Known c ops userId) :
    Known c' ops userId :=
  h.imp_right fun ⟨r, hr, huser⟩ => ⟨r, hle.reads hr, huser⟩

theorem Known.mono {userId : UUID} (hsub : ∀ op ∈ ops, op ∈ post) (h : Known c ops userId) :
    Known c post userId :=
  h.imp_left fun ⟨row, hrow, hid⟩ => ⟨row, hsub _ hrow, hid⟩

/-- A record that goes on keeps its accounts. -/
theorem Account.le (hle : c.Le c') (hmarks : c.marks ⊆ c'.marks) (h : Account c op post) :
    Account c' op post where
  email := h.email.le hle
  secret := h.secret.le hle
  purpose := h.purpose.le hle
  subject := h.subject.le hle
  provider := h.provider.le hle
  owner := fun userId howner => (h.owner userId howner).le hle
  evidence := by
    have hevidence := h.evidence
    cases op with
    | setPassword => exact hevidence.imp_right fun ⟨hash, hmark⟩ => ⟨hash, hmarks hmark⟩
    | addEvent => exact ⟨hle.drawn hevidence.1, hle.drawn hevidence.2.1, hevidence.2.2⟩
    | deleteIdentity =>
      obtain ⟨ha, r, hr, hrow⟩ := hevidence
      exact ⟨ha, r, hle.reads hr, hrow⟩
    | deleteChallenge =>
      obtain ⟨r, hr, hrow⟩ := hevidence
      exact ⟨r, hle.reads hr, hrow⟩
    | _ => exact hevidence

/-- A write without unique columns. -/
theorem Account.of_evidence (hop : op.isIndexed = false)
    (howner : ∀ userId, op.owner = some userId → Known c post userId)
    (hevidence : Evidenced c op post) : Account c op post where
  email := by
    refine .of_none fun id => ?_
    cases op <;> first | rfl | cases hop
  secret := by
    refine .of_none fun id => ?_
    cases op <;> first | rfl | cases hop
  purpose := by
    refine .of_none fun id => ?_
    cases op <;> first | rfl | cases hop
  subject := by
    refine .of_none fun id => ?_
    cases op <;> first | rfl | cases hop
  provider := by
    refine .of_none fun id => ?_
    cases op <;> first | rfl | cases hop
  owner := howner
  evidence := hevidence

theorem Account.of_plain (h : op.isPlain) : Account c op post := by
  cases op <;> first
    | exact h.elim
    | exact .of_evidence rfl (by rintro _ ⟨⟩) trivial

theorem Told.mono {id : UUID} {role : String} {isActive : Bool} (hle : c.Le c')
    (hsub : ∀ op ∈ ops, op ∈ post) (h : Told c ops id role isActive) :
    Told c' post id role isActive := by
  rcases h with ⟨⟨row, hrow, hid⟩, ha⟩ | ⟨r, hr, hk, target, ht, admin, ha⟩
  · exact .inl ⟨⟨row, hsub _ hrow, hid⟩, ha.mono hsub⟩
  · exact .inr ⟨r, hle.reads hr, hk, target, ht, admin, ha.mono hsub⟩

/-- More writes and marks that owe nothing. -/
theorem Settled.more (hle : c.Le c') (hsub : ∀ op ∈ ops, op ∈ post)
    (hops : ∀ op ∈ post, op ∈ ops ∨ op.isPlain) (hmarks : ∀ n ∈ c'.marks, n ∈ c.marks ∨ n.isPlain)
    (h : Settled c ops) : Settled c' post where
  access := by
    intro id role isActive hmem
    exact (h.access id role isActive ((hops _ hmem).resolve_right fun hop => hop)).mono hle hsub
  event := by
    intro event hmem
    obtain ⟨row, hrow, hannounces⟩ := h.event event ((hops _ hmem).resolve_right fun hop => hop)
    exact ⟨row, hsub _ hrow, hannounces⟩
  guess := by
    intro id hmem
    obtain ⟨purpose, ha⟩ := h.guess id ((hmarks _ hmem).resolve_right fun hn => hn)
    exact ⟨purpose, ha.mono hsub⟩

theorem sound_fresh (hbuf : c.buf = []) (hmarks : c.marks = []) : Sound c := by
  refine ⟨by rw [Ctx.Booked, hbuf]; trivial, ?_⟩
  constructor <;> simp [hbuf, hmarks]

/-- One more write, with its account. -/
theorem booked_push {op : Op} (haccount : Account c op c.buf) (hbooked : c.Booked Account) :
    (c.push op).Booked Account := by
  have hle : c.Le (c.push op) := Ctx.le_push (c := c) op
  exact ⟨haccount.le hle (List.Subset.refl _),
    hbooked.mono fun _ _ hold => hold.le hle (List.Subset.refl _)⟩

/-- What plain writes and marks keep. -/
theorem owing_kept (more : List Op) :
    Ctx.Kept (S := schema sv) Op.isPlain Note.isPlain (Owing more) where
  le := by
    intro c c' hle hbuf hmarks h
    refine ⟨?_, ?_⟩
    · rw [Ctx.Booked, hbuf]
      exact h.booked.mono fun _ _ haccount => haccount.le hle (hmarks ▸ List.Subset.refl _)
    · rw [hbuf]
      exact h.settled.more hle (fun _ => id) (fun _ => .inl) fun n hn => .inl (hmarks ▸ hn)
  push := by
    intro c op hop h
    have hle : c.Le (c.push op) := Ctx.le_push (c := c) op
    refine ⟨booked_push (.of_plain hop) h.booked, h.settled.more hle ?_ ?_ fun _ => .inl⟩
    · exact fun o ho => List.mem_append.2
        ((List.mem_append.1 ho).imp_right (List.mem_cons_of_mem op))
    · intro o ho
      rcases List.mem_append.1 ho with ho | ho
      · exact .inl (List.mem_append_left _ ho)
      · rcases List.mem_cons.1 ho with rfl | ho
        · exact .inr hop
        · exact .inl (List.mem_append_right _ ho)
  mark := by
    intro c n hn h
    have hle : c.Le (c.mark n) := Ctx.le_mark (c := c) n
    refine ⟨h.booked.mono fun _ _ hold => hold.le hle (List.subset_cons_self _ _), ?_⟩
    refine h.settled.more hle (fun _ => id) (fun _ => .inl) fun m hm => ?_
    rcases List.mem_cons.1 hm with rfl | hm
    · exact .inr hn
    · exact .inl hm

/-- The transaction has issued no challenge yet. -/
def Unissued (c : Ctx (schema sv)) : Prop := ∀ row, .insertChallenge row ∉ c.buf

theorem unissued_kept : Ctx.Kept (S := schema sv) Op.isPlain Note.isPlain Unissued where
  le := by
    intro c c' _ hbuf _ h
    rwa [Unissued, hbuf]
  push := by
    intro c op hop h row hmem
    rcases List.mem_cons.1 hmem with rfl | hmem
    · exact hop
    · exact h row hmem
  mark := fun _ h => h

/-- The transaction has issued no challenge when it begins. -/
theorem unissued_fresh : Unissued ({} : Ctx (schema sv)) := fun _ => List.not_mem_nil

/-- One more write, with its account and what is told of it. -/
theorem Owing.pushTold {op : Op} (haccount : Account c op c.buf)
    (hevent : ∀ event, op ≠ .addEvent event)
    (haccess : ∀ id role isActive, op = .setAccess id role isActive →
      Told c (op :: c.buf) id role isActive) (h : Sound c) : Sound (c.push op) where
  booked := booked_push haccount h.booked
  settled := by
    have hle : c.Le (c.push op) := Ctx.le_push (c := c) op
    have hsub : ∀ o ∈ c.buf, o ∈ op :: c.buf := fun o => List.mem_cons_of_mem op
    constructor
    · intro id role isActive hmem
      rcases List.mem_cons.1 hmem with heq | hold
      · exact (haccess id role isActive heq.symm).mono hle fun _ ho => ho
      · exact (h.settled.access id role isActive hold).mono hle hsub
    · intro event hmem
      have hold := (List.mem_cons.1 hmem).resolve_left (hevent event).symm
      obtain ⟨row, hrow, hannounces⟩ := h.settled.event event hold
      exact ⟨row, hsub _ hrow, hannounces⟩
    · intro id hmark
      obtain ⟨purpose, ha⟩ := h.settled.guess id hmark
      exact ⟨purpose, ha.mono hsub⟩

/-- One more write, with its account. -/
theorem Owing.push {op : Op} (haccount : Account c op c.buf) (hop : op.isOwed = false)
    (h : Sound c) : Sound (c.push op) := by
  refine h.pushTold haccount ?_ ?_
  · rintro event rfl
    cases hop
  · rintro id role isActive rfl
    cases hop

end

end Ledger

end Ekumidayomi
