import Mathlib.Algebra.Group.Int.Defs
import Ekumidayomi.Auth.Challenge
import Ekumidayomi.Events
import Ekumidayomi.Lib.Store
import Ekumidayomi.Lib.Txn

/-!
# The identity tables

The rows of `users/model.py`, `auth/model.py`, `auth/challenge_model.py` and `audit/model.py`, the
writes that the identity services make to them, and the locks that protect each write. A lock is an
advisory lock under an integer, the lock of a row that `FOR UPDATE`, an `UPDATE`, a `DELETE` or an
`INSERT` takes, or the entry of a unique index that an `INSERT` and a `DELETE` hold. `schema` puts
these together. Columns that no modelled function reads (`display_name`, `phone`, the timestamps of
`TimestampMixin`) are left out.
-/

namespace Ekumidayomi

/-- `Role`. -/
inductive Role
  | customer | admin
  deriving DecidableEq, Repr

def Role.value : Role → String
  | .customer => "customer"
  | .admin => "admin"

/-- `Role(value)`; `none` when it raises. -/
def Role.ofValue (value : String) : Option Role :=
  if value = "customer" then some .customer else if value = "admin" then some .admin else none

/-- `ProviderName`. -/
inductive ProviderName
  | google | yahoo
  deriving DecidableEq, Repr

def ProviderName.value : ProviderName → String
  | .google => "google"
  | .yahoo => "yahoo"

structure User where
  id : UUID
  email : String
  role : String := "customer"
  isActive : Bool := true
  emailVerifiedAt : Option Time := none
  deriving DecidableEq, Repr

structure PasswordCredential where
  userId : UUID
  passwordHash : String
  deriving DecidableEq, Repr

structure AuthSession where
  id : UUID
  userId : UUID
  secretHash : String
  createdAt : Time
  authenticatedAt : Time
  expiresAt : Time
  revokedAt : Option Time := none
  deriving DecidableEq, Repr

structure ExternalIdentity where
  id : UUID
  userId : UUID
  provider : String
  subject : String
  emailSnapshot : Option String
  emailVerified : Bool
  lastLoginAt : Time
  deriving DecidableEq, Repr

/-- `ActorKind`. -/
inductive ActorKind
  | customer | administrator | system | anonymous
  deriving DecidableEq, Repr

/-- `AuditOutcome`. -/
inductive AuditOutcome
  | succeeded | denied | failed
  deriving DecidableEq, Repr

/-- The values of audit metadata that the identity services record. -/
inductive AuditValue
  | bool (value : Bool)
  | str (value : String)
  deriving DecidableEq, Repr

structure AuditRecord where
  id : UUID
  actorKind : ActorKind
  actorId : Option UUID
  action : String
  targetType : String
  targetId : UUID
  outcome : AuditOutcome
  occurredAt : Time
  correlationId : String
  metadata : List (String × AuditValue)
  deriving DecidableEq, Repr

/-- The identity tables. Outbox messages and audit records are only ever added here. -/
structure Db where
  users : Store User.id := .empty
  credentials : Store PasswordCredential.userId := .empty
  sessions : Store AuthSession.id := .empty
  challenges : Store EmailChallenge.id := .empty
  identities : Store ExternalIdentity.id := .empty
  outbox : List DomainEvent := []
  audit : List AuditRecord := []

namespace Db

def user (db : Db) (id : UUID) : Option User := db.users.get id

def credential (db : Db) (userId : UUID) : Option PasswordCredential := db.credentials.get userId

def session (db : Db) (id : UUID) : Option AuthSession := db.sessions.get id

def challenge (db : Db) (id : UUID) : Option EmailChallenge := db.challenges.get id

def identity (db : Db) (id : UUID) : Option ExternalIdentity := db.identities.get id

end Db

/-- A write to one row. -/
inductive Op
  | insertUser (row : User)
  | setAccess (id : UUID) (role : String) (isActive : Bool)
  | setVerified (id : UUID) (instant : Time)
  | insertCredential (row : PasswordCredential)
  | setPassword (userId : UUID) (hash : String)
  | insertSession (row : AuthSession)
  | revokeSession (id : UUID) (instant : Time)
  | setAuthenticated (id : UUID) (instant : Time)
  | insertChallenge (row : EmailChallenge)
  | deleteChallenge (row : EmailChallenge)
  | setAttempts (id : UUID) (attempts : Nat)
  | setConsumed (id : UUID) (instant : Time)
  | insertIdentity (row : ExternalIdentity)
  | deleteIdentity (row : ExternalIdentity)
  | setLastLogin (id : UUID) (instant : Time)
  | addEvent (event : DomainEvent)
  | addAudit (row : AuditRecord)

def Op.apply (op : Op) (db : Db) : Db :=
  match op with
  | .insertUser row => { db with users := db.users.insert row }
  | .setAccess id role isActive =>
    { db with users := db.users.modify id ({ · with role, isActive }) fun _ => rfl }
  | .setVerified id instant =>
    { db with users := db.users.modify id ({ · with emailVerifiedAt := some instant }) fun _ => rfl }
  | .insertCredential row => { db with credentials := db.credentials.insert row }
  | .setPassword userId hash =>
    { db with
      credentials := db.credentials.modify userId ({ · with passwordHash := hash }) fun _ => rfl }
  | .insertSession row => { db with sessions := db.sessions.insert row }
  | .revokeSession id instant =>
    { db with sessions := db.sessions.modify id ({ · with revokedAt := some instant }) fun _ => rfl }
  | .setAuthenticated id instant =>
    { db with sessions := db.sessions.modify id ({ · with authenticatedAt := instant }) fun _ => rfl }
  | .insertChallenge row => { db with challenges := db.challenges.insert row }
  | .deleteChallenge row => { db with challenges := db.challenges.erase row.id }
  | .setAttempts id attempts =>
    { db with challenges := db.challenges.modify id ({ · with attempts }) fun _ => rfl }
  | .setConsumed id instant =>
    { db with
      challenges := db.challenges.modify id ({ · with consumedAt := some instant }) fun _ => rfl }
  | .insertIdentity row => { db with identities := db.identities.insert row }
  | .deleteIdentity row => { db with identities := db.identities.erase row.id }
  | .setLastLogin id instant =>
    { db with identities := db.identities.modify id ({ · with lastLoginAt := instant }) fun _ => rfl }
  | .addEvent event => { db with outbox := db.outbox ++ [event] }
  | .addAudit row => { db with audit := db.audit ++ [row] }

/-- A lock. -/
inductive Key
  | advisory (id : Int)
  | user (id : UUID)
  | credential (userId : UUID)
  | session (id : UUID)
  | challenge (id : UUID)
  | identity (id : UUID)
  | uniqueEmail (email : String)
  | uniqueChallenge (email purpose : String)
  | uniqueSecret (hash : String)
  | uniqueSubject (provider subject : String)
  | uniqueProvider (userId : UUID) (provider : String)
  deriving DecidableEq, Repr

/-- `ADMIN_MEMBERSHIP_LOCK`. -/
def adminMembershipLock : Int := 2407001

/-- The identifiers of the rows that a write adds. -/
def Op.makes : Op → List UUID
  | .insertUser row => [row.id]
  | .insertCredential row => [row.userId]
  | .insertSession row => [row.id]
  | .insertChallenge row => [row.id]
  | .insertIdentity row => [row.id]
  | _ => []

/-- The identifier names a row. -/
def Db.Uses (db : Db) (id : UUID) : Prop :=
  db.user id ≠ none ∨ db.credential id ≠ none ∨ db.session id ≠ none ∨ db.challenge id ≠ none ∨
    db.identity id ≠ none

/-- Every administrator has a verified email address. -/
def Db.AdminsVerified (db : Db) : Prop :=
  ∀ id u, db.user id = some u → u.role = Role.admin.value → u.emailVerifiedAt.isSome

/-- What a program marks: that it verified a password against a stored hash, that it compared a
wrong code with the digest of a challenge, and that it found a session recent at an instant. -/
inductive Note
  | verified (userId : UUID) (hash : String)
  | wrongCode (challengeId : UUID)
  | authorized (sessionId : UUID) (limit : Nat) (now : Time)
  deriving DecidableEq, Repr

/-- The services outside the repository: address validation, hashes and the password hasher. -/
structure Services where
  /-- `normalize_email`; `none` when it raises `InvalidEmailError`. -/
  normalizeEmail : String → Option String
  casefold : String → String
  sha256 : Bytes → Bytes
  hmac : Bytes → Bytes → Bytes
  /-- `PasswordHasher.hash` of a password, with the salt it has drawn. -/
  hash : String → String → String
  /-- `PasswordHasher.verify`, with its errors as `false`. -/
  verify : String → String → Bool
  needsRehash : String → Bool

/-- The integer of `lock_email`: the first eight bytes of the digest, signed. -/
def lockId (sv : Services) (text : String) : Int :=
  let n := Framing.ofBigEndian ((sv.sha256 (encode text)).take 8)
  if n < 2 ^ 63 then n else n - 2 ^ 64

/-- The lock of `lock_email`. -/
def Key.email (sv : Services) (text : String) : Key := .advisory (lockId sv text)

/-- The text under which an external identity is locked. -/
def externalText (provider subject : String) : String := "external:" ++ provider ++ ":" ++ subject

/-- The locks that protect what a write changes. The rows that belong to an account are added, and
its credential is changed, under the lock of the user's row; access is changed under the lock of
the membership as well, and so is anybody made who is not a customer. A challenge is added and
deleted under the lock of its address, but counted and consumed under its row's. -/
def Op.needs (sv : Services) : Op → List Key
  | .insertUser row => [.user row.id, .uniqueEmail row.email] ++
      if row.role = Role.customer.value then [] else [.advisory adminMembershipLock]
  | .setAccess id _ _ => [.user id, .advisory adminMembershipLock]
  | .setVerified id _ => [.user id]
  | .insertCredential row => [.user row.userId]
  | .setPassword userId _ => [.user userId, .credential userId]
  | .insertSession row => [.user row.userId, .session row.id, .uniqueSecret row.secretHash]
  | .revokeSession id _ => [.session id]
  | .setAuthenticated id _ => [.session id]
  | .insertChallenge row =>
    [.challenge row.id, .email sv row.email, .uniqueChallenge row.email row.purpose]
  | .deleteChallenge row => [.challenge row.id, .email sv row.email]
  | .setAttempts id _ => [.challenge id]
  | .setConsumed id _ => [.challenge id]
  | .insertIdentity row => [.identity row.id, .user row.userId,
      .email sv (externalText row.provider row.subject), .uniqueSubject row.provider row.subject,
      .uniqueProvider row.userId row.provider]
  | .deleteIdentity row => [.identity row.id, .user row.userId]
  | .setLastLogin id _ => [.identity id]
  | .addEvent _ => []
  | .addAudit _ => []

theorem Op.needs_insertUser {sv : Services} {row : User} (h : row.role = Role.customer.value) :
    (Op.insertUser row).needs sv = [.user row.id, .uniqueEmail row.email] := by
  rw [Op.needs, if_pos h]
  rfl

theorem Db.uses_apply {op : Op} {db : Db} {id : UUID} (h : (op.apply db).Uses id) :
    db.Uses id ∨ id ∈ op.makes := by
  by_cases hm : id ∈ op.makes
  · exact .inr hm
  · refine .inl ?_
    cases op <;> simp only [Op.makes, List.mem_singleton] at hm <;>
      simp only [Db.Uses, Op.apply, Db.user, Db.credential, Db.session, Db.challenge, Db.identity,
        Store.get_modify, Store.get_erase] at h ⊢
    case insertUser | insertCredential | insertSession | insertChallenge | insertIdentity =>
      rwa [Store.get_insert_ne (Ne.symm hm)] at h
    all_goals grind

/-! ## What one write does to a row

A row after a write was there before, or is the one that the write inserts. Users, credentials and
sessions are never deleted. -/

section
variable {op : Op} {db : Db} {id : UUID}

theorem Db.user_apply {x : User} (h : (op.apply db).user id = some x) :
    (op = .insertUser x ∧ x.id = id ∧ db.user id = none) ∨
    ∃ y, db.user id = some y ∧ (x = y ∨
      (∃ role isActive, op = .setAccess id role isActive ∧ x = { y with role, isActive }) ∨
      ∃ t, op = .setVerified id t ∧ x = { y with emailVerifiedAt := some t }) := by
  cases op with
  | insertUser row =>
    rcases Store.of_get_insert h with ⟨rfl, hid, hnone⟩ | hx
    · exact .inl ⟨rfl, hid, hnone⟩
    · exact .inr ⟨x, hx, .inl rfl⟩
  | setAccess k role isActive =>
    rcases Store.of_get_modify (fun _ => by rfl) h with hx | ⟨y, hy, rfl, rfl⟩
    · exact .inr ⟨x, hx, .inl rfl⟩
    · exact .inr ⟨y, hy, .inr (.inl ⟨role, isActive, rfl, rfl⟩)⟩
  | setVerified k t =>
    rcases Store.of_get_modify (fun _ => by rfl) h with hx | ⟨y, hy, rfl, rfl⟩
    · exact .inr ⟨x, hx, .inl rfl⟩
    · exact .inr ⟨y, hy, .inr (.inr ⟨t, rfl, rfl⟩)⟩
  | _ => exact .inr ⟨x, h, .inl rfl⟩

/-- A user keeps the address, and a verified address stays verified. -/
theorem Db.user_apply_keeps {x : User} (h : (op.apply db).user id = some x) :
    (op = .insertUser x ∧ x.id = id ∧ db.user id = none) ∨
    ∃ y, db.user id = some y ∧ x.email = y.email ∧
      (y.emailVerifiedAt.isSome → x.emailVerifiedAt.isSome) := by
  rcases Db.user_apply h with hnew | ⟨y, hy, rfl | ⟨_, _, -, rfl⟩ | ⟨t, -, rfl⟩⟩
  · exact .inl hnew
  · exact .inr ⟨_, hy, rfl, fun h => h⟩
  · exact .inr ⟨y, hy, rfl, fun h => h⟩
  · exact .inr ⟨y, hy, rfl, fun _ => rfl⟩

theorem Db.credential_apply {x : PasswordCredential} (h : (op.apply db).credential id = some x) :
    (op = .insertCredential x ∧ x.userId = id ∧ db.credential id = none) ∨
    ∃ y, db.credential id = some y ∧ (x = y ∨
      ∃ hash, op = .setPassword id hash ∧ x = { y with passwordHash := hash }) := by
  cases op with
  | insertCredential row =>
    rcases Store.of_get_insert h with ⟨rfl, hid, hnone⟩ | hx
    · exact .inl ⟨rfl, hid, hnone⟩
    · exact .inr ⟨x, hx, .inl rfl⟩
  | setPassword k hash =>
    rcases Store.of_get_modify (fun _ => by rfl) h with hx | ⟨y, hy, rfl, rfl⟩
    · exact .inr ⟨x, hx, .inl rfl⟩
    · exact .inr ⟨y, hy, .inr ⟨hash, rfl, rfl⟩⟩
  | _ => exact .inr ⟨x, h, .inl rfl⟩

theorem Db.session_apply {x : AuthSession} (h : (op.apply db).session id = some x) :
    (op = .insertSession x ∧ x.id = id ∧ db.session id = none) ∨
    ∃ y, db.session id = some y ∧ (x = y ∨
      (∃ t, op = .revokeSession id t ∧ x = { y with revokedAt := some t }) ∨
      ∃ t, op = .setAuthenticated id t ∧ x = { y with authenticatedAt := t }) := by
  cases op with
  | insertSession row =>
    rcases Store.of_get_insert h with ⟨rfl, hid, hnone⟩ | hx
    · exact .inl ⟨rfl, hid, hnone⟩
    · exact .inr ⟨x, hx, .inl rfl⟩
  | revokeSession k t =>
    rcases Store.of_get_modify (fun _ => by rfl) h with hx | ⟨y, hy, rfl, rfl⟩
    · exact .inr ⟨x, hx, .inl rfl⟩
    · exact .inr ⟨y, hy, .inr (.inl ⟨t, rfl, rfl⟩)⟩
  | setAuthenticated k t =>
    rcases Store.of_get_modify (fun _ => by rfl) h with hx | ⟨y, hy, rfl, rfl⟩
    · exact .inr ⟨x, hx, .inl rfl⟩
    · exact .inr ⟨y, hy, .inr (.inr ⟨t, rfl, rfl⟩)⟩
  | _ => exact .inr ⟨x, h, .inl rfl⟩

/-- A session keeps its user and its secret, and stays revoked. -/
theorem Db.session_apply_keeps {x : AuthSession} (h : (op.apply db).session id = some x) :
    (op = .insertSession x ∧ x.id = id ∧ db.session id = none) ∨
    ∃ y, db.session id = some y ∧ x.userId = y.userId ∧ x.secretHash = y.secretHash ∧
      (y.revokedAt.isSome = true → x.revokedAt.isSome = true) := by
  rcases Db.session_apply h with hnew | ⟨y, hy, rfl | ⟨t, -, rfl⟩ | ⟨t, -, rfl⟩⟩
  · exact .inl hnew
  · exact .inr ⟨_, hy, rfl, rfl, fun h => h⟩
  · exact .inr ⟨y, hy, rfl, rfl, fun _ => rfl⟩
  · exact .inr ⟨y, hy, rfl, rfl, fun h => h⟩

/-- What a write does to a session depends on that session alone. -/
theorem Db.session_apply_congr {db' : Db} (h : db.session id = db'.session id) :
    (op.apply db).session id = (op.apply db').session id := by
  simp only [Db.session] at h
  cases op <;> simp only [Db.session, Op.apply, Store.get_modify, Store.get_insert, h]

theorem Db.challenge_apply {x : EmailChallenge} (h : (op.apply db).challenge id = some x) :
    (op = .insertChallenge x ∧ x.id = id ∧ db.challenge id = none) ∨
    ∃ y, db.challenge id = some y ∧ (x = y ∨
      (∃ n, op = .setAttempts id n ∧ x = { y with attempts := n }) ∨
      ∃ t, op = .setConsumed id t ∧ x = { y with consumedAt := some t }) := by
  cases op with
  | insertChallenge row =>
    rcases Store.of_get_insert h with ⟨rfl, hid, hnone⟩ | hx
    · exact .inl ⟨rfl, hid, hnone⟩
    · exact .inr ⟨x, hx, .inl rfl⟩
  | deleteChallenge row => exact .inr ⟨x, (Store.of_get_erase h).2, .inl rfl⟩
  | setAttempts k n =>
    rcases Store.of_get_modify (fun _ => by rfl) h with hx | ⟨y, hy, rfl, rfl⟩
    · exact .inr ⟨x, hx, .inl rfl⟩
    · exact .inr ⟨y, hy, .inr (.inl ⟨n, rfl, rfl⟩)⟩
  | setConsumed k t =>
    rcases Store.of_get_modify (fun _ => by rfl) h with hx | ⟨y, hy, rfl, rfl⟩
    · exact .inr ⟨x, hx, .inl rfl⟩
    · exact .inr ⟨y, hy, .inr (.inr ⟨t, rfl, rfl⟩)⟩
  | _ => exact .inr ⟨x, h, .inl rfl⟩

theorem Db.identity_apply {x : ExternalIdentity} (h : (op.apply db).identity id = some x) :
    (op = .insertIdentity x ∧ x.id = id ∧ db.identity id = none) ∨
    ∃ y, db.identity id = some y ∧ (x = y ∨
      ∃ t, op = .setLastLogin id t ∧ x = { y with lastLoginAt := t }) := by
  cases op with
  | insertIdentity row =>
    rcases Store.of_get_insert h with ⟨rfl, hid, hnone⟩ | hx
    · exact .inl ⟨rfl, hid, hnone⟩
    · exact .inr ⟨x, hx, .inl rfl⟩
  | deleteIdentity row => exact .inr ⟨x, (Store.of_get_erase h).2, .inl rfl⟩
  | setLastLogin k t =>
    rcases Store.of_get_modify (fun _ => by rfl) h with hx | ⟨y, hy, rfl, rfl⟩
    · exact .inr ⟨x, hx, .inl rfl⟩
    · exact .inr ⟨y, hy, .inr ⟨t, rfl, rfl⟩⟩
  | _ => exact .inr ⟨x, h, .inl rfl⟩

/-! A row that is there stays there, but for a challenge or an identity that is deleted. -/

theorem Db.user_apply_of_some {y : User} (h : db.user id = some y) :
    ∃ x, (op.apply db).user id = some x := by
  cases op with
  | insertUser row => exact ⟨y, Store.get_insert_of_some h⟩
  | setAccess | setVerified =>
    exact Store.get_modify_of_some (fun _ => by rfl) h
  | _ => exact ⟨y, h⟩

theorem Db.credential_apply_of_some {y : PasswordCredential} (h : db.credential id = some y) :
    ∃ x, (op.apply db).credential id = some x := by
  cases op with
  | insertCredential row => exact ⟨y, Store.get_insert_of_some h⟩
  | setPassword => exact Store.get_modify_of_some (fun _ => by rfl) h
  | _ => exact ⟨y, h⟩

theorem Db.session_apply_of_some {y : AuthSession} (h : db.session id = some y) :
    ∃ x, (op.apply db).session id = some x := by
  cases op with
  | insertSession row => exact ⟨y, Store.get_insert_of_some h⟩
  | revokeSession | setAuthenticated => exact Store.get_modify_of_some (fun _ => by rfl) h
  | _ => exact ⟨y, h⟩

theorem Db.challenge_apply_of_some {y : EmailChallenge} (h : db.challenge id = some y) :
    (∃ x, (op.apply db).challenge id = some x) ∨
      ∃ row, op = .deleteChallenge row ∧ row.id = id := by
  cases op with
  | insertChallenge row => exact .inl ⟨y, Store.get_insert_of_some h⟩
  | setAttempts | setConsumed => exact .inl (Store.get_modify_of_some (fun _ => by rfl) h)
  | deleteChallenge row =>
    by_cases hid : row.id = id
    · exact .inr ⟨row, rfl, hid⟩
    · exact .inl ⟨y, (Store.get_erase_ne hid).trans h⟩
  | _ => exact .inl ⟨y, h⟩

theorem Db.identity_apply_of_some {y : ExternalIdentity} (h : db.identity id = some y) :
    (∃ x, (op.apply db).identity id = some x) ∨ ∃ row, op = .deleteIdentity row ∧ row.id = id := by
  cases op with
  | insertIdentity row => exact .inl ⟨y, Store.get_insert_of_some h⟩
  | setLastLogin => exact .inl (Store.get_modify_of_some (fun _ => by rfl) h)
  | deleteIdentity row =>
    by_cases hid : row.id = id
    · exact .inr ⟨row, rfl, hid⟩
    · exact .inl ⟨y, (Store.get_erase_ne hid).trans h⟩
  | _ => exact .inl ⟨y, h⟩

end

/-- The identity tables as transactions see them. -/
abbrev schema (sv : Services) : Transact.Schema where
  Db := Db
  Op := Op
  Key := Key
  Id := UUID
  Note := Note
  apply := Op.apply
  needs := Op.needs sv
  makes := Op.makes
  uses := Db.Uses
  valid := Db.AdminsVerified
  uses_apply := Db.uses_apply

/-! ## A database with one account -/

namespace AuthFixture

/-- A token of the form that sessions use. -/
def token : String := String.ofList (List.replicate 43 'x')

/-- The digest of the token. -/
def tokenDigest : Bytes :=
  [204, 11, 28, 44, 102, 243, 187, 159, 209, 160, 129, 198, 38, 186, 27, 239, 98, 246, 249, 100, 65,
    164, 59, 225, 82, 104, 82, 55, 118, 172, 38, 161]

/-- The address of the account. -/
def address : String := "ada@example.com"

/-- The digest of the address. -/
def addressDigest : Bytes :=
  [181, 252, 133, 229, 87, 85, 249, 224, 208, 48, 161, 10, 180, 66, 155, 107, 41, 68, 133, 95, 154,
    13, 96, 7, 127, 232, 50, 190, 203, 196, 29, 114]

/-- The digest of the text under which her identity at Google is locked. -/
def googleDigest : Bytes :=
  [254, 138, 248, 194, 51, 57, 196, 199, 214, 143, 200, 19, 122, 244, 232, 54, 66, 184, 56, 152, 91,
    119, 131, 211, 93, 247, 194, 166, 157, 204, 130, 134]

/-- The digest of the code of her challenge, under the key of `keyed`. -/
def codeMac : Bytes :=
  [108, 236, 172, 113, 48, 21, 46, 47, 171, 227, 144, 157, 77, 166, 108, 95, 72, 88, 130, 180, 176,
    187, 59, 180, 209, 118, 33, 246, 65, 196, 102, 90]

/-- The digest of a wrong code. -/
def wrongMac : Bytes :=
  [39, 32, 6, 123, 252, 112, 227, 38, 127, 164, 131, 39, 145, 207, 162, 118, 213, 31, 104, 140, 225,
    98, 12, 210, 123, 46, 139, 209, 216, 134, 45, 116]

/-- The services as they answer on the address, the token, the identity and the codes. -/
def services : Services where
  normalizeEmail email := if email = address then some address else none
  casefold text := text
  sha256 data := if data = encode token then tokenDigest else
    if data = encode address then addressDigest else
      if data = encode "external:google:ada" then googleDigest else []
  hmac _ message :=
    if message = encode "verify:00000000-0000-0000-0000-000000000003:registration:951757" then
      codeMac else
    if message = encode "verify:00000000-0000-0000-0000-000000000003:registration:000000" then
      wrongMac else []
  hash salt password := salt ++ "$" ++ password
  verify encoded password := encoded = "salt$" ++ password
  needsRehash _ := false

/-- The account, verified and active. -/
def ada : User := { id := 1, email := address, emailVerifiedAt := some 0 }

/-- Her password. -/
def password : String := "correct horse battery"

/-- Her password as it is stored. -/
def credential : PasswordCredential :=
  { userId := 1, passwordHash := "salt$correct horse battery" }

/-- Her session, a week long. -/
def session : AuthSession :=
  { id := 2, userId := 1, secretHash := hexdigest tokenDigest, createdAt := 0,
    authenticatedAt := 0, expiresAt := seconds 604800 }

/-- Settings with one key. -/
def keyed : AuthSettings :=
  { (default : AuthSettings) with
    challengeKeys := [("v1", "kkkkkkkkkkkkkkkkkkkkkkkkkkkkkkkk")]
    active_configured := by decide
    keys_long := by decide }

/-- Her challenge, before she has an account. -/
def challenge : EmailChallenge :=
  { id := 3, email := address, purpose := "registration", keyVersion := "v1"
    codeHash := hexdigest codeMac, createdAt := 0, expiresAt := seconds 600 }

/-- The database with the account and its session. -/
def db : Db where
  users := ⟨[ada], by simp [Table.Keyed]⟩
  credentials := ⟨[credential], by simp [Table.Keyed]⟩
  sessions := ⟨[session], by simp [Table.Keyed]⟩

end AuthFixture

end Ekumidayomi
