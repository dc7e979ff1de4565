import Ekumidayomi.Auth.Model

/-!
# Statements of the identity services

The functions below the services, as transaction programs: `users/repository.py`,
`audit/service.py`, `auth/passwords.py`, `auth/password_policy.py`, `auth/sessions.py`,
`auth/permissions.py` and `auth/challenges.py`. The session runs without autoflush, so a changed
attribute reaches the database at the next `flush` or `commit`. Where the row is locked already the
write stands where the attribute is set, which nobody can tell apart; where it is not, the write
waits for the row's lock at the flush (`flushRow`), and fails when the row is gone.
-/

namespace Ekumidayomi

open Transact

/-- The errors that the identity services raise, and those of the session below them. `unexpected` is
an exception of a provider's adapter that is not `ExternalLoginFailedError`. -/
inductive Error
  | invalidEmail | invalidCredentials | authenticationRequired | permissionDenied
  | reauthenticationRequired | invalidChallenge | emailVerificationUnavailable
  | invalidPasswordLength | commonPassword | breachedPassword | passwordCheckUnavailable
  | userNotFound | lastActiveAdmin | unverifiedAdmin | bootstrapComplete | bootstrapConflict
  | externalLoginFailed | providerAlreadyLinked | finalLoginMethod
  | valueError | unicodeError | unexpected
  | integrityError | staleDataError | dataError
  deriving DecidableEq, Repr

/-- A program against the identity tables. -/
abbrev Tx (sv : Services) := Prog (schema sv) Error

section
variable {sv : Services} {α : Type}

def query (f : Db → α) : Tx sv α := .read fun db => .ret (f db)

def lock (k : Key) : Tx sv Unit := .lock k (.ret ())

def write (op : Op) : Tx sv Unit := .write op (.ret ())

def utcNow : Tx sv Time := .now .ret

def uuid4 : Tx sv UUID := .fresh .ret

/-- A text drawn at random: a token or a salt. -/
def randomText : Tx sv String := .random .ret

def note (n : Note) : Tx sv Unit := .note n (.ret ())

/-- `uow.commit()`. -/
def commit : Tx sv Unit := .commit (.ret ())

/-- `SELECT ... FOR UPDATE` of one row: a row that is there is locked and read again. -/
def forUpdate (get : Db → Option α) (k : Key) : Tx sv (Option α) := do
  match ← query get with
  | none => return none
  | some _ =>
    lock k
    query get

/-- The `UPDATE` that a flush sends for a changed row. -/
def flushRow (get : Db → Option α) (k : Key) (op : Op) : Tx sv Unit := do
  match ← forUpdate get k with
  | none => throw .staleDataError
  | some _ => write op

/-- The `INSERT` of a row with a unique column: it waits for whoever holds the entry of the index,
and fails when the entry is taken. -/
def insertUnique (entry : Key) (taken : Db → Bool) (row : Key) (op : Op) : Tx sv Unit := do
  lock entry
  if ← query taken then throw .integrityError
  lock row
  write op

end

section
variable (sv : Services) (settings : AuthSettings)

/-! ## Users -/

def lockEmail (text : String) : Tx sv Unit := lock (.email sv text)

def lockMembership : Tx sv Unit := lock (.advisory adminMembershipLock)

def findUserByEmail (email : String) : Tx sv (Option User) :=
  match sv.normalizeEmail email with
  | none => throw .invalidEmail
  | some normalized => query fun db => db.users.rows.find? (·.email = normalized)

def findUserById (id : UUID) (locked : Bool) : Tx sv (Option User) :=
  if locked then forUpdate (·.user id) (.user id) else query (·.user id)

def createCustomer (email : String) : Tx sv User :=
  match sv.normalizeEmail email with
  | none => throw .invalidEmail
  | some normalized => do
    let user : User := { id := ← uuid4, email := normalized }
    insertUnique (.uniqueEmail normalized) (fun db => db.users.rows.any (·.email = normalized))
      (.user user.id) (.insertUser user)
    return user

/-! ## Audit records -/

structure AuditActor where
  kind : ActorKind
  actorId : Option UUID := none

/-- The pattern `[A-Za-z0-9][A-Za-z0-9._:-]{0,127}`, matched in full. -/
def validCorrelationId (s : String) : Bool :=
  match s.toList with
  | [] => false
  | first :: rest => isAlnum first && rest.length ≤ 127 &&
      rest.all fun c => isAlnum c || c == '.' || c == '_' || c == ':' || c == '-'

/-- `record`: the fixed actions, targets and metadata of the services pass its other checks. -/
def record (actor : AuditActor) (action targetType : String) (targetId : UUID)
    (outcome : AuditOutcome) (metadata : List (String × AuditValue)) (correlationId : String) :
    Tx sv Unit := do
  if !validCorrelationId correlationId then throw .valueError
  let occurredAt ← utcNow
  let id ← uuid4
  let row : AuditRecord :=
    { id, actorKind := actor.kind, actorId := actor.actorId, action, targetType, targetId, outcome
      occurredAt, correlationId, metadata }
  write (.addAudit row)

/-- `correlation_id or str(uuid4())`. -/
def correlation (given : Option String) : Tx sv String :=
  match given with
  | some id => if id ≠ "" then pure id else do return uuidStr (← uuid4)
  | none => do return uuidStr (← uuid4)

/-! ## Passwords -/

/-- `validate_password`. -/
def validLength (password : String) : Bool :=
  15 ≤ password.toList.length && password.toList.length ≤ 128

def hashPassword (password : String) : Tx sv String := do
  if !validLength password then throw .invalidPasswordLength
  return sv.hash (← randomText) password

def verifyPassword (encoded : Option String) (password : String) : Bool :=
  encoded.any (sv.verify · password)

/-- `_COMMON_PASSWORDS`. -/
def commonPasswords : List String :=
  ["passwordpassword", "123456789012345", "12345678901234567890", "qwertyuiopasdfgh"]

/-- `validate_new_password`, with what the breach checker answers: `none` when it is
unavailable. -/
def validateNewPassword (breached : Option Bool) (password : String) : Tx sv Unit := do
  if !validLength password then throw .invalidPasswordLength
  if password.toList.dedup.length = 1 || commonPasswords.contains (sv.casefold password) then
    throw .commonPassword
  match breached with
  | none => throw .passwordCheckUnavailable
  | some true => throw .breachedPassword
  | some false => pure ()

/-- The flush of a changed `password_hash`. -/
def flushPassword (userId : UUID) (hash : String) : Tx sv Unit :=
  flushRow (·.credential userId) (.credential userId) (.setPassword userId hash)

/-! ## Sessions -/

structure Actor where
  userId : UUID
  sessionId : UUID
  role : Role
  authenticatedAt : Time
  deriving DecidableEq, Repr

def digest (secret : String) : String := hexdigest (sv.sha256 (encode secret))

/-- `SessionService.issue`. -/
def issue (user : User) : Tx sv String := do
  if !user.isActive || user.emailVerifiedAt.isNone then throw .authenticationRequired
  let secret ← randomText
  let now ← utcNow
  let row : AuthSession :=
    { id := ← uuid4, userId := user.id, secretHash := digest sv secret, createdAt := now
      authenticatedAt := now, expiresAt := now + seconds settings.sessionSeconds }
  insertUnique (.uniqueSecret row.secretHash)
    (fun db => db.sessions.rows.any (·.secretHash = row.secretHash)) (.session row.id)
    (.insertSession row)
  return secret

/-- The pattern `[A-Za-z0-9_-]{43}`, matched in full. -/
def isToken (s : String) : Bool :=
  s.toList.length == 43 && s.toList.all fun c => isAlnum c || c == '_' || c == '-'

/-- The query of `resolve`: a session that is live at `now`, with its user. -/
def liveSession (hash : String) (now : Time) (id : Option UUID) (db : Db) :
    Option (AuthSession × User) :=
  db.sessions.rows.findSome? fun row =>
    if row.secretHash = hash ∧ row.revokedAt.isNone ∧ now < row.expiresAt ∧
        id.all (row.id = ·) then
      (db.user row.userId).bind fun user =>
        if user.isActive ∧ user.emailVerifiedAt.isSome then some (row, user) else none
    else none

/-- `SessionService.resolve`; `hint` is the session that the cache names. -/
def resolve (secret : Option String) (hint : Option UUID) : Tx sv Actor :=
  match secret with
  | none => throw .authenticationRequired
  | some secret => do
    if !isToken secret then throw .authenticationRequired
    let now ← utcNow
    let hinted ← match hint with
      | none => pure none
      | some id => query (liveSession (digest sv secret) now (some id))
    let result ← match hinted with
      | some found => pure (some found)
      | none => query (liveSession (digest sv secret) now none)
    match result with
    | none => throw .authenticationRequired
    | some (row, user) =>
      match Role.ofValue user.role with
      | none => throw .authenticationRequired
      | some role => return { userId := user.id, sessionId := row.id, role
                              authenticatedAt := row.authenticatedAt }

/-- The rows that `revoke` updates. -/
def AuthSession.revocable (userId : UUID) (sessionId : Option UUID) (row : AuthSession) : Bool :=
  row.userId = userId && row.revokedAt.isNone && sessionId.all (row.id = ·)

/-- The `UPDATE` of `revoke` on the rows it has found: each is locked and matched again. -/
def revokeEach (userId : UUID) (sessionId : Option UUID) (now : Time) : List UUID → Tx sv Unit
  | [] => pure ()
  | id :: ids => do
    lock (.session id)
    if (← query (·.session id)).any (·.revocable userId sessionId) then
      write (.revokeSession id now)
    revokeEach userId sessionId now ids

/-- `SessionService.revoke`. -/
def revoke (userId : UUID) (sessionId : Option UUID) : Tx sv Unit := do
  let now ← utcNow
  let ids ← query fun db =>
    (db.sessions.rows.filter (·.revocable userId sessionId)).map (·.id)
  revokeEach sv userId sessionId now ids

/-! ## Permissions -/

/-- `Permission`. -/
inductive Permission
  | profileWrite | usersRead | usersManage | auditRead
  deriving DecidableEq, Repr

/-- `_PERMISSIONS`. -/
def Role.permissions : Role → List Permission
  | .customer => [.profileWrite]
  | .admin => [.profileWrite, .usersRead, .usersManage, .auditRead]

def authorize (actor : Actor) (permission : Permission) (recentSeconds : Option Nat)
    (locked : Bool) : Tx sv User := do
  let user ← findUserById sv actor.userId locked
  let session ← query (·.session actor.sessionId)
  match user, session with
  | some user, some session => do
    if !user.isActive || user.emailVerifiedAt.isNone || session.userId ≠ user.id ||
        session.revokedAt.isSome then
      throw .authenticationRequired
    let now ← utcNow
    if session.expiresAt ≤ now then throw .authenticationRequired
    match Role.ofValue user.role with
    | none => throw .permissionDenied
    | some role => do
      if permission ∉ role.permissions then throw .permissionDenied
      match recentSeconds with
      | none => return user
      | some limit => do
        if (← utcNow) - session.authenticatedAt > seconds limit then
          throw .reauthenticationRequired
        note (.authorized session.id limit now)
        return user
  | _, _ => throw .authenticationRequired

/-! ## Challenges -/

/-- The `DELETE` of a challenge that is replaced. -/
def deleteChallenge (row : EmailChallenge) : Tx sv Unit := do
  match ← forUpdate (·.challenge row.id) (.challenge row.id) with
  | none => pure ()
  | some _ =>
    lock (.uniqueChallenge row.email row.purpose)
    write (.deleteChallenge row)

/-- The `INSERT` of a challenge. Its column keeps 32 characters of the name of the key, and the flush
fails where it cannot. -/
def storeChallenge (row : EmailChallenge) : Tx sv Unit :=
  match storedText 32 row.keyVersion with
  | none => throw .dataError
  | some keyVersion =>
    insertUnique (.uniqueChallenge row.email row.purpose)
      (fun db => db.challenges.rows.any fun r => r.email = row.email && r.purpose = row.purpose)
      (.challenge row.id) (.insertChallenge { row with keyVersion })

/-- The part of `issue_challenge` that creates the row. -/
def createChallenge (email : String) (purpose : ChallengePurpose) (now : Time) (isResend : Bool)
    (correlationId : Option String) : Tx sv UUID := do
  let id ← uuid4
  let row : EmailChallenge :=
    { id, email, purpose := purpose.value, keyVersion := settings.activeChallengeKey
      codeHash := "", attempts := 0, createdAt := now
      expiresAt := now + seconds settings.challengeSeconds }
  match (deriveCode sv.hmac row settings).bind (codeDigest sv.hmac row · settings) with
  | none => throw .emailVerificationUnavailable
  | some codeHash => do
    let eventId ← uuid4
    match DomainEvent.create eventId "email_challenge_requested" "email_challenge" id 1 now
        [("challenge_id", .str (Unicode.ofString (uuidStr id)))] with
    | .error _ => throw .valueError
    | .ok event => do
      write (.addEvent event)
      record sv { kind := .anonymous } "auth.challenge_issued" "email_challenge" id .succeeded
        [("purpose", .str purpose.value), ("is_resend", .bool isResend)]
        (← correlation sv correlationId)
      storeChallenge sv { row with codeHash }
      return id

def issueChallenge (email : String) (purpose : ChallengePurpose)
    (correlationId : Option String) : Tx sv UUID := do
  if (keyBytes settings settings.activeChallengeKey).isNone then
    throw .emailVerificationUnavailable
  lockEmail sv email
  let previous ← query fun db =>
    db.challenges.rows.find? fun row => row.email = email && row.purpose = purpose.value
  let now ← utcNow
  match previous with
  | none => createChallenge sv settings email purpose now false correlationId
  | some previous => do
    if now - previous.createdAt < seconds settings.resendSeconds then uuid4
    else do
      deleteChallenge sv previous
      createChallenge sv settings email purpose now true correlationId

/-- The exits of `consume_challenge` that raise `InvalidChallengeError`. -/
def refuseChallenge {α : Type} (id : UUID) (purpose : ChallengePurpose)
    (correlationId : Option String) : Tx sv α := do
  record sv { kind := .anonymous } "auth.challenge_verification_failed" "email_challenge" id
    .denied [("purpose", .str purpose.value)] (← correlation sv correlationId)
  throw .invalidChallenge

/-- The part of `consume_challenge` that holds the row. -/
def checkChallenge (row : EmailChallenge) (code : String) (purpose : ChallengePurpose)
    (correlationId : Option String) : Tx sv EmailChallenge := do
  if row.purpose ≠ purpose.value || row.consumedAt.isSome then
    refuseChallenge sv row.id purpose correlationId
  else if row.expiresAt ≤ (← utcNow) || settings.challengeAttempts ≤ row.attempts then
    refuseChallenge sv row.id purpose correlationId
  else do
    write (.setAttempts row.id (row.attempts + 1))
    match codeDigest sv.hmac row code settings with
    | none => throw .emailVerificationUnavailable
    | some computed => do
      if row.codeHash ≠ computed then
        note (.wrongCode row.id)
        refuseChallenge sv row.id purpose correlationId
      else
        let consumedAt ← utcNow
        write (.setConsumed row.id consumedAt)
        return { row with attempts := row.attempts + 1, consumedAt := some consumedAt }

def consumeChallenge (id : UUID) (code : String) (purpose : ChallengePurpose)
    (correlationId : Option String) : Tx sv EmailChallenge := do
  match ← query (·.challenge id) with
  | none => pure ()
  | some candidate => lockEmail sv candidate.email
  match ← forUpdate (·.challenge id) (.challenge id) with
  | none => refuseChallenge sv id purpose correlationId
  | some row => checkChallenge sv settings row code purpose correlationId

/-- `consumeChallenge` after the advisory lock, which is not taken when there is no challenge. -/
def consumeLocked (id : UUID) (code : String) (purpose : ChallengePurpose)
    (correlationId : Option String) : Tx sv EmailChallenge := do
  match ← forUpdate (·.challenge id) (.challenge id) with
  | none => refuseChallenge sv id purpose correlationId
  | some row => checkChallenge sv settings row code purpose correlationId

end

end Ekumidayomi
