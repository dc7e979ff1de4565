import Ekumidayomi.Auth.Transactions
import Ekumidayomi.Lib.Interleaving

/-!
# The identity services

The calls of `auth/registration.py`, `auth/service.py`, `auth/bootstrap.py`,
`users/administration.py` and `auth/oidc/service.py`, each a transaction program over the
statements of `Auth.Transactions`, and the system in which any number of them run at once. A call
carries what reaches it from outside: its arguments, what the session cache and the breach checker
answer, and for a call by somebody the actor that `current_actor` has resolved. A service that only
authorizes its actor and reads is the call `authorize`.
-/

namespace Ekumidayomi

open Transact

/-- What a call returns. -/
inductive AuthResult
  | done
  | secret (text : String)
  | challenge (id : UUID)
  deriving DecidableEq, Repr

/-- The arguments of `complete_registration` and of `complete_reset`. -/
structure CompleteRequest where
  challengeId : UUID
  code : String
  password : String
  breached : Option Bool
  correlationId : Option String

structure LoginRequest where
  email : String
  password : String
  previousSecret : Option String := none
  hint : Option UUID := none

/-- The intents of an `Attempt`. -/
inductive Intent
  | login | link | reauthenticate
  deriving DecidableEq, Repr

/-- The fields of an `Attempt` that `finish` reads. -/
structure Attempt where
  provider : ProviderName
  intent : Intent
  actorId : Option UUID := none
  sessionId : Option UUID := none

/-- `Identity`, with a subject that can be encoded. The email is whatever the claims hold. That
PostgreSQL refuses a subject with U+0000 is a failure of the database, and left out. -/
structure Identity where
  provider : ProviderName
  subject : String
  email : Option Unicode.Text
  emailVerified : Bool
  authTime : Option Int := none

/-- The address that `finish` takes for a new customer: a verified email that `normalize_email`
accepts. It refuses one that cannot be encoded. -/
def Identity.address (sv : Services) (identity : Identity) : Option String :=
  (identity.email.filter fun e => e ≠ [] ∧ identity.emailVerified).bind fun e =>
    (Unicode.asString e).bind sv.normalizeEmail

/-- `identity.email[:320] if identity.email else None` as its column stores it; `none` when it cannot
be stored. -/
def Identity.emailSnapshot (identity : Identity) : Option (Option String) :=
  match identity.email.filter (· ≠ []) with
  | none => some none
  | some email => ((Unicode.asString (email.take 320)).bind (storedText 320)).map some

section
variable (sv : Services) (settings : AuthSettings)

/-! ## `auth/registration.py` -/

def beginRegistration (email : String) (correlationId : Option String) : Tx sv AuthResult := do
  let correlationId ← correlation sv correlationId
  record sv { kind := .anonymous } "auth.registration_requested" "registration_attempt" (← uuid4)
    .succeeded [] correlationId
  match sv.normalizeEmail email with
  | none => throw .invalidEmail
  | some email => do
    lockEmail sv email
    let challengeId ← match ← findUserByEmail sv email with
      | some _ => uuid4
      | none => issueChallenge sv settings email .registration (some correlationId)
    commit
    return .challenge challengeId

/-- `consume_challenge` as both callers use it: a refused challenge is committed before the error
goes on. -/
def consumeOrCommit (id : UUID) (code : String) (purpose : ChallengePurpose) :
    Tx sv EmailChallenge :=
  tryCatch (consumeChallenge sv settings id code purpose none) fun e => do
    if e = .invalidChallenge then commit
    throw e

def completeRegistration (r : CompleteRequest) : Tx sv AuthResult := do
  let correlationId ← correlation sv r.correlationId
  validateNewPassword sv r.breached r.password
  let challenge ← consumeOrCommit sv settings r.challengeId r.code .registration
  match ← findUserByEmail sv challenge.email with
  | some _ => throw .invalidChallenge
  | none => do
    let user ← createCustomer sv challenge.email
    let verifiedAt ← utcNow
    let hash ← hashPassword sv r.password
    record sv { kind := .anonymous } "auth.registration_completed" "user" user.id .succeeded []
      correlationId
    write (.setVerified user.id verifiedAt)
    write (.insertCredential { userId := user.id, passwordHash := hash })
    commit
    return .done

/-! ## `auth/service.py` -/

/-- A call that takes `AuthenticationRequiredError` for "nobody". -/
def resolveOrNone (secret : Option String) (hint : Option UUID) : Tx sv (Option Actor) :=
  tryCatch (do return some (← resolve sv secret hint)) fun e =>
    if e = .authenticationRequired then pure none else throw e

/-- The part of `login` after the credentials have been checked. -/
def startSession (r : LoginRequest) (user : User) (credential : PasswordCredential) :
    Tx sv AuthResult := do
  if sv.needsRehash credential.passwordHash then
    flushPassword sv user.id (← hashPassword sv r.password)
  let secret ← issue sv settings user
  if r.previousSecret.isSome then
    match ← resolveOrNone sv r.previousSecret r.hint with
    | none => pure ()
    | some previous => revoke sv previous.userId (some previous.sessionId)
  commit
  return .secret secret

/-- `startSession` after the password has been hashed again or not. -/
def issueSession (r : LoginRequest) (user : User) : Tx sv AuthResult := do
  let secret ← issue sv settings user
  if r.previousSecret.isSome then
    match ← resolveOrNone sv r.previousSecret r.hint with
    | none => pure ()
    | some previous => revoke sv previous.userId (some previous.sessionId)
  commit
  return .secret secret

def login (r : LoginRequest) : Tx sv AuthResult := do
  let found ← tryCatch (findUserByEmail sv r.email) fun e =>
    if e = .invalidEmail then pure none else throw e
  let user ← match found with
    | none => pure none
    | some user => findUserById sv user.id true
  match user with
  | none => throw .invalidCredentials
  | some user => do
    match ← query (·.credential user.id) with
    | none => throw .invalidCredentials
    | some credential => do
      if !verifyPassword sv (some credential.passwordHash) r.password then
        throw .invalidCredentials
      note (.verified user.id credential.passwordHash)
      if !user.isActive || user.emailVerifiedAt.isNone then throw .invalidCredentials
      startSession sv settings r user credential

def logout (secret : Option String) (hint : Option UUID) : Tx sv AuthResult := do
  match ← resolveOrNone sv secret hint with
  | none => return .done
  | some actor =>
    revoke sv actor.userId (some actor.sessionId)
    commit
    return .done

def logoutAll (actor : Actor) : Tx sv AuthResult := do
  match ← findUserById sv actor.userId true with
  | none => throw .authenticationRequired
  | some _ =>
    revoke sv actor.userId none
    commit
    return .done

def reauthenticate (actor : Actor) (password : String) : Tx sv AuthResult := do
  let user ← findUserById sv actor.userId true
  let credential ← query (·.credential actor.userId)
  let valid := verifyPassword sv (credential.map (·.passwordHash)) password
  let row ← query (·.session actor.sessionId)
  match user, row with
  | some user, some row => do
    if !valid || !user.isActive || row.revokedAt.isSome then throw .authenticationRequired
    if row.expiresAt ≤ (← utcNow) then throw .authenticationRequired
    let authenticatedAt ← utcNow
    flushRow (·.session row.id) (.session row.id) (.setAuthenticated row.id authenticatedAt)
    commit
    return .done
  | _, _ => throw .authenticationRequired

def beginReset (email : String) : Tx sv AuthResult := do
  let user ← findUserByEmail sv email
  let challengeId ← match user with
    | none => uuid4
    | some user => do
      if !user.isActive || user.emailVerifiedAt.isNone then uuid4
      else match ← query (·.credential user.id) with
        | none => uuid4
        | some _ => issueChallenge sv settings user.email .passwordReset none
  commit
  return .challenge challengeId

def completeReset (r : CompleteRequest) (correlationId : String) : Tx sv AuthResult := do
  validateNewPassword sv r.breached r.password
  let challenge ← consumeOrCommit sv settings r.challengeId r.code .passwordReset
  let user ← match ← findUserByEmail sv challenge.email with
    | none => pure none
    | some found => findUserById sv found.id true
  match user with
  | none => throw .authenticationRequired
  | some user => do
    if !user.isActive || user.emailVerifiedAt.isNone then throw .authenticationRequired
    match ← query (·.credential user.id) with
    | none => throw .authenticationRequired
    | some _ => do
      let hash ← hashPassword sv r.password
      revoke sv user.id none
      record sv { kind := .anonymous } "identity.password_reset" "user" user.id .succeeded []
        correlationId
      flushPassword sv user.id hash
      commit
      return .done

/-! ## `users/administration.py` and `auth/bootstrap.py` -/

/-- An active administrator with a verified address. -/
def User.isAdmin (user : User) : Bool :=
  user.role = Role.admin.value && user.isActive && user.emailVerifiedAt.isSome

def changeAccess (actor : Actor) (targetId : UUID) (role : Option Role) (isActive : Option Bool)
    (correlationId : String) : Tx sv AuthResult := do
  lockMembership sv
  let _ ← authorize sv actor .usersManage (some settings.recentAuthSeconds) true
  match ← findUserById sv targetId true with
  | none => throw .userNotFound
  | some target => do
    let newRole := (role.map Role.value).getD target.role
    let newActive := isActive.getD target.isActive
    if newRole = target.role ∧ newActive = target.isActive then return .done
    else do
      if target.isAdmin ∧ (newRole ≠ Role.admin.value ∨ !newActive) then
        let others ← query fun db => db.users.rows.countP fun u => u.isAdmin && u.id ≠ target.id
        if others = 0 then throw .lastActiveAdmin
      if newRole = Role.admin.value ∧ target.emailVerifiedAt.isNone then throw .unverifiedAdmin
      write (.setAccess target.id newRole newActive)
      revoke sv target.id none
      record sv { kind := .administrator, actorId := some actor.userId } "identity.access_changed"
        "user" target.id .succeeded
        [("old_role", .str target.role), ("new_role", .str newRole),
          ("old_active", .bool target.isActive), ("new_active", .bool newActive)] correlationId
      commit
      return .done

/-- `bootstrap` with the commit of `run`. -/
def bootstrap (email password : String) (breached : Option Bool) : Tx sv AuthResult := do
  lockMembership sv
  match ← findUserByEmail sv email with
  | some existing => do
    if !existing.isAdmin then throw .bootstrapConflict
    commit
    return .done
  | none => do
    if (← query fun db => db.users.rows.countP User.isAdmin) ≠ 0 then throw .bootstrapComplete
    validateNewPassword sv breached password
    let user ← createCustomer sv email
    let verifiedAt ← utcNow
    let hash ← hashPassword sv password
    record sv { kind := .system } "identity.admin_bootstrapped" "user" user.id .succeeded []
      "admin-bootstrap"
    write (.setAccess user.id Role.admin.value user.isActive)
    write (.setVerified user.id verifiedAt)
    write (.insertCredential { userId := user.id, passwordHash := hash })
    commit
    return .done

/-! ## `auth/oidc/service.py` -/

/-- `_actor_from_session`. -/
def actorFromSession (actor : Actor) : AuditActor :=
  { kind := if actor.role = .admin then .administrator else .customer
    actorId := some actor.userId }

/-- `_audit_actor`. -/
def auditActor (user : User) : Tx sv AuditActor :=
  match Role.ofValue user.role with
  | none => throw .externalLoginFailed
  | some role => pure { kind := if role = .admin then .administrator else .customer
                        actorId := some user.id }

/-- `ExternalIdentity(...)`, its audit record and the flush. -/
def insertIdentity (identity : Identity) (user : User) (correlationId : String) :
    Tx sv Unit := do
  let lastLoginAt ← utcNow
  let id ← uuid4
  record sv (← auditActor sv user) "identity.provider_linked" "user" user.id .succeeded
    [("provider", .str identity.provider.value)] correlationId
  match identity.emailSnapshot with
  | none => throw .dataError
  | some emailSnapshot => do
    let row : ExternalIdentity :=
      { id, userId := user.id, provider := identity.provider.value, subject := identity.subject
        emailSnapshot, emailVerified := identity.emailVerified, lastLoginAt }
    lock (.uniqueSubject row.provider row.subject)
    insertUnique (.uniqueProvider row.userId row.provider)
      (fun db => db.identities.rows.any fun x =>
        (x.provider = row.provider && x.subject = row.subject) ||
          (x.userId = row.userId && x.provider = row.provider))
      (.identity row.id) (.insertIdentity row)

/-- The end of a login by `finish`: a session that does not count as recent. -/
def finishSession (identity : Identity) (user : User) (correlationId : String) :
    Tx sv AuthResult := do
  let secret ← issue sv settings user
  match ← query fun db => db.sessions.rows.find? (·.secretHash = digest sv secret) with
  | none => throw .externalLoginFailed
  | some session => do
    let now ← utcNow
    record sv (← auditActor sv user) "identity.login_succeeded" "user" user.id .succeeded
      [("method", .str "oidc"), ("provider", .str identity.provider.value)] correlationId
    flushRow (·.session session.id) (.session session.id)
      (.setAuthenticated session.id (now - seconds (settings.recentAuthSeconds + 1)))
    commit
    return .secret secret

/-- `finish` of a login, by the owner of the identity or by a new customer. -/
def finishLogin (identity : Identity) (external : Option ExternalIdentity)
    (correlationId : String) : Tx sv AuthResult :=
  match external with
  | some external => do
    match ← findUserById sv external.userId true with
    | none => throw .externalLoginFailed
    | some user => do
      if !user.isActive || user.emailVerifiedAt.isNone then throw .externalLoginFailed
      let lastLoginAt ← utcNow
      flushRow (·.identity external.id) (.identity external.id)
        (.setLastLogin external.id lastLoginAt)
      finishSession sv settings identity user correlationId
  | none =>
    match identity.address sv with
    | none => throw .externalLoginFailed
    | some email => do
      lockEmail sv email
      match ← findUserByEmail sv email with
      | some _ => throw .externalLoginFailed
      | none => do
        let created ← createCustomer sv email
        let verifiedAt ← utcNow
        write (.setVerified created.id verifiedAt)
        let user : User := { created with emailVerifiedAt := some verifiedAt }
        insertIdentity sv identity user correlationId
        finishSession sv settings identity user correlationId

/-- `finish` of a link, by an actor who has authenticated recently. -/
def finishLink (identity : Identity) (external : Option ExternalIdentity) (actor : Actor)
    (correlationId : String) : Tx sv AuthResult := do
  let user ← authorize sv actor .profileWrite (some settings.recentAuthSeconds) true
  match external with
  | some external =>
    if external.userId = user.id then throw .providerAlreadyLinked
    else throw .externalLoginFailed
  | none => do
    let already ← query fun db => db.identities.rows.any fun x =>
      x.userId = user.id && x.provider = identity.provider.value
    if already then throw .providerAlreadyLinked
    insertIdentity sv identity user correlationId
    commit
    return .done

/-- `finish` of a reauthentication. -/
def finishReauthenticate (identity : Identity) (external : Option ExternalIdentity)
    (actor : Actor) (correlationId : String) : Tx sv AuthResult := do
  let user ← authorize sv actor .profileWrite none true
  match external with
  | none => throw .externalLoginFailed
  | some external => do
    if external.userId ≠ actor.userId || identity.authTime.isNone then throw .externalLoginFailed
    match ← query (·.session actor.sessionId) with
    | none => throw .externalLoginFailed
    | some session => do
      if session.revokedAt.isSome then throw .externalLoginFailed
      if session.expiresAt ≤ (← utcNow) then throw .externalLoginFailed
      let authenticatedAt ← utcNow
      let lastLoginAt ← utcNow
      record sv (actorFromSession actor) "identity.reauthentication_succeeded" "user" user.id
        .succeeded [("method", .str "oidc"), ("provider", .str identity.provider.value)]
        correlationId
      flushRow (·.session session.id) (.session session.id)
        (.setAuthenticated session.id authenticatedAt)
      flushRow (·.identity external.id) (.identity external.id)
        (.setLastLogin external.id lastLoginAt)
      commit
      return .done

def finish (identity : Identity) (attempt : Attempt) (actor : Option Actor)
    (correlationId : String) : Tx sv AuthResult := do
  if identity.provider ≠ attempt.provider then throw .externalLoginFailed
  lockEmail sv (externalText identity.provider.value identity.subject)
  let external ← query fun db => db.identities.rows.find? fun x =>
    x.provider = identity.provider.value && x.subject = identity.subject
  if attempt.intent = .login then finishLogin sv settings identity external correlationId
  else match actor with
    | none => throw .externalLoginFailed
    | some actor => do
      if some actor.userId ≠ attempt.actorId || some actor.sessionId ≠ attempt.sessionId then
        throw .externalLoginFailed
      if attempt.intent = .reauthenticate then
        finishReauthenticate sv identity external actor correlationId
      else finishLink sv settings identity external actor correlationId

/-- The identity that a user has at a provider. -/
def providerIdentity (userId : UUID) (provider : ProviderName) (db : Db) :
    Option ExternalIdentity :=
  db.identities.rows.find? fun x => x.userId = userId && x.provider = provider.value

def unlink (actor : Actor) (provider : ProviderName) (correlationId : String) :
    Tx sv AuthResult := do
  match ← query (providerIdentity actor.userId provider) with
  | none => throw .externalLoginFailed
  | some seen => do
    lockEmail sv (externalText seen.provider seen.subject)
    let _ ← authorize sv actor .profileWrite (some settings.recentAuthSeconds) true
    match ← query (providerIdentity actor.userId provider) with
    | none => throw .externalLoginFailed
    | some existing => do
      let count ← query fun db => db.identities.rows.countP (·.userId = actor.userId)
      let password ← query (·.credential actor.userId)
      if count ≤ 1 ∧ password.isNone then throw .finalLoginMethod
      record sv (actorFromSession actor) "identity.provider_unlinked" "user" actor.userId
        .succeeded [("provider", .str provider.value)] correlationId
      match ← forUpdate (·.identity existing.id) (.identity existing.id) with
      | none => pure ()
      | some _ =>
        lock (.uniqueSubject existing.provider existing.subject)
        lock (.uniqueProvider existing.userId existing.provider)
        write (.deleteIdentity existing)
      commit
      return .done

end

/-! ## The system -/

/-- A call, with what reaches it from outside. -/
inductive Call
  | beginRegistration (email : String) (correlationId : Option String)
  | completeRegistration (r : CompleteRequest)
  | login (r : LoginRequest)
  | logout (secret : Option String) (hint : Option UUID)
  | logoutAll (actor : Actor)
  | reauthenticate (actor : Actor) (password : String)
  | beginReset (email : String)
  | completeReset (r : CompleteRequest) (correlationId : String)
  | changeAccess (actor : Actor) (targetId : UUID) (role : Option Role) (isActive : Option Bool)
      (correlationId : String)
  | bootstrap (email password : String) (breached : Option Bool)
  | finish (identity : Identity) (attempt : Attempt) (actor : Option Actor)
      (correlationId : String)
  | unlink (actor : Actor) (provider : ProviderName) (correlationId : String)
  | authorize (actor : Actor) (permission : Permission) (recentSeconds : Option Nat)
      (locked : Bool)

namespace Auth

/-- The program of a call. -/
def code (sv : Services) (settings : AuthSettings) : Call → Tx sv AuthResult
  | .beginRegistration email correlationId => beginRegistration sv settings email correlationId
  | .completeRegistration r => completeRegistration sv settings r
  | .login r => login sv settings r
  | .logout secret hint => logout sv secret hint
  | .logoutAll actor => logoutAll sv actor
  | .reauthenticate actor password => reauthenticate sv actor password
  | .beginReset email => beginReset sv settings email
  | .completeReset r correlationId => completeReset sv settings r correlationId
  | .changeAccess actor targetId role isActive correlationId =>
    changeAccess sv settings actor targetId role isActive correlationId
  | .bootstrap email password breached => bootstrap sv email password breached
  | .finish identity attempt actor correlationId =>
    finish sv settings identity attempt actor correlationId
  | .unlink actor provider correlationId => unlink sv settings actor provider correlationId
  | .authorize actor permission recentSeconds locked => do
    let _ ← authorize sv actor permission recentSeconds locked
    return .done

/-- The identity services: any number of calls that run against one database. -/
abbrev Sys (sv : Services) := Transact.Sys (schema sv) Call Error AuthResult

abbrev Act (sv : Services) := Transact.Act (schema sv) Call

abbrev Step (sv : Services) (settings : AuthSettings) (s : Sys sv) (a : Act sv) (s' : Sys sv) :
    Prop :=
  Transact.Step (code sv settings) s a s'

abbrev Run (sv : Services) (settings : AuthSettings) (s : Sys sv) (tr : List (Act sv))
    (s' : Sys sv) : Prop :=
  Lts.Run (Transact.Step (code sv settings)) s tr s'

/-- The run passes through the state `m`. -/
abbrev Visits (sv : Services) (settings : AuthSettings) (s : Sys sv) (tr : List (Act sv))
    (s' m : Sys sv) : Prop :=
  Lts.Visits (Transact.Step (code sv settings)) s tr s' m

/-- The `i`th thread commits in the run, from `m` to `m'`. -/
abbrev CommitsIn (sv : Services) (settings : AuthSettings) (s : Sys sv) (tr : List (Act sv))
    (s' m : Sys sv) (i : Nat) (m' : Sys sv) : Prop :=
  Lts.Takes (Transact.Step (code sv settings)) s tr s' m (.commit i) m'

/-- A system before its first call. Every administrator is verified, and the identifiers in the
database were drawn before. -/
structure Initial {sv : Services} (s : Sys sv) : Prop where
  threads : s.threads = []
  admins : s.db.AdminsVerified
  drawn : ∀ id, s.db.Uses id → id ∈ s.drawn

end Auth

end Ekumidayomi
