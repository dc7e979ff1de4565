import Ekumidayomi.Auth.Calls

/-!
# OIDC handshakes

`auth/oidc/attempts.py`, `auth/oidc/contracts.py` and the routes `begin` and `callback` of
`api/v1/auth_oidc.py`. A handshake starts with an attempt that `begin` puts into Redis under the
hash of a random state; `callback` takes it out again, and from there on is a transaction program
that ends in `finish` or in the record of a failed handshake. Texts that come with a callback are
whatever the browser sends. What the provider answers is an argument of the callback.
-/

namespace Ekumidayomi

open Transact

/-! ## Attempts -/

/-- `validate_actor_binding`. -/
def Attempt.Bound (attempt : Attempt) : Prop :=
  if attempt.intent = .login then attempt.actorId = none ∧ attempt.sessionId = none
  else attempt.actorId.isSome ∧ attempt.sessionId.isSome

instance (attempt : Attempt) : Decidable attempt.Bound := by
  unfold Attempt.Bound
  infer_instance

def Intent.value : Intent → String
  | .login => "login"
  | .link => "link"
  | .reauthenticate => "reauthenticate"

/-- The paths that `begin` may return to. -/
inductive ReturnPath
  | root | profile | shop
  deriving DecidableEq, Repr

/-- `Attempt` as the store keeps it. -/
structure StoredAttempt extends Attempt where
  attemptId : UUID
  browserHash : String
  nonce : String
  verifier : String
  redirectUri : String
  returnPath : ReturnPath := .profile
  startedAt : Int
  bound : toAttempt.Bound

/-- The settings that the routes read. -/
structure OidcSettings where
  enabled : ProviderName → Bool
  redirectUri : ProviderName → String
  attemptSeconds : Nat := 600
  attemptSeconds_range : 120 ≤ attemptSeconds ∧ attemptSeconds ≤ 900 := by decide

/-! ## The attempt store -/

/-- A key of Redis with its value and the instant when it expires. -/
structure RedisEntry where
  key : String
  value : StoredAttempt
  expiresAt : Time

abbrev Redis := List RedisEntry

def Redis.get (redis : Redis) (key : String) (now : Time) : Option StoredAttempt :=
  (redis.find? fun e => e.key = key && decide (now < e.expiresAt)).map (·.value)

/-- `SET key value EX ttl NX`; `none` when the key is there. -/
def Redis.setNx (redis : Redis) (key : String) (value : StoredAttempt) (ttl : Nat) (now : Time) :
    Option Redis :=
  if (redis.get key now).isSome then none
  else some ({ key, value, expiresAt := now + seconds ttl } :: redis.filter (·.key ≠ key))

/-- `GETDEL key`. -/
def Redis.getdel (redis : Redis) (key : String) (now : Time) : Option StoredAttempt × Redis :=
  (redis.get key now, redis.filter (·.key ≠ key))

/-- The errors of the store and of `begin`; `bindingError` is the `ValueError` of `Attempt`. -/
inductive HandshakeError
  | externalLoginFailed | identityUnavailable | bindingError
  deriving DecidableEq, Repr

section
variable (sv : Services)

def stateHash (value : String) : String := hexdigest (sv.sha256 (encode value))

/-- `AttemptStore.key`. -/
def AttemptStore.key (ns state : String) : String :=
  "ekumidayomi:" ++ ns ++ ":auth:v1:oidc:" ++ stateHash sv state

/-- `AttemptStore.create`, with the state that it draws. -/
def AttemptStore.create (ns : String) (ttl : Nat) (redis : Redis) (attempt : StoredAttempt)
    (state : String) (now : Time) : Except HandshakeError Redis :=
  match redis.setNx (AttemptStore.key sv ns state) attempt ttl now with
  | none => .error .identityUnavailable
  | some redis => .ok redis

/-- `20 <= len(value) <= 128`. -/
def boundedLength (value : String) : Bool :=
  20 ≤ value.toList.length && value.toList.length ≤ 128

/-- `AttemptStore.consume`: the attempt is gone whatever the checks say. -/
def AttemptStore.consume (ns : String) (redis : Redis) (state browser : String)
    (provider : ProviderName) (now : Time) : Except HandshakeError StoredAttempt × Redis :=
  if !boundedLength state || !boundedLength browser then (.error .externalLoginFailed, redis)
  else
    let (found, redis) := redis.getdel (AttemptStore.key sv ns state) now
    match found with
    | none => (.error .externalLoginFailed, redis)
    | some attempt =>
      if attempt.provider ≠ provider || attempt.browserHash ≠ stateHash sv browser then
        (.error .externalLoginFailed, redis)
      else (.ok attempt, redis)

/-! ## The start of a handshake -/

/-- The arguments of `begin`, and what it draws. -/
structure BeginRequest where
  provider : ProviderName
  intent : Intent
  actor : Option Actor := none
  returnPath : ReturnPath := .profile
  browser : String
  nonce : String
  verifier : String
  attemptId : UUID
  state : String

/-- The fields of the attempt that `finish` reads. -/
def BeginRequest.binding (r : BeginRequest) : Attempt :=
  { provider := r.provider, intent := r.intent, actorId := r.actor.map (·.userId)
    sessionId := r.actor.map (·.sessionId) }

/-- The attempt that `begin` builds, when it is bound. -/
def BeginRequest.attempt (oidc : OidcSettings) (r : BeginRequest) (now : Time) :
    Except HandshakeError StoredAttempt :=
  if h : r.binding.Bound then
    .ok { toAttempt := r.binding, attemptId := r.attemptId, browserHash := stateHash sv r.browser
          nonce := r.nonce, verifier := r.verifier, redirectUri := oidc.redirectUri r.provider
          returnPath := r.returnPath, startedAt := now / seconds 1, bound := h }
  else .error .bindingError

/-- `begin`, up to the redirect: the attempt that is in the store then. -/
def «begin» (ns : String) (oidc : OidcSettings) (redis : Redis) (r : BeginRequest) (now : Time) :
    Except HandshakeError (StoredAttempt × Redis) := do
  if !oidc.enabled r.provider then throw .externalLoginFailed
  let attempt ← r.attempt sv oidc now
  let redis ← AttemptStore.create sv ns oidc.attemptSeconds redis attempt r.state now
  return (attempt, redis)

/-! ## The end of a handshake -/

/-- What `exchange` comes to: an identity, one whose subject has a surrogate and cannot be encoded,
`ExternalLoginFailedError`, or an exception that `exchange` does not catch. -/
inductive Exchanged
  | identity (identity : Identity)
  | unencodable (provider : ProviderName)
  | failed
  | raised

/-- What a callback gets: its query, its cookies, the session that the cache names, and what the
exchange of its code comes to. -/
structure CallbackRequest where
  provider : ProviderName
  state : String
  browser : String
  secret : Option String := none
  hint : Option UUID := none
  code : Option String := none
  error : Option String := none
  exchange : Exchanged := .failed
  correlationId : String

variable (settings : AuthSettings) (oidc : OidcSettings)

/-- `record_failed_handshake`. -/
def recordFailedHandshake (attempt : StoredAttempt) (correlationId : String) : Tx sv Unit := do
  Prog.rollback (pure ())
  record sv { kind := .anonymous } "identity.external_login_failed" "external_login_attempt"
    attempt.attemptId .denied
    [("provider", .str attempt.provider.value), ("intent", .str attempt.intent.value)] correlationId
  commit

/-- The body of the `try` of `callback`. -/
def completeHandshake (attempt : StoredAttempt) (r : CallbackRequest) : Tx sv AuthResult := do
  if r.error.isSome || (r.code.getD "").isEmpty || !oidc.enabled r.provider then
    throw .externalLoginFailed
  let actor ←
    if attempt.intent = .login then pure none
    else do
      let actor ← resolve sv r.secret r.hint
      pure (some actor)
  match r.exchange with
  | .failed => throw .externalLoginFailed
  | .raised => throw .unexpected
  | .unencodable provider =>
    -- `finish` compares the providers before it encodes the subject
    if provider ≠ attempt.provider then throw .externalLoginFailed
    else throw .unicodeError
  | .identity identity => finish sv settings identity attempt.toAttempt actor r.correlationId

/-- `callback` with the attempt that it has consumed. -/
def callback (attempt : StoredAttempt) (r : CallbackRequest) : Tx sv AuthResult :=
  tryCatch (completeHandshake sv settings oidc attempt r) fun e => do
    if e = .authenticationRequired ∨ e = .externalLoginFailed then
      recordFailedHandshake sv attempt r.correlationId
      throw .externalLoginFailed
    else throw e

end

/-! ## The routes -/

/-- A thread of the application: a service, or a callback with its attempt. -/
inductive RouteCall
  | service (call : Call)
  | callback (attempt : StoredAttempt) (r : CallbackRequest)

/-- `finish` is called by `callback` only. -/
def Call.isFinish : Call → Bool
  | .finish _ _ _ _ => true
  | _ => false

/-- A handshake that was begun, with the attempt that went into the store. -/
structure Begun where
  request : BeginRequest
  attempt : StoredAttempt

namespace Oidc

variable (sv : Services) (settings : AuthSettings) (oidc : OidcSettings) (ns : String)

def code : RouteCall → Tx sv AuthResult
  | .service call => Auth.code sv settings call
  | .callback attempt r => Ekumidayomi.callback sv settings oidc attempt r

/-- The store, the handshakes begun so far, and the threads on the database. -/
structure World where
  redis : Redis := []
  begun : List Begun := []
  sys : Transact.Sys (schema sv) RouteCall Error AuthResult

inductive Act
  | begins (r : BeginRequest)
  | callback (r : CallbackRequest)
  | lose (key : String)
  | serve (call : Call)
  | thread (a : Transact.Act (schema sv) RouteCall)

/-- The callback has started as a thread. -/
def World.enter (w : World sv) (redis : Redis) (attempt : StoredAttempt) (r : CallbackRequest) :
    World sv :=
  { w with
    redis
    sys := { w.sys with
      threads := w.sys.threads ++
        [{ call := .callback attempt r
           status := .running (code sv settings oidc (.callback attempt r)) }] } }

/-- One step of the application. `GETDEL` and `SET NX` are atomic, and a drawn state is new; Redis
may lose a key at any time, also one whose answer was lost on the way. -/
inductive Step (w : World sv) : Act sv → World sv → Prop
  | begins {r : BeginRequest} {attempt : StoredAttempt} {redis : Redis} :
      (∀ b ∈ w.begun, b.request.state ≠ r.state) →
      «begin» sv ns oidc w.redis r w.sys.clock = .ok (attempt, redis) →
      Step w (.begins r) { w with redis, begun := w.begun ++ [⟨r, attempt⟩] }
  | refused {r : BeginRequest} {e : HandshakeError} :
      «begin» sv ns oidc w.redis r w.sys.clock = .error e → Step w (.begins r) w
  | callback {r : CallbackRequest} {attempt : StoredAttempt} {redis : Redis} :
      AttemptStore.consume sv ns w.redis r.state r.browser r.provider w.sys.clock =
        (.ok attempt, redis) →
      Step w (.callback r) (w.enter sv settings oidc redis attempt r)
  | rejected {r : CallbackRequest} {e : HandshakeError} {redis : Redis} :
      AttemptStore.consume sv ns w.redis r.state r.browser r.provider w.sys.clock =
        (.error e, redis) →
      Step w (.callback r) { w with redis }
  | lose {key : String} : Step w (.lose key) { w with redis := w.redis.filter (·.key ≠ key) }
  | serve {call : Call} {sys : Transact.Sys (schema sv) RouteCall Error AuthResult} :
      call.isFinish = false →
      Transact.Step (code sv settings oidc) w.sys (.start (.service call)) sys →
      Step w (.serve call) { w with sys }
  | thread {a : Transact.Act (schema sv) RouteCall}
      {sys : Transact.Sys (schema sv) RouteCall Error AuthResult} :
      (∀ call, a ≠ .start call) → Transact.Step (code sv settings oidc) w.sys a sys →
      Step w (.thread a) { w with sys }

end Oidc

end Ekumidayomi
