import Ekumidayomi.Auth.Oidc
import Ekumidayomi.Lib.Dialogue
import Ekumidayomi.Lib.Form
import Ekumidayomi.Lib.Json

/-!
# OIDC providers

`auth/oidc/providers.py` and `auth/oidc/settings.py`. An adapter asks the clock and the provider
(`Ask`), which may answer whatever it likes, and what it answers decides where the adapter asks next:
the endpoints come from the document at the pinned issuer. JSON Web Tokens are a parameter (`Jose`).
The routes build an adapter for each request, so its cache is empty at first.
-/

namespace Ekumidayomi

open Unicode Python

/-! ## Settings -/

/-- `ISSUERS`. -/
def ProviderName.issuer : ProviderName → Text
  | .google => ofString "https://accounts.google.com"
  | .yahoo => ofString "https://api.login.yahoo.com"

/-- `_ALLOWED_HOSTS`. -/
def ProviderName.allowedHosts : ProviderName → List Text
  | .google => [ofString "accounts.google.com", ofString "oauth2.googleapis.com",
      ofString "www.googleapis.com"]
  | .yahoo => [ofString "api.login.yahoo.com"]

structure ProviderConfig where
  enabled : Bool := false
  clientId : String := ""
  clientSecret : String := ""
  redirectUri : String := ""
  pkceVerified : Bool := false

/-- `validate_enabled` accepts the settings. -/
def ProviderConfig.validateEnabled (names : Names) (config : ProviderConfig) : Bool :=
  !config.enabled ||
    match urlsplit names (ofString config.redirectUri) with
    | none => false
    | some uri => config.clientId ≠ "" && config.clientSecret ≠ "" && uri.scheme == ofString "https" &&
        (uri.hostname names).any (fun host => !host.isEmpty) && uri.query.isEmpty &&
        uri.fragment.isEmpty && (uri.username.getD []).isEmpty && (uri.password.getD []).isEmpty

/-- `yahoo_gate` accepts the settings of Yahoo. -/
def yahooGate (yahoo : ProviderConfig) : Bool := !yahoo.enabled || yahoo.pkceVerified

/-! ## What an adapter asks -/

/-- What an adapter asks: the clocks, a document, and the exchange of a code, with the user and the
password of its authorization. -/
inductive Ask
  | monotonic
  | time
  | get (url : Text)
  | post (url : Text) (auth : String × String) (data : List (String × String))
  deriving DecidableEq

/-- The exceptions on the way: those that the adapter takes for a failed login, the failed login,
and any other. A `UnicodeError` and a `JSONDecodeError` are `ValueError`s. -/
inductive OidcFault
  | httpError | joseError | valueError | keyError | typeError
  | externalLoginFailed
  | other
  deriving DecidableEq

/-- The exceptions of the `except` clauses. -/
def OidcFault.caught : OidcFault → Bool
  | .externalLoginFailed | .other => false
  | _ => true

/-- The status of a response and the parts of its body; it may break off after them. -/
structure HttpReply where
  status : Nat
  parts : List Bytes
  complete : Bool := true

def Ask.Reply : Ask → Type
  | .monotonic | .time => Time
  | .get _ | .post _ _ _ => Except OidcFault HttpReply

/-- A method of the adapter. -/
abbrev Adapter := Dialogue Ask Ask.Reply OidcFault

/-- `time.monotonic()`. -/
def monotonicTime : Adapter Time := .answer Ask.monotonic

/-- `time.time()`. -/
def currentTime : Adapter Time := .answer Ask.time

/-- `client.stream("GET", url)`. -/
def httpGet (url : Text) : Adapter (Except OidcFault HttpReply) := .answer (Ask.get url)

/-- `client.post(url, auth=auth, data=data)`. -/
def httpPost (url : Text) (auth : String × String) (data : List (String × String)) :
    Adapter (Except OidcFault HttpReply) :=
  .answer (Ask.post url auth data)

/-- `_DOCUMENT_LIMIT`. -/
def documentLimit : Nat := 262144

/-- `_TOKEN_RESPONSE_LIMIT`. -/
def tokenResponseLimit : Nat := 65536

/-- `_ID_TOKEN_LIMIT`. -/
def idTokenLimit : Nat := 32768

/-- The items of a dictionary of JSON. -/
abbrev Members (F : Type) := List (Python.Key F × Value F)

/-- What `JWTClaimsRegistry` is asked to check. -/
structure ClaimsRequest where
  leeway : Nat
  iss : Text
  aud : Text
  nonce : Text

/-- The claims in a token, and the comparison of a `float` with an instant. -/
structure Jose (F : Type) where
  /-- `jwt.decode` with the keys of a document, for RS256 alone. -/
  decode : Text → Members F → Except OidcFault (Members F)
  /-- `JWTClaimsRegistry(...).validate`, with the claims `exp`, `iat` and `sub` required. -/
  validate : ClaimsRequest → Members F → Time → Except OidcFault Unit
  exceeds : F → Time → Bool
  precedes : F → Time → Bool

/-- A character of the alphabet of `urlsafe_b64encode`. -/
def base64Char (n : Nat) : Char :=
  if n < 26 then .ofNat ('A'.toNat + n)
  else if n < 52 then .ofNat ('a'.toNat + (n - 26))
  else if n < 62 then .ofNat ('0'.toNat + (n - 52))
  else if n = 62 then '-' else '_'

/-- `base64.urlsafe_b64encode` without its padding. -/
def urlsafeBase64 : Bytes → List Char
  | a :: b :: c :: rest =>
    let n := (a.toNat * 0x100 + b.toNat) * 0x100 + c.toNat
    base64Char (n / 0x40000) :: base64Char (n / 0x1000 % 0x40) :: base64Char (n / 0x40 % 0x40) ::
      base64Char (n % 0x40) :: urlsafeBase64 rest
  | [a, b] =>
    let n := (a.toNat * 0x100 + b.toNat) * 4
    [base64Char (n / 0x1000), base64Char (n / 0x40 % 0x40), base64Char (n % 0x40)]
  | [a] =>
    let n := a.toNat * 0x10
    [base64Char (n / 0x40), base64Char (n % 0x40)]
  | [] => []

/-- `challenge`; the verifier is encoded as ASCII. -/
def challenge (sv : Services) (verifier : String) : Except OidcFault String :=
  if verifier.toList.all fun c => c.toNat < 0x80 then
    .ok (String.ofList (urlsafeBase64 (sv.sha256 (encode verifier))))
  else .error .valueError

/-! ## The adapter -/

/-- `OidcProvider`, without its cache and its lock. -/
structure OidcProvider where
  name : ProviderName
  config : ProviderConfig

/-- `self._cache`: for each address the document and the instant until which it is served. -/
abbrev Documents (F : Type) := List (Text × Time × Members F)

section
variable {F : Type} (floats : Floats F) (limits : Limits) (names : Names) (sv : Services)
  (jose : Jose F) (provider : OidcProvider)

/-- `document.get(name)`. -/
def field (document : Members F) (name : String) : Option (Value F) :=
  lookup floats document (.str (ofString name))

/-- The text of a value that is a `str`. -/
def Value.text : Value F → Option Text
  | .str s => some s
  | _ => none

/-- `OidcProvider.safe_url`. -/
def OidcProvider.safeUrl (value : Option (Value F)) : Except OidcFault Text :=
  match value.bind Value.text with
  | none => .error .valueError
  | some value =>
    match urlsplit names value with
    | none => .error .valueError
    | some url =>
      if url.scheme ≠ ofString "https" ∨
          !(url.hostname names).any provider.name.allowedHosts.contains ∨
          url.username.getD [] ≠ [] ∨ url.password.getD [] ≠ [] ∨ url.fragment ≠ [] ∨
          !(url.port = some none ∨ url.port = some (some 443)) then .error .valueError
      else .ok value

/-- The parts of a body up to the limit. -/
def readParts (limit : Nat) (complete : Bool) (body : Bytes) : List Bytes → Except OidcFault Bytes
  | [] => if complete then .ok body else .error .httpError
  | part :: parts =>
    if (body ++ part).length > limit then .error .valueError
    else readParts limit complete (body ++ part) parts

/-- `response.raise_for_status()`. -/
def raiseForStatus (reply : HttpReply) : Except OidcFault Unit :=
  if 200 ≤ reply.status ∧ reply.status < 300 then .ok () else .error .httpError

/-- `json.loads`, with what it raises. -/
def loadsJson (body : Bytes) : Except OidcFault (Value F) :=
  match loads floats limits body with
  | .ok value => .ok value
  | .error .recursionError => .error .other
  | .error _ => .error .valueError

/-- A key of a dictionary that is a `str`. -/
def isStrKey : Python.Key F → Bool
  | .str _ => true
  | _ => false

/-- The bounded document of a response. -/
def readDocument (reply : HttpReply) : Except OidcFault (Members F) := do
  raiseForStatus reply
  let body ← readParts documentLimit reply.complete [] reply.parts
  match ← loadsJson floats limits body with
  | .dict entries => if entries.all fun e => isStrKey e.1 then .ok entries else .error .valueError
  | _ => .error .valueError

/-- `OidcProvider.document`, with the cache before and after. -/
def OidcProvider.document (cache : Documents F) (url : Text) :
    Adapter (Members F × Documents F) := do
  let url ← .ofExcept (provider.safeUrl names (some (.str url : Value F)))
  let fetch : Adapter (Members F × Documents F) := do
    let reply ← httpGet url
    let document ← .ofExcept (reply.bind (readDocument floats limits))
    let now ← monotonicTime
    return (document, (url, now + seconds 300, document) :: cache.filter (·.1 ≠ url))
  match cache.lookup url with
  | none => fetch
  | some (expiry, document) =>
    let now ← monotonicTime
    if expiry > now then return (document, cache) else fetch

/-- The address of the document of a provider. -/
def OidcProvider.discoveryUrl : Text :=
  provider.name.issuer ++ ofString "/.well-known/openid-configuration"

/-- The methods of a document, and none where it names none. -/
def challengeMethods (metadata : Members F) : Option (List Text) :=
  match field floats metadata "code_challenge_methods_supported" with
  | none => some []
  | some (.list items) => items.mapM Value.text
  | some _ => none

/-- The checks of `metadata`. -/
def OidcProvider.checkMetadata (value : Members F) : Except OidcFault (Members F) :=
  if (field floats value "issuer").bind Value.text ≠ some provider.name.issuer then
    .error .valueError
  else match challengeMethods floats value with
    | none => .error .valueError
    | some supported =>
      if !supported.contains (ofString "S256") && !provider.config.pkceVerified then
        .error .valueError
      else .ok value

/-- `OidcProvider.metadata`. -/
def OidcProvider.metadata (cache : Documents F) : Adapter (Members F × Documents F) := do
  let (value, cache) ← provider.document floats limits names cache provider.discoveryUrl
  let value ← .ofExcept (provider.checkMetadata floats value)
  return (value, cache)

/-- The parameters of an authorization. -/
def OidcProvider.authorizationParams (state : String) (attempt : StoredAttempt)
    (codeChallenge : String) : List (String × String) :=
  [("client_id", provider.config.clientId), ("redirect_uri", attempt.redirectUri),
    ("response_type", "code"), ("scope", "openid email profile"), ("state", state),
    ("nonce", attempt.nonce), ("code_challenge_method", "S256"),
    ("code_challenge", codeChallenge)] ++
  if attempt.intent = .reauthenticate then [("max_age", "0")] else []

/-- The end of `authorization_url`. -/
def OidcProvider.authorizationAddress (metadata : Members F) (state : String)
    (attempt : StoredAttempt) : Except OidcFault Text := do
  let codeChallenge ← challenge sv attempt.verifier
  let endpoint ← provider.safeUrl names (field floats metadata "authorization_endpoint")
  match urlencode ((provider.authorizationParams state attempt codeChallenge).map fun p =>
      (ofString p.1, ofString p.2)) with
  | none => .error .valueError
  | some query => .ok (endpoint ++ ofChar '?' :: query)

/-- The `except` clause of both methods. -/
def failLogin {α : Type} (fault : OidcFault) : Adapter α :=
  if fault.caught then throw .externalLoginFailed else throw fault

/-- `OidcProvider.authorization_url`. -/
def OidcProvider.authorizationUrl (cache : Documents F) (state : String) (attempt : StoredAttempt) :
    Adapter Text :=
  tryCatch (do
    let (metadata, _) ← provider.metadata floats limits names cache
    .ofExcept (provider.authorizationAddress floats names sv metadata state attempt)) failLogin

/-- The token in the response of the token endpoint. -/
def readToken (reply : HttpReply) : Except OidcFault Text := do
  if !reply.complete then throw .httpError
  raiseForStatus reply
  if reply.parts.flatten.length > tokenResponseLimit then throw .valueError
  match ← loadsJson floats limits reply.parts.flatten with
  | .dict token =>
    match (field floats token "id_token").bind Value.text with
    | none => throw .valueError
    | some encoded => if encoded.length > idTokenLimit then throw .valueError else return encoded
  | _ => throw .valueError

/-- The form that is posted for a code. -/
def tokenForm (code : String) (attempt : StoredAttempt) : List (String × String) :=
  [("grant_type", "authorization_code"), ("code", code), ("redirect_uri", attempt.redirectUri),
    ("code_verifier", attempt.verifier)]

/-- The audiences of the claims: one text, or a list of texts. -/
def audiences (claims : Members F) : Except OidcFault (List Text ⊕ Text) :=
  match field floats claims "aud" with
  | none => .error .keyError
  | some (.str audience) => .ok (.inr audience)
  | some (.list items) => match items.mapM Value.text with
    | none => .error .valueError
    | some audiences => .ok (.inl audiences)
  | some _ => .error .valueError

/-- The check of the authorized party. -/
def OidcProvider.checkParty (claims : Members F) : Except OidcFault Unit := do
  let audiences ← audiences floats claims
  let several := match audiences with
    | .inl audiences => audiences.length > 1
    | .inr _ => false
  if (several || (field floats claims "azp").isSome) &&
      (field floats claims "azp").bind Value.text ≠ some (ofString provider.config.clientId) then
    throw .valueError

/-- `issued > time.time() + 30`. -/
def issuedAfter (issued : Int ⊕ F) (now : Time) : Bool :=
  match issued with
  | .inl n => now + seconds 30 < n * seconds 1
  | .inr x => jose.exceeds x (now + seconds 30)

/-- `issued < attempt.started_at - 60`. -/
def issuedBefore (issued : Int ⊕ F) (startedAt : Int) : Bool :=
  match issued with
  | .inl n => n < startedAt - 60
  | .inr x => jose.precedes x ((startedAt - 60) * seconds 1)

/-- The instant of issue, as a number that is no `bool`. -/
def issuedAt (claims : Members F) : Except OidcFault (Int ⊕ F) :=
  match field floats claims "iat" with
  | none => .error .keyError
  | some (.int n) => .ok (.inl n)
  | some (.float x) => .ok (.inr x)
  | some _ => .error .valueError

/-- The check of the instant of issue. -/
def checkIssued (claims : Members F) (attempt : StoredAttempt) : Adapter Unit := do
  let issued ← .ofExcept (issuedAt floats claims)
  let now ← currentTime
  if issuedAfter jose issued now || issuedBefore jose issued attempt.startedAt then
    throw .valueError

/-- `claims["sub"]`, a text of 1 to 255 characters. -/
def subjectOf (claims : Members F) : Except OidcFault Text :=
  match field floats claims "sub" with
  | none => .error .keyError
  | some (.str subject) =>
    if 1 ≤ subject.length ∧ subject.length ≤ 255 then .ok subject else .error .valueError
  | some _ => .error .valueError

/-- `auth_time`, where it is an `int` and no `bool`. -/
def authTime (claims : Members F) : Option Int :=
  match field floats claims "auth_time" with
  | some (.int n) => some n
  | _ => none

/-- The check of `auth_time` for a reauthentication. -/
def checkAuthTime (claims : Members F) (attempt : StoredAttempt) : Adapter Unit :=
  if attempt.intent = .reauthenticate then
    match authTime floats claims with
    | none => throw .valueError
    | some authTime => do
      if authTime < attempt.startedAt - 30 then throw .valueError
      let now ← currentTime
      if now + seconds 30 < authTime * seconds 1 then throw .valueError
  else return ()

/-- `claims.get("email_verified") is True`. -/
def emailVerified (claims : Members F) : Bool :=
  match field floats claims "email_verified" with
  | some (.bool verified) => verified
  | _ => false

/-- The `Identity` of the claims. A subject with a surrogate is an identity too, which `finish`
cannot encode; here it is the error that `finish` ends in. -/
def OidcProvider.identityOf (claims : Members F) (subject : Text) : Except OidcFault Identity :=
  match asString subject with
  | none => .error .other
  | some subject =>
    .ok { provider := provider.name, subject, email := (field floats claims "email").bind Value.text
          emailVerified := emailVerified floats claims, authTime := authTime floats claims }

/-- What `JWTClaimsRegistry` is asked for an attempt. -/
def OidcProvider.claimsRequest (attempt : StoredAttempt) : ClaimsRequest where
  leeway := 30
  iss := provider.name.issuer
  aud := ofString provider.config.clientId
  nonce := ofString attempt.nonce

/-- The identity in a token whose signature the keys verify. -/
def OidcProvider.identify (encoded : Text) (keys : Members F) (attempt : StoredAttempt) :
    Adapter Identity := do
  let claims ← .ofExcept (jose.decode encoded keys)
  let now ← currentTime
  .ofExcept (jose.validate (provider.claimsRequest attempt) claims now)
  .ofExcept (provider.checkParty floats claims)
  checkIssued floats jose claims attempt
  let subject ← .ofExcept (subjectOf floats claims)
  checkAuthTime floats claims attempt
  .ofExcept (provider.identityOf floats claims subject)

/-- `OidcProvider.exchange`. -/
def OidcProvider.exchange (cache : Documents F) (code : String) (attempt : StoredAttempt) :
    Adapter Identity :=
  tryCatch (do
    let (metadata, cache) ← provider.metadata floats limits names cache
    let endpoint ← .ofExcept (provider.safeUrl names (field floats metadata "token_endpoint"))
    let reply ← httpPost endpoint (provider.config.clientId, provider.config.clientSecret)
      (tokenForm code attempt)
    let encoded ← .ofExcept (reply.bind (readToken floats limits))
    let keysUrl ← .ofExcept (provider.safeUrl names (field floats metadata "jwks_uri"))
    let (keys, _) ← provider.document floats limits names cache keysUrl
    provider.identify floats jose encoded keys attempt) failLogin

end

end Ekumidayomi
