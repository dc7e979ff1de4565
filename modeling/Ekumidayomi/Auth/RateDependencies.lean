import Ekumidayomi.Auth.Schemas
import Ekumidayomi.Auth.Transactions
import Ekumidayomi.RateLimits

/-!
# Limits at the entry points of authentication

`identify_rate_limit` of `auth/rate_dependencies.py`, and the accounts that the endpoints under
`/auth` resolve a request to. The limiter reads the body of a request by its own rules, before
pydantic does: it charges the address of the client, and the identity that the body names or the
session cookie. Its calls of `enforce` are listed as they are when every one is admitted (`Charge`).
-/

namespace Ekumidayomi

open Unicode Python

/-! ## Requests -/

/-- What the limiter and the endpoints read of a request; `json` says that the content type is that
of JSON. -/
structure Request where
  method : String := "POST"
  path : String
  origin : Option String
  client : Option String
  cookies : Dict
  body : Bytes
  json : Bool := true

/-- What they read of the settings. -/
structure EntrySettings where
  apiPrefix : String := "/api/v1"
  appEnv : String
  secretKey : String
  secureCookies : Bool := false
  allowedOrigins : List String

/-- `cookie_name`. -/
def cookieName (settings : EntrySettings) : String :=
  if settings.secureCookies then "__Host-ekumidayomi_session" else "ekumidayomi_session"

/-- `request.cookies.get(cookie_name(settings), "")`. -/
def Request.cookie (r : Request) (settings : EntrySettings) : String :=
  (r.cookies.lookup (cookieName settings)).getD ""

/-- The methods that change nothing. -/
def isSafeMethod (method : String) : Bool := ["GET", "HEAD", "OPTIONS"].contains method

/-- `trusted_origin` lets the request through. -/
def trustedOrigin (settings : EntrySettings) (r : Request) : Bool :=
  r.origin.any settings.allowedOrigins.contains

/-- `str.removeprefix`. -/
def removePrefix (start s : String) : String :=
  if start.toList.isPrefixOf s.toList then String.ofList (s.toList.drop start.toList.length) else s

/-- `path.strip("/").replace("/", "-")`. -/
def operationOf (path : String) : String :=
  String.ofList ((strip (· = '/') path.toList).map fun c => if c = '/' then '-' else c)

/-! ## The limiter -/

/-- `_LIMITS`: requests by address, requests by account, and the window. -/
def entryLimits : List (String × Nat × Nat × Nat) :=
  [("/auth/login", 30, 10, 300), ("/auth/register", 20, 3, 600),
    ("/auth/register/resend", 20, 3, 600), ("/auth/register/verify", 30, 5, 600),
    ("/auth/password-reset/request", 20, 3, 600), ("/auth/password-reset/confirm", 30, 5, 600),
    ("/auth/reauthenticate", 2, 5, 300)]

def isOidcPath (path : String) : Bool := "/auth/oidc/".toList.isPrefixOf path.toList

/-- The rule of a path. -/
def ruleOf (path : String) : Option (Nat × Nat × Nat) :=
  if isOidcPath path then some (30, 10, 300) else entryLimits.lookup path

/-- A call of `enforce`. -/
structure Charge where
  operation : String
  identity : String
  limit : Nat
  windowSeconds : Nat
  deriving DecidableEq

/-- What the limiter raises beside `enforce`. -/
inductive EntryError
  | untrustedOrigin | requestTooLarge | recursionError | unicodeEncodeError
  deriving DecidableEq

section
variable {F : Type} (floats : Floats F) (limits : Limits) (sv : Services) (casefold : Text → Text)
  (settings : EntrySettings)

/-- The members of a body. What is no JSON, or no object, has none. -/
def bodyFields (body : Bytes) : Except EntryError (List (Python.Key F × Value F)) :=
  if body.length > 16384 then .error .requestTooLarge
  else if body.isEmpty then .ok []
  else match loads floats limits body with
    | .ok (.dict entries) => .ok entries
    | .error .recursionError => .error .recursionError
    | _ => .ok []

/-- The identity of an address. One with surrogates is not valid. -/
def emailIdentity (email : Text) : Text :=
  match (asString email).bind sv.normalizeEmail with
  | some address => ofString address
  | none => (casefold (stripText email)).take 320

/-- The identity that a body names, which may be empty. -/
def fieldsIdentity (fields : List (Python.Key F × Value F)) : Text :=
  let identity := match lookup floats fields (.str (ofString "email")) with
    | some (.str email) => emailIdentity sv casefold email
    | _ => []
  if identity.isEmpty then
    match lookup floats fields (.str (ofString "challenge_id")) with
    | some (.str challengeId) => challengeId.take 64
    | _ => []
  else identity

/-- The identity of the account. -/
def accountIdentity (path : String) (r : Request) (fields : List (Python.Key F × Value F)) : Text :=
  let identity := fieldsIdentity floats sv casefold fields
  let identity :=
    if identity.isEmpty && path = "/auth/reauthenticate" then ofString (r.cookie settings)
    else identity
  if identity.isEmpty && !isSafeMethod r.method && isOidcPath path &&
      !"/start".toList.isSuffixOf path.toList then ofString (r.cookie settings)
  else identity

/-- The charge of an account, after others; a surrogate has no bytes for the key of an identity. -/
def chargeAccount (charges : List Charge) (operation : String) (limit window : Nat)
    (identity : Text) : List Charge × Except EntryError Unit :=
  if identity.isEmpty then (charges, .ok ())
  else match asString identity with
    | none => (charges, .error .unicodeEncodeError)
    | some identity => (charges ++ [{ operation, identity, limit, windowSeconds := window }], .ok ())

/-- `identify_rate_limit`: its calls of `enforce`, and how it ends. -/
def identifyRateLimit (r : Request) : List Charge × Except EntryError Unit :=
  if !isSafeMethod r.method && !trustedOrigin settings r then ([], .error .untrustedOrigin)
  else
    let path := removePrefix settings.apiPrefix r.path
    match ruleOf path with
    | none => ([], .ok ())
    | some (ipLimit, accountLimit, window) =>
      let ip : Charge :=
        { operation := operationOf path ++ "-ip", identity := r.client.getD "unknown"
          limit := ipLimit, windowSeconds := window }
      match if r.method = "POST" then bodyFields floats limits r.body else .ok [] with
      | .error e => ([ip], .error e)
      | .ok fields =>
        chargeAccount [ip] (operationOf path ++ "-account") accountLimit window
          (accountIdentity floats sv casefold settings path r fields)

end

/-! ## The endpoints -/

/-- The endpoints of an account. -/
inductive Endpoint
  | login | register | resend | verify | resetRequest | resetConfirm | reauthenticate
  | oidcLink (provider : ProviderName) | oidcReauthenticate (provider : ProviderName)
  deriving DecidableEq

def Endpoint.path : Endpoint → String
  | .login => "/auth/login"
  | .register => "/auth/register"
  | .resend => "/auth/register/resend"
  | .verify => "/auth/register/verify"
  | .resetRequest => "/auth/password-reset/request"
  | .resetConfirm => "/auth/password-reset/confirm"
  | .reauthenticate => "/auth/reauthenticate"
  | .oidcLink provider => "/auth/oidc/" ++ provider.value ++ "/link"
  | .oidcReauthenticate provider => "/auth/oidc/" ++ provider.value ++ "/reauthenticate"

/-- What an endpoint acts on: an address, a challenge or the session of a cookie. -/
inductive Account
  | email (address : String)
  | challenge (id : UUID)
  | session (secret : String)
  deriving DecidableEq

section
variable {F : Type} (floats : Floats F) (limits : Limits) (sv : Services)
  (parse : String → Option UUID) (settings : EntrySettings)

/-- The body as FastAPI reads it for a model. -/
def bodyJson (r : Request) : Option (Value F) :=
  if r.json && !r.body.isEmpty then (loads floats limits r.body).toOption else none

/-- The session that `current_actor` looks for. -/
def sessionAccount (r : Request) : Option Account :=
  if isToken (r.cookie settings) then some (.session (r.cookie settings)) else none

/-- The account that an endpoint resolves a request to. -/
def Endpoint.account (r : Request) : Endpoint → Option Account
  | .login => do
    let body ← LoginInput.validate floats (← bodyJson floats limits r)
    return .email (← sv.normalizeEmail body.email)
  | .register | .resend | .resetRequest => do
    let body ← EmailInput.validate floats (← bodyJson floats limits r)
    return .email (← sv.normalizeEmail body.email)
  | .verify | .resetConfirm => do
    let body ← VerifyInput.validate floats parse (← bodyJson floats limits r)
    return .challenge body.challengeId
  | .reauthenticate => do
    let _ ← PasswordInput.validate floats (← bodyJson floats limits r)
    sessionAccount settings r
  | .oidcLink _ | .oidcReauthenticate _ => sessionAccount settings r

end

/-! ## What is charged -/

section
variable {F : Type} {floats : Floats F} {limits : Limits} {sv : Services} {casefold : Text → Text}
  {parse : String → Option UUID} {privateIdentifier : String → String → String}
  {settings : EntrySettings} {r : Request} {e : Endpoint} {a : Account}

/-- The key of an account on a path. -/
def accountKey (privateIdentifier : String → String → String) (settings : EntrySettings)
    (path identity : String) : String :=
  rateLimitKey privateIdentifier settings.appEnv "auth" (operationOf path ++ "-account") identity
    settings.secretKey

/-- The identities that the limiter charges as accounts. -/
def chargedIdentities (floats : Floats F) (limits : Limits) (sv : Services) (casefold : Text → Text)
    (settings : EntrySettings) (r : Request) : Set String :=
  { identity | ∃ charge ∈ (identifyRateLimit floats limits sv casefold settings r).1,
    charge.operation = operationOf (removePrefix settings.apiPrefix r.path) ++ "-account" ∧
    charge.identity = identity }

/-- The account keys that the limiter charges. -/
def accountKeys (floats : Floats F) (limits : Limits) (sv : Services) (casefold : Text → Text)
    (privateIdentifier : String → String → String) (settings : EntrySettings) (r : Request) :
    Set String :=
  accountKey privateIdentifier settings (removePrefix settings.apiPrefix r.path) ''
    chargedIdentities floats limits sv casefold settings r

/-- A request that arrives at an endpoint, which resolves it to an account. -/
structure Arrives (floats : Floats F) (limits : Limits) (sv : Services) (casefold : Text → Text)
    (parse : String → Option UUID) (settings : EntrySettings) (e : Endpoint) (r : Request)
    (a : Account) : Prop where
  method : r.method = "POST"
  path : r.path = settings.apiPrefix ++ e.path
  passed : (identifyRateLimit floats limits sv casefold settings r).2 = .ok ()
  account : e.account floats limits sv parse settings r = some a

theorem removePrefix_append (start s : String) : removePrefix start (start ++ s) = s := by
  have hprefix : start.toList.isPrefixOf (start ++ s).toList = true := by
    rw [String.toList_append]
    exact List.isPrefixOf_iff_prefix.2 (List.prefix_append _ _)
  rw [removePrefix, if_pos hprefix, String.toList_append, List.drop_left, String.ofList_toList]

/-- Every endpoint has a rule. -/
theorem Endpoint.ruleOf_isSome (e : Endpoint) : ∃ rule, ruleOf e.path = some rule := by
  cases e with
  | oidcLink provider | oidcReauthenticate provider => cases provider <;> exact ⟨_, rfl⟩
  | _ => exact ⟨_, rfl⟩

theorem append_cancel {start s t : String} (h : start ++ s = start ++ t) : s = t := by
  have hchars := congrArg String.toList h
  rw [String.toList_append, String.toList_append] at hchars
  exact String.toList_inj.1 (List.append_cancel_left hchars)

theorem operation_ne (path : String) :
    operationOf path ++ "-ip" ≠ operationOf path ++ "-account" := by
  intro h
  exact absurd (append_cancel h) (by decide)

theorem chargeAccount_passed {charges : List Charge} {operation : String} {limit window : Nat}
    {identity : Text} (hpassed : (chargeAccount charges operation limit window identity).2 = .ok ())
    (hne : identity ≠ []) : ∃ s, identity = ofString s ∧
      (chargeAccount charges operation limit window identity).1 =
        charges ++ [⟨operation, s, limit, window⟩] := by
  have hempty : identity.isEmpty = false := by simpa using hne
  unfold chargeAccount at hpassed ⊢
  rw [hempty] at hpassed ⊢
  cases hstring : asString identity with
  | none =>
    rw [hstring] at hpassed
    cases hpassed
  | some s => exact ⟨s, asString_some hstring, rfl⟩

theorem Arrives.removePrefix_path (h : Arrives floats limits sv casefold parse settings e r a) :
    removePrefix settings.apiPrefix r.path = e.path := by
  rw [h.path, removePrefix_append]

/-- The members that the limiter reads, and the one identity that it charges unless it is empty. -/
theorem Arrives.charged (h : Arrives floats limits sv casefold parse settings e r a) :
    ∃ fields, bodyFields floats limits r.body = .ok fields ∧
      (accountIdentity floats sv casefold settings e.path r fields ≠ [] →
        ∃ identity, accountIdentity floats sv casefold settings e.path r fields =
          ofString identity ∧
          chargedIdentities floats limits sv casefold settings r = {identity}) := by
  have hpath := h.removePrefix_path
  obtain ⟨⟨ipLimit, accountLimit, window⟩, hrule⟩ := e.ruleOf_isSome
  have hpassed := h.passed
  have htrusted : ¬ (!isSafeMethod r.method && !trustedOrigin settings r) = true := by
    intro hno
    rw [identifyRateLimit, if_pos hno] at hpassed
    cases hpassed
  have hcharges : identifyRateLimit floats limits sv casefold settings r =
      match bodyFields floats limits r.body with
      | .error error => ([⟨operationOf e.path ++ "-ip", r.client.getD "unknown", ipLimit, window⟩],
          .error error)
      | .ok fields =>
        chargeAccount [⟨operationOf e.path ++ "-ip", r.client.getD "unknown", ipLimit, window⟩]
          (operationOf e.path ++ "-account") accountLimit window
          (accountIdentity floats sv casefold settings e.path r fields) := by
    rw [identifyRateLimit, if_neg htrusted, hpath]
    dsimp only
    rw [hrule, if_pos h.method]
  rw [hcharges] at hpassed
  cases hfields : bodyFields floats limits r.body with
  | error error =>
    rw [hfields] at hpassed
    cases hpassed
  | ok fields =>
    rw [hfields] at hpassed hcharges
    refine ⟨fields, rfl, fun hne => ?_⟩
    obtain ⟨identity, hidentity, hcharged⟩ := chargeAccount_passed hpassed hne
    refine ⟨identity, hidentity, Set.ext fun other => ?_⟩
    rw [chargedIdentities, Set.mem_ofPred_eq, hcharges, hcharged, hpath]
    constructor
    · rintro ⟨charge, hmem, hoperation, rfl⟩
      rcases List.mem_append.1 hmem with hmem | hmem <;> obtain rfl := List.mem_singleton.1 hmem
      · exact absurd hoperation (operation_ne _)
      · rfl
    · rintro rfl
      exact ⟨_, List.mem_append_right _ (List.mem_singleton_self _), rfl, rfl⟩

/-! ## Identities -/

variable {fields entries : List (Python.Key F × Value F)}

/-- The limiter reads the members that pydantic reads. -/
theorem bodyFields_of_json (hjson : bodyJson floats limits r = some (.dict entries))
    (hfields : bodyFields floats limits r.body = .ok fields) : fields = entries := by
  unfold bodyJson at hjson
  split at hjson
  case isFalse => cases hjson
  case isTrue hread =>
    simp only [Bool.and_eq_true, Bool.not_eq_eq_eq_not, Bool.not_true] at hread
    cases hloads : loads floats limits r.body with
    | error error =>
      rw [hloads] at hjson
      cases hjson
    | ok data =>
      rw [hloads] at hjson
      obtain rfl := Option.some.inj hjson
      unfold bodyFields at hfields
      split at hfields
      · cases hfields
      · rw [hread.2, hloads] at hfields
        exact (Except.ok.inj hfields).symm

/-- An identity that a body names is the one that counts. -/
theorem accountIdentity_of_named {path : String}
    (h : fieldsIdentity floats sv casefold fields ≠ []) :
    accountIdentity floats sv casefold settings path r fields =
      fieldsIdentity floats sv casefold fields := by
  have hempty : (fieldsIdentity floats sv casefold fields).isEmpty = false := by simpa using h
  simp [accountIdentity, hempty]

theorem fieldsIdentity_email {t : Text} {address : String}
    (hlookup : lookup floats fields (.str (ofString "email")) = some (.str t))
    (haddress : (asString t).bind sv.normalizeEmail = some address) (hne : address ≠ "") :
    fieldsIdentity floats sv casefold fields = ofString address := by
  have hempty : (ofString address).isEmpty = false := by
    simpa [ofString] using hne
  rw [fieldsIdentity, hlookup]
  simp only [emailIdentity, haddress, hempty]
  rfl

theorem fieldsIdentity_challenge {t : Text}
    (hemail : lookup floats fields (.str (ofString "email")) = none)
    (hlookup : lookup floats fields (.str (ofString "challenge_id")) = some (.str t)) :
    fieldsIdentity floats sv casefold fields = t.take 64 := by
  rw [fieldsIdentity, hemail, hlookup]
  rfl

/-- The text of the challenge in a body. -/
def challengeText (floats : Floats F) (limits : Limits) (body : Bytes) : Option Text :=
  match bodyFields floats limits body with
  | .ok fields =>
    match lookup floats fields (.str (ofString "challenge_id")) with
    | some (.str t) => some t
    | _ => none
  | .error _ => none

/-- The identity that a body names: its address, or else its challenge. -/
def bodyIdentity (floats : Floats F) (limits : Limits) (sv : Services) (casefold : Text → Text)
    (body : Bytes) : Text :=
  match bodyFields floats limits body with
  | .ok fields => fieldsIdentity floats sv casefold fields
  | .error _ => []

/-- What the limiter takes for the identity of an account. -/
def Account.IsIdentity (floats : Floats F) (limits : Limits) (sv : Services)
    (casefold : Text → Text) (r : Request) (identity : Text) : Account → Prop
  | .email address => identity = ofString address
  | .challenge _ => ∃ t, challengeText floats limits r.body = some t ∧ identity = t.take 64
  | .session secret =>
    identity = if (bodyIdentity floats limits sv casefold r.body).isEmpty then ofString secret
      else bodyIdentity floats limits sv casefold r.body

theorem email_identity {path : String} {t : Text} {address : String}
    (hlookup : lookup floats fields (.str (ofString "email")) = some (.str t))
    (haddress : (asString t).bind sv.normalizeEmail = some address) (hne : address ≠ "") :
    accountIdentity floats sv casefold settings path r fields ≠ [] ∧
      Account.IsIdentity floats limits sv casefold r
        (accountIdentity floats sv casefold settings path r fields) (.email address) := by
  have hnamed : fieldsIdentity floats sv casefold fields = ofString address :=
    fieldsIdentity_email hlookup haddress hne
  have htext : ofString address ≠ [] := by simpa [ofString] using hne
  rw [accountIdentity_of_named (hnamed ▸ htext), hnamed]
  exact ⟨htext, rfl⟩

theorem challenge_identity {path : String} {t : Text} {id : UUID}
    (hfields : bodyFields floats limits r.body = .ok fields)
    (hemail : lookup floats fields (.str (ofString "email")) = none)
    (hlookup : lookup floats fields (.str (ofString "challenge_id")) = some (.str t))
    (hne : t ≠ []) :
    accountIdentity floats sv casefold settings path r fields ≠ [] ∧
      Account.IsIdentity floats limits sv casefold r
        (accountIdentity floats sv casefold settings path r fields) (.challenge id) := by
  have hnamed : fieldsIdentity floats sv casefold fields = t.take 64 :=
    fieldsIdentity_challenge hemail hlookup
  have htext : t.take 64 ≠ [] := by
    cases t with
    | nil => exact absurd rfl hne
    | cons c t => simp
  have hchallenge : challengeText floats limits r.body = some t := by
    rw [challengeText, hfields]
    simp only [hlookup]
  rw [accountIdentity_of_named (hnamed ▸ htext), hnamed]
  exact ⟨htext, t, hchallenge, rfl⟩

/-- A session has a cookie of 43 characters. -/
theorem sessionAccount_some (h : sessionAccount settings r = some a) :
    a = .session (r.cookie settings) ∧ ofString (r.cookie settings) ≠ [] := by
  unfold sessionAccount at h
  split at h
  case isFalse => cases h
  case isTrue htoken =>
    refine ⟨(Option.some.inj h).symm, fun hempty => ?_⟩
    have hlength : (r.cookie settings).toList = [] := List.map_eq_nil_iff.1 hempty
    rw [isToken, hlength] at htoken
    cases htoken

theorem session_identity {path : String} (hmethod : r.method = "POST")
    (hpath : path = "/auth/reauthenticate" ∨
      isOidcPath path = true ∧ "/start".toList.isSuffixOf path.toList = false)
    (hfields : bodyFields floats limits r.body = .ok fields)
    (haccount : sessionAccount settings r = some a) :
    accountIdentity floats sv casefold settings path r fields ≠ [] ∧
      a.IsIdentity floats limits sv casefold r
        (accountIdentity floats sv casefold settings path r fields) := by
  obtain ⟨rfl, hne⟩ := sessionAccount_some haccount
  have hbody : bodyIdentity floats limits sv casefold r.body =
      fieldsIdentity floats sv casefold fields := by
    rw [bodyIdentity, hfields]
  rw [Account.IsIdentity, hbody]
  by_cases hnamed : fieldsIdentity floats sv casefold fields = []
  · have hcookie : accountIdentity floats sv casefold settings path r fields =
        ofString (r.cookie settings) := by
      have hsafe : isSafeMethod r.method = false := by
        rw [hmethod]
        rfl
      rcases hpath with rfl | ⟨hoidc, hstart⟩
      · simp [accountIdentity, hnamed]
      · by_cases hpath : path = "/auth/reauthenticate"
        · simp [accountIdentity, hnamed, hpath]
        · simp only [accountIdentity, hnamed, hpath, hsafe, hoidc, hstart]
          rfl
    rw [hcookie, hnamed]
    exact ⟨hne, rfl⟩
  · have hempty : (fieldsIdentity floats sv casefold fields).isEmpty = false := by
      simpa using hnamed
    rw [accountIdentity_of_named hnamed, hempty]
    exact ⟨hnamed, rfl⟩

/-- The limiter charges one identity for a request that arrives. -/
theorem Arrives.identity (h : Arrives floats limits sv casefold parse settings e r a)
    (hnonempty : ∀ s address, sv.normalizeEmail s = some address → address ≠ "")
    (hparse : parse "" = none) : ∃ identity,
      chargedIdentities floats limits sv casefold settings r = {identity} ∧
        a.IsIdentity floats limits sv casefold r (ofString identity) := by
  obtain ⟨fields, hfields, hcharged⟩ := h.charged
  have haccount := h.account
  suffices hidentity : accountIdentity floats sv casefold settings e.path r fields ≠ [] ∧
      a.IsIdentity floats limits sv casefold r
        (accountIdentity floats sv casefold settings e.path r fields) by
    obtain ⟨identity, htext, hset⟩ := hcharged hidentity.1
    exact ⟨identity, hset, htext ▸ hidentity.2⟩
  cases e with
  | login =>
    obtain ⟨data, hjson, hbody⟩ := Option.bind_eq_some_iff.1 haccount
    obtain ⟨body, hvalid, haddress⟩ := Option.bind_eq_some_iff.1 hbody
    obtain ⟨address, hnormal, heq⟩ := Option.bind_eq_some_iff.1 haddress
    obtain rfl := Option.some.inj heq
    obtain ⟨entries, t, rfl, hlookup, ht⟩ := LoginInput.validate_some hvalid
    obtain rfl := bodyFields_of_json hjson hfields
    exact email_identity hlookup (by rw [ht]; exact hnormal) (hnonempty _ _ hnormal)
  | register | resend | resetRequest =>
    obtain ⟨data, hjson, hbody⟩ := Option.bind_eq_some_iff.1 haccount
    obtain ⟨body, hvalid, haddress⟩ := Option.bind_eq_some_iff.1 hbody
    obtain ⟨address, hnormal, heq⟩ := Option.bind_eq_some_iff.1 haddress
    obtain rfl := Option.some.inj heq
    obtain ⟨entries, t, rfl, hlookup, ht⟩ := EmailInput.validate_some hvalid
    obtain rfl := bodyFields_of_json hjson hfields
    exact email_identity hlookup (by rw [ht]; exact hnormal) (hnonempty _ _ hnormal)
  | verify | resetConfirm =>
    obtain ⟨data, hjson, hbody⟩ := Option.bind_eq_some_iff.1 haccount
    obtain ⟨body, hvalid, heq⟩ := Option.bind_eq_some_iff.1 hbody
    obtain rfl := Option.some.inj heq
    obtain ⟨entries, t, rfl, hemail, hlookup, hid⟩ := VerifyInput.validate_some hvalid
    obtain rfl := bodyFields_of_json hjson hfields
    refine challenge_identity hfields hemail hlookup ?_
    rintro rfl
    rw [show asString [] = some "" from rfl, Option.bind_some, hparse] at hid
    cases hid
  | reauthenticate =>
    obtain ⟨data, -, hbody⟩ := Option.bind_eq_some_iff.1 haccount
    obtain ⟨body, -, hsession⟩ := Option.bind_eq_some_iff.1 hbody
    exact session_identity h.method (.inl rfl) hfields hsession
  | oidcLink provider | oidcReauthenticate provider =>
    refine session_identity h.method (.inr ?_) hfields haccount
    cases provider <;> exact ⟨rfl, rfl⟩

/-! ## One account, one key -/

/-- Two requests of one account spell it alike: the texts of a challenge agree as far as they are
read, and what the bodies name beside a session is the same, or nothing but its cookie. -/
def Account.SameSpelling (floats : Floats F) (limits : Limits) (sv : Services)
    (casefold : Text → Text) (r₁ r₂ : Request) : Account → Prop
  | .email _ => True
  | .challenge _ => (challengeText floats limits r₁.body).map (·.take 64) =
      (challengeText floats limits r₂.body).map (·.take 64)
  | .session secret =>
    bodyIdentity floats limits sv casefold r₁.body =
      bodyIdentity floats limits sv casefold r₂.body ∨
      ∀ r ∈ [r₁, r₂], bodyIdentity floats limits sv casefold r.body = [] ∨
        bodyIdentity floats limits sv casefold r.body = ofString secret

/-- The identities of two requests of one account agree exactly when they spell it alike. -/
theorem Account.identity_eq_iff {r₁ r₂ : Request} {i₁ i₂ : Text}
    (h₁ : a.IsIdentity floats limits sv casefold r₁ i₁)
    (h₂ : a.IsIdentity floats limits sv casefold r₂ i₂) :
    i₁ = i₂ ↔ a.SameSpelling floats limits sv casefold r₁ r₂ := by
  cases a with
  | email address => exact iff_of_true (h₁.trans h₂.symm) trivial
  | challenge id =>
    obtain ⟨t₁, ht₁, rfl⟩ := h₁
    obtain ⟨t₂, ht₂, rfl⟩ := h₂
    rw [SameSpelling, ht₁, ht₂, Option.map_some, Option.map_some, Option.some.injEq]
  | session secret =>
    rw [IsIdentity] at h₁ h₂
    rw [SameSpelling, h₁, h₂, List.forall_mem_cons, List.forall_mem_singleton]
    generalize bodyIdentity floats limits sv casefold r₁.body = n₁
    generalize bodyIdentity floats limits sv casefold r₂.body = n₂
    cases n₁ <;> cases n₂ <;> grind

/-- A body with a password only names nothing. -/
theorem Arrives.names_nothing
    (h : Arrives floats limits sv casefold parse settings .reauthenticate r a) :
    bodyIdentity floats limits sv casefold r.body = [] := by
  obtain ⟨fields, hfields, -⟩ := h.charged
  obtain ⟨data, hjson, hbody⟩ := Option.bind_eq_some_iff.1 h.account
  obtain ⟨body, hvalid, -⟩ := Option.bind_eq_some_iff.1 hbody
  obtain ⟨entries, rfl, hemail, hchallenge⟩ := PasswordInput.validate_some hvalid
  obtain rfl := bodyFields_of_json hjson hfields
  have hbody : bodyIdentity floats limits sv casefold r.body =
      fieldsIdentity floats sv casefold fields := by
    rw [bodyIdentity, hfields]
  rw [hbody, fieldsIdentity, hemail, hchallenge]
  rfl

/-- A session that is authenticated again is always spelled alike. -/
theorem sameSpelling_reauthenticate {r₁ r₂ : Request} {secret : String}
    (h₁ : Arrives floats limits sv casefold parse settings .reauthenticate r₁ (.session secret))
    (h₂ : Arrives floats limits sv casefold parse settings .reauthenticate r₂ (.session secret)) :
    (Account.session secret).SameSpelling floats limits sv casefold r₁ r₂ :=
  .inl (h₁.names_nothing.trans h₂.names_nothing.symm)

theorem rateLimitKey_inj {ns scope operation secret i j : String}
    (h : rateLimitKey privateIdentifier ns scope operation i secret =
      rateLimitKey privateIdentifier ns scope operation j secret) :
    privateIdentifier i secret = privateIdentifier j secret := by
  unfold rateLimitKey at h
  exact append_cancel h

/-- Two requests that arrive at one endpoint and are resolved to one account are charged to one
account key exactly when they spell the account alike. -/
theorem account_key_iff {r₁ r₂ : Request}
    (h₁ : Arrives floats limits sv casefold parse settings e r₁ a)
    (h₂ : Arrives floats limits sv casefold parse settings e r₂ a)
    (hnonempty : ∀ s address, sv.normalizeEmail s = some address → address ≠ "")
    (hparse : parse "" = none)
    (hcollision : ∀ i ∈ chargedIdentities floats limits sv casefold settings r₁,
      ∀ j ∈ chargedIdentities floats limits sv casefold settings r₂,
        privateIdentifier i settings.secretKey = privateIdentifier j settings.secretKey → i = j) :
    (∃ key, accountKeys floats limits sv casefold privateIdentifier settings r₁ = {key} ∧
      accountKeys floats limits sv casefold privateIdentifier settings r₂ = {key}) ↔
    a.SameSpelling floats limits sv casefold r₁ r₂ := by
  obtain ⟨i₁, hset₁, hidentity₁⟩ := h₁.identity hnonempty hparse
  obtain ⟨i₂, hset₂, hidentity₂⟩ := h₂.identity hnonempty hparse
  rw [← Account.identity_eq_iff hidentity₁ hidentity₂]
  simp only [accountKeys, h₁.removePrefix_path, h₂.removePrefix_path, hset₁, hset₂,
    Set.image_singleton, Set.singleton_eq_singleton_iff]
  constructor
  · rintro ⟨key, hkey₁, hkey₂⟩
    have hsame := rateLimitKey_inj (hkey₁.trans hkey₂.symm)
    rw [hcollision i₁ (hset₁ ▸ rfl) i₂ (hset₂ ▸ rfl) hsame]
  · intro h
    have hstring : some i₁ = some i₂ := by
      rw [← asString_ofString i₁, h, asString_ofString]
    rw [Option.some.inj hstring]
    exact ⟨_, rfl, rfl⟩

end

namespace EntryFixture

open AuthFixture

def limits : Limits := { nesting := 1000 }

def settings : EntrySettings :=
  { appEnv := "test", secretKey := "secret", allowedOrigins := ["http://testserver"] }

/-- The services, which know the address in two spellings. -/
def services : Services :=
  { AuthFixture.services with
    normalizeEmail := fun email =>
      if email = address ∨ email = "Ada@Example.com" then some address else none }

/-- A request from the trusted origin. -/
def request (path body : String) : Request :=
  { path, origin := some "http://testserver", client := some "127.0.0.1", cookies := []
    body := encode body }

/-- A login with an address. -/
def login (email : String) : Request :=
  request "/api/v1/auth/login" ("\x7b\"email\":\"" ++ email ++ "\",\"password\":\"battery\"\x7d")

/-- A verification of the challenge that a text names. -/
def verify (challengeId : String) : Request :=
  request "/api/v1/auth/register/verify" ("\x7b\"challenge_id\":\"" ++ challengeId ++
    "\",\"code\":\"123456\",\"password\":\"correct horse battery\"\x7d")

/-- The account keys, with identities for themselves. -/
def keys (r : Request) : Set String :=
  accountKeys wholeFloats limits services id (fun identity _ => identity) settings r

end EntryFixture

open EntryFixture in
/-- Two spellings of an address are charged to one key. -/
theorem account_key_iff_login :
    ∃ key, keys (EntryFixture.login "ada@example.com") = {key} ∧
      keys (EntryFixture.login "Ada@Example.com") = {key} := by
  have h₁ : Arrives wholeFloats limits services id parseUUID settings .login
      (EntryFixture.login "ada@example.com") (.email "ada@example.com") :=
    ⟨rfl, rfl, by decide +kernel, by decide +kernel⟩
  have h₂ : Arrives wholeFloats limits services id parseUUID settings .login
      (EntryFixture.login "Ada@Example.com") (.email "ada@example.com") :=
    ⟨rfl, rfl, by decide +kernel, by decide +kernel⟩
  have hnonempty : ∀ s address, services.normalizeEmail s = some address → address ≠ "" := by
    rintro s _ h rfl
    unfold services at h
    dsimp only at h
    split at h
    · exact absurd (Option.some.inj h) (by decide)
    · cases h
  exact (account_key_iff h₁ h₂ hnonempty (by decide +kernel) fun _ _ _ _ h => h).2 trivial

namespace EntryFixture

/-- One challenge, spelled in lower and in upper case. -/
def spellings : List String :=
  ["00000000-0000-4000-8000-00000000000a", "00000000-0000-4000-8000-00000000000A"]

theorem identify_verify : ∀ t ∈ spellings,
    identifyRateLimit wholeFloats limits services id settings (verify t) =
      ([⟨"auth-register-verify-ip", "127.0.0.1", 30, 600⟩,
        ⟨"auth-register-verify-account", t, 5, 600⟩], .ok ()) := by
  decide +kernel

theorem key_verify {t : String} (ht : t ∈ spellings) :
    accountKey (fun identity _ => identity) settings "/auth/register/verify" t ∈ keys
      (verify t) := by
  have hpath : removePrefix settings.apiPrefix (verify t).path = "/auth/register/verify" :=
    removePrefix_append "/api/v1" "/auth/register/verify"
  have hoperation : "auth-register-verify-account" =
      operationOf "/auth/register/verify" ++ "-account" := by
    decide +kernel
  rw [keys, accountKeys, hpath]
  refine ⟨t, ⟨⟨"auth-register-verify-account", t, 5, 600⟩, ?_, ?_, rfl⟩, rfl⟩
  · rw [identify_verify t ht]
    exact List.mem_cons_of_mem _ (List.mem_singleton_self _)
  · rw [hpath]
    exact hoperation

end EntryFixture

open EntryFixture in
/-- A challenge is resolved from both of its spellings, which have no key in common. -/
theorem spelled_apart :
    Arrives wholeFloats limits services id parseUUID settings .verify
      (verify "00000000-0000-4000-8000-00000000000a") (.challenge 0x4000800000000000000a) ∧
    Arrives wholeFloats limits services id parseUUID settings .verify
      (verify "00000000-0000-4000-8000-00000000000A") (.challenge 0x4000800000000000000a) ∧
    ¬ ∃ key, keys (verify "00000000-0000-4000-8000-00000000000a") = {key} ∧
      keys (verify "00000000-0000-4000-8000-00000000000A") = {key} := by
  have hlower : "00000000-0000-4000-8000-00000000000a" ∈ spellings := List.mem_cons_self
  have hupper : "00000000-0000-4000-8000-00000000000A" ∈ spellings :=
    List.mem_cons_of_mem _ (List.mem_singleton_self _)
  refine ⟨⟨rfl, rfl, by rw [identify_verify _ hlower], by decide +kernel⟩,
    ⟨rfl, rfl, by rw [identify_verify _ hupper], by decide +kernel⟩, ?_⟩
  rintro ⟨key, hkey, hkey'⟩
  have hsame := key_verify hlower
  have hsame' := key_verify hupper
  rw [hkey] at hsame
  rw [hkey'] at hsame'
  exact absurd (rateLimitKey_inj (hsame.trans hsame'.symm)) (by decide)

end Ekumidayomi
