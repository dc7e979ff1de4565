import Ekumidayomi.Auth.Handshakes
import Ekumidayomi.Auth.Providers
import Ekumidayomi.Lib.JsonRoundTrip

/-!
# Identities are vouched for

Whatever the provider answers, an adapter sends its requests to the pinned hosts of the provider
only, by HTTPS, and its secret at most once (`requests_pinned`). The identity that it returns was
read from a token that keys of such a host verify, and that names the nonce of the attempt
(`Vouched`). Nonces are drawn once, so no token serves two callbacks of a run
(`identities_vouched`). The address of an authorization is read as the parameters that it was built
from (`authorization_read`).
-/

namespace Ekumidayomi

open Unicode Python Dialogue

/-! ## Endpoints -/

/-- The URL is one of HTTPS at a host of the provider, without a user, another port or a
fragment. -/
def OidcProvider.Pinned (provider : OidcProvider) (url : Text) : Prop :=
  ∃ scheme user host port rest,
    Located provider.name.allowedHosts 443 url scheme user host port rest

theorem allowedHosts_plain (name : ProviderName) : ∀ h ∈ name.allowedHosts, PlainHost h := by
  have key : ∀ h ∈ name.allowedHosts, h ≠ [] ∧ (h.all isHostChar) = true ∧
      h.head? ≠ some (ofChar 'v') := by
    cases name <;> decide +kernel
  intro h hh
  obtain ⟨hne, hchars, hhead⟩ := key h hh
  exact ⟨hne, List.all_eq_true.1 hchars, hhead⟩

section
variable {F : Type} {floats : Floats F} {limits : Limits} {names : Names} {sv : Services}
  {jose : Jose F} {provider : OidcProvider}

/-- `safe_url` accepts exactly the pinned URLs. -/
theorem OidcProvider.safeUrl_eq_ok {value : Option (Value F)} {url : Text} :
    provider.safeUrl names value = .ok url ↔
      value.bind Value.text = some url ∧ provider.Pinned url := by
  rw [OidcProvider.Pinned, ← @trusted_iff names _ _ _ (allowedHosts_plain provider.name),
    OidcProvider.safeUrl]
  cases value.bind Value.text with
  | none => simp
  | some text =>
    dsimp only
    constructor
    · intro h
      split at h
      · cases h
      case h_2 u hu =>
        split at h
        · cases h
        case isFalse hchecks =>
          cases h
          simp only [not_or, not_not, Bool.not_eq_true', Bool.not_eq_false, ne_eq] at hchecks
          obtain ⟨hscheme, hhost, husername, hpassword, hfragment, hport⟩ := hchecks
          obtain ⟨host, hhost, hmem⟩ := (Option.any_eq_true ..).1 hhost
          exact ⟨rfl, u, hu, hscheme, ⟨host, by simpa using hmem, hhost⟩, husername, hpassword,
            hfragment, by simpa using hport⟩
    · rintro ⟨⟨⟩, u, hu, htrusted⟩
      obtain ⟨host, hmem, hhost⟩ := htrusted.hostname
      have hany : (u.hostname names).any provider.name.allowedHosts.contains = true := by
        rw [hhost]
        simpa using hmem
      rw [hu]
      dsimp only
      rw [if_neg]
      simp [htrusted.scheme, hany, htrusted.username, htrusted.password, htrusted.fragment,
        htrusted.port]

/-! ## What is said -/

/-- The question is an exchange of a code. -/
def Ask.isPost : Ask → Bool
  | .post _ _ _ => true
  | _ => false

/-- What an adapter may ask after what was said: it posts once. -/
def OidcProvider.Permitted (provider : OidcProvider) (said : List (Said Ask.Reply)) : Ask → Prop
  | .monotonic | .time => True
  | .get url => provider.Pinned url
  | .post url auth _ => provider.Pinned url ∧
      auth = (provider.config.clientId, provider.config.clientSecret) ∧
      ∀ x ∈ said, x.1.isPost = false

/-- The clock was read as the instant. -/
def Clocked (said : List (Said Ask.Reply)) (now : Time) : Prop :=
  (⟨Ask.time, now⟩ : Said Ask.Reply) ∈ said

/-- The URL was answered by the document. -/
def Fetched (floats : Floats F) (limits : Limits) (said : List (Said Ask.Reply)) (url : Text)
    (document : Members F) : Prop :=
  ∃ reply : HttpReply, (⟨Ask.get url, .ok reply⟩ : Said Ask.Reply) ∈ said ∧
    readDocument floats limits reply = .ok document

/-- Every document of the cache was served. -/
def Cached (floats : Floats F) (limits : Limits) (said : List (Said Ask.Reply))
    (cache : Documents F) : Prop :=
  ∀ e ∈ cache, Fetched floats limits said e.1 e.2.2

/-- More was said, and no code exchanged. -/
def Extends (said said' : List (Said Ask.Reply)) : Prop :=
  ∃ more, said' = said ++ more ∧ ∀ x ∈ more, x.1.isPost = false

variable {said said' said'' : List (Said Ask.Reply)} {cache : Documents F}

theorem Extends.refl (said : List (Said Ask.Reply)) : Extends said said :=
  ⟨[], by simp, List.forall_mem_nil _⟩

theorem Extends.trans (h : Extends said said') (h' : Extends said' said'') : Extends said said'' := by
  obtain ⟨more, rfl, hmore⟩ := h
  obtain ⟨more', rfl, hmore'⟩ := h'
  exact ⟨more ++ more', by simp, List.forall_mem_append.2 ⟨hmore, hmore'⟩⟩

theorem Extends.ask (x : Said Ask.Reply) (h : x.1.isPost = false) : Extends said (said ++ [x]) :=
  ⟨[x], rfl, List.forall_mem_singleton.2 h⟩

theorem Extends.subset (h : Extends said said') : said ⊆ said' := by
  obtain ⟨more, rfl, -⟩ := h
  exact List.subset_append_left _ _

/-- Without an exchange before, there is none now. -/
theorem Extends.unposted (h : Extends said said') (hsaid : ∀ x ∈ said, x.1.isPost = false) :
    ∀ x ∈ said', x.1.isPost = false := by
  obtain ⟨more, rfl, hmore⟩ := h
  exact List.forall_mem_append.2 ⟨hsaid, hmore⟩

theorem Fetched.mono {url : Text} {document : Members F}
    (h : Fetched floats limits said url document) (hsub : said ⊆ said') :
    Fetched floats limits said' url document := by
  obtain ⟨reply, hmem, hread⟩ := h
  exact ⟨reply, hsub hmem, hread⟩

theorem Cached.mono (h : Cached floats limits said cache) (hsub : said ⊆ said') :
    Cached floats limits said' cache := fun e he => (h e he).mono hsub

section
variable {G : List (Said Ask.Reply) → Ask → Prop} {E : OidcFault → List (Said Ask.Reply) → Prop}

theorem wp_monotonicTime {P : Time → List (Said Ask.Reply) → Prop} :
    wp G P E monotonicTime said ↔
      G said .monotonic ∧ ∀ now, P now (said ++ [⟨.monotonic, now⟩]) := Iff.rfl

theorem wp_currentTime {P : Time → List (Said Ask.Reply) → Prop} :
    wp G P E currentTime said ↔ G said .time ∧ ∀ now, P now (said ++ [⟨.time, now⟩]) := Iff.rfl

theorem wp_httpGet {url : Text} {P : Except OidcFault HttpReply → List (Said Ask.Reply) → Prop} :
    wp G P E (httpGet url) said ↔
      G said (.get url) ∧ ∀ reply, P reply (said ++ [⟨.get url, reply⟩]) := Iff.rfl

theorem wp_httpPost {url : Text} {auth : String × String} {data : List (String × String)}
    {P : Except OidcFault HttpReply → List (Said Ask.Reply) → Prop} :
    wp G P E (httpPost url auth data) said ↔ G said (.post url auth data) ∧
      ∀ reply, P reply (said ++ [⟨.post url auth data, reply⟩]) := Iff.rfl

end

/-- A document that is fetched or taken from the cache was served. -/
theorem wp_document {url : Text} (hcache : Cached floats limits said cache) :
    wp provider.Permitted (fun x said' => Extends said said' ∧
      Fetched floats limits said' url x.1 ∧ Cached floats limits said' x.2) (fun _ _ => True)
      (provider.document floats limits names cache url) said := by
  rw [OidcProvider.document, wp_bind]
  refine wp_ofExcept (fun url' hurl => ?_) fun _ _ => trivial
  obtain ⟨heq, hpinned⟩ := OidcProvider.safeUrl_eq_ok.1 hurl
  obtain rfl : url = url' := Option.some.inj heq
  have hfetch : ∀ said', Extends said said' →
      wp provider.Permitted (fun x said' => Extends said said' ∧
        Fetched floats limits said' url x.1 ∧ Cached floats limits said' x.2) (fun _ _ => True)
        (do
          let reply ← httpGet url
          let document ← .ofExcept (reply.bind (readDocument floats limits))
          let now ← monotonicTime
          return (document, (url, now + seconds 300, document) :: cache.filter (·.1 ≠ url)))
        said' := by
    intro said' hgrows
    rw [wp_bind, wp_httpGet]
    refine ⟨hpinned, fun reply => ?_⟩
    rw [wp_bind]
    refine wp_ofExcept (fun document hdocument => ?_) fun _ _ => trivial
    rw [wp_bind, wp_monotonicTime]
    refine ⟨trivial, fun now => ?_⟩
    cases reply with
    | error e => cases hdocument
    | ok reply =>
      have hgrows' := (hgrows.trans (.ask ⟨.get url, .ok reply⟩ rfl)).trans
        (.ask ⟨.monotonic, now⟩ rfl)
      have hserved : Fetched floats limits
          (said' ++ [⟨.get url, .ok reply⟩] ++ [⟨.monotonic, now⟩]) url document :=
        ⟨reply, by simp, hdocument⟩
      refine ⟨hgrows', hserved, List.forall_mem_cons.2 ⟨hserved, fun e he => ?_⟩⟩
      exact (hcache e (List.mem_of_mem_filter he)).mono hgrows'.subset
  dsimp only
  split
  · exact hfetch said (.refl said)
  case h_2 expiry document hfound =>
    rw [wp_bind, wp_monotonicTime]
    refine ⟨trivial, fun now => ?_⟩
    have hgrows : Extends said (said ++ [⟨.monotonic, now⟩]) := .ask _ rfl
    split
    · refine ⟨hgrows, ?_, hcache.mono hgrows.subset⟩
      obtain ⟨front, rest, rfl, -⟩ := List.lookup_eq_some_iff.1 hfound
      exact (hcache (url, expiry, document) (by simp)).mono hgrows.subset
    · exact hfetch _ hgrows

/-- The metadata was served at the address of the issuer, and has been checked. -/
theorem wp_metadata (hcache : Cached floats limits said cache) :
    wp provider.Permitted (fun x said' => Extends said said' ∧
      Fetched floats limits said' provider.discoveryUrl x.1 ∧
      provider.checkMetadata floats x.1 = .ok x.1 ∧ Cached floats limits said' x.2) (fun _ _ => True)
      (provider.metadata floats limits names cache) said := by
  rw [OidcProvider.metadata, wp_bind]
  refine wp_mono (wp_document hcache) ?_ fun _ _ _ => trivial
  rintro ⟨value, cache'⟩ said' ⟨hgrows, hserved, hkept⟩
  rw [wp_bind]
  refine wp_ofExcept (fun value' hvalue => ?_) fun _ _ => trivial
  obtain rfl : value = value' := by
    rw [OidcProvider.checkMetadata] at hvalue
    split at hvalue
    · cases hvalue
    · split at hvalue
      · cases hvalue
      · split at hvalue
        · cases hvalue
        · exact Except.ok.inj hvalue
  exact ⟨hgrows, hserved, hvalue, hkept⟩

/-- The faults of a method end it. -/
theorem wp_failLogin {α : Type} {P : α → List (Said Ask.Reply) → Prop} {fault : OidcFault} :
    wp provider.Permitted P (fun _ _ => True) (failLogin fault) said := by
  rw [failLogin]
  split <;> trivial

/-! ## The identity of a token -/

/-- The claims name the subject of the identity, and have been checked for the attempt. -/
structure Identifies (floats : Floats F) (jose : Jose F) (provider : OidcProvider)
    (attempt : StoredAttempt) (said : List (Said Ask.Reply)) (claims : Members F)
    (identity : Identity) : Prop where
  validated : ∃ now, Clocked said now ∧
    jose.validate (provider.claimsRequest attempt) claims now = .ok ()
  party : provider.checkParty floats claims = .ok ()
  issued : ∃ issued now, issuedAt floats claims = .ok issued ∧ Clocked said now ∧
    issuedAfter jose issued now = false ∧ issuedBefore jose issued attempt.startedAt = false
  identity : ∃ subject, subjectOf floats claims = .ok subject ∧
    provider.identityOf floats claims subject = .ok identity
  authenticated : attempt.intent = .reauthenticate → ∃ time now,
    authTime floats claims = some time ∧ Clocked said now ∧ attempt.startedAt - 30 ≤ time ∧
      time * seconds 1 ≤ now + seconds 30

theorem audiences_of_party {claims : Members F} (h : provider.checkParty floats claims = .ok ()) :
    ∃ texts, audiences floats claims = .ok texts := by
  rw [OidcProvider.checkParty] at h
  cases haud : audiences floats claims with
  | ok texts => exact ⟨texts, rfl⟩
  | error e =>
    rw [haud] at h
    cases h

theorem wp_checkIssued {claims : Members F} {attempt : StoredAttempt} :
    wp provider.Permitted (fun _ said' => said ⊆ said' ∧ ∃ issued now,
      issuedAt floats claims = .ok issued ∧ Clocked said' now ∧
      issuedAfter jose issued now = false ∧ issuedBefore jose issued attempt.startedAt = false)
      (fun _ _ => True) (checkIssued floats jose claims attempt) said := by
  rw [checkIssued, wp_bind]
  refine wp_ofExcept (fun issued hissued => ?_) fun _ _ => trivial
  rw [wp_bind, wp_currentTime]
  refine ⟨trivial, fun now => ?_⟩
  split
  case isTrue => trivial
  case isFalse hchecks =>
    rw [Bool.or_eq_true, not_or, Bool.not_eq_true, Bool.not_eq_true] at hchecks
    exact ⟨List.subset_append_left _ _, issued, now, hissued, by simp [Clocked], hchecks.1,
      hchecks.2⟩

theorem wp_checkAuthTime {claims : Members F} {attempt : StoredAttempt} :
    wp provider.Permitted (fun _ said' => said ⊆ said' ∧ (attempt.intent = .reauthenticate →
      ∃ time now, authTime floats claims = some time ∧ Clocked said' now ∧
        attempt.startedAt - 30 ≤ time ∧ time * seconds 1 ≤ now + seconds 30))
      (fun _ _ => True) (checkAuthTime floats claims attempt) said := by
  rw [checkAuthTime]
  split
  case isFalse hintent => exact ⟨List.Subset.refl _, fun h => absurd h hintent⟩
  case isTrue =>
    split
    case h_1 => trivial
    case h_2 time htime =>
      dsimp only
      refine Dialogue.wp_guard (fun _ => trivial) fun hstart => ?_
      rw [wp_bind, wp_currentTime]
      refine ⟨trivial, fun now => ?_⟩
      split
      case isTrue => trivial
      case isFalse hnow =>
        exact ⟨List.subset_append_left _ _, fun _ => ⟨time, now, htime, by simp [Clocked],
          Int.not_lt.1 hstart, Int.not_lt.1 hnow⟩⟩

theorem Clocked.mono {now : Time} (h : Clocked said now) (hsub : said ⊆ said') :
    Clocked said' now := hsub h

theorem wp_identify {encoded : Text} {keys : Members F} {attempt : StoredAttempt} :
    wp provider.Permitted (fun identity said' => said ⊆ said' ∧ ∃ claims,
      jose.decode encoded keys = .ok claims ∧
      Identifies floats jose provider attempt said' claims identity)
      (fun _ _ => True) (provider.identify floats jose encoded keys attempt) said := by
  rw [OidcProvider.identify, wp_bind]
  refine wp_ofExcept (fun claims hclaims => ?_) fun _ _ => trivial
  rw [wp_bind, wp_currentTime]
  refine ⟨trivial, fun now => ?_⟩
  rw [wp_bind]
  refine wp_ofExcept (fun _ hvalid => ?_) fun _ _ => trivial
  rw [wp_bind]
  refine wp_ofExcept (fun _ hparty => ?_) fun _ _ => trivial
  rw [wp_bind]
  refine wp_mono wp_checkIssued ?_ fun _ _ _ => trivial
  rintro - said₁ ⟨hsub₁, issued, now', hissued, hread, hafter, hbefore⟩
  rw [wp_bind]
  refine wp_ofExcept (fun subject hsubject => ?_) fun _ _ => trivial
  rw [wp_bind]
  refine wp_mono wp_checkAuthTime ?_ fun _ _ _ => trivial
  rintro - said₂ ⟨hsub₂, hauth⟩
  refine wp_ofExcept (fun identity hidentity => ?_) fun _ _ => trivial
  refine ⟨List.Subset.trans (List.Subset.trans (List.subset_append_left _ _) hsub₁) hsub₂, claims,
    hclaims, ⟨now, ?_, hvalid⟩, hparty, ⟨issued, now', hissued, hread.mono hsub₂, hafter, hbefore⟩,
    ⟨subject, hsubject, hidentity⟩, hauth⟩
  exact hsub₂ (hsub₁ (by simp))

/-- The metadata at the pinned issuer names the token endpoint, which answered the code with the
token, and the keys, which verify the token. -/
structure TokenIssued (floats : Floats F) (limits : Limits) (jose : Jose F) (provider : OidcProvider)
    (code : String) (attempt : StoredAttempt) (said : List (Said Ask.Reply)) (encoded : Text)
    (claims metadata keys : Members F) (tokenUrl keysUrl : Text) (reply : HttpReply) : Prop where
  served : Fetched floats limits said provider.discoveryUrl metadata
  checked : provider.checkMetadata floats metadata = .ok metadata
  endpoint : (field floats metadata "token_endpoint").bind Value.text = some tokenUrl
  endpointPinned : provider.Pinned tokenUrl
  posted : (⟨Ask.post tokenUrl (provider.config.clientId, provider.config.clientSecret)
    (tokenForm code attempt), .ok reply⟩ : Said Ask.Reply) ∈ said
  token : readToken floats limits reply = .ok encoded
  location : (field floats metadata "jwks_uri").bind Value.text = some keysUrl
  locationPinned : provider.Pinned keysUrl
  keysServed : Fetched floats limits said keysUrl keys
  verified : jose.decode encoded keys = .ok claims

/-- What was said vouches for the identity, which is that of the claims in the token. -/
structure Vouched (floats : Floats F) (limits : Limits) (jose : Jose F) (provider : OidcProvider)
    (code : String) (attempt : StoredAttempt) (said : List (Said Ask.Reply)) (encoded : Text)
    (claims : Members F) (identity : Identity) : Prop where
  issued : ∃ metadata keys tokenUrl keysUrl reply, TokenIssued floats limits jose provider code
    attempt said encoded claims metadata keys tokenUrl keysUrl reply
  identifies : Identifies floats jose provider attempt said claims identity

/-- Whatever the provider answers, `exchange` asks what it may, and returns what is vouched for. -/
theorem wp_exchange {code : String} {attempt : StoredAttempt}
    (hcache : Cached floats limits said cache) (hsaid : ∀ x ∈ said, x.1.isPost = false) :
    wp provider.Permitted (fun identity said' => ∃ encoded claims,
        Vouched floats limits jose provider code attempt said' encoded claims identity)
      (fun _ _ => True) (provider.exchange floats limits names jose cache code attempt) said := by
  rw [OidcProvider.exchange, wp_tryCatch]
  refine wp_mono (E := fun _ _ => True) ?_ (fun _ _ h => h) fun _ _ _ => wp_failLogin
  rw [wp_bind]
  refine wp_mono (wp_metadata hcache) ?_ fun _ _ _ => trivial
  rintro ⟨metadata, cache'⟩ said₁ ⟨hgrows₁, hserved, hchecked, hkept⟩
  rw [wp_bind]
  refine wp_ofExcept (fun tokenUrl htokenUrl => ?_) fun _ _ => trivial
  obtain ⟨htoken, htokenPinned⟩ := OidcProvider.safeUrl_eq_ok.1 htokenUrl
  rw [wp_bind, wp_httpPost]
  refine ⟨⟨htokenPinned, rfl, hgrows₁.unposted hsaid⟩, fun reply => ?_⟩
  rw [wp_bind]
  refine wp_ofExcept (fun encoded hencoded => ?_) fun _ _ => trivial
  rw [wp_bind]
  refine wp_ofExcept (fun keysUrl hkeysUrl => ?_) fun _ _ => trivial
  obtain ⟨hkeys, hkeysPinned⟩ := OidcProvider.safeUrl_eq_ok.1 hkeysUrl
  rw [wp_bind]
  refine wp_mono (wp_document (hkept.mono (List.subset_append_left _ _))) ?_ fun _ _ _ => trivial
  rintro ⟨keys, cache''⟩ said₂ ⟨hgrows₂, hkeysServed, -⟩
  refine wp_mono wp_identify ?_ fun _ _ _ => trivial
  rintro identity said₃ ⟨hsub₃, claims, hclaims, hidentifies⟩
  cases reply with
  | error e => cases hencoded
  | ok reply =>
    have hsub := List.Subset.trans hgrows₂.subset hsub₃
    refine ⟨encoded, claims, ⟨metadata, keys, tokenUrl, keysUrl, reply, ?_⟩, hidentifies⟩
    exact { served := (hserved.mono (List.subset_append_left _ _)).mono hsub
            checked := hchecked
            endpoint := htoken
            endpointPinned := htokenPinned
            posted := hsub (by simp)
            token := hencoded
            location := hkeys
            locationPinned := hkeysPinned
            keysServed := hkeysServed.mono hsub₃
            verified := hclaims }

/-- `authorization_url` asks what it may, and builds the address from the metadata. -/
theorem wp_authorizationUrl {state : String} {attempt : StoredAttempt}
    (hcache : Cached floats limits said cache) :
    wp provider.Permitted (fun url said' => ∃ metadata,
        Fetched floats limits said' provider.discoveryUrl metadata ∧
        provider.checkMetadata floats metadata = .ok metadata ∧
        provider.authorizationAddress floats names sv metadata state attempt = .ok url)
      (fun _ _ => True) (provider.authorizationUrl floats limits names sv cache state attempt)
      said := by
  rw [OidcProvider.authorizationUrl, wp_tryCatch]
  refine wp_mono (E := fun _ _ => True) ?_ (fun _ _ h => h) fun _ _ _ => wp_failLogin
  rw [wp_bind]
  refine wp_mono (wp_metadata hcache) ?_ fun _ _ _ => trivial
  rintro ⟨metadata, cache'⟩ said' ⟨-, hserved, hchecked, -⟩
  exact wp_ofExcept (fun url hurl => ⟨metadata, hserved, hchecked, hurl⟩) fun _ _ => trivial

/-- A call of an adapter. -/
inductive ProviderCall
  | authorizationUrl (state : String) (attempt : StoredAttempt)
  | exchange (code : String) (attempt : StoredAttempt)

/-- What the call does, with the empty cache of a new adapter. -/
def OidcProvider.call (floats : Floats F) (limits : Limits) (names : Names) (sv : Services)
    (jose : Jose F) (provider : OidcProvider) : ProviderCall → Adapter (Text ⊕ Identity)
  | .authorizationUrl state attempt => do
    return .inl (← provider.authorizationUrl floats limits names sv [] state attempt)
  | .exchange code attempt => do
    return .inr (← provider.exchange floats limits names jose [] code attempt)

theorem wp_call (call : ProviderCall) : wp provider.Permitted (fun _ _ => True) (fun _ _ => True)
    (provider.call floats limits names sv jose call) [] := by
  have hkept : Cached floats limits [] [] := List.forall_mem_nil _
  cases call with
  | authorizationUrl state attempt =>
    rw [OidcProvider.call, wp_bind]
    exact wp_mono (wp_authorizationUrl hkept) (fun _ _ _ => trivial) fun _ _ _ => trivial
  | exchange code attempt =>
    rw [OidcProvider.call, wp_bind]
    exact wp_mono (wp_exchange hkept (List.forall_mem_nil _)) (fun _ _ _ => trivial)
      fun _ _ _ => trivial

end

/-- The audiences of the claims are texts, and the client is one of them. -/
def MeantFor {F : Type} (floats : Floats F) (claims : Members F) (client : Text) : Prop :=
  audiences floats claims = .ok (.inr client) ∨
    ∃ several, audiences floats claims = .ok (.inl several) ∧ client ∈ several

/-- What `jwt.decode` and `JWTClaimsRegistry` are known to do: the claims are those in the token,
whatever the keys, and the issuer, the audience and the nonce have been compared. -/
structure Jose.Checks {F : Type} (floats : Floats F) (jose : Jose F) : Prop where
  decode : ∀ {encoded keys keys' claims claims'}, jose.decode encoded keys = .ok claims →
    jose.decode encoded keys' = .ok claims' → claims = claims'
  iss : ∀ {request claims now}, jose.validate request claims now = .ok () →
    (field floats claims "iss").bind Value.text = some request.iss
  aud : ∀ {request claims now texts}, jose.validate request claims now = .ok () →
    audiences floats claims = .ok texts → MeantFor floats claims request.aud
  nonce : ∀ {request claims now}, jose.validate request claims now = .ok () →
    (field floats claims "nonce").bind Value.text = some request.nonce

deriving instance DecidableEq for Identity

namespace OidcFixture

/-- Names in ASCII. -/
def asciiNames : Names where
  lower t := t.map lowerChar
  nfkc t := t
  isIpv6 _ := false
  lower_ascii _ _ := rfl
  ascii_of_lower t h _ := all_isAscii_map ▸ h
  colon_of_isIpv6 _ h := by cases h

def limits : Limits := { nesting := 1000 }

def google : OidcProvider where
  name := .google
  config := { enabled := true, clientId := "shop", clientSecret := "secret"
              redirectUri := "https://api.example.com/callback" }

/-- The claims of the one token that verifies. -/
def claims : Members Whole :=
  [(.str (ofString "iss"), .str google.name.issuer), (.str (ofString "aud"), .str (ofString "shop")),
    (.str (ofString "nonce"), .str (ofString "n")), (.str (ofString "iat"), .int 1),
    (.str (ofString "exp"), .int 300), (.str (ofString "sub"), .str (ofString "ada"))]

def jose : Jose Whole where
  decode encoded _ := if encoded = ofString "t" then .ok claims else .error .joseError
  validate request claims _ :=
    if (field wholeFloats claims "iss").bind Value.text = some request.iss ∧
        (field wholeFloats claims "aud").bind Value.text = some request.aud ∧
        (field wholeFloats claims "nonce").bind Value.text = some request.nonce then .ok ()
    else .error .joseError
  exceeds _ _ := false
  precedes _ _ := false

theorem jose_checks : jose.Checks wholeFloats where
  decode := by
    intro encoded keys keys' claims claims' h h'
    exact Except.ok.inj (h.symm.trans h')
  iss := by
    intro request claims now h
    simp only [jose] at h
    split at h
    case isTrue hchecks => exact hchecks.1
    case isFalse => cases h
  aud := by
    intro request claims now texts h _
    simp only [jose] at h
    split at h
    case isTrue hchecks =>
      left
      rw [audiences]
      obtain ⟨v, hv, haud⟩ := Option.bind_eq_some_iff.1 hchecks.2.1
      cases v with
      | str s =>
        cases haud
        rw [hv]
      | _ => cases haud
    case isFalse => cases h
  nonce := by
    intro request claims now h
    simp only [jose] at h
    split at h
    case isTrue hchecks => exact hchecks.2.2
    case isFalse => cases h

/-- The document of the provider, the answer to the code and the keys. -/
def body (url : Text) : String :=
  if url = google.discoveryUrl then
    "\x7b\"issuer\":\"https://accounts.google.com\"," ++
      "\"code_challenge_methods_supported\":[\"S256\"]," ++
      "\"authorization_endpoint\":\"https://accounts.google.com/auth\"," ++
      "\"token_endpoint\":\"https://oauth2.googleapis.com/token\"," ++
      "\"jwks_uri\":\"https://www.googleapis.com/certs\"\x7d"
  else "\x7b\"id_token\":\"t\"\x7d"

/-- The provider answers, and the clock stands at one second. -/
def provide : (q : Ask) → q.Reply
  | .monotonic | .time => seconds 1
  | .get url | .post url _ _ => .ok { status := 200, parts := [encode (body url)] }

/-- The provider's answers with the bytes of each address. -/
def answering (bytes : Text → Bytes) : (q : Ask) → q.Reply
  | .monotonic | .time => seconds 1
  | .get url | .post url _ _ => .ok { status := 200, parts := [bytes url] }

/-- The two documents, apart from the addresses they are at. -/
theorem provide_eq : provide = answering fun url =>
    if url = google.discoveryUrl then encode (body google.discoveryUrl)
    else encode "\x7b\"id_token\":\"t\"\x7d" := by
  have hbody : (fun url => encode (body url)) = fun url =>
      if url = google.discoveryUrl then encode (body google.discoveryUrl)
      else encode "\x7b\"id_token\":\"t\"\x7d" := by
    funext url
    by_cases h : url = google.discoveryUrl
    · rw [if_pos h, h]
    · rw [if_neg h, body, if_neg h]
  rw [← hbody]
  funext q
  cases q <;> rfl

/-- She is sent to the provider with her attempt. -/
def authorizing : List (Said Ask.Reply) × Except OidcFault Text :=
  (google.authorizationUrl wholeFloats limits asciiNames services []
    AuthFixture.token attempt).converse provide

/-- The address of the provider with her parameters. -/
def address : Text :=
  ofString ("https://accounts.google.com/auth?client_id=shop&redirect_uri=" ++
    "https%3A%2F%2Fapi.example.com%2Fcallback&response_type=code&scope=openid+email+profile&state=" ++
    AuthFixture.token ++ "&nonce=n&code_challenge_method=S256&code_challenge=")

theorem authorizing_ok : authorizing.2 = .ok address := by
  rw [authorizing, provide_eq, body, if_pos rfl, encode, address, ofString]
  -- the kernel decodes a literal anew for every character, so it gets them as a list
  simp only [String.toList_append]
  repeat rw [String.toList_ofList]
  decide +kernel

theorem address_plain : address.count (ofChar '?') = 1 ∧ ofChar '#' ∉ address := by
  rw [address, ofString]
  simp only [String.toList_append]
  repeat rw [String.toList_ofList]
  decide +kernel

/-- Her code is exchanged. -/
def exchanging : List (Said Ask.Reply) × Except OidcFault Identity :=
  (google.exchange wholeFloats limits asciiNames jose [] "code" attempt).converse provide

theorem exchanging_ok : exchanging.2 = .ok
    { provider := .google, subject := "ada", email := none, emailVerified := false } := by
  rw [exchanging, provide_eq, body, if_pos rfl, encode]
  simp only [String.toList_append]
  repeat rw [String.toList_ofList]
  decide +kernel

/-- What the call of the exchange says. -/
def exchanged : List (Said Ask.Reply) × Except OidcFault (Text ⊕ Identity) :=
  (google.call wholeFloats limits asciiNames services jose (.exchange "code" attempt)).converse
    provide

theorem exchanged_posts :
    exchanged.1.map (·.1.isPost) = [false, false, true, false, false, false, false] := by
  rw [exchanged, provide_eq, body, if_pos rfl, encode]
  simp only [String.toList_append]
  repeat rw [String.toList_ofList]
  decide +kernel

end OidcFixture

/-- **Requests go to the provider only.** Whatever the provider answers, and wherever a call stops:
every request is one of HTTPS to an allowed host of the provider, on the port 443 and without a
user, and the client's secret goes with the exchange of the code only, of which there is at most
one. -/
theorem OidcProvider.requests_pinned {F : Type} (floats : Floats F) (limits : Limits) (names : Names)
    (sv : Services) (jose : Jose F) (provider : OidcProvider) (call : ProviderCall)
    {said : List (Said Ask.Reply)} {p : Adapter (Text ⊕ Identity)}
    (hrun : Lts.Run Dialogue.Step (provider.call floats limits names sv jose call) said p) :
    ∀ front x rest, said = front ++ x :: rest → provider.Permitted front x.1 :=
  (wp_run (wp_call call) hrun).2

/-- An exchange that succeeds posts once. -/
theorem OidcProvider.requests_pinned_ada :
    OidcFixture.exchanged.1.map (·.1.isPost) = [false, false, true, false, false, false, false] ∧
      ∀ front x rest, OidcFixture.exchanged.1 = front ++ x :: rest →
        OidcFixture.google.Permitted front x.1 := by
  obtain ⟨p, hrun⟩ := run_converse OidcFixture.provide (OidcFixture.google.call wholeFloats
    OidcFixture.limits OidcFixture.asciiNames OidcFixture.services OidcFixture.jose
    (.exchange "code" OidcFixture.attempt))
  exact ⟨OidcFixture.exchanged_posts, OidcProvider.requests_pinned _ _ _ _ _ _ _ hrun⟩

/-- **The address of an authorization is read as it was meant.** When `authorization_url` returns an
address, it leads to a pinned endpoint, and its query is read as the parameters of the attempt: the
client, the state, the nonce and the challenge of the verifier. If the endpoint has no query and no
fragment of its own, the address keeps its host and has that query. -/
theorem OidcProvider.authorization_read {F : Type} (floats : Floats F) (limits : Limits) (names : Names)
    (sv : Services) (provider : OidcProvider) (state : String) (attempt : StoredAttempt)
    {said : List (Said Ask.Reply)} {url : Text}
    (hreturns : (provider.authorizationUrl floats limits names sv [] state attempt).Returns said
      url) :
    ∃ endpoint query codeChallenge, url = endpoint ++ ofChar '?' :: query ∧
      provider.Pinned endpoint ∧ challenge sv attempt.verifier = .ok codeChallenge ∧
      formPairs query = some ((provider.authorizationParams state attempt codeChallenge).map
        fun p => (ofString p.1, ofString p.2)) ∧
      (url.count (ofChar '?') = 1 → ofChar '#' ∉ url → ∃ u, urlsplit names url = some u ∧
        u.Trusted names provider.name.allowedHosts 443 ∧ u.query = query) := by
  obtain ⟨metadata, -, -, haddress⟩ :=
    wp_returned (wp_authorizationUrl (List.forall_mem_nil _)) hreturns
  simp only [OidcProvider.authorizationAddress, Bind.bind, Except.bind] at haddress
  split at haddress
  · cases haddress
  case h_2 codeChallenge hchallenge =>
    split at haddress
    · cases haddress
    case h_2 endpoint hendpoint =>
      split at haddress
      · cases haddress
      case h_2 query hquery =>
        cases haddress
        have hpinned := (OidcProvider.safeUrl_eq_ok.1 hendpoint).2
        obtain ⟨scheme, user, host, port, rest, hlocated⟩ := id hpinned
        refine ⟨endpoint, query, codeChallenge, rfl, hpinned, hchallenge,
          formPairs_urlencode hquery, fun hmark hhash => ?_⟩
        rw [List.count_append, List.count_cons_self] at hmark
        refine hlocated.append_query (allowedHosts_plain _) (List.count_eq_zero.1 (by omega))
          (fun hc => hhash (List.mem_append_left _ hc)) fun _ => urlencode_char hquery

/-- The address that she is sent to. -/
theorem OidcProvider.authorization_read_ada :
    ∃ u, urlsplit OidcFixture.asciiNames OidcFixture.address = some u ∧
      u.Trusted OidcFixture.asciiNames OidcFixture.google.name.allowedHosts 443 := by
  obtain ⟨_, _, _, -, -, -, -, hsplit⟩ := OidcProvider.authorization_read _ _ _ _ _ _ _
    (returns_of_converse OidcFixture.authorizing_ok)
  obtain ⟨u, hu, htrusted, -⟩ := hsplit OidcFixture.address_plain.1 OidcFixture.address_plain.2
  exact ⟨u, hu, htrusted⟩

/-! ## The callbacks of a run -/

namespace Oidc

section
variable {sv : Services} {settings : AuthSettings} {oidc : OidcSettings} {ns : String}

/-- An attempt carries the nonce, the verifier and the address of its handshake. -/
structure Drawn (oidc : OidcSettings) (b : Begun) : Prop where
  nonce : b.attempt.nonce = b.request.nonce
  verifier : b.attempt.verifier = b.request.verifier
  redirectUri : b.attempt.redirectUri = oidc.redirectUri b.request.provider

theorem drawn_of_begin {redis redis' : Redis} {r : BeginRequest} {attempt : StoredAttempt}
    {now : Time} (h : «begin» sv ns oidc redis r now = .ok (attempt, redis')) :
    Drawn oidc ⟨r, attempt⟩ := by
  simp only [«begin», Bind.bind, Except.bind, pure, Except.pure] at h
  split at h
  · cases h
  · split at h
    · cases h
    case h_2 built hbuilt =>
      split at h
      · cases h
      · cases h
        rw [BeginRequest.attempt] at hbuilt
        split at hbuilt
        · cases hbuilt
          exact ⟨rfl, rfl, rfl⟩
        · cases hbuilt

theorem drawn_of_run {w₀ w : World sv} {tr : List (Act sv)} (h0 : Initial w₀)
    (hrun : Lts.Run (Step sv settings oidc ns) w₀ tr w) : ∀ b ∈ w.begun, Drawn oidc b := by
  refine hrun.invariant (I := fun w => ∀ b ∈ w.begun, Drawn oidc b) (fun hdrawn hstep => ?_) ?_
  · cases hstep with
    | begins _ hbegin =>
      rw [List.forall_mem_append, List.forall_mem_singleton]
      exact ⟨hdrawn, drawn_of_begin hbegin⟩
    | refused | callback | rejected | lose | serve | thread => exact hdrawn
  · simp [h0.begun]

/-- The token of an exchange for the attempt of a handshake names the issuer, the client and the
nonce. -/
theorem exchange_vouched {F : Type} {floats : Floats F} {limits : Limits} {names : Names}
    {jose : Jose F} (hjose : jose.Checks floats) {provider : OidcProvider} {code : String}
    {b : Begun} {x : StoredAttempt} {r : CallbackRequest} (hanswers : b.Answers x r)
    (hdrawn : Drawn oidc b) {said : List (Said Ask.Reply)} {identity : Identity}
    (hsaid : (provider.exchange floats limits names jose [] code x).Returns said identity) :
    ∃ encoded claims, Vouched floats limits jose provider code x said encoded claims identity ∧
      (field floats claims "iss").bind Value.text = some provider.name.issuer ∧
      MeantFor floats claims (ofString provider.config.clientId) ∧
      (field floats claims "nonce").bind Value.text = some (ofString b.request.nonce) := by
  obtain ⟨encoded, claims, hvouched⟩ :=
    wp_returned (wp_exchange (List.forall_mem_nil _) (List.forall_mem_nil _)) hsaid
  obtain ⟨now, -, hvalid⟩ := hvouched.identifies.validated
  obtain ⟨texts, htexts⟩ := audiences_of_party hvouched.identifies.party
  refine ⟨encoded, claims, hvouched, hjose.iss hvalid, hjose.aud hvalid htexts, ?_⟩
  rw [hjose.nonce hvalid, ← hdrawn.nonce, hanswers.stored]
  rfl

end

/-- **Identities are vouched for.** In every run of the routes, whatever browsers and providers send:
a callback that has an identity answers a handshake begun before, and the identity was read from a
token that answered its code. Keys of a pinned host verify the token, and it names the issuer, the
client and the nonce of that handshake. No token serves two callbacks. Assumed is that nonces are
drawn once and that no two texts of the run have one hash. -/
theorem identities_vouched {F : Type} (floats : Floats F) (limits : Limits) (names : Names)
    {jose : Jose F} (hjose : jose.Checks floats) (config : ProviderName → ProviderConfig)
    (sv : Services) (settings : AuthSettings) (oidc : OidcSettings) (ns : String) {V : Set String}
    (hinj : Set.InjOn (stateHash sv) V) {w₀ w : World sv} {tr : List (Act sv)} (h0 : Initial w₀)
    (htexts : ∀ a ∈ tr, ∀ x ∈ a.texts, x ∈ V)
    (hrun : Lts.Run (Step sv settings oidc ns) w₀ tr w)
    (hnonces : (w.begun.map (·.request.nonce)).Nodup)
    (hexchange : ∀ x r identity, .callback x r ∈ w.calls → r.exchange = .identity identity →
      ∃ said, ((OidcProvider.mk r.provider (config r.provider)).exchange floats limits names jose []
        (r.code.getD "") x).Returns said identity) :
    ∃ token : Nat → Text,
      Set.InjOn token {i | ∃ x r identity, w.calls[i]? = some (RouteCall.callback x r) ∧
        r.exchange = .identity identity} ∧
      ∀ i x r identity, w.calls[i]? = some (RouteCall.callback x r) →
        r.exchange = .identity identity → ∃ b ∈ w.begun, b.Answers x r ∧ ∃ said claims,
          Vouched floats limits jose ⟨r.provider, config r.provider⟩ (r.code.getD "") x said (token i)
            claims identity ∧
          (field floats claims "iss").bind Value.text = some r.provider.issuer ∧
          MeantFor floats claims (ofString (config r.provider).clientId) ∧
          (field floats claims "nonce").bind Value.text = some (ofString b.request.nonce) := by
  have hand := Handshakes.run h0 hinj htexts hrun
  have hdrawn := drawn_of_run h0 hrun
  -- the token of each callback that has an identity
  have hvouched : ∀ i : Nat, ∃ encoded : Text, ∀ x r identity,
      w.calls[i]? = some (RouteCall.callback x r) → r.exchange = .identity identity →
      ∃ b ∈ w.begun, b.Answers x r ∧ ∃ said claims,
        Vouched floats limits jose ⟨r.provider, config r.provider⟩ (r.code.getD "") x said encoded
          claims identity ∧
        (field floats claims "iss").bind Value.text = some r.provider.issuer ∧
        MeantFor floats claims (ofString (config r.provider).clientId) ∧
        (field floats claims "nonce").bind Value.text = some (ofString b.request.nonce) := by
    intro i
    by_cases hcall : ∃ x r identity,
        w.calls[i]? = some (RouteCall.callback x r) ∧ r.exchange = .identity identity
    · obtain ⟨x, r, identity, hcall, hidentity⟩ := hcall
      obtain ⟨b, hb, hanswers⟩ := hand.bound x r (List.mem_of_getElem? hcall)
      obtain ⟨said, hsaid⟩ := hexchange x r identity (List.mem_of_getElem? hcall) hidentity
      obtain ⟨encoded, claims, hvouched⟩ := exchange_vouched hjose hanswers (hdrawn b hb) hsaid
      refine ⟨encoded, fun x' r' identity' hcall' hidentity' => ?_⟩
      cases hcall.symm.trans hcall'
      cases hidentity.symm.trans hidentity'
      exact ⟨b, hb, hanswers, said, claims, hvouched⟩
    · exact ⟨[], fun x r identity hx hidentity => absurd ⟨x, r, identity, hx, hidentity⟩ hcall⟩
  choose token htoken using hvouched
  refine ⟨token, ?_, htoken⟩
  rintro i ⟨x, r, identity, hi, hidentity⟩ j ⟨x', r', identity', hj, hidentity'⟩ heq
  obtain ⟨b, hb, hanswers, said, claims, hv, -, -, hnonce⟩ := htoken i x r identity hi hidentity
  obtain ⟨b', hb', hanswers', said', claims', hv', -, -, hnonce'⟩ :=
    htoken j x' r' identity' hj hidentity'
  obtain ⟨_, keys, _, _, _, hissued⟩ := hv.issued
  obtain ⟨_, keys', _, _, _, hissued'⟩ := hv'.issued
  -- one token has the claims of one handshake
  obtain rfl : claims = claims' := hjose.decode hissued.verified (heq ▸ hissued'.verified)
  have hsame : b.request.nonce = b'.request.nonce := by
    have htext := Option.some.inj (hnonce.symm.trans hnonce')
    simpa using congrArg asString htext
  have hbb : b = b' := List.inj_on_of_nodup_map hnonces hb hb' hsame
  refine hand.once_eq hi hj ?_
  rw [← hanswers.state, hbb, hanswers'.state]

end Oidc

/-- Her identity at Google is read from the token that answered her code. -/
theorem Oidc.identities_vouched_linked : ∃ said encoded claims,
    Vouched wholeFloats OidcFixture.limits OidcFixture.jose OidcFixture.google "code"
      OidcFixture.attempt said encoded claims
      { provider := .google, subject := "ada", email := none, emailVerified := false } ∧
    (field wholeFloats claims "nonce").bind Value.text = some (ofString "n") := by
  have hrun := (Lts.Run.single OidcFixture.waiting_step).snoc OidcFixture.answered_step
  obtain ⟨token, -, hall⟩ := Oidc.identities_vouched wholeFloats OidcFixture.limits
    OidcFixture.asciiNames OidcFixture.jose_checks (fun _ => OidcFixture.google.config)
    OidcFixture.services {} OidcFixture.oidc "test" OidcFixture.hash_injOn OidcFixture.idle_initial
    (by simp [Oidc.Act.texts, OidcFixture.request, OidcFixture.answer]) hrun
    (List.nodup_singleton _) (by
      intro x r identity hcall hidentity
      obtain ⟨rfl, rfl⟩ := RouteCall.callback.inj (List.mem_singleton.1 hcall)
      cases hidentity
      exact ⟨_, returns_of_converse OidcFixture.exchanging_ok⟩)
  obtain ⟨b, hb, -, said, claims, hvouched, -, -, hnonce⟩ := hall 0 OidcFixture.attempt
    OidcFixture.answer _ rfl rfl
  obtain rfl := List.mem_singleton.1 hb
  exact ⟨said, token 0, claims, hvouched, hnonce⟩

end Ekumidayomi
