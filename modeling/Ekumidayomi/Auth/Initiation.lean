import Ekumidayomi.Auth.Calls
import Ekumidayomi.Auth.SessionCache

/-!
# What account initiation reveals

`begin_registration` and `begin_reset` answer with an identifier whether or not an account exists:
of a challenge, or a decoy. Here each runs alone on two databases that differ in the account of one
address, and the kinds of the two outcomes are compared. They agree exactly when challenges can be
issued or the address is refused: without a key the branch that issues raises
`EmailVerificationUnavailableError`, and under a key whose name is too long for its column the
database refuses the row, while the decoy branch does neither (`initiation_uniform`).
-/

namespace Ekumidayomi

open Transact

/-! ## Texts that pass their checks -/

theorem isAlnum_of_digits {w n : Nat} {c : Char} (h : c ∈ Hex.digits w n) : isAlnum c = true := by
  have hall : Hex.alphabet.all isAlnum = true := rfl
  exact List.all_eq_true.1 hall c (Hex.mem_digits h)

/-- The text of a UUID is a correlation id. -/
theorem validCorrelationId_uuidStr (u : UUID) : validCorrelationId (uuidStr u) = true := by
  have hchars : ∀ c ∈ uuidChars u, isAlnum c = true ∨ c = '-' := by
    intro c hc
    by_cases hd : c = '-'
    · exact .inr hd
    · have hmem : c ∈ (uuidChars u).filter (· ≠ '-') := List.mem_filter.2 ⟨hc, by simpa using hd⟩
      rw [filter_uuidChars] at hmem
      exact .inl (isAlnum_of_digits hmem)
  have hlen : (uuidChars u).length = 36 := length_uuidChars u
  have hhead : ∀ first rest, uuidChars u = first :: rest → isAlnum first = true := by
    intro first rest he
    cases hd : Hex.digits 32 u.toNat with
    | nil => simpa [hd] using Hex.length_digits 32 u.toNat
    | cons d ds =>
      have hd' : d ∈ Hex.digits 32 u.toNat := by
        rw [hd]
        exact List.mem_cons_self
      simp only [uuidChars, hd, List.take_succ_cons, List.cons_append, List.cons.injEq] at he
      rw [← he.1]
      exact isAlnum_of_digits hd'
  unfold validCorrelationId uuidStr
  rw [String.toList_ofList]
  cases he : uuidChars u with
  | nil => rw [he] at hlen; cases hlen
  | cons first rest =>
    rw [he] at hlen hchars
    have hrest : rest.all (fun c => isAlnum c || c == '.' || c == '_' || c == ':' || c == '-') =
        true := by
      refine List.all_eq_true.2 fun c hc => ?_
      rcases hchars c (List.mem_cons_of_mem _ hc) with h | h <;> simp [h]
    have hle : rest.length ≤ 127 := by
      simp only [List.length_cons] at hlen
      omega
    simp [hhead first rest he, hrest, hle]

/-- The event of a challenge is admitted. -/
theorem create_challenge_event (eventId id : UUID) (now : Time) :
    ∃ event, DomainEvent.create eventId "email_challenge_requested" "email_challenge" id 1 now
      [("challenge_id", .str (Unicode.ofString (uuidStr id)))] = .ok event := by
  have htype : validateType "event_type" "email_challenge_requested" = .ok () := rfl
  have haggregate : validateType "aggregate_type" "email_challenge" = .ok () := rfl
  have hkey : validatePayloadKey "challenge_id" = .ok "challenge_id" := rfl
  have hlen : ¬ (Unicode.ofString (uuidStr id)).length > maxPayloadStringLength := by
    rw [Unicode.ofString, List.length_map, uuidStr, String.toList_ofList, length_uuidChars]
    decide
  have hcharge : chargeValue 1 maxPayloadValues = .ok 499 := rfl
  refine ⟨{ eventId, eventType := "email_challenge_requested", aggregateType := "email_challenge"
            aggregateId := id, aggregateVersion := 1, occurredAt := now
            payload := [("challenge_id", .str (Unicode.ofString (uuidStr id)))] }, ?_⟩
  simp only [DomainEvent.create, htype, haggregate, freezeMapping, hkey, freezeValue, hcharge, hlen,
    bind, Except.bind, pure, Except.pure]
  rfl

/-! ## The statements alone -/

section
variable {sv : Services} {settings : AuthSettings} {o : Oracle (schema sv)}
  {h h' h'' : Here (schema sv)} {α : Type}

@[simp] theorem alone_lock {k : Key} : (lock k : Tx sv Unit).alone o h = (.ok (), h) := rfl

@[simp] theorem alone_write {op : Op} :
    (write op : Tx sv Unit).alone o h = (.ok (), h.push op) := rfl

@[simp] theorem alone_uuid4 : (uuid4 : Tx sv UUID).alone o h = (.ok (o.id h.count), h.next) := rfl

/-- Nothing is committed on the way, and the challenges are as before. -/
structure Quiet (h h' : Here (schema sv)) : Prop where
  db : h'.db = h.db
  challenges : Db.challenges h'.view = Db.challenges h.view

theorem Quiet.refl (h : Here (schema sv)) : Quiet h h := ⟨rfl, rfl⟩

theorem Quiet.trans (hq : Quiet h h') (hq' : Quiet h' h'') : Quiet h h'' :=
  ⟨hq'.db.trans hq.db, hq'.challenges.trans hq.challenges⟩

theorem Quiet.next : Quiet h h.next := ⟨rfl, rfl⟩

/-- `correlation_id or str(uuid4())` gives a correlation id, unless it is given another text. -/
theorem alone_correlation (given : Option String) :
    ∃ cid h', (correlation sv given).alone o h = (.ok cid, h') ∧ Quiet h h' ∧
      (given.all (fun id => id = "" || validCorrelationId id) = true →
        validCorrelationId cid = true) ∧
      (given.all (fun id => id = "" || validCorrelationId id) = false →
        validCorrelationId cid = false) := by
  have hdrawn : ∀ valid : Bool, (valid = true) → ∃ cid h',
      ((do return uuidStr (← uuid4) : Tx sv String)).alone o h = (.ok cid, h') ∧ Quiet h h' ∧
        (valid = true → validCorrelationId cid = true) ∧
        (valid = false → validCorrelationId cid = false) := by
    rintro valid rfl
    exact ⟨_, h.next, rfl, .next, fun _ => validCorrelationId_uuidStr _, nofun⟩
  cases given with
  | none => exact hdrawn _ rfl
  | some id =>
    by_cases hid : id = ""
    · subst hid
      exact hdrawn _ rfl
    · refine ⟨id, h, by simp [correlation, hid], .refl h, ?_, ?_⟩ <;> simp [hid]

/-- A record under a correlation id is written. -/
theorem alone_record {actor : AuditActor} {action targetType : String} {targetId : UUID}
    {outcome : AuditOutcome} {metadata : List (String × AuditValue)} {cid : String}
    (hcid : validCorrelationId cid = true) :
    (record sv actor action targetType targetId outcome metadata cid).alone o h =
      (.ok (), h.next.next.push (.addAudit
        { id := o.id h.next.count, actorKind := actor.kind, actorId := actor.actorId, action
          targetType, targetId, outcome, occurredAt := o.clock h.count, correlationId := cid
          metadata })) := by
  unfold record
  simp only [hcid]
  rfl

theorem alone_record_refused {actor : AuditActor} {action targetType : String} {targetId : UUID}
    {outcome : AuditOutcome} {metadata : List (String × AuditValue)} {cid : String}
    (hcid : validCorrelationId cid = false) :
    (record sv actor action targetType targetId outcome metadata cid).alone o h =
      (.error .valueError, h) := by
  unfold record
  simp only [hcid]
  rfl

/-- A configured key set holds the active key. -/
theorem keyBytes_isSome (hkeys : settings.challengeKeys ≠ []) :
    ∃ key, keyBytes settings settings.activeChallengeKey = some key := by
  have hcon := settings.active_configured.resolve_left hkeys
  obtain ⟨entry, hmem, hname⟩ := List.any_eq_true.1 hcon
  have hfind : (settings.challengeKeys.find? (·.1 = settings.activeChallengeKey)).isSome = true :=
    List.find?_isSome.2 ⟨entry, hmem, by simpa using hname⟩
  obtain ⟨found, hfound⟩ := Option.isSome_iff_exists.1 hfind
  exact ⟨encode found.2, by simp [keyBytes, hfound]⟩

/-- Under a key the code of a challenge and its digest are defined. -/
theorem code_isSome (sv : Services) (row : EmailChallenge) (purpose : ChallengePurpose)
    {key : Bytes}
    (hpurpose : row.purpose = purpose.value) (hkey : keyBytes settings row.keyVersion = some key) :
    ∃ hash, (deriveCode sv.hmac row settings).bind (codeDigest sv.hmac row · settings) =
      some hash := by
  have hcode : ∃ code, deriveCode sv.hmac row settings = some code := by
    simp only [deriveCode, hpurpose, ChallengePurpose.ofValue_value, hkey]
    exact ⟨_, rfl⟩
  obtain ⟨code, hcode⟩ := hcode
  rw [hcode]
  simp only [codeDigest, hpurpose, ChallengePurpose.ofValue_value, hkey]
  exact ⟨_, rfl⟩

/-- An insert under an entry that is not taken. -/
theorem alone_insertUnique {entry row : Key} {taken : Db → Bool} {op : Op}
    (hfree : taken h.view = false) :
    (insertUnique entry taken row op : Tx sv Unit).alone o h = (.ok (), h.push op) := by
  unfold insertUnique
  simp only [Prog.alone_bind, alone_lock, alone_query, hfree]
  rfl

/-- A challenge key is configured, and the column of the challenges can keep its name. -/
structure AuthSettings.CanIssue (settings : AuthSettings) : Prop where
  configured : settings.challengeKeys ≠ []
  stored : storedText 32 settings.activeChallengeKey ≠ none

/-- A row is stored where the name of its key is kept and no other challenge stands in its way. -/
theorem alone_storeChallenge {row : EmailChallenge} (hstored : storedText 32 row.keyVersion ≠ none)
    (hfree : ∀ r ∈ (Db.challenges h.view).rows,
      ¬ (r.email = row.email ∧ r.purpose = row.purpose)) :
    ∃ h', (storeChallenge sv row).alone o h = (.ok (), h') ∧ h'.db = h.db := by
  obtain ⟨version, hversion⟩ := Option.ne_none_iff_exists'.1 hstored
  unfold storeChallenge
  simp only [hversion]
  rw [alone_insertUnique]
  · exact ⟨_, rfl, rfl⟩
  · rw [List.any_eq_false]
    intro r hr
    simpa using hfree r hr

/-- The database refuses a row with a name that it cannot keep. -/
theorem alone_storeChallenge_refused {row : EmailChallenge}
    (hrefused : storedText 32 row.keyVersion = none) :
    (storeChallenge sv row).alone o h = (.error .dataError, h) := by
  unfold storeChallenge
  simp only [hrefused]
  rfl

/-- With a key, the creation of a challenge comes down to its `INSERT`. -/
theorem alone_createChallenge (email : String) (purpose : ChallengePurpose) (now : Time)
    (isResend : Bool) {cid : Option String} (hkeys : settings.challengeKeys ≠ [])
    (hcid : cid.all (fun id => id = "" || validCorrelationId id) = true) :
    ∃ row h', row.email = email ∧ row.purpose = purpose.value ∧
      row.keyVersion = settings.activeChallengeKey ∧ row.id = o.id h.count ∧ Quiet h h' ∧
      (createChallenge sv settings email purpose now isResend cid).alone o h =
        (storeChallenge sv row >>= fun _ => pure row.id).alone o h' := by
  obtain ⟨key, hkey⟩ := keyBytes_isSome hkeys
  unfold createChallenge
  simp only [Prog.alone_bind, alone_uuid4]
  obtain ⟨hash, hhash⟩ := code_isSome sv
    { id := o.id h.count, email, purpose := purpose.value,
      keyVersion := settings.activeChallengeKey, codeHash := "", attempts := 0,
      createdAt := now, expiresAt := now + seconds settings.challengeSeconds } purpose rfl hkey
  rw [hhash]
  simp only [Prog.alone_bind, alone_uuid4]
  obtain ⟨event, hevent⟩ := create_challenge_event (o.id h.next.count) (o.id h.count) now
  rw [hevent]
  simp only [Prog.alone_bind, alone_write]
  have hq₀ : Quiet h (h.next.next.push (.addEvent event)) := ⟨rfl, rfl⟩
  obtain ⟨text, h₁, hcor, hq₁, hvalid, -⟩ := alone_correlation (o := o)
    (h := h.next.next.push (.addEvent event)) cid
  simp only [hcor, alone_record (hvalid hcid)]
  refine ⟨{ id := o.id h.count, email, purpose := purpose.value,
            keyVersion := settings.activeChallengeKey, codeHash := hash, attempts := 0,
            createdAt := now, expiresAt := now + seconds settings.challengeSeconds }, _, rfl, rfl,
    rfl, rfl, ?_, rfl⟩
  exact (hq₀.trans hq₁).trans ⟨rfl, rfl⟩

/-- The row is created where no other challenge stands in its way. -/
theorem alone_createChallenge_ok {email : String} {purpose : ChallengePurpose} {now : Time}
    {isResend : Bool} {cid : Option String} (hissue : settings.CanIssue)
    (hcid : cid.all (fun id => id = "" || validCorrelationId id) = true)
    (hfree : ∀ r ∈ (Db.challenges h.view).rows, ¬ (r.email = email ∧ r.purpose = purpose.value)) :
    ∃ n h', (createChallenge sv settings email purpose now isResend cid).alone o h =
      (.ok (o.id n), h') ∧ h'.db = h.db := by
  obtain ⟨row, h₁, rfl, hpurpose, hversion, hid, hq, hcreate⟩ :=
    alone_createChallenge (o := o) (h := h) email purpose now isResend hissue.configured hcid
  have hstored : storedText 32 row.keyVersion ≠ none := hversion ▸ hissue.stored
  have hvacant : ∀ r ∈ (Db.challenges h₁.view).rows,
      ¬ (r.email = row.email ∧ r.purpose = row.purpose) := by
    rw [hq.challenges, hpurpose]
    exact hfree
  obtain ⟨h₂, hstore, hdb⟩ := alone_storeChallenge (o := o) hstored hvacant
  rw [hcreate, Prog.alone_bind, hstore]
  exact ⟨h.count, h₂, by rw [hid]; rfl, hdb.trans hq.db⟩

/-- A challenge that is there is deleted. -/
theorem alone_deleteChallenge {row : EmailChallenge}
    (hrow : Db.challenge h.view row.id = some row) :
    (deleteChallenge sv row).alone o h = (.ok (), h.push (.deleteChallenge row)) := by
  unfold deleteChallenge forUpdate
  simp only [Prog.alone_bind, alone_query, hrow]
  simp only [Prog.alone_bind, alone_lock, hrow]
  rfl

/-- The unique constraint on the address and purpose of a challenge. -/
def Db.UniqueChallenges (db : Db) : Prop :=
  ∀ a ∈ db.challenges.rows, ∀ b ∈ db.challenges.rows,
    a.email = b.email → a.purpose = b.purpose → a = b

/-- Where challenges can be issued, `issue_challenge` returns an identifier it has drawn. -/
theorem alone_issueChallenge (email : String) (purpose : ChallengePurpose) (cid : Option String)
    (hissue : settings.CanIssue)
    (hcid : cid.all (fun id => id = "" || validCorrelationId id) = true)
    (hu : Db.UniqueChallenges h.view) :
    ∃ n h', (issueChallenge sv settings email purpose cid).alone o h = (.ok (o.id n), h') ∧
      h'.db = h.db := by
  obtain ⟨key, hkey⟩ := keyBytes_isSome hissue.configured
  unfold issueChallenge lockEmail
  simp only [hkey, Option.isNone_some, Bool.false_eq_true, if_false, Prog.alone_bind, alone_lock,
    alone_query, alone_utcNow]
  cases hprev : (Db.challenges h.view).rows.find? fun row =>
      decide (row.email = email) && decide (row.purpose = purpose.value) with
  | none =>
    refine alone_createChallenge_ok (h := h.next) hissue hcid fun r hr => ?_
    simpa using List.find?_eq_none.1 hprev r hr
  | some previous =>
    simp only
    split
    · exact ⟨_, _, rfl, rfl⟩
    · have hmem := List.mem_of_find?_eq_some hprev
      have hkind : previous.email = email ∧ previous.purpose = purpose.value := by
        simpa using List.find?_some hprev
      have hrow : Db.challenge h.next.view previous.id = some previous := Store.mem_rows.1 hmem
      simp only [Prog.alone_bind, alone_deleteChallenge hrow]
      refine alone_createChallenge_ok (h := h.next.push (.deleteChallenge previous)) hissue hcid
        fun r hr hr' => ?_
      obtain ⟨hne, hget⟩ := Store.of_get_erase (Store.mem_rows.1 hr)
      have hr := Store.mem_of_get hget
      have heq := hu r hr previous hmem (hr'.1.trans hkind.1.symm) (hr'.2.trans hkind.2.symm)
      exact hne (congrArg EmailChallenge.id heq)

/-- Where challenges cannot be issued, `issue_challenge` raises for an address that has none. -/
theorem alone_issueChallenge_raises (email : String) (purpose : ChallengePurpose)
    (hissue : ¬ settings.CanIssue) (hnone : (Db.challenges h.view).rows = []) :
    ∃ e h', (issueChallenge sv settings email purpose none).alone o h = (.error e, h') := by
  by_cases hkeys : settings.challengeKeys = []
  · have hno : keyBytes settings settings.activeChallengeKey = none := by simp [keyBytes, hkeys]
    unfold issueChallenge
    simp only [hno]
    exact ⟨_, _, rfl⟩
  · have hrefused : storedText 32 settings.activeChallengeKey = none :=
      not_not.1 fun hstored => hissue ⟨hkeys, hstored⟩
    obtain ⟨key, hkey⟩ := keyBytes_isSome hkeys
    unfold issueChallenge lockEmail
    simp only [hkey, Option.isNone_some, Bool.false_eq_true, if_false, Prog.alone_bind, alone_lock,
      alone_query, alone_utcNow, hnone, List.find?_nil]
    have hcid : (none : Option String).all (fun id => id = "" || validCorrelationId id) = true := rfl
    obtain ⟨row, h₁, -, -, hversion, -, -, hcreate⟩ := alone_createChallenge (o := o)
      (h := h.next) email purpose (o.clock h.count) false hkeys hcid
    rw [hcreate, Prog.alone_bind, alone_storeChallenge_refused (hversion ▸ hrefused)]
    exact ⟨_, _, rfl⟩

end

/-! ## The two calls -/

/-- The two outcomes are of one kind: both raise the same error, or both return an identifier that
the database does not use. -/
def SameKind (db db' : Db) : Except Error AuthResult → Except Error AuthResult → Prop
  | .error e, .error e' => e = e'
  | .ok (.challenge id), .ok (.challenge id') => ¬ db.Uses id ∧ ¬ db'.Uses id'
  | _, _ => False

/-- The databases differ only in the account of an address, if it is one: in its user and that
user's password. -/
structure DiffersInAccount (address : Option String) (db db' : Db) : Prop where
  sessions : db.sessions = db'.sessions
  challenges : db.challenges = db'.challenges
  identities : db.identities = db'.identities
  outbox : db.outbox = db'.outbox
  audit : db.audit = db'.audit
  users : ∀ u : User, some u.email ≠ address → (u ∈ db.users.rows ↔ u ∈ db'.users.rows)
  credentials : ∀ row : PasswordCredential,
    (∀ u : User, u ∈ db.users.rows ∨ u ∈ db'.users.rows → some u.email = address →
      u.id ≠ row.userId) →
    (row ∈ db.credentials.rows ↔ row ∈ db'.credentials.rows)

/-- A database with the unique constraint on challenges, and identifiers that are new to it. -/
structure Fresh {sv : Services} (o : Oracle (schema sv)) (db : Db) : Prop where
  unique : db.UniqueChallenges
  unused : ∀ n, ¬ db.Uses (o.id n)

/-- Neither call tells apart two databases that differ in the account of the address. -/
def HidesAccount (sv : Services) (settings : AuthSettings) (email : String)
    (correlationId : Option String) : Prop :=
  ∀ (o o' : Oracle (schema sv)) (db db' : Db), Fresh o db → Fresh o' db' →
    DiffersInAccount (sv.normalizeEmail email) db db' →
    SameKind db db' ((beginRegistration sv settings email correlationId).alone o { db }).1
        ((beginRegistration sv settings email correlationId).alone o' { db := db' }).1 ∧
      SameKind db db' ((beginReset sv settings email).alone o { db }).1
        ((beginReset sv settings email).alone o' { db := db' }).1

/-- The outcome is the given error, or else an identifier that was drawn. -/
def Answers {sv : Services} (o : Oracle (schema sv)) (raised : Option Error)
    (outcome : Except Error AuthResult) : Prop :=
  match raised with
  | some e => outcome = .error e
  | none => ∃ n, outcome = .ok (.challenge (o.id n))

/-- The error of an address that is refused. -/
def refused : Option String → Option Error
  | none => some .invalidEmail
  | some _ => none

/-- What `begin_registration` raises by its arguments alone. It normalises the address twice. -/
def registrationError (sv : Services) (email : String) (correlationId : Option String) :
    Option Error :=
  if correlationId.all (fun id => id = "" || validCorrelationId id) then
    refused ((sv.normalizeEmail email).bind sv.normalizeEmail)
  else some .valueError

section
variable {sv : Services} {settings : AuthSettings} {email : String} {o o' : Oracle (schema sv)}
  {db db' : Db}

theorem Answers.sameKind {raised : Option Error} {outcome outcome' : Except Error AuthResult}
    (hf : Fresh o db) (hf' : Fresh o' db') (h : Answers o raised outcome)
    (h' : Answers o' raised outcome') : SameKind db db' outcome outcome' := by
  cases raised with
  | some e =>
    rw [show outcome = .error e from h, show outcome' = .error e from h']
    exact rfl
  | none =>
    obtain ⟨n, hn⟩ := h
    obtain ⟨n', hn'⟩ := h'
    rw [hn, hn']
    exact ⟨hf.unused n, hf'.unused n'⟩

/-- Where challenges can be issued, or for an address that is refused, `begin_reset` answers alike on
every database. -/
theorem answers_beginReset (hissue : settings.CanIssue ∨ sv.normalizeEmail email = none)
    (hu : db.UniqueChallenges) :
    Answers o (refused (sv.normalizeEmail email))
      ((beginReset sv settings email).alone o { db }).1 := by
  unfold beginReset findUserByEmail
  cases hemail : sv.normalizeEmail email with
  | none => exact rfl
  | some address =>
    have hissue := hissue.resolve_right (by simp [hemail])
    simp only [Prog.alone_bind, alone_query]
    split
    case h_1 => exact ⟨_, rfl⟩
    case h_2 user _ =>
      split
      · exact ⟨_, rfl⟩
      · simp only [Prog.alone_bind, alone_query]
        split
        · exact ⟨_, rfl⟩
        · obtain ⟨n, h', hissued, -⟩ := alone_issueChallenge (o := o) (h := { db }) user.email
            .passwordReset none hissue rfl hu
          simp only [Prog.alone_bind, hissued]
          exact ⟨n, rfl⟩

/-- `begin_registration` after its audit record: the part that looks at the account. -/
def afterRequest (sv : Services) (settings : AuthSettings) (email correlationId : String) :
    Tx sv AuthResult :=
  match sv.normalizeEmail email with
  | none => throw .invalidEmail
  | some email => do
    lockEmail sv email
    let challengeId ← match ← findUserByEmail sv email with
      | some _ => uuid4
      | none => issueChallenge sv settings email .registration (some correlationId)
    commit
    return .challenge challengeId

/-- An accepted address, accepted again as it is normalised, is answered with an identifier. -/
theorem answers_afterRequest {h : Here (schema sv)} {text : String}
    (hissue : settings.CanIssue ∨ sv.normalizeEmail email = none)
    (htext : validCorrelationId text = true) (hu : Db.UniqueChallenges h.view) :
    Answers o (refused ((sv.normalizeEmail email).bind sv.normalizeEmail))
      ((afterRequest sv settings email text).alone o h).1 := by
  unfold afterRequest findUserByEmail
  cases hemail : sv.normalizeEmail email with
  | none => exact rfl
  | some address =>
    have hissue := hissue.resolve_right (by simp [hemail])
    simp only [lockEmail, Prog.alone_bind, alone_lock, Option.bind_some]
    cases hagain : sv.normalizeEmail address with
    | none => exact rfl
    | some again =>
      simp only [alone_query]
      split
      case h_1 => exact ⟨_, rfl⟩
      case h_2 =>
        obtain ⟨n, h', hissued, -⟩ := alone_issueChallenge (o := o) (h := h) address .registration
          (some text) hissue (by simp [htext]) hu
        simp only [Prog.alone_bind, hissued]
        exact ⟨n, rfl⟩

/-- Where challenges can be issued, or for an address that is refused, `begin_registration` answers
alike on every database. -/
theorem answers_beginRegistration {cid : Option String}
    (hissue : settings.CanIssue ∨ sv.normalizeEmail email = none)
    (hu : db.UniqueChallenges) :
    Answers o (registrationError sv email cid)
      ((beginRegistration sv settings email cid).alone o { db }).1 := by
  obtain ⟨text, h₁, hcor, hq, hvalid, hinvalid⟩ := alone_correlation (o := o) (h := { db }) cid
  unfold registrationError beginRegistration
  simp only [Prog.alone_bind, hcor, alone_uuid4]
  cases hcid : cid.all (fun id => id = "" || validCorrelationId id) with
  | false =>
    rw [alone_record_refused (hinvalid hcid)]
    exact rfl
  | true =>
    rw [alone_record (hvalid hcid)]
    refine answers_afterRequest hissue (hvalid hcid) ?_
    intro a ha b hb
    exact hu a (hq.challenges ▸ ha) b (hq.challenges ▸ hb)

/-- A database whose one account has the address and a password. -/
def soleAccount (address : String) : Db where
  users := ⟨[{ id := 0, email := address, emailVerifiedAt := some 0 }], List.nodup_singleton _⟩
  credentials := ⟨[{ userId := 0, passwordHash := "" }], List.nodup_singleton _⟩

theorem differsInAccount_soleAccount (address : String) :
    DiffersInAccount (some address) {} (soleAccount address) where
  sessions := rfl
  challenges := rfl
  identities := rfl
  outbox := rfl
  audit := rfl
  users := by
    intro u hne
    refine ⟨nofun, fun hu => absurd ?_ hne⟩
    rw [List.mem_singleton.1 hu]
  credentials := by
    intro row hne
    refine ⟨nofun, fun hrow => absurd ?_ (hne _ (.inr List.mem_cons_self) rfl)⟩
    rw [List.mem_singleton.1 hrow]

/-- Where challenges cannot be issued, `begin_reset` raises for the account. -/
theorem alone_beginReset_soleAccount {address : String} (hissue : ¬ settings.CanIssue)
    (hemail : sv.normalizeEmail email = some address) :
    ∃ e, ((beginReset sv settings email).alone o { db := soleAccount address }).1 = .error e := by
  have hfound : (soleAccount address).users.rows.find? (·.email = address) =
      some { id := 0, email := address, emailVerifiedAt := some 0 } := by
    simp [soleAccount]
  have hview : (Here.view (S := schema sv) { db := soleAccount address }) = soleAccount address :=
    rfl
  have hpassword : (soleAccount address).credential 0 = some { userId := 0, passwordHash := "" } :=
    rfl
  obtain ⟨e, h', hraised⟩ := alone_issueChallenge_raises (o := o) (h := { db := soleAccount address })
    address .passwordReset hissue rfl
  refine ⟨e, ?_⟩
  unfold beginReset findUserByEmail
  simp only [hemail, Prog.alone_bind, alone_query, hview, hfound, Bool.not_true,
    Option.isNone_some, Bool.or_self, Bool.false_eq_true, if_false, hpassword, hraised]

/-- Where challenges cannot be issued, the account of an accepted address shows in `begin_reset`. -/
theorem not_hidesAccount {cid : Option String} {address : String}
    (hissue : ¬ settings.CanIssue) (hemail : sv.normalizeEmail email = some address) :
    ¬ HidesAccount sv settings email cid := by
  intro hall
  let o : Oracle (schema sv) := { clock := fun _ => 0, id := fun _ => 1, text := fun _ => "" }
  have hfresh : Fresh o {} := by
    refine ⟨nofun, fun _ => ?_⟩
    rintro (h | h | h | h | h) <;> exact h rfl
  have hfresh' : Fresh o (soleAccount address) := by
    refine ⟨nofun, fun _ => ?_⟩
    rintro (h | h | h | h | h) <;> exact h rfl
  have hempty : ((beginReset sv settings email).alone o { db := {} }).1 = .ok (.challenge 1) := by
    unfold beginReset findUserByEmail
    rw [hemail]
    rfl
  have hkind := (hall o o {} (soleAccount address) hfresh hfresh'
    (hemail ▸ differsInAccount_soleAccount address)).2
  obtain ⟨e, hraised⟩ := alone_beginReset_soleAccount (o := o) hissue hemail
  rw [hempty, hraised] at hkind
  exact hkind

end

/-- **When initiation hides the account.** For every admitted configuration, address and correlation
id, `begin_registration` and `begin_reset` give the same kind of outcome on any two databases that
differ only in the account of the address, exactly when challenges can be issued (a key is
configured, and the column keeps its name) or the address is refused. -/
theorem initiation_uniform (sv : Services) (settings : AuthSettings) (email : String)
    (correlationId : Option String) :
    HidesAccount sv settings email correlationId ↔
      settings.CanIssue ∨ sv.normalizeEmail email = none := by
  constructor
  · intro hall
    by_contra hcon
    rw [not_or] at hcon
    obtain ⟨address, hemail⟩ := Option.ne_none_iff_exists'.1 hcon.2
    exact not_hidesAccount hcon.1 hemail hall
  · intro hissue o o' db db' hf hf' _
    exact ⟨(answers_beginRegistration hissue hf.unique).sameKind hf hf'
        (answers_beginRegistration hissue hf'.unique),
      (answers_beginReset hissue hf.unique).sameKind hf hf' (answers_beginReset hissue hf'.unique)⟩

/-- Settings with one key, under a name of 33 characters. -/
def longNamed : AuthSettings :=
  { (default : AuthSettings) with
    challengeKeys := [("challenge-signing-key-2025-q1-eu1", "kkkkkkkkkkkkkkkkkkkkkkkkkkkkkkkk")]
    activeChallengeKey := "challenge-signing-key-2025-q1-eu1"
    active_configured := by decide
    keys_long := by decide }

/-- The default configuration has no key, and shows whether an address has an account; so does one
with a key whose name is too long. -/
theorem default_settings_reveal :
    ¬ HidesAccount AuthFixture.services {} AuthFixture.address none ∧
      ¬ HidesAccount AuthFixture.services longNamed AuthFixture.address none := by
  refine ⟨not_hidesAccount (fun hissue => hissue.configured rfl) rfl,
    not_hidesAccount (fun hissue => hissue.stored ?_) rfl⟩
  decide

end Ekumidayomi
