import Ekumidayomi.Auth.Handshakes
import Ekumidayomi.Auth.Initiation

/-!
# Evidence of a handshake

A callback that has consumed an attempt either commits what `finish` does, with the audit record of
its success, or records the failed handshake and nothing else (`Accounted`). It records the two
errors that its `except` clause names. Others escape it: on a link `ReauthenticationRequiredError`
when the session is not recent, and `ProviderAlreadyLinkedError`; on the login of a new customer
`InvalidEmailError`, when the normalised address is not accepted again; what the exchange does not
catch; and the `UnicodeEncodeError` of a subject with a surrogate. And where `record_event` refuses
the correlation id, nothing is recorded at all. These handshakes leave no evidence, and no others do
(`callback_accounted_iff`).
-/

namespace Ekumidayomi

open Transact

/-- The audit action of a handshake that succeeds. -/
def Intent.succeeded : Intent → String
  | .login => "identity.login_succeeded"
  | .link => "identity.provider_linked"
  | .reauthenticate => "identity.reauthentication_succeeded"

/-- The errors that `callback` handles. -/
def Error.isHandled : Error → Bool
  | .authenticationRequired | .externalLoginFailed => true
  | _ => false

theorem Error.isHandled_iff {e : Error} :
    e.isHandled = true ↔ e = .authenticationRequired ∨ e = .externalLoginFailed := by
  cases e <;> simp [Error.isHandled]

/-- The failures of the database. -/
def Error.isDatabase : Error → Bool
  | .integrityError | .staleDataError | .dataError => true
  | _ => false

/-- The callback ends in a failure of the database. -/
def FailsInDatabase : Except Error AuthResult → Prop
  | .ok _ => False
  | .error e => e.isDatabase = true

/-- What the callback leaves is accounted for: an audit record of the success came with its commit,
or the record of the failed handshake is all that was committed. -/
def Accounted {sv : Services} (attempt : StoredAttempt) (db : Db) :
    Except Error AuthResult × Here (schema sv) → Prop
  | (.ok _, h) => ∃ rows, Db.audit h.db = db.audit ++ rows ∧
      ∃ row ∈ rows, row.action = attempt.intent.succeeded ∧ row.outcome = .succeeded
  | (.error _, h) => ∃ row : AuditRecord, h.db = { db with audit := db.audit ++ [row] } ∧
      row.action = "identity.external_login_failed" ∧ row.targetId = attempt.attemptId

/-- An error that the callback handles, a failure of the database, or the refusal of the correlation
id. -/
def Error.Foreseen (cid : String) (e : Error) : Prop :=
  (e.isHandled || e.isDatabase) = true ∨ e = .valueError ∧ validCorrelationId cid = false

section
variable {sv : Services} {settings : AuthSettings} {oidc : OidcSettings} {o : Oracle (schema sv)}
  {h h' h'' : Here (schema sv)} {α : Type} {ops ops' : List Op}
  {E : Error → Here (schema sv) → Prop}

/-- The program goes on to `h'` without a commit, and adds the writes `ops`, the last one first. -/
structure Adds (h : Here (schema sv)) (ops : List Op) (h' : Here (schema sv)) : Prop where
  db : h'.db = h.db
  buf : h'.buf = ops ++ h.buf

theorem Adds.refl (h : Here (schema sv)) : Adds h [] h := ⟨rfl, rfl⟩

theorem Adds.next : Adds h [] h.next := ⟨rfl, rfl⟩

theorem Adds.push (op : Op) : Adds h [op] (h.push op) := ⟨rfl, rfl⟩

theorem Adds.trans (ha : Adds h ops h') (ha' : Adds h' ops' h'') : Adds h (ops' ++ ops) h'' :=
  ⟨ha'.db.trans ha.db, by rw [ha'.buf, ha.buf, List.append_assoc]⟩

/-! ## The statements alone -/

theorem yields_query {f : Db → α} {Q : α → Here (schema sv) → Prop} :
    (query f : Tx sv α).Yields o h Q E ↔ Q (f h.view) h := Iff.rfl

theorem yields_lock {k : Key} {Q : Unit → Here (schema sv) → Prop} :
    (lock k : Tx sv Unit).Yields o h Q E ↔ Q () h := Iff.rfl

theorem yields_write {op : Op} {Q : Unit → Here (schema sv) → Prop} :
    (write op : Tx sv Unit).Yields o h Q E ↔ Q () (h.push op) := Iff.rfl

theorem yields_utcNow {Q : Time → Here (schema sv) → Prop} :
    (utcNow : Tx sv Time).Yields o h Q E ↔ Q (o.clock h.count) h.next := Iff.rfl

theorem yields_uuid4 {Q : UUID → Here (schema sv) → Prop} :
    (uuid4 : Tx sv UUID).Yields o h Q E ↔ Q (o.id h.count) h.next := Iff.rfl

theorem yields_randomText {Q : String → Here (schema sv) → Prop} :
    (randomText : Tx sv String).Yields o h Q E ↔ Q (o.text h.count) h.next := Iff.rfl

theorem yields_commit {Q : Unit → Here (schema sv) → Prop} :
    (commit : Tx sv Unit).Yields o h Q E ↔ Q () { h with db := h.view, buf := [] } := Iff.rfl

theorem yields_guard {Q : α → Here (schema sv) → Prop} {p : Prop} [Decidable p] {e : Error}
    {next : Unit → Tx sv α} (herror : p → E e h) (hok : ¬ p → (next ()).Yields o h Q E) :
    (if p then throw e >>= next else next ()).Yields o h Q E := by
  by_cases hp : p
  · rw [if_pos hp]
    exact herror hp
  · rw [if_neg hp]
    exact hok hp

theorem yields_record {actor : AuditActor} {action targetType : String} {targetId : UUID}
    {outcome : AuditOutcome} {metadata : List (String × AuditValue)} {cid : String}
    {Q : Unit → Here (schema sv) → Prop} (hE : validCorrelationId cid = false → E .valueError h)
    (hQ : validCorrelationId cid = true → ∀ row h', Adds h [.addAudit row] h' →
      row.action = action → row.outcome = outcome → row.targetId = targetId → Q () h') :
    (record sv actor action targetType targetId outcome metadata cid).Yields o h Q E := by
  unfold Prog.Yields
  cases hcid : validCorrelationId cid with
  | false =>
    rw [alone_record_refused hcid]
    exact hE hcid
  | true =>
    rw [alone_record hcid]
    exact hQ hcid _ _ ⟨rfl, rfl⟩ rfl rfl rfl

theorem yields_insertUnique {entry row : Key} {taken : Db → Bool} {op : Op}
    {Q : Unit → Here (schema sv) → Prop} (hE : E .integrityError h) (hQ : Q () (h.push op)) :
    (insertUnique entry taken row op : Tx sv Unit).Yields o h Q E := by
  rw [insertUnique, Prog.yields_bind, yields_lock, Prog.yields_bind, yields_query]
  exact yields_guard (fun _ => hE) fun _ => hQ

theorem yields_forUpdate {get : Db → Option α} {k : Key} {Q : Option α → Here (schema sv) → Prop} :
    (forUpdate get k : Tx sv (Option α)).Yields o h Q E ↔ Q (get h.view) h := by
  have hrow : (forUpdate get k : Tx sv (Option α)).alone o h = (.ok (get h.view), h) := by
    rw [forUpdate, Prog.alone_bind, alone_query]
    cases hget : get h.view with
    | none => rfl
    | some r =>
      show (query get : Tx sv (Option α)).alone o h = _
      rw [alone_query, hget]
  unfold Prog.Yields
  rw [hrow]

theorem yields_flushRow {get : Db → Option α} {k : Key} {op : Op}
    {Q : Unit → Here (schema sv) → Prop} (hE : E .staleDataError h) (hQ : Q () (h.push op)) :
    (flushRow get k op : Tx sv Unit).Yields o h Q E := by
  rw [flushRow, Prog.yields_bind, yields_forUpdate]
  split
  · exact hE
  · exact hQ

theorem yields_findUserById {id : UUID} {Q : Option User → Here (schema sv) → Prop} :
    (findUserById sv id true).Yields o h Q E ↔ Q (Db.user h.view id) h := by
  rw [findUserById, if_pos rfl]
  exact yields_forUpdate

theorem yields_createCustomer {email : String} {Q : User → Here (schema sv) → Prop}
    (hemail : sv.normalizeEmail email ≠ none) (hE : E .integrityError h.next)
    (hQ : ∀ user h', Adds h [.insertUser user] h' → user.isActive = true → Q user h') :
    (createCustomer sv email).Yields o h Q E := by
  rw [createCustomer]
  split
  case h_1 hnone => exact absurd hnone hemail
  case h_2 normalized _ =>
    rw [Prog.yields_bind, yields_uuid4]
    dsimp only
    rw [Prog.yields_bind]
    exact yields_insertUnique hE (hQ _ _ (Adds.next.trans (.push _)) rfl)

theorem yields_issue {user : User} {Q : String → Here (schema sv) → Prop}
    (hactive : user.isActive = true) (hverified : user.emailVerifiedAt.isSome = true)
    (hE : ∀ h', Adds h [] h' → E .integrityError h')
    (hQ : ∀ row secret h', Adds h [.insertSession row] h' → Q secret h') :
    (issue sv settings user).Yields o h Q E := by
  rw [issue]
  refine yields_guard (fun hdead => ?_) fun _ => ?_
  · simp [hactive, Option.isSome_iff_ne_none.1 hverified] at hdead
  · have hadds : Adds h [] h.next.next.next := (Adds.next.trans .next).trans .next
    rw [Prog.yields_bind, yields_randomText, Prog.yields_bind, yields_utcNow, Prog.yields_bind,
      yields_uuid4]
    dsimp only
    rw [Prog.yields_bind]
    exact yields_insertUnique (hE _ hadds) (hQ _ _ _ (hadds.trans (.push _)))

theorem yields_auditActor {user : User} {Q : AuditActor → Here (schema sv) → Prop}
    (hE : E .externalLoginFailed h) (hQ : ∀ audit, Q audit h) :
    (auditActor sv user).Yields o h Q E := by
  rw [auditActor]
  split
  · exact hE
  · exact hQ _

theorem yields_insertIdentity {identity : Identity} {user : User} {cid : String}
    {Q : Unit → Here (schema sv) → Prop}
    (hE : ∀ e ops h', Adds h ops h' → e.Foreseen cid → E e h')
    (hQ : validCorrelationId cid = true → ∀ row audit h',
      Adds h [.insertIdentity row, .addAudit audit] h' →
      audit.action = "identity.provider_linked" → audit.outcome = .succeeded → Q () h') :
    (insertIdentity sv identity user cid).Yields o h Q E := by
  have hadds : Adds h [] h.next.next := Adds.next.trans .next
  rw [insertIdentity, Prog.yields_bind, yields_utcNow, Prog.yields_bind, yields_uuid4]
  dsimp only
  rw [Prog.yields_bind]
  refine yields_auditActor (hE _ _ _ hadds (.inl rfl)) fun actor => ?_
  rw [Prog.yields_bind]
  refine yields_record (fun hcid => hE _ _ _ hadds (.inr ⟨rfl, hcid⟩)) ?_
  intro hcid audit h' ha haction houtcome _
  have ha' := hadds.trans ha
  split
  · exact hE _ _ _ ha' (.inl rfl)
  rw [Prog.yields_bind, yields_lock]
  exact yields_insertUnique (hE _ _ _ ha' (.inl rfl))
    (hQ hcid _ audit _ (ha'.trans (.push _)) haction houtcome)

/-! ## A login -/

/-- The correlation id is valid, and the audit records since `db` hold one of a success. -/
def Logged (cid : String) (db : Db) (action : String) (h : Here (schema sv)) : Prop :=
  validCorrelationId cid = true ∧ ∃ rows, Db.audit h.db = db.audit ++ rows ∧
    ∃ row ∈ rows, row.action = action ∧ row.outcome = .succeeded

/-- Nothing has been committed since `db`, and the error is one of those that are foreseen. -/
def Recordable (cid : String) (db : Db) (e : Error) (h : Here (schema sv)) : Prop :=
  h.db = db ∧ e.Foreseen cid

/-- What an error leaves: nothing has been committed, and the callback neither handles the error nor
sets it aside if and only if the handshake escapes it. -/
def Raised (escapes : Prop) (cid : String) (db : Db) (e : Error) (h : Here (schema sv)) : Prop :=
  h.db = db ∧ (escapes ∧ (e.isHandled || e.isDatabase) = false ∨ ¬ escapes ∧ e.Foreseen cid)

/-- A foreseen error where nothing escapes. -/
theorem Raised.of_not {escapes : Prop} {cid : String} {db : Db} {e : Error} (hnot : ¬ escapes)
    (hr : Recordable cid db e h) : Raised escapes cid db e h :=
  ⟨hr.1, .inr ⟨hnot, hr.2⟩⟩

/-- A handled error where nothing escapes. -/
theorem Raised.of_handled {escapes : Prop} {cid : String} {db : Db} {e : Error} (hdb : h.db = db)
    (hnot : ¬ escapes) (he : (e.isHandled || e.isDatabase) = true) : Raised escapes cid db e h :=
  ⟨hdb, .inr ⟨hnot, .inl he⟩⟩

/-- Audit records are added at the end. -/
theorem audit_applyAll (ops : List Op) (db : Db) : ∃ rows,
    Db.audit ((schema sv).applyAll ops db) = db.audit ++ rows ∧
      ∀ row, .addAudit row ∈ ops → row ∈ rows := by
  induction ops with
  | nil => exact ⟨[], (List.append_nil _).symm, nofun⟩
  | cons op ops ih =>
    obtain ⟨rows, hrows, hmem⟩ := ih
    rw [Schema.applyAll_cons]
    cases op with
    | addAudit row =>
      refine ⟨rows ++ [row], ?_, fun x hx => ?_⟩
      · show Db.audit ((schema sv).applyAll ops db) ++ [row] = _
        rw [hrows, List.append_assoc]
      · rcases List.mem_cons.1 hx with hx | hx
        · cases hx
          exact List.mem_append_right _ List.mem_cons_self
        · exact List.mem_append_left _ (hmem x hx)
    | _ =>
      refine ⟨rows, hrows, fun x hx => ?_⟩
      rcases List.mem_cons.1 hx with hx | hx
      · cases hx
      · exact hmem x hx

/-- A commit with the record of a success. -/
theorem yields_leave {cid : String} {db : Db} {row : AuditRecord} {a : AuthResult}
    (hcid : validCorrelationId cid = true) (hdb : h.db = db) (hrow : .addAudit row ∈ h.buf)
    (houtcome : row.outcome = .succeeded) :
    (do commit; return a : Tx sv AuthResult).Yields o h (fun _ => Logged cid db row.action) E := by
  rw [Prog.yields_bind, yields_commit]
  obtain ⟨rows, hrows, hmem⟩ := @audit_applyAll sv h.buf h.db
  exact ⟨hcid, rows, hdb ▸ hrows, row, hmem row hrow, rfl, houtcome⟩

theorem yields_finishSession {db : Db} {identity : Identity} {user : User} {cid : String}
    (hdb : h.db = db) (hactive : user.isActive = true)
    (hverified : user.emailVerifiedAt.isSome = true) :
    (finishSession sv settings identity user cid).Yields o h
      (fun _ => Logged cid db Intent.login.succeeded) (Recordable cid db) := by
  rw [finishSession, Prog.yields_bind]
  refine yields_issue hactive hverified (fun h' ha => ⟨ha.db.trans hdb, .inl rfl⟩) ?_
  intro session secret h₁ ha₁
  rw [Prog.yields_bind, yields_query]
  split
  · exact ⟨ha₁.db.trans hdb, .inl rfl⟩
  · rw [Prog.yields_bind, yields_utcNow, Prog.yields_bind]
    have ha₂ := ha₁.trans .next
    refine yields_auditActor ⟨ha₂.db.trans hdb, .inl rfl⟩ fun actor => ?_
    rw [Prog.yields_bind]
    refine yields_record (fun hcid => ⟨ha₂.db.trans hdb, .inr ⟨rfl, hcid⟩⟩) ?_
    intro hcid audit h₃ ha₃ haction houtcome _
    have hdb₃ : h₃.db = db := (ha₂.trans ha₃).db.trans hdb
    rw [Prog.yields_bind, Intent.succeeded, ← haction]
    refine yields_flushRow ⟨hdb₃, .inl rfl⟩ (yields_leave hcid hdb₃ ?_ houtcome)
    refine List.mem_cons_of_mem _ ?_
    rw [ha₃.buf]
    exact List.mem_cons_self

/-- The identity of the subject. -/
def subjectIdentity (identity : Identity) (db : Db) : Option ExternalIdentity :=
  db.identities.rows.find? fun x =>
    x.provider = identity.provider.value && x.subject = identity.subject

/-- The subject is new, and its address is accepted as it was given, but not as it is normalised. -/
def AddressRefused (sv : Services) (identity : Identity) (external : Option ExternalIdentity) :
    Prop :=
  external = none ∧ ∃ address, identity.address sv = some address ∧ sv.normalizeEmail address = none

/-- A login logs its success, or fails in a way that the callback records, unless the address is
refused when it is looked up. -/
theorem yields_finishLogin {db : Db} {identity : Identity} {external : Option ExternalIdentity}
    {cid : String} (hdb : h.db = db) :
    (finishLogin sv settings identity external cid).Yields o h
      (fun _ h' => ¬ AddressRefused sv identity external ∧ Logged cid db Intent.login.succeeded h')
      (Raised (AddressRefused sv identity external) cid db) := by
  cases external with
  | some external =>
    have hnot : ¬ AddressRefused sv identity (some external) := fun hr => nomatch hr.1
    rw [finishLogin, Prog.yields_bind, yields_findUserById]
    split
    · exact .of_handled hdb hnot rfl
    case h_2 user _ =>
      refine yields_guard (fun _ => .of_handled hdb hnot rfl) fun hlive => ?_
      simp only [Bool.or_eq_true, Bool.not_eq_true', not_or, Bool.not_eq_false,
        Option.isNone_iff_eq_none, ← ne_eq, ← Option.isSome_iff_ne_none] at hlive
      rw [Prog.yields_bind, yields_utcNow, Prog.yields_bind]
      refine yields_flushRow (.of_handled hdb hnot rfl) ?_
      refine Prog.Yields.mono (yields_finishSession hdb hlive.1 hlive.2) ?_ ?_
      · exact fun _ _ hlogged => ⟨hnot, hlogged⟩
      · exact fun _ _ hr => .of_not hnot hr
  | none =>
    rw [finishLogin]
    split
    case h_1 hnone =>
      refine .of_handled hdb (fun hr => ?_) rfl
      obtain ⟨-, address, haddress, -⟩ := hr
      cases hnone.symm.trans haddress
    case h_2 address haddress =>
      rw [lockEmail, Prog.yields_bind, yields_lock, Prog.yields_bind, findUserByEmail]
      cases hagain : sv.normalizeEmail address with
      | none => exact ⟨hdb, .inl ⟨⟨rfl, address, haddress, hagain⟩, rfl⟩⟩
      | some again =>
        have hnot : ¬ AddressRefused sv identity none := by
          rintro ⟨-, other, hother, hnone⟩
          cases haddress.symm.trans hother
          cases hagain.symm.trans hnone
        rw [yields_query]
        split
        · exact .of_handled hdb hnot rfl
        · rw [Prog.yields_bind]
          refine yields_createCustomer (hagain ▸ Option.some_ne_none _) (.of_handled hdb hnot rfl) ?_
          intro user h₁ ha₁ hactive
          rw [Prog.yields_bind, yields_utcNow, Prog.yields_bind, yields_write]
          have hdb₁ : h₁.db = db := ha₁.db.trans hdb
          rw [Prog.yields_bind]
          refine yields_insertIdentity (fun e ops h' ha he => .of_not hnot ⟨ha.db.trans hdb₁, he⟩) ?_
          intro _ row audit h₂ ha₂ _ _
          refine Prog.Yields.mono (yields_finishSession (ha₂.db.trans hdb₁) hactive rfl) ?_ ?_
          · exact fun _ _ hlogged => ⟨hnot, hlogged⟩
          · exact fun _ _ hr => .of_not hnot hr

/-! ## Whose session it is -/

/-- The actor whose session the cookie names at `now`, as `resolve` finds it. -/
def sessionActor (sv : Services) (secret : Option String) (hint : Option UUID) (now : Time)
    (db : Db) : Option Actor :=
  (secret.filter isToken).bind fun secret =>
    (resolved ((hint.bind fun id => liveSession (digest sv secret) now (some id) db).or
      (liveSession (digest sv secret) now none db))).toOption

theorem yields_resolve {secret : Option String} {hint : Option UUID}
    {Q : Actor → Here (schema sv) → Prop}
    (hnone : ∀ h', Adds h [] h' → sessionActor sv secret hint (o.clock h.count) h.view = none →
      E .authenticationRequired h')
    (hsome : ∀ actor, sessionActor sv secret hint (o.clock h.count) h.view = some actor →
      Q actor h.next) :
    (resolve sv secret hint).Yields o h Q E := by
  cases secret with
  | none => exact hnone h (.refl h) rfl
  | some secret =>
    cases htoken : isToken secret with
    | false =>
      unfold resolve
      simp only [htoken]
      exact hnone h (.refl h) (by simp [sessionActor, Option.filter, htoken])
    | true =>
      unfold Prog.Yields
      rw [alone_resolve htoken]
      rw [sessionActor, Option.filter_some_pos htoken, Option.bind_some] at hnone hsome
      generalize (hint.bind fun id => liveSession (digest sv secret) (o.clock h.count) (some id)
        h.view).or (liveSession (digest sv secret)
          (o.clock h.count) none h.view) = found at hnone hsome ⊢
      rcases found with _ | ⟨row, user⟩
      · exact hnone _ .next rfl
      · rw [resolved] at hnone hsome ⊢
        cases hrole : Role.ofValue user.role with
        | none =>
          rw [hrole] at hnone
          exact hnone _ .next rfl
        | some role =>
          rw [hrole] at hsome
          exact hsome _ rfl

/-- The actor's session and account are there and live. -/
structure Present (db : Db) (actor : Actor) (session : AuthSession) (user : User) : Prop where
  row : db.session actor.sessionId = some session
  account : db.user actor.userId = some user
  owner : session.userId = user.id
  live : session.revokedAt = none
  active : user.isActive = true
  verified : user.emailVerifiedAt.isSome = true
  role : (Role.ofValue user.role).isSome = true

theorem present_of_sessionActor {secret : Option String} {hint : Option UUID} {now : Time} {db : Db}
    {actor : Actor} (ha : sessionActor sv secret hint now db = some actor) :
    ∃ session user, Present db actor session user := by
  obtain ⟨secret, -, ha⟩ := Option.bind_eq_some_iff.1 ha
  generalize hfound : (hint.bind fun id => liveSession (digest sv secret) now (some id) db).or
    (liveSession (digest sv secret) now none db) = found at ha
  rcases found with _ | ⟨row, user⟩
  · cases ha
  · have hlive : ∃ hint, liveSession (digest sv secret) now hint db = some (row, user) := by
      rcases Option.or_eq_some_iff.1 hfound with hfirst | ⟨-, hsecond⟩
      · obtain ⟨id, -, hfirst⟩ := Option.bind_eq_some_iff.1 hfirst
        exact ⟨some id, hfirst⟩
      · exact ⟨none, hsecond⟩
    obtain ⟨hint, hlive⟩ := hlive
    obtain ⟨row', hrow, -, hrevoked, -, huser⟩ := of_liveSession hlive
    obtain ⟨user', huser, hchecked⟩ := Option.bind_eq_some_iff.1 huser
    obtain ⟨hactive, heq⟩ := Option.ite_none_right_eq_some.1 hchecked
    cases heq
    rw [resolved] at ha
    cases hrole : Role.ofValue user.role with
    | none =>
      rw [hrole] at ha
      cases ha
    | some role =>
      rw [hrole] at ha
      cases ha
      have hid : user.id = row.userId := Store.key_of_get huser
      refine ⟨row, user, Store.mem_rows.1 hrow, hid ▸ huser, hid.symm, ?_, hactive.1, hactive.2, ?_⟩
      · exact Option.isNone_iff_eq_none.1 hrevoked
      · rw [hrole]
        rfl

/-- `authorize` on a live session checks that it has not expired and is recent. -/
theorem yields_authorize {db : Db} {actor : Actor} {session : AuthSession} {user : User}
    {limit : Option Nat} {Q : User → Here (schema sv) → Prop} (hp : Present db actor session user)
    (hview : h.view = db)
    (hexpired : session.expiresAt ≤ o.clock h.count → E .authenticationRequired h.next)
    (hstale : ∀ n, limit = some n → o.clock h.count < session.expiresAt →
      seconds n < o.clock h.next.count - session.authenticatedAt →
      E .reauthenticationRequired h.next.next)
    (hok : ∀ h', Adds h [] h' → o.clock h.count < session.expiresAt →
      (∀ n, limit = some n → o.clock h.next.count - session.authenticatedAt ≤ seconds n) →
      Q user h') :
    (authorize sv actor .profileWrite limit true).Yields o h Q E := by
  obtain ⟨role, hrole⟩ := Option.isSome_iff_exists.1 hp.role
  have hpermitted : Permission.profileWrite ∈ role.permissions := by cases role <;> decide
  rw [authorize, Prog.yields_bind, yields_findUserById, Prog.yields_bind, yields_query, hview,
    hp.account, hp.row]
  refine yields_guard (fun hdead => ?_) fun _ => ?_
  · simp [hp.active, Option.isSome_iff_ne_none.1 hp.verified, hp.owner, hp.live] at hdead
  · rw [Prog.yields_bind, yields_utcNow]
    refine yields_guard hexpired fun hlive => ?_
    have hlive := Int.not_le.1 hlive
    rw [hrole]
    refine yields_guard (fun hnot => absurd hpermitted hnot) fun _ => ?_
    cases limit with
    | none => exact hok _ .next hlive fun n hn => by cases hn
    | some n =>
      rw [Prog.yields_bind, yields_utcNow]
      refine yields_guard (fun hold => hstale n rfl hlive hold) fun hrecent => ?_
      refine hok _ (Adds.next.trans .next) hlive fun n' hn => ?_
      cases hn
      exact Int.not_lt.1 hrecent

/-! ## A link and a reauthentication -/

/-- The identity is the user's already, or it is nobody's and the user has one at the provider. -/
def alreadyLinked (db : Db) (userId : UUID) (identity : Identity) : Bool :=
  match subjectIdentity identity db with
  | some external => external.userId = userId
  | none => db.identities.rows.any fun x =>
      x.userId = userId && x.provider = identity.provider.value

/-- A link on a live session that is not recent, or of an identity that is linked. -/
def LinkRefused (settings : AuthSettings) (identity : Identity) (db : Db) (actor : Actor)
    (session : AuthSession) (now later : Time) : Prop :=
  now < session.expiresAt ∧
    (seconds settings.recentAuthSeconds < later - session.authenticatedAt ∨
      alreadyLinked db actor.userId identity = true)

theorem yields_finishLink {db : Db} {identity : Identity} {actor : Actor} {session : AuthSession}
    {user : User} {cid : String} (hp : Present db actor session user) (hdb : h.db = db)
    (hbuf : h.buf = []) :
    (finishLink sv settings identity (subjectIdentity identity db) actor cid).Yields o h
      (fun _ h' => ¬ LinkRefused settings identity db actor session (o.clock h.count)
          (o.clock h.next.count) ∧ Logged cid db Intent.link.succeeded h')
      (Raised (LinkRefused settings identity db actor session (o.clock h.count)
        (o.clock h.next.count)) cid db) := by
  have hview : ∀ {h'}, Adds h [] h' → h'.view = db := by
    intro h' ha
    rw [Here.view, ha.buf, hbuf, ha.db]
    exact hdb
  have hid : user.id = actor.userId := Store.key_of_get hp.account
  rw [finishLink, Prog.yields_bind]
  refine yields_authorize hp (hview (.refl h)) ?_ ?_ ?_
  · intro hexpired
    exact .of_handled hdb (fun hrefused => absurd hrefused.1 (Int.not_lt.2 hexpired)) rfl
  · intro n hn hlive hstale
    cases hn
    exact ⟨hdb, .inl ⟨⟨hlive, .inl hstale⟩, rfl⟩⟩
  · intro h₁ ha₁ hlive hrecent
    have hrecent := hrecent _ rfl
    have hdb₁ : h₁.db = db := ha₁.db.trans hdb
    -- on a recent session the link is refused exactly when it is there
    have hrefused : LinkRefused settings identity db actor session (o.clock h.count)
        (o.clock h.next.count) ↔ alreadyLinked db user.id identity = true := by
      rw [LinkRefused, hid]
      exact ⟨fun hr => hr.2.resolve_left (Int.not_lt.2 hrecent), fun ha => ⟨hlive, .inr ha⟩⟩
    rw [hrefused, alreadyLinked]
    cases subjectIdentity identity db with
    | some external =>
      dsimp only
      split
      case isTrue howner => exact ⟨hdb₁, .inl ⟨by simp [howner], rfl⟩⟩
      case isFalse howner => exact .of_handled hdb₁ (by simp [howner]) rfl
    | none =>
      dsimp only
      rw [Prog.yields_bind, yields_query, hview ha₁]
      refine yields_guard (fun halready => ⟨hdb₁, .inl ⟨halready, rfl⟩⟩) fun halready => ?_
      rw [Prog.yields_bind]
      refine yields_insertIdentity
        (fun e ops h' ha he => .of_not halready ⟨ha.db.trans hdb₁, he⟩) ?_
      intro hcid row audit h₂ ha₂ haction houtcome
      have hmem : .addAudit audit ∈ h₂.buf := by
        rw [ha₂.buf]
        exact List.mem_cons_of_mem _ List.mem_cons_self
      refine (yields_leave hcid (ha₂.db.trans hdb₁) hmem houtcome).mono ?_ fun _ _ h => h
      rw [haction]
      exact fun _ _ hlogged => ⟨halready, hlogged⟩

theorem yields_finishReauthenticate {db : Db} {identity : Identity}
    {external : Option ExternalIdentity} {actor : Actor} {session : AuthSession} {user : User}
    {cid : String} (hp : Present db actor session user) (hdb : h.db = db) (hbuf : h.buf = []) :
    (finishReauthenticate sv identity external actor cid).Yields o h
      (fun _ => Logged cid db Intent.reauthenticate.succeeded) (Recordable cid db) := by
  have hview : h.view = db := by
    rw [Here.view, hbuf]
    exact hdb
  rw [finishReauthenticate, Prog.yields_bind]
  refine yields_authorize hp hview (fun _ => ⟨hdb, .inl rfl⟩) (fun n hn => by cases hn) ?_
  intro h₁ ha₁ _ _
  have hdb₁ : h₁.db = db := ha₁.db.trans hdb
  split
  · exact ⟨hdb₁, .inl rfl⟩
  · refine yields_guard (fun _ => ⟨hdb₁, .inl rfl⟩) fun _ => ?_
    rw [Prog.yields_bind, yields_query]
    split
    · exact ⟨hdb₁, .inl rfl⟩
    · refine yields_guard (fun _ => ⟨hdb₁, .inl rfl⟩) fun _ => ?_
      rw [Prog.yields_bind, yields_utcNow]
      refine yields_guard (fun _ => ⟨hdb₁, .inl rfl⟩) fun _ => ?_
      rw [Prog.yields_bind, yields_utcNow, Prog.yields_bind, yields_utcNow, Prog.yields_bind]
      refine yields_record (fun hcid => ⟨hdb₁, .inr ⟨rfl, hcid⟩⟩) ?_
      intro hcid audit h₂ ha₂ haction houtcome _
      have hdb₂ : h₂.db = db := ha₂.db.trans hdb₁
      rw [Prog.yields_bind]
      refine yields_flushRow ⟨hdb₂, .inl rfl⟩ ?_
      rw [Prog.yields_bind]
      refine yields_flushRow ⟨hdb₂, .inl rfl⟩ ?_
      rw [Intent.succeeded, ← haction]
      refine yields_leave hcid hdb₂ ?_ houtcome
      refine List.mem_cons_of_mem _ (List.mem_cons_of_mem _ ?_)
      rw [ha₂.buf]
      exact List.mem_cons_self

/-! ## The callback -/

variable (sv oidc) in
/-- The callback gets to its exchange with this actor: it has a code and no error, the provider is
enabled, and the cookie names a live session unless the intent is a login. -/
structure Reaches (now : Time) (db : Db) (attempt : StoredAttempt) (r : CallbackRequest)
    (actor : Option Actor) : Prop where
  error : r.error = none
  code : (r.code.getD "").isEmpty = false
  enabled : oidc.enabled r.provider = true
  login : attempt.intent = .login → actor = none
  session : attempt.intent ≠ .login →
    actor.isSome = true ∧ sessionActor sv r.secret r.hint now db = actor

/-- The actor is that of the attempt, and the link is refused. -/
def ActorRefused (settings : AuthSettings) (identity : Identity) (db : Db) (attempt : Attempt)
    (actor : Option Actor) (now later : Time) : Prop :=
  ∃ a session, actor = some a ∧ attempt.actorId = some a.userId ∧
    attempt.sessionId = some a.sessionId ∧ db.session a.sessionId = some session ∧
    LinkRefused settings identity db a session now later

variable (sv settings) in
/-- `finish` raises an error that the callback does not handle. -/
def FinishEscapes (identity : Identity) (db : Db) (attempt : Attempt) (actor : Option Actor)
    (now later : Time) : Prop :=
  identity.provider = attempt.provider ∧
    (attempt.intent = .login ∧ AddressRefused sv identity (subjectIdentity identity db) ∨
      attempt.intent = .link ∧ ActorRefused settings identity db attempt actor now later)

variable (sv settings) in
/-- The exchange, or `finish` after it, raises an error that the callback does not handle. -/
def ExchangeEscapes (db : Db) (attempt : StoredAttempt) (actor : Option Actor) (now later : Time) :
    Exchanged → Prop
  | .failed => False
  | .raised => True
  | .unencodable provider => provider = attempt.provider
  | .identity identity => FinishEscapes sv settings identity db attempt.toAttempt actor now later

variable (sv settings oidc) in
/-- An error escapes the callback. The clock is read once by `resolve` and then twice by
`authorize`. -/
def Escapes (o : Oracle (schema sv)) (db : Db) (attempt : StoredAttempt) (r : CallbackRequest) :
    Prop :=
  ∃ actor, Reaches sv oidc (o.clock 0) db attempt r actor ∧
    ExchangeEscapes sv settings db attempt actor (o.clock 1) (o.clock 2) r.exchange

variable (sv settings oidc) in
/-- The handshake leaves no evidence: no record can be made under its correlation id, or an error
escapes the callback. -/
def Unrecorded (o : Oracle (schema sv)) (db : Db) (attempt : StoredAttempt) (r : CallbackRequest) :
    Prop :=
  validCorrelationId r.correlationId = false ∨ Escapes sv settings oidc o db attempt r

/-- What is left of the condition when the exchange is reached. -/
theorem escapes_iff {db : Db} {attempt : StoredAttempt} {r : CallbackRequest}
    {actor : Option Actor} (hreaches : Reaches sv oidc (o.clock 0) db attempt r actor) :
    Escapes sv settings oidc o db attempt r ↔
      ExchangeEscapes sv settings db attempt actor (o.clock 1) (o.clock 2) r.exchange := by
  constructor
  · rintro ⟨other, hother, hescapes⟩
    obtain rfl : other = actor := by
      by_cases hlogin : attempt.intent = .login
      · rw [hother.login hlogin, hreaches.login hlogin]
      · rw [← (hother.session hlogin).2, (hreaches.session hlogin).2]
    exact hescapes
  · exact fun hescapes => ⟨actor, hreaches, hescapes⟩

/-- `finish` for an actor who is present. -/
theorem yields_finish_actor {escapes : Prop} {db : Db} {identity : Identity} {attempt : Attempt}
    {actor : Actor} {session : AuthSession} {user : User} {cid : String}
    (hp : Present db actor session user) (hdb : h.db = db) (hbuf : h.buf = [])
    (hintent : attempt.intent ≠ .login)
    (hescapes : escapes ↔ FinishEscapes sv settings identity db attempt (some actor)
      (o.clock h.count) (o.clock h.next.count)) :
    (finish sv settings identity attempt (some actor) cid).Yields o h
      (fun _ h' => ¬ escapes ∧ Logged cid db attempt.intent.succeeded h')
      (Raised escapes cid db) := by
  have hview : h.view = db := by
    rw [Here.view, hbuf]
    exact hdb
  -- an escape is that of a link by the actor of the attempt
  have hlink : escapes → identity.provider = attempt.provider ∧ attempt.intent = .link ∧
      attempt.actorId = some actor.userId ∧ attempt.sessionId = some actor.sessionId ∧
      LinkRefused settings identity db actor session (o.clock h.count) (o.clock h.next.count) := by
    intro he
    obtain ⟨hprovider, ⟨hlogin, -⟩ | ⟨hlink, a, x, ha, huser, hid, hx, hrefused⟩⟩ := hescapes.1 he
    · exact absurd hlogin hintent
    · cases ha
      cases hp.row.symm.trans hx
      exact ⟨hprovider, hlink, huser, hid, hrefused⟩
  rw [finish]
  refine yields_guard (fun hother => .of_handled hdb (fun he => hother (hlink he).1) rfl)
    fun hsame => ?_
  rw [lockEmail, Prog.yields_bind, yields_lock, Prog.yields_bind, yields_query, if_neg hintent,
    hview]
  refine yields_guard (fun hother => .of_handled hdb (fun he => ?_) rfl) fun hbound => ?_
  · obtain ⟨-, -, huser, hid, -⟩ := hlink he
    simp [huser, hid] at hother
  · simp only [ne_eq, decide_not, Bool.or_eq_true, Bool.not_eq_true', decide_eq_false_iff_not,
      not_or, not_not] at hbound
    cases hi : attempt.intent with
    | login => exact absurd hi hintent
    | reauthenticate =>
      have hnot : ¬ escapes := by
        intro he
        rw [(hlink he).2.1] at hi
        cases hi
      rw [if_pos rfl]
      exact (yields_finishReauthenticate hp hdb hbuf).mono (fun _ _ hlogged => ⟨hnot, hlogged⟩)
        fun _ _ hr => .of_not hnot hr
    | link =>
      have hrefused : escapes ↔ LinkRefused settings identity db actor session (o.clock h.count)
          (o.clock h.next.count) :=
        ⟨fun he => (hlink he).2.2.2.2, fun hr => hescapes.2 ⟨not_not.1 hsame, .inr ⟨hi, actor,
          session, rfl, hbound.1.symm, hbound.2.symm, hp.row, hr⟩⟩⟩
      rw [if_neg (by decide), hrefused]
      exact yields_finishLink hp hdb hbuf

/-- `finish` of a login. -/
theorem yields_finish_login {db : Db} {identity : Identity} {attempt : Attempt} {cid : String}
    {now later : Time} (hdb : h.db = db) (hbuf : h.buf = []) (hintent : attempt.intent = .login) :
    (finish sv settings identity attempt none cid).Yields o h
      (fun _ h' => ¬ FinishEscapes sv settings identity db attempt none now later ∧
        Logged cid db attempt.intent.succeeded h')
      (Raised (FinishEscapes sv settings identity db attempt none now later) cid db) := by
  have hview : h.view = db := by
    rw [Here.view, hbuf]
    exact hdb
  rw [finish]
  refine yields_guard (fun hother => .of_handled hdb (fun he => hother he.1) rfl) fun hsame => ?_
  have hrefused : FinishEscapes sv settings identity db attempt none now later ↔
      AddressRefused sv identity (subjectIdentity identity db) := by
    refine ⟨?_, fun hr => ⟨not_not.1 hsame, .inl ⟨hintent, hr⟩⟩⟩
    rintro ⟨-, ⟨-, hr⟩ | ⟨hlink, -⟩⟩
    · exact hr
    · cases hintent.symm.trans hlink
  rw [lockEmail, Prog.yields_bind, yields_lock, Prog.yields_bind, yields_query, if_pos hintent,
    hintent, hview, hrefused]
  exact yields_finishLogin hdb

/-- What the exchange comes to, for an actor who is present or for a login. -/
theorem yields_exchanged {db : Db} {attempt : StoredAttempt} {r : CallbackRequest}
    {actor : Option Actor} (hdb : h.db = db) {escapes : Prop}
    (hescapes : escapes ↔ ExchangeEscapes sv settings db attempt actor (o.clock 1) (o.clock 2)
      r.exchange)
    (hfinish : ∀ identity, r.exchange = .identity identity →
      (finish sv settings identity attempt.toAttempt actor r.correlationId).Yields o h
        (fun _ h' => ¬ escapes ∧ Logged r.correlationId db attempt.intent.succeeded h')
        (Raised escapes r.correlationId db)) :
    (match r.exchange with
      | .failed => throw .externalLoginFailed
      | .raised => throw .unexpected
      | .unencodable provider =>
        if provider ≠ attempt.provider then throw .externalLoginFailed else throw .unicodeError
      | .identity identity =>
        finish sv settings identity attempt.toAttempt actor r.correlationId :
        Tx sv AuthResult).Yields o h
      (fun _ h' => ¬ escapes ∧ Logged r.correlationId db attempt.intent.succeeded h')
      (Raised escapes r.correlationId db) := by
  cases he : r.exchange with
  | failed =>
    rw [he] at hescapes
    exact .of_handled hdb (fun hraised => (hescapes.1 hraised).elim) rfl
  | raised =>
    rw [he] at hescapes
    exact ⟨hdb, .inl ⟨hescapes.2 trivial, rfl⟩⟩
  | unencodable provider =>
    rw [he] at hescapes
    dsimp only
    split
    case isTrue hother => exact .of_handled hdb (fun hraised => hother (hescapes.1 hraised)) rfl
    case isFalse hsame => exact ⟨hdb, .inl ⟨hescapes.2 (not_not.1 hsame), rfl⟩⟩
  | identity identity => exact hfinish identity he

/-- The body of the `try` logs its success, or raises an error that is handled, unless an error
escapes it. -/
theorem yields_completeHandshake {db : Db} {attempt : StoredAttempt} {r : CallbackRequest} :
    (completeHandshake sv settings oidc attempt r).Yields o { db }
      (fun _ h' => ¬ Escapes sv settings oidc o db attempt r ∧
        Logged r.correlationId db attempt.intent.succeeded h')
      (Raised (Escapes sv settings oidc o db attempt r) r.correlationId db) := by
  rw [completeHandshake]
  refine yields_guard (fun hearly => .of_handled rfl ?_ rfl) fun hlate => ?_
  · rintro ⟨actor, hreaches, -⟩
    simp [hreaches.error, hreaches.code, hreaches.enabled] at hearly
  · simp only [Bool.or_eq_true, Bool.not_eq_true', not_or, Bool.not_eq_true, Bool.not_eq_false,
      Option.isSome_eq_false_iff, Option.isNone_iff_eq_none] at hlate
    obtain ⟨⟨herror, hcode⟩, henabled⟩ := hlate
    dsimp only
    by_cases hlogin : attempt.intent = .login
    · rw [if_pos hlogin, Prog.yields_bind, Prog.yields_pure]
      have hreaches : Reaches sv oidc (o.clock 0) db attempt r none :=
        ⟨herror, hcode, henabled, fun _ => rfl, fun hne => absurd hlogin hne⟩
      have hescapes : Escapes sv settings oidc o db attempt r ↔ _ := escapes_iff hreaches
      refine yields_exchanged rfl hescapes fun identity hidentity => ?_
      rw [hescapes, hidentity]
      exact yields_finish_login rfl rfl hlogin
    · rw [if_neg hlogin, Prog.yields_bind]
      refine yields_resolve ?_ ?_
      · intro h' ha hnone
        refine .of_handled ha.db ?_ rfl
        rintro ⟨actor, hreaches, -⟩
        obtain ⟨hsome, hactor⟩ := hreaches.session hlogin
        rw [← hactor, show sessionActor sv r.secret r.hint (o.clock 0) db = none from hnone] at hsome
        cases hsome
      · intro actor hactor
        obtain ⟨session, user, hp⟩ := present_of_sessionActor hactor
        rw [Prog.yields_bind, Prog.yields_pure]
        have hreaches : Reaches sv oidc (o.clock 0) db attempt r (some actor) :=
          ⟨herror, hcode, henabled, fun hl => absurd hl hlogin, fun _ => ⟨rfl, hactor⟩⟩
        have hescapes : Escapes sv settings oidc o db attempt r ↔ _ := escapes_iff hreaches
        refine yields_exchanged rfl hescapes fun identity hidentity => ?_
        refine yields_finish_actor hp rfl rfl hlogin ?_
        rw [hescapes, hidentity]
        exact Iff.rfl

/-- The record of a failed handshake is refused, or it is all that is committed. -/
theorem yields_recordFailedHandshake {db : Db} {attempt : StoredAttempt} {cid : String}
    {Q : Unit → Here (schema sv) → Prop} (hdb : h.db = db)
    (hE : ∀ h', h'.db = db → validCorrelationId cid = false → E .valueError h')
    (hQ : validCorrelationId cid = true → ∀ row h',
      h'.db = { db with audit := db.audit ++ [row] } →
      row.action = "identity.external_login_failed" → row.targetId = attempt.attemptId → Q () h') :
    (recordFailedHandshake sv attempt cid).Yields o h Q E := by
  rw [recordFailedHandshake, Prog.yields_bind]
  show (_ >>= fun _ => commit : Tx sv Unit).Yields o { h with buf := [] } Q E
  rw [Prog.yields_bind]
  refine yields_record (fun hcid => hE _ hdb hcid) fun hcid row h' ha haction _ htarget => ?_
  rw [yields_commit]
  refine hQ hcid row _ ?_ haction htarget
  show h'.view = _
  rw [Here.view, ha.buf, ha.db, ← hdb]
  rfl

/-- What a callback leaves: the record of its success, or that of the failed handshake alone, unless
it goes unrecorded, or else nothing. -/
theorem yields_callback {db : Db} {attempt : StoredAttempt} {r : CallbackRequest} :
    (callback sv settings oidc attempt r).Yields o { db }
      (fun _ h' => ¬ Unrecorded sv settings oidc o db attempt r ∧
        Logged r.correlationId db attempt.intent.succeeded h')
      fun e h' => (¬ Unrecorded sv settings oidc o db attempt r ∧ ∃ row : AuditRecord,
          h'.db = { db with audit := db.audit ++ [row] } ∧
            row.action = "identity.external_login_failed" ∧ row.targetId = attempt.attemptId) ∨
        h'.db = db ∧ (e.isDatabase = true ∨ Unrecorded sv settings oidc o db attempt r) := by
  rw [callback, Prog.yields_tryCatch]
  refine yields_completeHandshake.mono ?_ fun e h' hraised => ?_
  · rintro a h' ⟨hnot, hlogged⟩
    refine ⟨?_, hlogged⟩
    rintro (hcid | hescapes)
    · rw [hlogged.1] at hcid
      cases hcid
    · exact hnot hescapes
  · obtain ⟨hdb, hcases⟩ := hraised
    split
    case isTrue hhandled =>
      have he : e.isHandled = true := Error.isHandled_iff.2 hhandled
      have hnot : ¬ Escapes sv settings oidc o db attempt r := by
        rcases hcases with ⟨-, hother⟩ | ⟨hnot, -⟩
        · simp [he] at hother
        · exact hnot
      rw [Prog.yields_bind]
      refine yields_recordFailedHandshake hdb (fun h'' hdb' hcid => .inr ⟨hdb', .inr (.inl hcid)⟩) ?_
      intro hcid row h'' hrow haction htarget
      refine .inl ⟨?_, row, hrow, haction, htarget⟩
      rintro (hbad | hescapes)
      · rw [hcid] at hbad
        cases hbad
      · exact hnot hescapes
    case isFalse hother =>
      refine .inr ⟨hdb, ?_⟩
      rcases hcases with ⟨hescapes, -⟩ | ⟨-, hknown | ⟨-, hcid⟩⟩
      · exact .inr (.inr hescapes)
      · rw [Bool.or_eq_true, Error.isHandled_iff] at hknown
        exact .inl (hknown.resolve_left hother)
      · exact .inr (.inl hcid)

end

/-- **Every consumed attempt leaves evidence, unless an error escapes the callback or no record can
be made.** Whatever the provider answers and whatever the intent, a callback that runs on its own and
does not fail in the database commits what `finish` does with the record of its success, or exactly
the record of the failed handshake, if and only if none of these holds: the correlation id is not one
that `record_event` accepts; the exchange raises what it does not catch; the subject cannot be
encoded; the login is of a new subject whose address is refused as it is normalised; the link fails
because the session is not recent or because the identity is linked already. -/
theorem callback_accounted_iff (sv : Services) (settings : AuthSettings) (oidc : OidcSettings)
    (o : Oracle (schema sv)) (db : Db) (attempt : StoredAttempt) (r : CallbackRequest)
    (hdb : ¬ FailsInDatabase ((callback sv settings oidc attempt r).alone o { db }).1) :
    Accounted attempt db ((callback sv settings oidc attempt r).alone o { db }) ↔
      ¬ Unrecorded sv settings oidc o db attempt r := by
  have hyields : (callback sv settings oidc attempt r).Yields o { db } _ _ := yields_callback
  unfold Prog.Yields at hyields
  rcases hend : (callback sv settings oidc attempt r).alone o { db } with ⟨e | a, h'⟩
  · rw [hend] at hyields hdb
    rcases hyields with ⟨hnot, hrow⟩ | ⟨hsame, hfails | hun⟩
    · exact ⟨fun _ => hnot, fun _ => hrow⟩
    · exact absurd hfails hdb
    · refine ⟨?_, fun hnot => absurd hun hnot⟩
      rintro ⟨row, hrow, -⟩
      have hlength := congrArg (fun d : Db => d.audit.length) (hsame.symm.trans hrow)
      simp at hlength
  · rw [hend] at hyields
    exact ⟨fun _ => hyields.1, fun _ => hyields.2.2⟩

namespace OidcFixture

open AuthFixture

/-- A microsecond past the epoch, with identifiers from a hundred on. -/
def oracle : Oracle (schema services) where
  clock _ := 1
  id n := BitVec.ofNat 128 (100 + n)
  text _ := "salt"

/-- The database where her identity at Google is linked already. -/
def linkedDb : Db :=
  { db with
    identities := ⟨[{ id := 10, userId := 1, provider := "google", subject := "ada"
                      emailSnapshot := none, emailVerified := false, lastLoginAt := 0 }],
      by simp [Table.Keyed]⟩ }

end OidcFixture

/-- She links an identity that nobody has, and the link is recorded. -/
theorem callback_accounted_linked :
    Accounted OidcFixture.attempt AuthFixture.db
      ((callback OidcFixture.services {} OidcFixture.oidc OidcFixture.attempt
        OidcFixture.answer).alone OidcFixture.oracle { db := AuthFixture.db }) := by
  have hend : ((callback OidcFixture.services {} OidcFixture.oidc OidcFixture.attempt
      OidcFixture.answer).alone OidcFixture.oracle { db := AuthFixture.db }).1 = .ok .done := rfl
  rw [callback_accounted_iff _ _ _ _ _ _ _ (by rw [hend]; exact id)]
  rintro (hcid | ⟨actor, -, -, ⟨hlogin, -⟩ | ⟨-, a, session, -, huser, -, hsession, -, hrefused⟩⟩)
  · exact absurd hcid (by decide)
  · cases hlogin
  rcases hrefused with hstale | hlinked
  · have hrow : session ∈ AuthFixture.db.sessions.rows := Store.mem_of_get hsession
    rw [List.mem_singleton.1 hrow] at hstale
    exact absurd hstale (by decide)
  · rw [← Option.some.inj huser] at hlinked
    exact absurd hlinked (by decide)

/-- She links an identity that is hers already. The callback raises `ProviderAlreadyLinkedError`,
which is no failure of the database, and the consumed attempt leaves no record. -/
theorem callback_unrecorded :
    ¬ FailsInDatabase ((callback OidcFixture.services {} OidcFixture.oidc OidcFixture.attempt
        OidcFixture.answer).alone OidcFixture.oracle { db := OidcFixture.linkedDb }).1 ∧
      ¬ Accounted OidcFixture.attempt OidcFixture.linkedDb
        ((callback OidcFixture.services {} OidcFixture.oidc OidcFixture.attempt
          OidcFixture.answer).alone OidcFixture.oracle { db := OidcFixture.linkedDb }) := by
  have hend : (callback OidcFixture.services {} OidcFixture.oidc OidcFixture.attempt
      OidcFixture.answer).alone OidcFixture.oracle { db := OidcFixture.linkedDb } =
        (.error .providerAlreadyLinked, { db := OidcFixture.linkedDb, count := 3 }) := rfl
  rw [hend]
  refine ⟨by simp [FailsInDatabase, Error.isDatabase], ?_⟩
  rintro ⟨row, hrow, -⟩
  have hlength := congrArg (fun d : Db => d.audit.length) hrow
  simp at hlength

end Ekumidayomi
