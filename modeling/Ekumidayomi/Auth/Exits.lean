import Ekumidayomi.Auth.Statements

/-!
# What the calls of the identity services commit

Each way in which a call can come to `uow.commit()` is an `Exit`: the writes that it commits, but
for outbox messages and audit records, and what the transaction has made certain about the database
it commits to. `Commits` adds the commit of a wrong code. That every call commits only so is proved
in `Auth.Commits`; the results about whole runs are case analyses over the exits.
-/

namespace Ekumidayomi

open Transact

/-! ## What a sequence of writes does to one table -/

/-- The table that a write changes. -/
inductive TableName
  | users | credentials | sessions | challenges | identities | evidence
  deriving DecidableEq, Repr

def Op.table : Op → TableName
  | .insertUser _ | .setAccess _ _ _ | .setVerified _ _ => .users
  | .insertCredential _ | .setPassword _ _ => .credentials
  | .insertSession _ | .revokeSession _ _ | .setAuthenticated _ _ => .sessions
  | .insertChallenge _ | .deleteChallenge _ | .setAttempts _ _ | .setConsumed _ _ => .challenges
  | .insertIdentity _ | .deleteIdentity _ | .setLastLogin _ _ => .identities
  | .addEvent _ | .addAudit _ => .evidence

/-- A sequence of writes, the last one first. -/
def applyOps (ops : List Op) (db : Db) : Db := ops.foldr Op.apply db

@[simp] theorem applyOps_nil (db : Db) : applyOps [] db = db := rfl

@[simp] theorem applyOps_cons (op : Op) (ops : List Op) (db : Db) :
    applyOps (op :: ops) db = op.apply (applyOps ops db) := rfl

/-- The writes to one table. -/
def on (name : TableName) (ops : List Op) : List Op := ops.filter (·.table = name)

section
variable {sv : Services} {name : TableName} {ops ops' : List Op} {db db' : Db} {α : Type}

@[simp] theorem on_nil : on name [] = [] := rfl

@[simp] theorem on_cons {op : Op} :
    on name (op :: ops) = if op.table = name then op :: on name ops else on name ops := by
  simp [on, List.filter_cons]

@[simp] theorem on_append : on name (ops ++ ops') = on name ops ++ on name ops' :=
  List.filter_append ..

/-- Evidence is no table of accounts. -/
theorem on_core (h : name ≠ .evidence) : on name (core ops) = on name ops := by
  rw [on, core, List.filter_filter]
  refine List.filter_congr fun op _ => ?_
  cases op <;> simp [Op.table, Op.isEvidence, h.symm]

@[simp] theorem core_nil : core [] = [] := rfl

@[simp] theorem core_cons {op : Op} :
    core (op :: ops) = if op.isEvidence then core ops else op :: core ops := by
  cases hop : op.isEvidence <;> simp [core, hop]

@[simp] theorem core_append : core (ops ++ ops') = core ops ++ core ops' := List.filter_append ..

theorem core_revokes (h : ∀ op ∈ ops, op.isRevoke = true) : core ops = ops := by
  refine List.filter_eq_self.2 fun op hop => ?_
  have hrevoke := h op hop
  cases op <;> simp_all [Op.isRevoke, Op.isEvidence]

theorem mem_core {op : Op} (h : op.isEvidence = false) : op ∈ core ops ↔ op ∈ ops := by
  simp [core, h]

theorem on_revokes (h : ∀ op ∈ ops, op.isRevoke = true) (hname : name ≠ .sessions) :
    on name ops = [] := by
  refine List.filter_eq_nil_iff.2 fun op hop => ?_
  have hrevoke := h op hop
  cases op <;> simp only [Op.isRevoke, Bool.false_eq_true] at hrevoke
  simp [Op.table, hname.symm]

/-- A challenge that is issued, and the one it replaces. -/
theorem on_issued {row : EmailChallenge} {deleted : Option EmailChallenge}
    (hname : name ≠ .challenges) :
    on name (.insertChallenge row :: (deleted.map Op.deleteChallenge).toList) = [] := by
  cases deleted <;> simp [Op.table, hname.symm]

/-- A change of access, with the sessions it revokes. -/
theorem on_access {id : UUID} {role : String} {isActive : Bool}
    (h : ∀ op ∈ ops, op.isRevoke = true) :
    on .users (ops ++ [.setAccess id role isActive]) = [.setAccess id role isActive] := by
  simp [on_revokes h, Op.table]

/-- The database with one of its tables. -/
def Db.part : TableName → Db → Db
  | .users, db => { users := db.users }
  | .credentials, db => { credentials := db.credentials }
  | .sessions, db => { sessions := db.sessions }
  | .challenges, db => { challenges := db.challenges }
  | .identities, db => { identities := db.identities }
  | .evidence, db => { outbox := db.outbox, audit := db.audit }

theorem part_apply_ne {op : Op} (h : op.table ≠ name) : (op.apply db).part name = db.part name := by
  cases op <;> cases name <;> first | rfl | exact absurd rfl h

theorem part_apply_congr {op : Op} (h : db.part name = db'.part name) :
    (op.apply db).part name = (op.apply db').part name := by
  cases name <;> simp only [Db.part, Db.mk.injEq, true_and, and_true] at h ⊢ <;>
    cases op <;> simp only [Op.apply, h, and_self]

/-- A table shows the writes to it and no others. -/
theorem part_on (name : TableName) (ops : List Op) :
    (applyOps ops db).part name = (applyOps (on name ops) db).part name := by
  induction ops with
  | nil => rfl
  | cons op ops ih =>
    rw [on_cons]
    split
    · exact part_apply_congr ih
    case isFalse htable => exact (part_apply_ne htable).trans ih

variable {c : Ctx (schema sv)}

/-! The tables as a transaction sees them, by the writes that are no evidence. -/

theorem view_part (h : core c.buf = ops) (hname : name ≠ .evidence) :
    Db.part name (c.view db) = Db.part name (applyOps (on name ops) db) := by
  rw [← h, on_core hname]
  exact part_on name c.buf

theorem view_user (h : core c.buf = ops) {id : UUID} :
    Db.user (c.view db) id = Db.user (applyOps (on .users ops) db) id := by
  have hpart : Db.part .users (c.view db) = _ := view_part h (by decide)
  have hrow := congrArg (fun d : Db => d.user id) hpart
  exact hrow

theorem view_credential (h : core c.buf = ops) {id : UUID} :
    Db.credential (c.view db) id =
      Db.credential (applyOps (on .credentials ops) db) id := by
  have hpart : Db.part .credentials (c.view db) = _ := view_part h (by decide)
  have hrow := congrArg (fun d : Db => d.credential id) hpart
  exact hrow

theorem view_session (h : core c.buf = ops) {id : UUID} :
    Db.session (c.view db) id = Db.session (applyOps (on .sessions ops) db) id := by
  have hpart : Db.part .sessions (c.view db) = _ := view_part h (by decide)
  have hrow := congrArg (fun d : Db => d.session id) hpart
  exact hrow

theorem view_challenge (h : core c.buf = ops) {id : UUID} :
    Db.challenge (c.view db) id =
      Db.challenge (applyOps (on .challenges ops) db) id := by
  have hpart : Db.part .challenges (c.view db) = _ := view_part h (by decide)
  have hrow := congrArg (fun d : Db => d.challenge id) hpart
  exact hrow

theorem view_identity (h : core c.buf = ops) {id : UUID} :
    Db.identity (c.view db) id =
      Db.identity (applyOps (on .identities ops) db) id := by
  have hpart : Db.part .identities (c.view db) = _ := view_part h (by decide)
  have hrow := congrArg (fun d : Db => d.identity id) hpart
  exact hrow

end

/-! ## The exits -/

/-- A user that the transaction has created. -/
structure NewUser {sv : Services} (c : Ctx (schema sv)) (user : User) : Prop where
  role : user.role = Role.customer.value
  active : user.isActive = true
  drawn : user.id ∈ c.drawn

/-- An identity that the transaction attaches to a user. -/
structure Attached {sv : Services} (c : Ctx (schema sv)) (identity : Identity) (userId : UUID)
    (row : ExternalIdentity) : Prop where
  user : row.userId = userId
  provider : row.provider = identity.provider.value
  subject : row.subject = identity.subject
  drawn : row.id ∈ c.drawn
  only : c.Sure fun db => ∀ id x, db.identity id = some x →
    ¬ (x.provider = row.provider ∧ x.subject = row.subject)

theorem Attached.le {sv : Services} {c c' : Ctx (schema sv)} {identity : Identity} {userId : UUID}
    {row : ExternalIdentity} (h : Attached c identity userId row) (hle : c.Le c') :
    Attached c' identity userId row :=
  { h with drawn := hle.drawn h.drawn, only := hle.sure h.only }

/-- The instant is one that the transaction has read. -/
def ReadAt {sv : Services} (c : Ctx (schema sv)) (t : Time) : Prop :=
  ∃ reading ∈ c.clocks, reading.2 = t

/-- The calls that send a code. -/
def Call.begins : Call → Bool
  | .beginRegistration _ _ | .beginReset _ => true
  | _ => false

/-- The calls that bring a code back. -/
def Call.completes : Call → Bool
  | .completeRegistration _ | .completeReset _ _ => true
  | _ => false

/-- The calls that may commit without a change to an account. -/
def Call.mayIdle : Call → Bool
  | .bootstrap _ _ _ | .unlink _ _ _ => true
  | call => call.begins || call.completes

theorem Call.mayIdle_of_begins {call : Call} (h : call.begins = true) : call.mayIdle = true := by
  cases call <;> first | rfl | cases h

theorem Call.mayIdle_of_completes {call : Call} (h : call.completes = true) :
    call.mayIdle = true := by
  cases call <;> first | rfl | cases h

/-- A way in which a call comes to commit: its writes, the last one first, and what is certain about
the database. -/
inductive Exit (sv : Services) (settings : AuthSettings) : Call → Ctx (schema sv) → Db → Prop
  | nothing {call : Call} {c : Ctx (schema sv)} {db : Db} : core c.buf = [] →
      call.mayIdle = true → Exit sv settings call c db
  | issued {call : Call} {c : Ctx (schema sv)} {db : Db} {row : EmailChallenge}
      {deleted : Option EmailChallenge} :
      core c.buf = .insertChallenge row :: (deleted.map Op.deleteChallenge).toList →
      Issues settings c row deleted → call.begins = true → Exit sv settings call c db
  | registered {r : CompleteRequest} {c : Ctx (schema sv)} {db : Db} {row : EmailChallenge}
      {user : User} {t verifiedAt : Time} {salt : String} :
      core c.buf = [.insertCredential { userId := user.id, passwordHash := sv.hash salt r.password },
        .setVerified user.id verifiedAt, .insertUser user, .setConsumed row.id t,
        .setAttempts row.id (row.attempts + 1)] →
      Checked settings c row r.challengeId r.code .registration → NewUser c user →
      sv.normalizeEmail row.email = some user.email →
      Exit sv settings (.completeRegistration r) c db
  | loggedIn {r : LoginRequest} {c : Ctx (schema sv)} {db : Db} {user : User}
      {credential : PasswordCredential} {session : AuthSession} {secret : String}
      {revs rehash : List Op} :
      core c.buf = revs ++ .insertSession session :: rehash →
      (∀ op ∈ revs, op.isRevoke = true) →
      (rehash = [] ∨ ∃ hash, rehash = [.setPassword user.id hash]) →
      Issued c user secret session → .user user.id ∈ c.held →
      db.credential user.id = some credential →
      sv.verify credential.passwordHash r.password = true →
      .verified user.id credential.passwordHash ∈ c.marks → Exit sv settings (.login r) c db
  | loggedOut {secret : Option String} {hint : Option UUID} {c : Ctx (schema sv)} {db : Db}
      {revs : List Op} : core c.buf = revs → (∀ op ∈ revs, op.isRevoke = true) →
      Exit sv settings (.logout secret hint) c db
  | loggedOutAll {actor : Actor} {c : Ctx (schema sv)} {db : Db} {revs : List Op} :
      core c.buf = revs → (∀ op ∈ revs, op.isRevoke = true) → .user actor.userId ∈ c.held →
      Db.AllRevoked (c.view db) actor.userId → Exit sv settings (.logoutAll actor) c db
  | reauthenticated {actor : Actor} {password : String} {c : Ctx (schema sv)} {db : Db} {t : Time} :
      core c.buf = [.setAuthenticated actor.sessionId t] → ReadAt c t →
      Exit sv settings (.reauthenticate actor password) c db
  | reset {r : CompleteRequest} {correlationId : String} {c : Ctx (schema sv)} {db : Db}
      {row : EmailChallenge} {user : User} {credential : PasswordCredential} {t : Time}
      {salt : String} {revs : List Op} :
      core c.buf = .setPassword user.id (sv.hash salt r.password) :: (revs ++
        [.setConsumed row.id t, .setAttempts row.id (row.attempts + 1)]) →
      (∀ op ∈ revs, op.isRevoke = true) →
      Checked settings c row r.challengeId r.code .passwordReset → .user user.id ∈ c.held →
      sv.normalizeEmail row.email = some user.email → db.user user.id = some user →
      db.credential user.id = some credential → Db.AllRevoked (c.view db) user.id →
      Exit sv settings (.completeReset r correlationId) c db
  | accessChanged {actor : Actor} {targetId : UUID} {role : Option Role} {isActive : Option Bool}
      {correlationId : String} {c : Ctx (schema sv)} {db : Db} {target : User} {newRole : String}
      {newActive : Bool} {revs : List Op} :
      core c.buf = revs ++ [.setAccess targetId newRole newActive] →
      (∀ op ∈ revs, op.isRevoke = true) → .user targetId ∈ c.held →
      db.user targetId = some target →
      (newRole = Role.admin.value → target.emailVerifiedAt.isSome = true) →
      (target.isAdmin = true → ¬ (newRole = Role.admin.value ∧ newActive = true) →
        ∃ id u, id ≠ targetId ∧ db.user id = some u ∧ u.isAdmin = true) →
      Db.AllRevoked (c.view db) targetId →
      Exit sv settings (.changeAccess actor targetId role isActive correlationId) c db
  | bootstrapped {email password : String} {breached : Option Bool} {c : Ctx (schema sv)} {db : Db}
      {user : User} {credential : PasswordCredential} {verifiedAt : Time} :
      core c.buf = [.insertCredential credential, .setVerified user.id verifiedAt,
        .setAccess user.id Role.admin.value user.isActive, .insertUser user] →
      credential.userId = user.id → NewUser c user →
      (∀ id u, db.user id = some u → u.isAdmin = false) →
      Exit sv settings (.bootstrap email password breached) c db
  | entered {identity : Identity} {attempt : Attempt} {actor : Option Actor}
      {correlationId : String} {c : Ctx (schema sv)} {db : Db} {external : ExternalIdentity}
      {user : User} {session : AuthSession} {secret : String} {now lastLoginAt : Time} :
      core c.buf = [.setAuthenticated session.id (now - seconds (settings.recentAuthSeconds + 1)),
        .insertSession session, .setLastLogin external.id lastLoginAt] →
      attempt.intent = .login → Issued c user secret session → ReadAt c now →
      (∃ row, db.identity external.id = some row ∧ row.provider = identity.provider.value ∧
        row.subject = identity.subject ∧ row.userId = user.id) →
      Exit sv settings (.finish identity attempt actor correlationId) c db
  | joined {identity : Identity} {attempt : Attempt} {actor : Option Actor}
      {correlationId : String} {c : Ctx (schema sv)} {db : Db} {row : ExternalIdentity}
      {user : User} {session : AuthSession} {secret : String} {now verifiedAt : Time} :
      core c.buf = [.setAuthenticated session.id (now - seconds (settings.recentAuthSeconds + 1)),
        .insertSession session, .insertIdentity row, .setVerified user.id verifiedAt,
        .insertUser user] →
      attempt.intent = .login → NewUser c user → Attached c identity user.id row →
      Issued c { user with emailVerifiedAt := some verifiedAt } secret session → ReadAt c now →
      Exit sv settings (.finish identity attempt actor correlationId) c db
  | linked {identity : Identity} {attempt : Attempt} {actor : Actor} {correlationId : String}
      {c : Ctx (schema sv)} {db : Db} {row : ExternalIdentity} {now : Time} :
      core c.buf = [.insertIdentity row] → attempt.intent = .link →
      Attached c identity actor.userId row →
      Recent c actor.userId actor.sessionId settings.recentAuthSeconds now →
      Exit sv settings (.finish identity attempt (some actor) correlationId) c db
  | confirmed {identity : Identity} {attempt : Attempt} {actor : Actor} {correlationId : String}
      {c : Ctx (schema sv)} {db : Db} {external : ExternalIdentity} {t lastLoginAt : Time} :
      core c.buf = [.setLastLogin external.id lastLoginAt, .setAuthenticated actor.sessionId t] →
      attempt.intent = .reauthenticate → ReadAt c t →
      Exit sv settings (.finish identity attempt (some actor) correlationId) c db
  | unlinked {actor : Actor} {provider : ProviderName} {correlationId : String}
      {c : Ctx (schema sv)} {db : Db} {row : ExternalIdentity} :
      core c.buf = [.deleteIdentity row] → .user actor.userId ∈ c.held →
      (∀ x, db.identity row.id = some x → x.userId = actor.userId) →
      (db.credential actor.userId ≠ none ∨
        ∃ r ∈ c.reads, .user actor.userId ∈ r.held ∧
          ∃ x, r.db.identity x.id = some x ∧ x.id ≠ row.id ∧ x.userId = actor.userId) →
      Exit sv settings (.unlink actor provider correlationId) c db

/-- The transaction has compared no wrong code. -/
def NoGuess {sv : Services} (c : Ctx (schema sv)) : Prop := ∀ id, Note.wrongCode id ∉ c.marks

/-- The commit of a wrong code: the attempt is counted. -/
structure Guessed {sv : Services} (settings : AuthSettings) (call : Call) (c : Ctx (schema sv))
    (db : Db) (row : EmailChallenge) : Prop where
  completes : call.completes = true
  buf : core c.buf = [.setAttempts row.id (row.attempts + 1)]
  marks : c.marks = [.wrongCode row.id]
  there : db.challenge row.id = some row
  attempts : row.attempts < settings.challengeAttempts

/-- What a call may commit. It does so in its first transaction. -/
def Commits (sv : Services) (settings : AuthSettings) (call : Call) (c : Ctx (schema sv))
    (db : Db) : Prop :=
  c.epoch = 0 ∧ ((∃ row, Guessed settings call c db row) ∨
    (NoGuess c ∧ Exit sv settings call c db))

/-! ## Administrators stay verified -/

section
variable {sv : Services} {settings : AuthSettings} {call : Call} {c : Ctx (schema sv)}
  {db : Db} {ops : List Op}

/-- A commit that writes no user leaves every user as it was. -/
theorem view_user_eq (h : core c.buf = ops) (hnone : on .users ops = []) (id : UUID) :
    Db.user (c.view db) id = db.user id := by
  rw [view_user h, hnone]
  rfl

/-- The users after an account has been created and verified. -/
theorem view_user_new {user : User} {t : Time} (h : core c.buf = ops)
    (hon : on .users ops = [.setVerified user.id t, .insertUser user])
    (hnew : db.user user.id = none) (id : UUID) :
    Db.user (c.view db) id =
      if id = user.id then some { user with emailVerifiedAt := some t } else db.user id := by
  rw [view_user h, hon]
  simp only [applyOps_cons, applyOps_nil, Db.user, Op.apply, Store.get_modify]
  by_cases hid : id = user.id
  · rw [if_pos hid, if_pos hid, hid, Store.get_insert_self hnew]
    rfl
  · rw [if_neg hid, if_neg hid, Store.get_insert_ne (Ne.symm hid)]

/-- The users after the first administrator has been created. -/
theorem view_user_admin {user : User} {t : Time} {role : String} {isActive : Bool}
    (h : core c.buf = ops)
    (hon : on .users ops =
      [.setVerified user.id t, .setAccess user.id role isActive, .insertUser user])
    (hnew : db.user user.id = none) (id : UUID) :
    Db.user (c.view db) id =
      if id = user.id then some { user with role, isActive, emailVerifiedAt := some t }
      else db.user id := by
  rw [view_user h, hon]
  simp only [applyOps_cons, applyOps_nil, Db.user, Op.apply, Store.get_modify]
  by_cases hid : id = user.id
  · rw [if_pos hid, if_pos hid, if_pos hid, hid, Store.get_insert_self hnew]
    rfl
  · rw [if_neg hid, if_neg hid, if_neg hid, Store.get_insert_ne (Ne.symm hid)]

/-- The users after the access of one has been changed. -/
theorem view_user_access {target : User} {targetId : UUID} {role : String} {isActive : Bool}
    (h : core c.buf = ops) (hon : on .users ops = [.setAccess targetId role isActive])
    (htarget : db.user targetId = some target) (id : UUID) :
    Db.user (c.view db) id =
      if id = targetId then some { target with role, isActive } else db.user id := by
  rw [view_user h, hon]
  simp only [applyOps_cons, applyOps_nil, Db.user, Op.apply, Store.get_modify] at htarget ⊢
  by_cases hid : id = targetId
  · rw [if_pos hid, if_pos hid, hid, htarget]
    rfl
  · rw [if_neg hid, if_neg hid]

/-- The sessions after one has been issued and dated back. -/
theorem view_session_issued {session : AuthSession} {t : Time} (h : core c.buf = ops)
    (hon : on .sessions ops = [.setAuthenticated session.id t, .insertSession session])
    (hnew : db.session session.id = none) (id : UUID) :
    Db.session (c.view db) id =
      if id = session.id then some { session with authenticatedAt := t } else db.session id := by
  rw [view_session h, hon]
  simp only [applyOps_cons, applyOps_nil, Db.session, Op.apply, Store.get_modify]
  by_cases hid : id = session.id
  · rw [if_pos hid, if_pos hid, hid, Store.get_insert_self hnew]
    rfl
  · rw [if_neg hid, if_neg hid, Store.get_insert_ne (Ne.symm hid)]

/-- A session that is new to the database is one that the transaction inserts. -/
theorem session_inserted {id : UUID} {x : AuthSession} (hnone : db.session id = none)
    (hx : Db.session (c.view db) id = some x) :
    ∃ row, Op.insertSession row ∈ core c.buf ∧ row.id = id ∧ row.userId = x.userId := by
  have hbuf : ∀ (ops : List Op) x, (applyOps ops db).session id = some x →
      ∃ row, Op.insertSession row ∈ ops ∧ row.id = id ∧ row.userId = x.userId := by
    intro ops
    induction ops with
    | nil =>
      intro x hx
      rw [applyOps_nil, hnone] at hx
      cases hx
    | cons op ops ih =>
      intro x hx
      rcases Db.session_apply_keeps hx with ⟨rfl, hid, -⟩ | ⟨y, hy, huser, -⟩
      · exact ⟨x, List.mem_cons_self, hid, rfl⟩
      · obtain ⟨row, hrow, hid, hrowUser⟩ := ih y hy
        exact ⟨row, List.mem_cons_of_mem _ hrow, hid, hrowUser.trans huser.symm⟩
  obtain ⟨row, hrow, hid, huser⟩ := hbuf c.buf x hx
  exact ⟨row, (mem_core rfl).2 hrow, hid, huser⟩

/-- A user that the transaction inserts is there. -/
theorem view_user_inserted {user : User} (h : .insertUser user ∈ c.buf) :
    Db.user (c.view db) user.id ≠ none := by
  have hbuf : ∀ ops : List Op, .insertUser user ∈ ops →
      ∃ x, (applyOps ops db).user user.id = some x := by
    intro ops
    induction ops with
    | nil => exact nofun
    | cons op ops ih =>
      intro hmem
      cases hold : (applyOps ops db).user user.id with
      | some y => exact Db.user_apply_of_some hold
      | none =>
        rcases List.mem_cons.1 hmem with rfl | hmem
        · exact ⟨user, Store.get_insert_self hold⟩
        · obtain ⟨x, hx⟩ := ih hmem
          rw [hold] at hx
          cases hx
  obtain ⟨x, hx⟩ := hbuf c.buf h
  intro hnone
  rw [show Db.user (c.view db) user.id = some x from hx] at hnone
  cases hnone

theorem session_eq_none (hs : c.Sees db) {id : UUID} (hid : id ∈ c.drawn) :
    db.session id = none := by
  by_contra hne
  exact hs.2 id hid (.inr (.inr (.inl hne)))

theorem user_eq_none (hs : c.Sees db) {id : UUID} (hid : id ∈ c.drawn) : db.user id = none := by
  by_contra hne
  exact hs.2 id hid (.inl hne)

/-- What an exit does to the users. -/
inductive UserChange (c : Ctx (schema sv)) (db : Db) : Call → Prop
  | same {call : Call} : (∀ id, Db.user (c.view db) id = db.user id) → UserChange c db call
  | created {call : Call} {user : User} {t : Time} : NewUser c user → .insertUser user ∈ c.buf →
      (∀ id, Db.user (c.view db) id =
        if id = user.id then some { user with emailVerifiedAt := some t } else db.user id) →
      UserChange c db call
  | bootstrapped {email password : String} {breached : Option Bool} {user : User} {t : Time} :
      NewUser c user → (∀ id u, db.user id = some u → u.isAdmin = false) →
      (∀ id, Db.user (c.view db) id = if id = user.id then
        some { user with role := Role.admin.value, emailVerifiedAt := some t } else db.user id) →
      UserChange c db (.bootstrap email password breached)
  | access {actor : Actor} {targetId : UUID} {role : Option Role} {isActive : Option Bool}
      {correlationId : String} {target : User} {newRole : String} {newActive : Bool} :
      db.user targetId = some target →
      (newRole = Role.admin.value → target.emailVerifiedAt.isSome = true) →
      (target.isAdmin = true → ¬ (newRole = Role.admin.value ∧ newActive = true) →
        ∃ id u, id ≠ targetId ∧ db.user id = some u ∧ u.isAdmin = true) →
      (∀ id, Db.user (c.view db) id = if id = targetId then
        some { target with role := newRole, isActive := newActive } else db.user id) →
      UserChange c db (.changeAccess actor targetId role isActive correlationId)

theorem Exit.users (h : Exit sv settings call c db) (hs : c.Sees db) :
    UserChange c db call := by
  cases h with
  | nothing hbuf => exact .same (view_user_eq hbuf rfl)
  | issued hbuf => exact .same (view_user_eq hbuf (on_issued (by decide)))
  | registered hbuf _ hnew =>
    refine .created hnew ?_ (view_user_new hbuf rfl (user_eq_none hs hnew.drawn))
    exact (mem_core rfl).1 (hbuf ▸ by simp)
  | loggedIn hbuf hrevs hrehash =>
    refine .same (view_user_eq hbuf ?_)
    rcases hrehash with rfl | ⟨hash, rfl⟩ <;> simp [on_revokes hrevs, Op.table]
  | loggedOut hbuf hrevs | loggedOutAll hbuf hrevs =>
    exact .same (view_user_eq hbuf (on_revokes hrevs (by decide)))
  | reauthenticated hbuf | entered hbuf | linked hbuf | confirmed hbuf | unlinked hbuf =>
    exact .same (view_user_eq hbuf rfl)
  | reset hbuf hrevs =>
    exact .same (view_user_eq hbuf (by simp [on_revokes hrevs, Op.table]))
  | accessChanged hbuf hrevs _ htarget hverified hothers =>
    exact .access htarget hverified hothers (view_user_access hbuf (on_access hrevs) htarget)
  | bootstrapped hbuf _ hnew hadmins =>
    exact .bootstrapped hnew hadmins (view_user_admin hbuf rfl (user_eq_none hs hnew.drawn))
  | joined hbuf _ hnew =>
    refine .created hnew ?_ (view_user_new hbuf rfl (user_eq_none hs hnew.drawn))
    exact (mem_core rfl).1 (hbuf ▸ by simp)

/-- Every commit leaves the administrators verified. -/
theorem Exit.adminsVerified (h : Exit sv settings call c db) (hs : c.Sees db)
    (hv : db.AdminsVerified) : Db.AdminsVerified (c.view db) := by
  intro id u hu hrole
  cases h.users hs with
  | same hsame => exact hv id u (hsame id ▸ hu) hrole
  | created _ _ hview | bootstrapped _ _ hview =>
    rw [hview] at hu
    split at hu
    · cases hu
      rfl
    · exact hv id u hu hrole
  | access htarget hverified _ hview =>
    rw [hview] at hu
    split at hu
    · cases hu
      exact hverified hrole
    · exact hv id u hu hrole

end

end Ekumidayomi
