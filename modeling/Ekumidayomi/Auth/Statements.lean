import Ekumidayomi.Auth.Rules

/-!
# What the statements of the identity services make certain

One rule for each function of `Auth.Transactions` that a call uses. A rule says which writes the
function adds, which locks it takes, and what it leaves certain about the committed database.
-/

namespace Ekumidayomi

open Transact

/-- Writes that no table of accounts shows. -/
def Op.isEvidence : Op → Bool
  | .addEvent _ | .addAudit _ => true
  | _ => false

/-- The writes but those. -/
def core (ops : List Op) : List Op := ops.filter (!·.isEvidence)

def Op.isRevoke : Op → Bool
  | .revokeSession _ _ => true
  | _ => false

section
variable {sv : Services} {settings : AuthSettings} {α β : Type}
  {G : Ctx (schema sv) → Db → Prop} {N : Note → Ctx (schema sv) → Prop}
  {E : Error → Ctx (schema sv) → Prop} {c c' c'' : Ctx (schema sv)} {ops ops' : List Op}

/-! ## Users -/

/-- The address of a user never changes. -/
theorem sure_email {r : Read (schema sv)} {u : User} (hr : r ∈ c.reads)
    (hu : r.db.user u.id = some u) :
    c.Sure fun db => ∀ x, db.user u.id = some x → x.email = u.email := by
  have huses : r.db.Uses u.id := .inl (by simp [hu])
  refine sure_of_read hr (fun op d hop ih x hx => ?_) fun x hx => ?_
  · rcases Db.user_apply_keeps hx with ⟨rfl, hid, -⟩ | ⟨y, hy, hemail, -⟩
    · exact absurd (hid ▸ huses) (hop.makes x.id List.mem_cons_self)
    · exact hemail.trans (ih y hy)
  · rw [hu] at hx
    cases hx
    rfl

theorem wp_findUserByEmail {email : String} {Q : Option User → Ctx (schema sv) → Prop}
    (hplain : Plain c (·.users))
    (hinvalid : sv.normalizeEmail email = none → E .invalidEmail c)
    (hnone : ∀ c', Goes c [] c' → Q none c')
    (hsome : ∀ u c', Goes c [] c' → sv.normalizeEmail email = some u.email →
      (c'.Sure fun db => ∀ x, db.user u.id = some x → x.email = u.email) → Q (some u) c') :
    wp G N Q E (findUserByEmail sv email) c := by
  rw [findUserByEmail]
  split
  case h_1 hnorm => exact hinvalid hnorm
  case h_2 normalized hnorm =>
    rw [wp_query]
    intro db t _ _ _
    rw [show Db.users (c.view db) = db.users from hplain db]
    cases hu : db.users.rows.find? (·.email = normalized) with
    | none => exact hnone _ (.observe db t)
    | some u =>
      have hemail : u.email = normalized := by simpa using List.find?_some hu
      refine hsome u _ (.observe db t) (hemail ▸ hnorm) ?_
      exact sure_email (r := ⟨c.held, db, t⟩) List.mem_cons_self
        (Store.mem_rows.1 (List.mem_of_find?_eq_some hu))

theorem wp_findUserById {id : UUID} {Q : Option User → Ctx (schema sv) → Prop}
    (hplain : Plain c (·.user id))
    (hnone : ∀ c', Goes c [] c' → Q none c')
    (hsome : ∀ u c', Goes c [] c' → u.id = id → .user id ∈ c'.held →
      (c'.Sure fun db => db.user id = some u) → Q (some u) c') :
    wp G N Q E (findUserById sv id true) c := by
  rw [findUserById, if_pos rfl]
  refine wp_forUpdate (framed_user id) hplain hnone fun u c' hc' hk hread hu => ?_
  obtain ⟨db, hdb⟩ := hread
  exact hsome u c' hc' (Store.key_of_get hdb) hk hu

/-- A user's row, which is certain when it was locked. -/
theorem wp_findUser {id : UUID} {locked : Bool} {Q : Option User → Ctx (schema sv) → Prop}
    (hplain : Plain c (·.user id))
    (hnone : ∀ c', Goes c [] c' → Q none c')
    (hsome : ∀ u c', Goes c [] c' → u.id = id →
      (locked = true → .user id ∈ c'.held ∧ c'.Sure fun db => db.user id = some u) →
      Q (some u) c') :
    wp G N Q E (findUserById sv id locked) c := by
  cases locked with
  | true =>
    refine wp_findUserById hplain hnone fun u c' hc' hid hk hu => ?_
    exact hsome u c' hc' hid fun _ => ⟨hk, hu⟩
  | false =>
    rw [findUserById, if_neg (by simp), wp_query]
    intro db t _ _ _
    cases hu : Db.user (c.view db) id with
    | none => exact hnone _ (.observe db t)
    | some u => exact hsome u _ (.observe db t) (Store.key_of_get hu) nofun

/-- A new customer's address is nobody's, and stays so while its entry is held. -/
theorem wp_createCustomer {email : String} {Q : User → Ctx (schema sv) → Prop}
    (hplain : Plain c (·.users)) (hE : ∀ e c', Goes c [] c' → E e c')
    (h : ∀ user c', Goes c [.insertUser user] c' → sv.normalizeEmail email = some user.email →
      user.role = Role.customer.value → user.isActive = true → user.emailVerifiedAt = none →
      user.id ∈ c'.drawn → .user user.id ∈ c'.held →
      (c'.Sure fun db => ∀ id x, db.user id = some x → x.email ≠ user.email) → Q user c') :
    wp G N Q E (createCustomer sv email) c := by
  rw [createCustomer]
  split
  case h_1 => exact hE _ _ (.refl c)
  case h_2 normalized hnorm =>
    rw [wp_bind, wp_uuid4]
    intro id hid
    let user : User := { id, email := normalized }
    show wp G N Q E (insertUnique (.uniqueEmail normalized) _ (.user user.id) (.insertUser user)
      >>= fun _ => pure user) (c.draw id)
    rw [wp_bind]
    refine wp_insertUnique ?_ ?_ (fun c' hc' => hE _ c' ((Goes.draw id).trans_nil hc')) ?_
    · intro k hk
      rw [Op.needs_insertUser rfl, List.mem_cons, List.mem_singleton] at hk
      exact hk.elim (fun h => .inr (.inl h)) .inl
    · intro k hk
      rw [List.mem_singleton.1 hk]
      exact List.mem_cons_self
    · intro r c' hc' hentry hr _ hrow hfree
      have hgo : Goes c [.insertUser user] c' := (Goes.draw id).of_nil hc'
      refine h user c' hgo hnorm rfl rfl rfl (hc'.le.drawn List.mem_cons_self) hrow ?_
      refine sure_of_read hr (fun op d hop ih i x hx => ?_) fun i x hx he => ?_
      · rcases Db.user_apply_keeps hx with ⟨rfl, -, -⟩ | ⟨y, hy, hemail, -⟩
        · intro he
          refine hop.needs (.uniqueEmail x.email) ?_ (he ▸ hentry)
          simp [Op.needs]
        · exact hemail ▸ ih i y hy
      · have hrows : Db.users (c.view r.db) = r.db.users := hplain r.db
        have hmem : x ∈ (Db.users (c.view r.db)).rows := by
          rw [hrows]
          exact Store.mem_of_get hx
        have := List.any_eq_false.1 hfree x hmem
        exact this (by simpa using he)

/-! ## Audit records and texts -/

theorem wp_record {actor : AuditActor} {action targetType : String} {targetId : UUID}
    {outcome : AuditOutcome} {metadata : List (String × AuditValue)} {correlationId : String}
    {Q : Unit → Ctx (schema sv) → Prop} (hE : E .valueError c)
    (h : ∀ row c', Goes c [.addAudit row] c' → Q () c') :
    wp G N Q E (record sv actor action targetType targetId outcome metadata correlationId) c := by
  rw [record]
  refine wp_guard (fun _ => hE) fun _ => ?_
  rw [wp_bind, wp_utcNow]
  intro t _
  rw [wp_bind, wp_uuid4]
  intro id _
  rw [wp_write]
  exact ⟨by simp [Op.needs], by simp [Op.makes],
    h _ _ (((Goes.time t).trans (.draw id)).trans (.push _))⟩

theorem wp_correlation {given : Option String} {Q : String → Ctx (schema sv) → Prop}
    (h : ∀ text c', Goes c [] c' → Q text c') : wp G N Q E (correlation sv given) c := by
  have hdraw : wp G N Q E (do return uuidStr (← uuid4)) c := by
    rw [wp_bind, wp_uuid4]
    exact fun id _ => h _ _ (.draw id)
  cases given with
  | none => exact hdraw
  | some text =>
    rw [correlation]
    split
    · exact h _ _ (.refl c)
    · exact hdraw

theorem wp_hashPassword {password : String} {Q : String → Ctx (schema sv) → Prop}
    (hE : E .invalidPasswordLength c) (h : ∀ salt, Q (sv.hash salt password) c) :
    wp G N Q E (hashPassword sv password) c := by
  rw [hashPassword]
  refine wp_guard (fun _ => hE) fun _ => ?_
  rw [wp_bind, wp_randomText]
  exact h

theorem wp_validateNewPassword {breached : Option Bool} {password : String}
    {Q : Unit → Ctx (schema sv) → Prop} (hE : ∀ e, e ≠ .invalidChallenge → E e c) (h : Q () c) :
    wp G N Q E (validateNewPassword sv breached password) c := by
  unfold validateNewPassword
  refine wp_guard (fun _ => hE _ (by decide)) fun _ => ?_
  refine wp_guard (fun _ => hE _ (by decide)) fun _ => ?_
  split
  · exact hE _ (by decide)
  · exact hE _ (by decide)
  · exact h

/-- A password is replaced under the locks of the user and of the credential. -/
theorem wp_flushPassword {userId : UUID} {hash : String} {Q : Unit → Ctx (schema sv) → Prop}
    (hk : .user userId ∈ c.held) (hE : ∀ c', Goes c [] c' → E .staleDataError c')
    (h : ∀ c', Goes c [.setPassword userId hash] c' → Q () c') :
    wp G N Q E (flushPassword sv userId hash) c := by
  refine wp_flushRow (fun k hmem => ?_) rfl hE h
  simp only [Op.needs, List.mem_cons, List.not_mem_nil, or_false] at hmem
  rcases hmem with rfl | rfl
  · exact .inr hk
  · exact .inl rfl

/-! ## Sessions -/

/-- What is known of a session that the transaction has issued for a user. -/
structure Issued (c : Ctx (schema sv)) (user : User) (secret : String) (s : AuthSession) :
    Prop where
  userId : s.userId = user.id
  hash : s.secretHash = digest sv secret
  live : s.revokedAt = none
  drawn : s.id ∈ c.drawn
  held : .session s.id ∈ c.held
  active : user.isActive = true
  verified : user.emailVerifiedAt.isSome = true
  instant : ∃ reading ∈ c.clocks, reading.2 = s.authenticatedAt
  only : c.Sure fun db => ∀ id x, db.session id = some x → x.secretHash ≠ s.secretHash

theorem Issued.le {user : User} {secret : String} {s : AuthSession}
    (h : Issued c user secret s) (hle : c.Le c') : Issued c' user secret s := by
  obtain ⟨reading, hr, ht⟩ := h.instant
  exact { h with
    drawn := hle.drawn h.drawn
    held := hle.held h.held
    instant := ⟨reading, hle.clocks hr, ht⟩
    only := hle.sure h.only }

theorem wp_issue {user : User} {Q : String → Ctx (schema sv) → Prop}
    (hk : .user user.id ∈ c.held) (hplain : Plain c (·.sessions))
    (hE : ∀ e c', Goes c [] c' → E e c')
    (h : ∀ s secret c', Goes c [.insertSession s] c' → Issued c' user secret s → Q secret c') :
    wp G N Q E (issue sv settings user) c := by
  rw [issue]
  refine wp_guard (fun _ => hE _ _ (.refl c)) fun hlive => ?_
  simp only [Bool.or_eq_true, Bool.not_eq_true', not_or, Bool.not_eq_false,
    Option.isNone_iff_eq_none, ← ne_eq, ← Option.isSome_iff_ne_none] at hlive
  rw [wp_bind, wp_randomText]
  intro secret
  rw [wp_bind, wp_utcNow]
  intro now _
  rw [wp_bind, wp_uuid4]
  intro id _
  have hgo : Goes c [] ((c.time now).draw id) := (Goes.time now).trans (.draw id)
  rw [wp_bind]
  refine wp_insertUnique ?_ ?_ (fun c' hc' => hE _ c' (hgo.trans_nil hc')) ?_
  · intro k hmem
    simp only [Op.needs, List.mem_cons, List.not_mem_nil, or_false] at hmem
    rcases hmem with rfl | rfl | rfl
    · exact .inr (.inr hk)
    · exact .inr (.inl rfl)
    · exact .inl rfl
  · intro k hmem
    rw [List.mem_singleton.1 hmem]
    exact List.mem_cons_self
  · intro r c' hc' hentry hr _ hrow hfree
    refine h _ secret c' (hgo.of_nil hc')
      { userId := rfl, hash := rfl, live := rfl, drawn := hc'.le.drawn List.mem_cons_self
        held := hrow, active := hlive.1, verified := hlive.2
        instant := ⟨(c.held, now), hc'.le.clocks List.mem_cons_self, rfl⟩, only := ?_ }
    refine sure_of_read hr (fun op d hop ih i x hx hhash => ?_) fun i x hx hhash => ?_
    · rcases Db.session_apply_keeps hx with ⟨rfl, -, -⟩ | ⟨y, hy, -, hsame, -⟩
      · exact hop.needs (.uniqueSecret x.secretHash) (by simp [Op.needs]) (hhash ▸ hentry)
      · exact ih i y hy (hsame.symm.trans hhash)
    · have hrows : Db.sessions (((c.time now).draw id).view r.db) = r.db.sessions := hplain r.db
      refine List.any_eq_false.1 hfree x ?_ (by simpa using hhash)
      rw [hrows]
      exact Store.mem_of_get hx

/-- The answer of `resolve` on what its queries found. -/
theorem wp_resolved (result : Option (AuthSession × User)) {Q : Actor → Ctx (schema sv) → Prop}
    (hE : E .authenticationRequired c) (h : ∀ actor, Q actor c) :
    wp G N Q E (match result with
      | none => throw .authenticationRequired
      | some (row, user) =>
        match Role.ofValue user.role with
        | none => throw .authenticationRequired
        | some role => pure { userId := user.id, sessionId := row.id, role
                              authenticatedAt := row.authenticatedAt }) c := by
  split
  · exact hE
  · split
    · exact hE
    · exact h _

theorem wp_resolve {secret : Option String} {hint : Option UUID}
    {Q : Actor → Ctx (schema sv) → Prop} (hE : ∀ c', Goes c [] c' → E .authenticationRequired c')
    (h : ∀ actor c', Goes c [] c' → Q actor c') : wp G N Q E (resolve sv secret hint) c := by
  unfold resolve
  split
  case h_1 => exact hE _ (.refl c)
  case h_2 secret =>
    refine wp_guard (fun _ => hE _ (.refl c)) fun _ => ?_
    rw [wp_bind, wp_utcNow]
    intro now _
    -- the fallback query reads once more, and the answer reads nothing
    have hplain : ∀ c', Goes c [] c' → wp G N (fun _ c' => Goes c [] c') E
        (query (liveSession (digest sv secret) now none)) c' := by
      intro c' hc'
      rw [wp_query]
      intro db t _ _ _
      exact hc'.trans_nil (.observe db t)
    cases hint with
    | none =>
      dsimp only
      rw [wp_bind, wp_pure]
      dsimp only
      rw [wp_bind]
      refine wp_mono (hplain _ (.time now)) (fun result c' hc' => ?_) fun _ _ => id
      exact wp_resolved result (hE c' hc') fun actor => h actor c' hc'
    | some id =>
      dsimp only
      rw [wp_bind, wp_query]
      intro db t _ _ _
      have hgo : Goes c [] ((c.time now).observe db t) := (Goes.time now).trans (.observe db t)
      split
      case h_1 found _ =>
        rw [wp_bind, wp_pure]
        exact wp_resolved (some found) (hE _ hgo) fun actor => h actor _ hgo
      · rw [wp_bind]
        refine wp_mono (hplain _ hgo) (fun result c' hc' => ?_) fun _ _ he => he
        exact wp_resolved result (hE c' hc') fun actor => h actor c' hc'

/-! ## Revoking sessions -/

/-- If the session is the user's, it is revoked. -/
def Db.Dead (db : Db) (userId id : UUID) : Prop :=
  ∀ x, db.session id = some x → x.userId = userId → x.revokedAt.isSome = true

/-- Every session of the user is revoked. -/
def Db.AllRevoked (db : Db) (userId : UUID) : Prop := ∀ id, db.Dead userId id

/-- A revoked session stays revoked, whatever is written but a session of the user. -/
theorem Db.Dead.apply {db : Db} {userId id : UUID} {op : Op} (h : db.Dead userId id)
    (hop : ∀ row, op = .insertSession row → row.userId ≠ userId) :
    (op.apply db).Dead userId id := by
  intro x hx huser
  rcases Db.session_apply_keeps hx with ⟨rfl, -, -⟩ | ⟨y, hy, hsame, -, hrevoked⟩
  · exact absurd huser (hop x rfl)
  · exact hrevoked (h y hy (hsame.symm.trans huser))

theorem Db.dead_revokeSession {db : Db} {userId id : UUID} {t : Time} :
    ((Op.revokeSession id t).apply db).Dead userId id := by
  intro x hx _
  simp only [Db.session, Op.apply, Store.get_modify, if_true] at hx
  obtain ⟨y, -, rfl⟩ := Option.map_eq_some_iff.1 hx
  rfl

theorem Db.Dead.applyAll {db : Db} {userId id : UUID} (h : db.Dead userId id)
    (hops : ∀ op ∈ ops, ∀ row, op = .insertSession row → row.userId ≠ userId) :
    Db.Dead ((schema sv).applyAll ops db) userId id := by
  induction ops with
  | nil => exact h
  | cons op ops ih =>
    refine Db.Dead.apply (ih fun o ho => hops o (List.mem_cons_of_mem _ ho)) ?_
    exact hops op List.mem_cons_self

theorem isRevoke_inserts {op : Op} (h : op.isRevoke = true) {userId : UUID} :
    ∀ row, op = .insertSession row → row.userId ≠ userId := by
  rintro row rfl
  cases h

/-- The session as the transaction sees it depends on the committed session alone. -/
theorem session_view_congr {db db' : Db} {id : UUID} (h : db.session id = db'.session id) :
    Db.session (c.view db) id = Db.session (c.view db') id := by
  rw [Ctx.view, Ctx.view]
  induction c.buf with
  | nil => exact h
  | cons op ops ih => exact Db.session_apply_congr ih

/-- A row that `revoke` has found is revoked when it is still the user's. -/
theorem wp_revokeEach {userId : UUID} {sessionId : Option UUID} {now : Time} {ids : List UUID}
    {Q : Unit → Ctx (schema sv) → Prop}
    (h : ∀ revs c', Goes c revs c' → (∀ op ∈ revs, op.isRevoke = true) →
      (sessionId = none → ∀ id ∈ ids, c'.Sure fun db => Db.Dead (c'.view db) userId id) → Q () c') :
    wp G N Q E (revokeEach sv userId sessionId now ids) c := by
  induction ids generalizing c with
  | nil => exact h [] c (.refl c) (by simp) (by simp)
  | cons id ids ih =>
    -- what is dead in the view stays so through the rest of the loop
    have hnext : ∀ revs₁ c₂, Goes c revs₁ c₂ → (∀ op ∈ revs₁, op.isRevoke = true) →
        (sessionId = none → c₂.Sure fun db => Db.Dead (c₂.view db) userId id) →
        wp G N Q E (revokeEach sv userId sessionId now ids) c₂ := by
      intro revs₁ c₂ hgo₂ hrevs₁ hdead
      refine ih fun revs c' hgo' hrevs hall => h _ c' (hgo₂.trans hgo') ?_ ?_
      · exact fun op hop => (List.mem_append.1 hop).elim (hrevs op) (hrevs₁ op)
      · intro hnone k hk
        rcases List.mem_cons.1 hk with rfl | hk
        · intro db hv hs
          rw [Ctx.view, hgo'.buf, Schema.applyAll_append]
          exact (hdead hnone db hv (hgo'.le.sees hs)).applyAll
            fun op hop => isRevoke_inserts (hrevs op hop)
        · exact hall hnone k hk
    rw [revokeEach, wp_bind, wp_lock, wp_bind, wp_query]
    intro db t _ _ _
    have hgo : Goes c [] ((c.hold (.session id)).observe db t) :=
      (Goes.hold _).trans (.observe db t)
    split
    · rw [wp_bind, wp_write]
      refine ⟨by simp [Op.needs, Ctx.hold, Ctx.observe], by simp [Op.makes], ?_⟩
      refine hnext [.revokeSession id now] _ (hgo.trans (.push _)) (by simp [Op.isRevoke]) ?_
      exact fun _ _ _ _ => Db.dead_revokeSession
    case isFalse hlive =>
      refine hnext [] _ hgo (by simp) ?_
      rintro rfl d hv hs x hx huser
      -- nobody else changes the session any more
      have hsame : d.session id = db.session id :=
        (framed_session id).sure (r := ⟨.session id :: c.held, db, t⟩) List.mem_cons_self
          List.mem_cons_self d hv hs
      rw [session_view_congr hsame] at hx
      rw [show Db.session ((c.hold (.session id)).view db) id = some x from hx] at hlive
      simpa [AuthSession.revocable, huser, ← Option.isSome_iff_ne_none] using hlive

/-- The sessions of a user, when the user's row is locked. -/
theorem wp_revoke {userId : UUID} {sessionId : Option UUID} {Q : Unit → Ctx (schema sv) → Prop}
    (h : ∀ revs c', Goes c revs c' → (∀ op ∈ revs, op.isRevoke = true) →
      (sessionId = none → .user userId ∈ c.held → Plain c (·.sessions) →
        c'.Sure fun db => Db.AllRevoked (c'.view db) userId) → Q () c') :
    wp G N Q E (revoke sv userId sessionId) c := by
  rw [revoke, wp_bind, wp_utcNow]
  intro now _
  rw [wp_bind, wp_query]
  intro db t _ _ _
  have hgo : Goes c [] ((c.time now).observe db t) := (Goes.time now).trans (.observe db t)
  refine wp_revokeEach fun revs c' hgo' hrevs hdead => h revs c' (hgo.of_nil hgo') hrevs ?_
  rintro rfl hk hplain d hv hs id
  by_cases hmem : id ∈ ((Db.sessions ((c.time now).view db)).rows.filter
      (·.revocable userId none)).map (·.id)
  · exact hdead rfl id hmem d hv hs
  · -- a session that was not live at the query: others cannot add one for the user
    have hbase : db.Dead userId id := by
      intro x hx huser
      by_contra hlive
      refine hmem (List.mem_map.2 ⟨x, List.mem_filter.2 ⟨?_, ?_⟩, Store.key_of_get hx⟩)
      · rw [show Db.sessions ((c.time now).view db) = db.sessions from hplain db]
        exact Store.mem_of_get hx
      · simpa [AuthSession.revocable, huser] using hlive
    have hread : (⟨c.held, db, t⟩ : Read (schema sv)) ∈ c'.reads :=
      hgo'.le.reads List.mem_cons_self
    have hd : d.Dead userId id := by
      refine sure_of_read (P := (·.Dead userId id)) hread (fun op d' hop ih => ?_) hbase d hv hs
      refine ih.apply fun row hrow huser => ?_
      subst hrow
      exact hop.needs (.user row.userId) (by simp [Op.needs]) (huser ▸ hk)
    rw [Ctx.view, hgo'.buf, Schema.applyAll_append]
    refine Db.Dead.applyAll ?_ fun op hop => isRevoke_inserts (hrevs op hop)
    intro x hx huser
    refine hd x ?_ huser
    rw [Db.session, ← show Db.sessions (c.view d) = d.sessions from hplain d]
    exact hx

/-! ## Permissions -/

/-- The transaction has read the session of the user live at `now`, and authenticated at most
`limit` seconds before. -/
def Recent (c : Ctx (schema sv)) (userId sessionId : UUID) (limit : Nat) (now : Time) : Prop :=
  (∃ r ∈ c.reads, ∃ x, r.db.session sessionId = some x ∧ x.userId = userId ∧ x.revokedAt = none ∧
    now < x.expiresAt ∧ now - x.authenticatedAt ≤ seconds limit ∧ r.clock ≤ now) ∧
  ∃ reading ∈ c.clocks, reading.2 = now

theorem Recent.le {userId sessionId : UUID} {limit : Nat} {now : Time}
    (h : Recent c userId sessionId limit now) (hle : c.Le c') :
    Recent c' userId sessionId limit now := by
  obtain ⟨⟨r, hr, hx⟩, reading, hreading, hnow⟩ := h
  exact ⟨⟨r, hle.reads hr, hx⟩, reading, hle.clocks hreading, hnow⟩

/-- The mark of `authorize` with a limit, and what it stands for. -/
def Marked (c c' : Ctx (schema sv)) (actor : Actor) : Option Nat → Prop
  | none => c'.marks = c.marks
  | some limit => ∃ now, c'.marks = .authorized actor.sessionId limit now :: c.marks ∧
      Recent c' actor.userId actor.sessionId limit now

/-- What `authorize` leaves. -/
structure Authorized (c c' : Ctx (schema sv)) (actor : Actor) (limit : Option Nat) (user : User) :
    Prop where
  le : c.Le c'
  buf : c'.buf = c.buf
  marked : Marked c c' actor limit
  id : user.id = actor.userId
  active : user.isActive = true
  verified : user.emailVerifiedAt.isSome = true

theorem wp_authorize {actor : Actor} {permission : Permission} {limit : Option Nat}
    {locked : Bool} {Q : User → Ctx (schema sv) → Prop} (hbuf : c.buf = [])
    (hN : ∀ sessionId limit now c', Goes c [] c' → (∃ userId, Recent c' userId sessionId limit now) →
      N (.authorized sessionId limit now) c')
    (hE : ∀ e c', e ≠ .invalidChallenge → Goes c [] c' → E e c')
    (h : ∀ user c', Authorized c c' actor limit user →
      (locked = true → .user actor.userId ∈ c'.held ∧
        c'.Sure fun db => db.user actor.userId = some user) → Q user c') :
    wp G N Q E (authorize sv actor permission limit locked) c := by
  have hview : ∀ {c'}, Goes c [] c' → ∀ db : Db, c'.view db = db := by
    intro c' hc' db
    rw [Ctx.view, hc'.buf, hbuf]
    rfl
  rw [authorize, wp_bind]
  refine wp_findUser (fun db => by rw [hview (.refl c)]) ?_ ?_
  · intro c₁ hgo₁
    rw [wp_bind, wp_query]
    intro db t _ _ _
    exact hE _ _ (by decide) (hgo₁.trans_nil (.observe db t))
  · intro user c₁ hgo₁ hid hlocked
    rw [wp_bind, wp_query]
    intro db t _ _ _
    have hgo₂ : Goes c [] (c₁.observe db t) := hgo₁.trans_nil (.observe db t)
    have hlater : ∀ {c'}, c₁.Le c' → locked = true →
        .user actor.userId ∈ c'.held ∧ c'.Sure fun db => db.user actor.userId = some user :=
      fun hle hl => ⟨hle.held (hlocked hl).1, hle.sure (hlocked hl).2⟩
    rw [hview hgo₁]
    cases hx : db.session actor.sessionId with
    | none => exact hE _ _ (by decide) hgo₂
    | some x =>
      dsimp only
      refine wp_guard (fun _ => hE _ _ (by decide) hgo₂) fun hlive => ?_
      simp only [Bool.or_eq_true, Bool.not_eq_true', not_or, Bool.not_eq_false, decide_eq_true_eq,
        Option.isNone_iff_eq_none, ← ne_eq, not_not, Option.isSome_iff_ne_none] at hlive
      obtain ⟨⟨⟨hactive, hverified⟩, huser⟩, hrevoked⟩ := hlive
      rw [wp_bind, wp_utcNow]
      intro now hnow
      have hgo₃ : Goes c [] ((c₁.observe db t).time now) := hgo₂.trans_nil (.time now)
      refine wp_guard (fun _ => hE _ _ (by decide) hgo₃) fun hexpired => ?_
      split
      · exact hE _ _ (by decide) hgo₃
      · refine wp_guard (fun _ => hE _ _ (by decide) hgo₃) fun _ => ?_
        have hverified := Option.isSome_iff_ne_none.2 hverified
        cases limit with
        | none =>
          refine h user _ ⟨hgo₃.le, hgo₃.buf, hgo₃.marks, hid, hactive, hverified⟩ ?_
          exact hlater ((Ctx.le_observe db t).trans (Ctx.le_time now))
        | some limit =>
          dsimp only
          rw [wp_bind, wp_utcNow]
          intro t' ht'
          have hgo₄ := hgo₃.trans_nil (.time t')
          refine wp_guard (fun _ => hE _ _ (by decide) hgo₄) fun hrecent => ?_
          rw [wp_bind, wp_note]
          have hread : (⟨c₁.held, db, t⟩ : Read (schema sv)) ∈
            (((c₁.observe db t).time now).time t').reads := List.mem_cons_self
          have hle : now ≤ t' := ht'.1 _ List.mem_cons_self
          have hrec : Recent (((c₁.observe db t).time now).time t') actor.userId actor.sessionId
              limit now := by
            refine ⟨⟨_, hread, x, hx, huser.trans hid, by simpa using hrevoked, by lia, by lia, ?_⟩,
              ⟨_, List.mem_cons_of_mem _ List.mem_cons_self, rfl⟩⟩
            exact hnow.2 _ List.mem_cons_self
          rw [show x.id = actor.sessionId from Store.key_of_get hx]
          refine ⟨hN _ _ _ _ hgo₄ ⟨_, hrec⟩, ?_⟩
          refine h user _ ⟨hgo₄.le.trans (Ctx.le_mark _), hgo₄.buf, ?_, hid, hactive, hverified⟩ ?_
          · exact ⟨now, congrArg _ hgo₄.marks, hrec.le (Ctx.le_mark _)⟩
          · exact hlater ((((Ctx.le_observe db t).trans (Ctx.le_time now)).trans
              (Ctx.le_time t')).trans (Ctx.le_mark _))

/-! ## Challenges -/

/-- A challenge keeps its address, purpose and instant. -/
def SameChallenge (x y : EmailChallenge) : Prop :=
  x.email = y.email ∧ x.purpose = y.purpose ∧ x.createdAt = y.createdAt

theorem Db.challenge_apply_keeps {op : Op} {db : Db} {id : UUID} {x : EmailChallenge}
    (h : (op.apply db).challenge id = some x) :
    (op = .insertChallenge x ∧ x.id = id ∧ db.challenge id = none) ∨
    ∃ y, db.challenge id = some y ∧ SameChallenge x y := by
  rcases Db.challenge_apply h with hnew | ⟨y, hy, rfl | ⟨n, -, rfl⟩ | ⟨t, -, rfl⟩⟩
  · exact .inl hnew
  all_goals exact .inr ⟨_, hy, rfl, rfl, rfl⟩

/-- What was read of a challenge stays true as long as it is there. -/
theorem sure_challenge {r : Read (schema sv)} {p : EmailChallenge} (hr : r ∈ c.reads)
    (hp : r.db.challenge p.id = some p) :
    c.Sure fun db => ∀ x, db.challenge p.id = some x → SameChallenge x p := by
  have huses : r.db.Uses p.id := .inr (.inr (.inr (.inl (by simp [hp]))))
  refine sure_of_read hr (fun op d hop ih x hx => ?_) fun x hx => ?_
  · rcases Db.challenge_apply_keeps hx with ⟨rfl, hid, -⟩ | ⟨y, hy, hsame⟩
    · exact absurd (hid ▸ huses) (hop.makes x.id List.mem_cons_self)
    · obtain ⟨h1, h2, h3⟩ := ih y hy
      exact ⟨hsame.1.trans h1, hsame.2.1.trans h2, hsame.2.2.trans h3⟩
  · rw [hp] at hx
    cases hx
    exact ⟨rfl, rfl, rfl⟩

/-- No other challenge of the kind comes in while the entry of the index is held. -/
theorem sure_no_other {r : Read (schema sv)} {email purpose : String} {P : UUID → Prop}
    (hr : r ∈ c.reads) (hk : .uniqueChallenge email purpose ∈ r.held)
    (h : ∀ x ∈ r.db.challenges.rows, x.email = email → x.purpose = purpose → P x.id) :
    c.Sure fun db => ∀ id x, db.challenge id = some x → x.email = email → x.purpose = purpose →
      P id := by
  refine sure_of_read hr (fun op d hop ih id x hx he hp => ?_) fun id x hx he hp => ?_
  · rcases Db.challenge_apply_keeps hx with ⟨rfl, -, -⟩ | ⟨y, hy, hsame⟩
    · refine absurd hk (hop.needs _ ?_)
      simp [Op.needs, he, hp]
    · exact ih id y hy (hsame.1.symm.trans he) (hsame.2.1.symm.trans hp)
  · exact Store.key_of_get hx ▸ h x (Store.mem_of_get hx) he hp

theorem wp_createChallenge {email : String} {purpose : ChallengePurpose} {now : Time}
    {isResend : Bool} {cid : Option String} {Q : UUID → Ctx (schema sv) → Prop}
    (hk : .email sv email ∈ c.held) (hE : ∀ e c', e ≠ .invalidChallenge → E e c')
    (h : ∀ row event audit r c', Goes c [.insertChallenge row, .addAudit audit, .addEvent event] c' →
      row.email = email → row.purpose = purpose.value → row.createdAt = now → row.attempts = 0 →
      row.consumedAt = none → Coded sv.hmac settings row → row.id ∈ c'.drawn → r ∈ c'.reads →
      .uniqueChallenge email purpose.value ∈ r.held →
      (∀ x ∈ (Db.challenges (c.view r.db)).rows, ¬ (x.email = email ∧ x.purpose = purpose.value)) →
      Q row.id c') :
    wp G N Q E (createChallenge sv settings email purpose now isResend cid) c := by
  rw [createChallenge, wp_bind, wp_uuid4]
  intro id _
  dsimp only
  split
  · exact hE _ _ (by decide)
  case h_2 codeHash hcode =>
    rw [wp_bind, wp_uuid4]
    intro eventId _
    split
    · exact hE _ _ (by decide)
    case h_2 event _ =>
      rw [wp_bind, wp_write]
      refine ⟨by simp [Op.needs], by simp [Op.makes], ?_⟩
      have hgo₁ : Goes c [.addEvent event] (((c.draw id).draw eventId).push (.addEvent event)) :=
        ((Goes.draw id).trans (.draw eventId)).trans (.push _)
      rw [wp_bind]
      refine wp_correlation fun text c₂ hc₂ => ?_
      rw [wp_bind]
      refine wp_record (hE _ _ (by decide)) fun audit c₃ hc₃ => ?_
      have hgo₃ : Goes c [.addAudit audit, .addEvent event] c₃ := (hgo₁.trans_nil hc₂).trans hc₃
      have hdrawn : id ∈ c₃.drawn :=
        hc₃.le.drawn (hc₂.le.drawn (List.mem_cons_of_mem _ List.mem_cons_self))
      rw [wp_bind, storeChallenge]
      split
      · exact hE _ _ (by decide)
      case h_2 keyVersion hversion =>
        refine wp_insertUnique ?_ ?_ (fun c' _ => hE _ _ (by decide)) ?_
        · intro k hmem
          simp only [Op.needs, List.mem_cons, List.not_mem_nil, or_false] at hmem
          rcases hmem with rfl | rfl | rfl
          · exact .inr (.inl rfl)
          · exact .inr (.inr (hgo₃.le.held hk))
          · exact .inl rfl
        · intro k hmem
          rw [List.mem_singleton.1 hmem]
          exact hdrawn
        · intro r c' hc' hentry hr _ _ hfree
          refine h _ event audit r c' (hgo₃.trans hc') rfl rfl rfl rfl rfl ⟨hversion, hcode⟩
            (hc'.le.drawn hdrawn) hr hentry fun x hx hkind => ?_
          have hview : Db.challenges (c₃.view r.db) = Db.challenges (c.view r.db) := by
            rw [Ctx.view, hgo₃.buf]
            rfl
          have hx' := List.any_eq_false.1 hfree x (hview ▸ hx)
          exact hx' (by simpa using hkind)

/-- What is known of a challenge that the transaction has issued: every other of its kind is the one
that it deletes, and is older than the time between two of them. -/
structure Issues (settings : AuthSettings) (c : Ctx (schema sv)) (row : EmailChallenge)
    (deleted : Option EmailChallenge) : Prop where
  drawn : row.id ∈ c.drawn
  attempts : row.attempts = 0
  unconsumed : row.consumedAt = none
  coded : Coded sv.hmac settings row
  only : c.Sure fun db => ∀ id x, db.challenge id = some x → x.email = row.email →
    x.purpose = row.purpose → ∃ p, deleted = some p ∧ id = p.id
  same : ∀ p, deleted = some p → p.email = row.email ∧ p.purpose = row.purpose ∧
    p.createdAt + seconds settings.resendSeconds ≤ row.createdAt ∧
    c.Sure fun db => ∀ x, db.challenge p.id = some x → SameChallenge x p

theorem wp_issueChallenge {email : String} {purpose : ChallengePurpose} {cid : Option String}
    {Q : UUID → Ctx (schema sv) → Prop} (hplain : Plain c (·.challenges))
    (hE : ∀ e c', e ≠ .invalidChallenge → E e c') (hdecoy : ∀ id c', Goes c [] c' → Q id c')
    (h : ∀ row deleted ops c', Goes c ops c' →
      core ops = .insertChallenge row :: (deleted.map Op.deleteChallenge).toList →
      Issues settings c' row deleted → Q row.id c') :
    wp G N Q E (issueChallenge sv settings email purpose cid) c := by
  rw [issueChallenge]
  refine wp_guard (fun _ => hE _ _ (by decide)) fun _ => ?_
  rw [lockEmail, wp_bind, wp_lock, wp_bind, wp_query]
  intro db t _ _ _
  rw [wp_bind, wp_utcNow]
  intro now _
  let c₀ := ((c.hold (.email sv email)).observe db t).time now
  have hgo₀ : Goes c [] c₀ := ((Goes.hold _).trans (.observe db t)).trans (.time now)
  have hk : .email sv email ∈ c₀.held := List.mem_cons_self
  rw [show Db.challenges (Ctx.view (c.hold (.email sv email)) db) = db.challenges from hplain db]
  split
  case h_1 =>
    refine wp_createChallenge hk hE ?_
    intro row event audit r c' hc' hemail hpurpose _ hattempts hconsumed hcoded hdrawn hr hentry hfree
    refine h row none _ c' (hgo₀.of_nil hc') rfl ⟨hdrawn, hattempts, hconsumed, hcoded, ?_, nofun⟩
    refine (sure_no_other (P := fun _ => False) hr (hemail ▸ hpurpose ▸ hentry) ?_).mono ?_
    · intro x hx he hp
      rw [show Db.challenges (c₀.view r.db) = r.db.challenges from hplain r.db] at hfree
      exact hfree x hx ⟨he.trans hemail, hp.trans hpurpose⟩
    · exact fun d hd id x hx he hp => (hd id x hx he hp).elim
  case h_2 p hp =>
    obtain ⟨hpe, hpp⟩ : p.email = email ∧ p.purpose = purpose.value := by
      simpa using List.find?_some hp
    have hpget : db.challenge p.id = some p := Store.mem_rows.1 (List.mem_of_find?_eq_some hp)
    split
    · rw [wp_uuid4]
      exact fun id _ => hdecoy id _ (hgo₀.trans_nil (.draw id))
    case isFalse hwait =>
      -- the row that is deleted, if it is still there
      have hcreate : ∀ deleted c₁, (∀ q, deleted = some q → q = p) →
          Goes c₀ (deleted.map Op.deleteChallenge).toList c₁ →
          wp G N Q E (createChallenge sv settings email purpose now true cid) c₁ := by
        intro deleted c₁ hdeleted hc₁
        refine wp_createChallenge (hc₁.le.held hk) hE ?_
        intro row event audit r c' hc' hemail hpurpose hat hattempts hconsumed hcoded hdrawn hr hentry
          hfree
        refine h row deleted _ c' (hgo₀.of_nil (hc₁.trans hc')) ?_
          ⟨hdrawn, hattempts, hconsumed, hcoded, ?_, ?_⟩
        · cases deleted <;> rfl
        · refine sure_no_other (P := fun id => ∃ q, deleted = some q ∧ id = q.id) hr
            (hemail ▸ hpurpose ▸ hentry) fun x hx he hpx => ?_
          by_contra hother
          refine hfree x ?_ ⟨he.trans hemail, hpx.trans hpurpose⟩
          rw [Ctx.view, hc₁.buf, Schema.applyAll_append]
          have hx₀ : Db.challenge (c₀.view r.db) x.id = some x := by
            rw [Db.challenge, show Db.challenges (c₀.view r.db) = r.db.challenges from hplain r.db]
            exact Store.mem_rows.1 hx
          cases deleted with
          | none => exact Store.mem_of_get hx₀
          | some q =>
            have hne : q.id ≠ x.id := fun hid => hother ⟨q, rfl, hid.symm⟩
            exact Store.mem_of_get ((Store.get_erase_ne hne).trans hx₀)
        · intro q hq
          obtain rfl := hdeleted q hq
          refine ⟨hpe.trans hemail.symm, hpp.trans hpurpose.symm, by lia, ?_⟩
          exact sure_challenge (r := ⟨.email sv email :: c.held, db, t⟩)
            (hc'.le.reads (hc₁.le.reads List.mem_cons_self)) hpget
      rw [wp_bind, deleteChallenge, wp_bind]
      refine wp_forUpdate (framed_challenge p.id) (fun d => ?_) ?_ ?_
      · exact congrArg (Store.get · p.id) (hplain d)
      · exact fun c₁ hc₁ => hcreate none c₁ nofun hc₁
      · intro x c₁ hc₁ hheld _ _
        show wp G N _ E (lock _ >>= fun _ => write _) c₁
        rw [wp_bind, wp_lock, wp_write]
        refine ⟨fun k hmem => ?_, by simp [Op.makes], ?_⟩
        · simp only [Op.needs, List.mem_cons, List.not_mem_nil, or_false, hpe] at hmem
          rcases hmem with rfl | rfl
          · exact List.mem_cons_of_mem _ hheld
          · exact List.mem_cons_of_mem _ (hc₁.le.held hk)
        · refine hcreate (some p) _ (fun q hq => (Option.some.inj hq).symm) ?_
          exact (hc₁.trans (.hold _)).trans (.push _)

/-- What is known of a challenge that the transaction has consumed. -/
structure Checked (settings : AuthSettings) (c : Ctx (schema sv)) (row : EmailChallenge)
    (id : UUID) (code : String) (purpose : ChallengePurpose) : Prop where
  key : row.id = id
  sure : c.Sure fun db => db.challenge id = some row
  purpose : row.purpose = purpose.value
  unconsumed : row.consumedAt = none
  attempts : row.attempts < settings.challengeAttempts
  live : ∃ reading ∈ c.clocks, reading.2 < row.expiresAt
  code : codeDigest sv.hmac row code settings = some row.codeHash

theorem Checked.le {row : EmailChallenge} {id : UUID} {code : String} {purpose : ChallengePurpose}
    (h : Checked settings c row id code purpose) (hle : c.Le c') :
    Checked settings c' row id code purpose := by
  obtain ⟨reading, hr, ht⟩ := h.live
  exact { h with sure := hle.sure h.sure, live := ⟨reading, hle.clocks hr, ht⟩ }

/-- What is known when the transaction has compared a wrong code. -/
structure Compared (settings : AuthSettings) (c c' : Ctx (schema sv)) (row : EmailChallenge) :
    Prop where
  le : c.Le c'
  buf : ∃ audit, c'.buf = .addAudit audit :: .setAttempts row.id (row.attempts + 1) :: c.buf
  marks : c'.marks = .wrongCode row.id :: c.marks
  sure : c'.Sure fun db => db.challenge row.id = some row
  attempts : row.attempts < settings.challengeAttempts

theorem wp_refuseChallenge {id : UUID} {purpose : ChallengePurpose} {cid : Option String}
    {Q : α → Ctx (schema sv) → Prop} (hE : ∀ e c', e ≠ .invalidChallenge → E e c')
    (h : ∀ audit c', Goes c [.addAudit audit] c' → E .invalidChallenge c') :
    wp G N Q E (refuseChallenge sv id purpose cid) c := by
  rw [refuseChallenge, wp_bind]
  refine wp_correlation fun text c₁ hc₁ => ?_
  rw [wp_bind]
  exact wp_record (hE _ _ (by decide)) fun audit c' hc' => h audit c' (hc₁.of_nil hc')

theorem wp_checkChallenge {row : EmailChallenge} {code : String} {purpose : ChallengePurpose}
    {cid : Option String} {Q : EmailChallenge → Ctx (schema sv) → Prop}
    (hk : .challenge row.id ∈ c.held) (hsure : c.Sure fun db => db.challenge row.id = some row)
    (hN : ∀ id c', N (.wrongCode id) c') (hE : ∀ e c', e ≠ .invalidChallenge → E e c')
    (hrefused : ∀ audit c', Goes c [.addAudit audit] c' → E .invalidChallenge c')
    (hwrong : ∀ c', Compared settings c c' row → E .invalidChallenge c')
    (h : ∀ t c', Goes c [.setConsumed row.id t, .setAttempts row.id (row.attempts + 1)] c' →
      Checked settings c' row row.id code purpose →
      Q { row with attempts := row.attempts + 1, consumedAt := some t } c') :
    wp G N Q E (checkChallenge sv settings row code purpose cid) c := by
  rw [checkChallenge]
  split
  · exact wp_refuseChallenge hE hrefused
  case isFalse hopen =>
    simp only [ne_eq, Bool.or_eq_true, decide_eq_true_eq, not_or, not_not, Bool.not_eq_true,
      Option.isSome_eq_false_iff, Option.isNone_iff_eq_none] at hopen
    rw [wp_bind, wp_utcNow]
    intro t _
    split
    · refine wp_refuseChallenge hE fun audit c' hc' => hrefused audit c' ?_
      exact (Goes.time t).of_nil hc'
    case isFalse hlive =>
      simp only [Bool.or_eq_true, decide_eq_true_eq, not_or] at hlive
      have hattempts : row.attempts < settings.challengeAttempts := Nat.lt_of_not_le hlive.2
      rw [wp_bind, wp_write]
      refine ⟨fun k hmem => List.mem_singleton.1 hmem ▸ hk, by simp [Op.makes], ?_⟩
      have hgo : Goes c [.setAttempts row.id (row.attempts + 1)]
          ((c.time t).push (.setAttempts row.id (row.attempts + 1))) :=
        (Goes.time t).trans (.push _)
      split
      · exact hE _ _ (by decide)
      case h_2 computed hcode =>
        split
        · rw [wp_bind, wp_note]
          refine ⟨hN _ _, wp_refuseChallenge hE fun audit c' hc' => hwrong c' ?_⟩
          have hle := (hgo.le.trans (Ctx.le_mark (Note.wrongCode row.id))).trans hc'.le
          exact ⟨hle, ⟨audit, hc'.buf⟩, hc'.marks, hle.sure hsure, hattempts⟩
        case isFalse heq =>
          rw [wp_bind, wp_utcNow]
          intro t' _
          rw [wp_bind, wp_write]
          refine ⟨fun k hmem => List.mem_singleton.1 hmem ▸ hk, by simp [Op.makes], ?_⟩
          refine h t' _ ((hgo.trans_nil (.time t')).trans (.push _))
            { key := rfl, sure := hsure, purpose := hopen.1, unconsumed := hopen.2
              attempts := hattempts, live := ?_, code := ?_ }
          · exact ⟨_, List.mem_cons_of_mem _ List.mem_cons_self, Int.lt_of_not_ge hlive.1⟩
          · rw [hcode, not_not.1 heq]

theorem wp_consumeChallenge {id : UUID} {code : String} {purpose : ChallengePurpose}
    {cid : Option String} {Q : EmailChallenge → Ctx (schema sv) → Prop}
    (hplain : Plain c (·.challenge id)) (hN : ∀ id c', N (.wrongCode id) c')
    (hE : ∀ e c', e ≠ .invalidChallenge → E e c')
    (hrefused : ∀ audit c', Goes c [.addAudit audit] c' → E .invalidChallenge c')
    (hwrong : ∀ row c', Compared settings c c' row → E .invalidChallenge c')
    (h : ∀ row t c', Goes c [.setConsumed row.id t, .setAttempts row.id (row.attempts + 1)] c' →
      Checked settings c' row id code purpose →
      Q { row with attempts := row.attempts + 1, consumedAt := some t } c') :
    wp G N Q E (consumeChallenge sv settings id code purpose cid) c := by
  have hrest : ∀ c₁, Goes c [] c₁ →
      wp G N Q E (consumeLocked sv settings id code purpose cid) c₁ := by
    intro c₁ hc₁
    rw [consumeLocked, wp_bind]
    refine wp_forUpdate (framed_challenge id) (hplain.goes hc₁) ?_ ?_
    · intro c₂ hc₂
      refine wp_refuseChallenge hE fun audit c' hc' => hrefused audit c' ?_
      exact (hc₁.trans_nil hc₂).of_nil hc'
    · intro row c₂ hc₂ hk hread hsure
      have hgo := hc₁.trans_nil hc₂
      obtain ⟨db, hdb⟩ := hread
      obtain rfl : row.id = id := Store.key_of_get hdb
      refine wp_checkChallenge hk hsure hN hE (fun audit c' hc' => hrefused audit c' ?_) ?_ ?_
      · exact hgo.of_nil hc'
      · intro c' hw
        refine hwrong row c' { hw with le := hgo.le.trans hw.le, buf := ?_, marks := ?_ }
        · obtain ⟨audit, hb⟩ := hw.buf
          exact ⟨audit, by rw [hb, hgo.buf]; rfl⟩
        · rw [hw.marks, hgo.marks]
      · exact fun t c' hc' hch => h row t c' (hgo.of_nil hc') hch
  rw [consumeChallenge, wp_bind, wp_query]
  intro db t _ _ _
  split
  · exact hrest _ (.observe db t)
  · exact hrest _ ((Goes.observe db t).trans (.hold _))

end

end Ekumidayomi
