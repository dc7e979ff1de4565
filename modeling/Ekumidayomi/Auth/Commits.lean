import Ekumidayomi.Auth.Exits

/-!
# Every call commits by one of its exits

One proof for each call: along every path its program takes the locks that its writes need, and at
`uow.commit()` it satisfies `Commits` (`code_meets`). A wrong code is committed before the call
answers `InvalidChallengeError`.
-/

namespace Ekumidayomi

open Transact

/-- What a mark stands for: a password is verified under the lock of the user, and a session that
passes `authorize` with a limit is recent. -/
def Notes {sv : Services} : Note → Ctx (schema sv) → Prop
  | .verified userId _, c => .user userId ∈ c.held
  | .wrongCode _, _ => True
  | .authorized sessionId limit now, c => ∃ userId, Recent c userId sessionId limit now

/-- A call that answers `InvalidChallengeError` has committed the wrong code it has compared. -/
def Fails {sv : Services} (e : Error) (c : Ctx (schema sv)) : Prop :=
  e = .invalidChallenge → ∀ id, Note.wrongCode id ∈ c.marks ++ c.past → Note.wrongCode id ∈ c.kept

/-- The program meets what is asked of a call. -/
abbrev Meets (sv : Services) (settings : AuthSettings) (call : Call) (p : Tx sv AuthResult)
    (c : Ctx (schema sv)) : Prop :=
  wp (Commits sv settings call) Notes (fun _ _ => True) Fails p c

/-- The first transaction of a call, before any wrong code. -/
structure Clean {sv : Services} (c : Ctx (schema sv)) : Prop where
  past : c.past = []
  epoch : c.epoch = 0
  marks : NoGuess c

section
variable {sv : Services} {settings : AuthSettings} {call : Call} {c c' : Ctx (schema sv)}
  {ops : List Op}

theorem Clean.initial : Clean ({} : Ctx (schema sv)) := ⟨rfl, rfl, nofun⟩

theorem Clean.goes (h : Clean c) (hgo : Goes c ops c') : Clean c' where
  past := hgo.le.past.trans h.past
  epoch := hgo.le.epoch.trans h.epoch
  marks := fun id => hgo.marks ▸ h.marks id

theorem Clean.fails (h : Clean c) (e : Error) : Fails e c := by
  intro _ id hid
  rw [h.past, List.append_nil] at hid
  exact absurd hid (h.marks id)

theorem fails_of_ne {e : Error} (h : e ≠ .invalidChallenge) : Fails e c := fun he => absurd he h

/-- A commit that ends the call. -/
theorem wp_leave {a : AuthResult} (h : Clean c)
    (hexit : ∀ db : Db, db.AdminsVerified → c.Sees db → Exit sv settings call c db) :
    Meets sv settings call (do commit; return a) c := by
  rw [Meets, wp_bind, wp_commit]
  refine ⟨fun db hv hs => ⟨⟨h.epoch, .inr ⟨h.marks, hexit db hv hs⟩⟩, ?_⟩, trivial⟩
  exact (hexit db hv hs).adminsVerified hs hv

/-- The writes since there were none. -/
theorem Goes.core_eq (h : Goes c ops c') (hbuf : c.buf = []) : core c'.buf = core ops := by
  rw [h.buf, hbuf]
  exact congrArg core (List.append_nil ops)

theorem Goes.plain {β : Type} {g : Db → β} (h : Goes c ops c') (hbuf : c.buf = [])
    (hg : ∀ db, g (applyOps ops db) = g db) : Plain c' g := by
  intro db
  rw [Ctx.view, h.buf, hbuf]
  exact (congrArg (fun ops => g (applyOps ops db)) (List.append_nil ops)).trans (hg db)

/-! ## `auth/registration.py` and the start of a reset -/

/-- `issue_challenge` and the commit after it. -/
theorem meets_issueChallenge {email : String} {purpose : ChallengePurpose} {cid : Option String}
    (hcall : call.begins = true) (hclean : Clean c) (hcore : core c.buf = []) :
    Meets sv settings call (do
      let challengeId ← issueChallenge sv settings email purpose cid
      commit
      return .challenge challengeId) c := by
  have hplain : Plain c (·.challenges) := by
    intro db
    have hpart : Db.part .challenges (c.view db) = _ := view_part hcore (by decide)
    have htable := congrArg Db.challenges hpart
    exact htable
  rw [Meets, wp_bind]
  refine wp_issueChallenge hplain (fun e c' he => fails_of_ne he) ?_ ?_
  · intro id c' hc'
    exact wp_leave (hclean.goes hc') fun db _ _ =>
      .nothing (hc'.buf ▸ hcore) (Call.mayIdle_of_begins hcall)
  · intro row deleted ops c' hc' hcore' hissues
    refine wp_leave (hclean.goes hc') fun db _ _ => .issued ?_ hissues hcall
    rw [hc'.buf, core, List.filter_append]
    exact (congrArg _ hcore).trans ((List.append_nil _).trans hcore')

theorem meets_beginRegistration {email : String} {cid : Option String} :
    Meets sv settings (.beginRegistration email cid)
      (beginRegistration sv settings email cid) {} := by
  rw [Meets, beginRegistration, wp_bind]
  refine wp_correlation fun text c₁ hc₁ => ?_
  rw [wp_bind, wp_uuid4]
  intro id _
  rw [wp_bind]
  refine wp_record (fails_of_ne (by decide)) fun audit c₂ hc₂ => ?_
  have hgo₂ : Goes {} [.addAudit audit] c₂ := (hc₁.trans_nil (.draw id)).of_nil hc₂
  split
  · exact fails_of_ne (by decide)
  case h_2 address _ =>
    rw [lockEmail, wp_bind, wp_lock, wp_bind]
    have hgo₃ := hgo₂.trans_nil (.hold (.email sv address))
    refine wp_findUserByEmail (hgo₃.plain rfl fun _ => rfl) (fun _ => fails_of_ne (by decide)) ?_ ?_
    · intro c₃ hc₃
      have hgo := hgo₃.trans_nil hc₃
      exact meets_issueChallenge rfl (Clean.initial.goes hgo) (hgo.core_eq rfl)
    · intro u c₃ hc₃ _ _
      dsimp only
      rw [wp_bind, wp_uuid4]
      intro id _
      have hgo := (hgo₃.trans_nil hc₃).trans_nil (.draw id)
      exact wp_leave (Clean.initial.goes hgo) fun db _ _ => .nothing (hgo.core_eq rfl) rfl

theorem meets_beginReset {email : String} :
    Meets sv settings (.beginReset email) (beginReset sv settings email) {} := by
  have hdecoy : ∀ c', Goes {} [] c' → Meets sv settings (.beginReset email)
      (do let challengeId ← uuid4; commit; return .challenge challengeId) c' := by
    intro c' hc'
    rw [Meets, wp_bind, wp_uuid4]
    intro id _
    have hgo := hc'.trans_nil (.draw id)
    exact wp_leave (Clean.initial.goes hgo) fun db _ _ => .nothing (hgo.core_eq rfl) rfl
  rw [Meets, beginReset, wp_bind]
  refine wp_findUserByEmail (fun _ => rfl) (fun _ => fails_of_ne (by decide)) hdecoy ?_
  intro user c₁ hc₁ _ _
  dsimp only
  split
  · exact hdecoy c₁ hc₁
  · rw [wp_bind, wp_query]
    intro db t _ _ _
    have hgo := hc₁.trans_nil (.observe db t)
    split
    · exact hdecoy _ hgo
    · exact meets_issueChallenge rfl (Clean.initial.goes hgo) (hgo.core_eq rfl)

/-! ## Completing a challenge -/

/-- A commit after which the call answers `InvalidChallengeError`. -/
theorem wp_commit_refused {Q : EmailChallenge → Ctx (schema sv) → Prop} (hpast : c.past = [])
    (h : ∀ db : Db, db.AdminsVerified → c.Sees db →
      Commits sv settings call c db ∧ Db.AdminsVerified (c.view db)) :
    wp (Commits sv settings call) Notes Q Fails
      (do commit; throw Error.invalidChallenge) c := by
  rw [wp_bind, wp_commit]
  refine ⟨h, fun _ id hid => ?_⟩
  simp only [Ctx.commit, Ctx.release, hpast, List.nil_append, List.append_nil] at hid ⊢
  exact List.mem_append_left _ hid

theorem Guessed.adminsVerified {db : Db} {row : EmailChallenge} (h : Guessed settings call c db row)
    (hv : db.AdminsVerified) : Db.AdminsVerified (c.view db) := by
  intro id u hu hrole
  rw [view_user_eq h.buf rfl] at hu
  exact hv id u hu hrole

theorem wp_consumeOrCommit {id : UUID} {code : String} {purpose : ChallengePurpose}
    {Q : EmailChallenge → Ctx (schema sv) → Prop} (hcall : call.completes = true)
    (hgo : Goes {} [] c)
    (h : ∀ row t c',
      Goes {} [.setConsumed row.id t, .setAttempts row.id (row.attempts + 1)] c' →
      Checked settings c' row id code purpose →
      Q { row with attempts := row.attempts + 1, consumedAt := some t } c') :
    wp (Commits sv settings call) Notes Q Fails
      (consumeOrCommit sv settings id code purpose) c := by
  have hclean := Clean.initial.goes hgo
  rw [consumeOrCommit, wp_tryCatch]
  refine wp_consumeChallenge (hgo.plain rfl fun _ => rfl) (fun _ _ => trivial) ?_ ?_ ?_ ?_
  · intro e c' he
    rw [if_neg he]
    exact fails_of_ne he
  · intro audit c' hc'
    have hclean' := hclean.goes hc'
    have hexit : ∀ db : Db, Exit sv settings call c' db :=
      fun db => .nothing ((hgo.of_nil hc').core_eq rfl) (Call.mayIdle_of_completes hcall)
    rw [if_pos rfl]
    refine wp_commit_refused hclean'.past fun db hv hs =>
      ⟨⟨hclean'.epoch, .inr ⟨hclean'.marks, ?_⟩⟩, ?_⟩
    · exact hexit db
    · exact (hexit db).adminsVerified hs hv
  · intro row c' hw
    have hguess : ∀ db : Db, db.AdminsVerified → c'.Sees db → Guessed settings call c' db row := by
      intro db hv hs
      obtain ⟨audit, hbuf⟩ := hw.buf
      refine ⟨hcall, ?_, ?_, hw.sure db hv hs, hw.attempts⟩
      · rw [hbuf, hgo.buf]
        rfl
      · rw [hw.marks, hgo.marks]
    rw [if_pos rfl]
    refine wp_commit_refused (hw.le.past.trans hclean.past) fun db hv hs => ?_
    exact ⟨⟨hw.le.epoch.trans hclean.epoch, .inl ⟨row, hguess db hv hs⟩⟩,
      (hguess db hv hs).adminsVerified hv⟩
  · exact fun row t c' hc' hch => h row t c' (hgo.of_nil hc') hch

theorem meets_completeRegistration {r : CompleteRequest} :
    Meets sv settings (.completeRegistration r) (completeRegistration sv settings r) {} := by
  rw [Meets, completeRegistration, wp_bind]
  refine wp_correlation fun text c₁ hc₁ => ?_
  rw [wp_bind]
  refine wp_validateNewPassword (fun e he => fails_of_ne he) ?_
  rw [wp_bind]
  refine wp_consumeOrCommit rfl hc₁ fun row t c₂ hc₂ hch => ?_
  have hfails : ∀ {ops c'}, Goes c₂ ops c' → ∀ e, Fails e c' :=
    fun hgo e => ((Clean.initial.goes hc₂).goes hgo).fails e
  dsimp only
  rw [wp_bind]
  refine wp_findUserByEmail (hc₂.plain rfl fun _ => rfl) (fun _ => fails_of_ne (by decide)) ?_ ?_
  · intro c₃ hc₃
    have hgo₃ := hc₂.trans_nil hc₃
    dsimp only
    rw [wp_bind]
    refine wp_createCustomer (hgo₃.plain rfl fun _ => rfl)
      (fun e c' hc' => hfails (hc₃.trans_nil hc') e) ?_
    intro user c₄ hc₄ hemail hrole hactive _ hdrawn hheld _
    have hgo₄ := hgo₃.trans hc₄
    rw [wp_bind, wp_utcNow]
    intro verifiedAt _
    rw [wp_bind]
    refine wp_hashPassword (fails_of_ne (by decide)) fun salt => ?_
    rw [wp_bind]
    refine wp_record (fails_of_ne (by decide)) fun audit c₅ hc₅ => ?_
    have hgo₅ := (hgo₄.trans_nil (.time verifiedAt)).trans hc₅
    have hheld₅ : .user user.id ∈ c₅.held := hc₅.le.held hheld
    have hdrawn₅ : user.id ∈ c₅.drawn := hc₅.le.drawn hdrawn
    rw [wp_bind, wp_write]
    refine ⟨fun k hk => List.mem_singleton.1 hk ▸ hheld₅, by simp [Op.makes], ?_⟩
    rw [wp_bind, wp_write]
    refine ⟨fun k hk => List.mem_singleton.1 hk ▸ hheld₅,
      fun k hk => List.mem_singleton.1 hk ▸ hdrawn₅, ?_⟩
    have hgo₆ := (hgo₅.trans (.push (.setVerified user.id verifiedAt))).trans
      (.push (.insertCredential { userId := user.id, passwordHash := sv.hash salt r.password }))
    have hle : c₂.Le _ := ((((hc₃.trans hc₄).trans (.time verifiedAt)).trans hc₅).trans
      (.push (.setVerified user.id verifiedAt))).trans
      (.push (.insertCredential { userId := user.id, passwordHash := sv.hash salt r.password })) |>.le
    exact wp_leave (Clean.initial.goes hgo₆) fun db _ _ =>
      .registered (hgo₆.core_eq rfl) (hch.le hle) ⟨hrole, hactive, hdrawn₅⟩ hemail
  · exact fun u c₃ hc₃ _ _ => hfails hc₃ _

theorem meets_completeReset {r : CompleteRequest} {cid : String} :
    Meets sv settings (.completeReset r cid) (completeReset sv settings r cid) {} := by
  rw [Meets, completeReset, wp_bind]
  refine wp_validateNewPassword (fun e he => fails_of_ne he) ?_
  rw [wp_bind]
  refine wp_consumeOrCommit rfl (.refl _) fun row t c₂ hc₂ hch => ?_
  dsimp only
  rw [wp_bind]
  refine wp_findUserByEmail (hc₂.plain rfl fun _ => rfl) (fun _ => fails_of_ne (by decide)) ?_ ?_
  · exact fun _ _ => fails_of_ne (by decide)
  · intro found c₃ hc₃ hemail hsame
    dsimp only
    rw [wp_bind]
    refine wp_findUserById ((hc₂.trans_nil hc₃).plain rfl fun _ => rfl)
      (fun _ _ => fails_of_ne (by decide)) ?_
    intro user c₄ hc₄ hid hheld hsure
    have hgo₄ := (hc₂.trans_nil hc₃).trans_nil hc₄
    dsimp only
    refine wp_guard (fun _ => fails_of_ne (by decide)) fun _ => ?_
    rw [wp_bind]
    refine wp_query_locked (framed_credential user.id) (hgo₄.plain rfl fun _ => rfl)
      (hid ▸ hheld) ?_
    intro credential c₅ hc₅ _ hcred
    have hgo₅ := hgo₄.trans_nil hc₅
    cases credential with
    | none => exact fails_of_ne (by decide)
    | some credential =>
      dsimp only
      rw [wp_bind]
      refine wp_hashPassword (fails_of_ne (by decide)) fun salt => ?_
      rw [wp_bind]
      refine wp_revoke fun revs c₆ hc₆ hrevs hall => ?_
      have hgo₆ := hgo₅.trans hc₆
      have hall := hall rfl (hc₅.le.held (hid ▸ hheld)) (hgo₅.plain rfl fun _ => rfl)
      rw [wp_bind]
      refine wp_record (fails_of_ne (by decide)) fun audit c₇ hc₇ => ?_
      rw [wp_bind]
      have hheld₇ : .user user.id ∈ c₇.held :=
        hc₇.le.held (hc₆.le.held (hc₅.le.held (hid ▸ hheld)))
      refine wp_flushPassword hheld₇ (fun c' hc' => fails_of_ne (by decide)) fun c₈ hc₈ => ?_
      have hgo₈ := (hgo₆.trans hc₇).trans hc₈
      have hle : c₂.Le c₈ := ((((hc₃.trans hc₄).trans hc₅).trans hc₆).trans hc₇).trans hc₈ |>.le
      have hcore : core c₈.buf = .setPassword user.id (sv.hash salt r.password) :: (revs ++
          [.setConsumed row.id t, .setAttempts row.id (row.attempts + 1)]) := by
        rw [hgo₈.core_eq rfl]
        simp [core_revokes hrevs, Op.isEvidence]
      refine wp_leave (Clean.initial.goes hgo₈) fun db hv hs => ?_
      have hs₅ := hc₆.le.sees (hc₇.le.sees (hc₈.le.sees hs))
      have huser : db.user found.id = some user := hsure db hv (hc₅.le.sees hs₅)
      refine .reset hcore hrevs (hch.le hle) (hc₈.le.held hheld₇) ?_ (hid ▸ huser)
        (hcred db hv hs₅) ?_
      · rw [hsame db hv (hc₄.le.sees (hc₅.le.sees hs₅)) user huser]
        exact hemail
      · rw [Ctx.view, hc₈.buf, hc₇.buf]
        exact hall db hv (hc₇.le.sees (hc₈.le.sees hs))

/-! ## `auth/service.py` -/

theorem wp_resolveOrNone {secret : Option String} {hint : Option UUID}
    {G : Ctx (schema sv) → Db → Prop} {Q : Option Actor → Ctx (schema sv) → Prop}
    (h : ∀ actor c', Goes c [] c' → Q actor c') :
    wp G Notes Q Fails (resolveOrNone sv secret hint) c := by
  rw [resolveOrNone, wp_tryCatch, wp_bind]
  refine wp_resolve (fun c' hc' => ?_) fun actor c' hc' => h (some actor) c' hc'
  rw [if_pos rfl]
  exact h none c' hc'

/-- The session of a login that has verified the password. -/
theorem meets_startSession {r : LoginRequest} {user : User} {credential : PasswordCredential}
    (hclean : Clean c) (hbuf : c.buf = []) (hheld : .user user.id ∈ c.held)
    (hcred : c.Sure fun db => db.credential user.id = some credential)
    (hverify : sv.verify credential.passwordHash r.password = true)
    (hmark : .verified user.id credential.passwordHash ∈ c.marks) :
    Meets sv settings (.login r) (startSession sv settings r user credential) c := by
  -- the commit, after the old session has been revoked or not
  have hleave : ∀ {rehash} revs {session secret c₁ c₂}, Goes c rehash c₁ →
      (rehash = [] ∨ ∃ hash, rehash = [.setPassword user.id hash]) →
      Goes c₁ (revs ++ [.insertSession session]) c₂ → (∀ op ∈ revs, op.isRevoke = true) →
      Issued c₂ user secret session →
      Meets sv settings (.login r) (do commit; return .secret secret) c₂ := by
    intro rehash revs session secret c₁ c₂ hc₁ hrehash hc₂ hrevs hissued
    have hgo := hc₁.trans hc₂
    refine wp_leave (hclean.goes hgo) fun db hv hs => ?_
    have hcore : core c₂.buf = revs ++ .insertSession session :: rehash := by
      rw [hgo.buf, hbuf]
      rcases hrehash with rfl | ⟨hash, rfl⟩ <;> simp [core_revokes hrevs, Op.isEvidence]
    exact .loggedIn hcore hrevs hrehash hissued (hgo.le.held hheld)
      (hcred db hv (hgo.le.sees hs)) hverify (hgo.marks ▸ hmark)
  -- from the session on
  have hissue : ∀ {rehash c₁}, Goes c rehash c₁ →
      (rehash = [] ∨ ∃ hash, rehash = [.setPassword user.id hash]) →
      Meets sv settings (.login r) (issueSession sv settings r user) c₁ := by
    intro rehash c₁ hc₁ hrehash
    have hplain : Plain c₁ (·.sessions) := by
      intro db
      rw [Ctx.view, hc₁.buf, hbuf]
      rcases hrehash with rfl | ⟨hash, rfl⟩ <;> rfl
    rw [Meets, issueSession, wp_bind]
    refine wp_issue (hc₁.le.held hheld) hplain
      (fun e c' hc' => (hclean.goes (hc₁.trans_nil hc')).fails e) ?_
    intro session secret c₂ hc₂ hissued
    have hnone : ∀ op ∈ ([] : List Op), op.isRevoke = true := by simp
    split
    · rw [wp_bind]
      refine wp_resolveOrNone fun previous c₃ hc₃ => ?_
      cases previous with
      | none => exact hleave [] hc₁ hrehash (hc₂.trans_nil hc₃) hnone (hissued.le hc₃.le)
      | some previous =>
        dsimp only
        rw [wp_bind]
        refine wp_revoke fun revs c₄ hc₄ hrevs _ => ?_
        exact hleave revs hc₁ hrehash ((hc₂.trans_nil hc₃).trans hc₄) hrevs
          (hissued.le (hc₃.le.trans hc₄.le))
    · exact hleave [] hc₁ hrehash hc₂ hnone hissued
  rw [Meets, startSession]
  split
  · rw [wp_bind]
    refine wp_hashPassword (fails_of_ne (by decide)) fun salt => ?_
    rw [wp_bind]
    refine wp_flushPassword hheld (fun c' hc' => fails_of_ne (by decide)) fun c₁ hc₁ => ?_
    exact hissue hc₁ (.inr ⟨_, rfl⟩)
  · exact hissue (.refl c) (.inl rfl)

theorem meets_login {r : LoginRequest} :
    Meets sv settings (.login r) (login sv settings r) {} := by
  rw [Meets, login, wp_bind, wp_tryCatch]
  refine wp_findUserByEmail (fun _ => rfl) ?_ ?_ ?_
  · intro _
    rw [if_pos rfl]
    exact fails_of_ne (by decide)
  · exact fun _ _ => fails_of_ne (by decide)
  · intro found c₁ hc₁ _ _
    dsimp only
    rw [wp_bind]
    refine wp_findUserById (hc₁.plain rfl fun _ => rfl) (fun _ _ => fails_of_ne (by decide)) ?_
    intro user c₂ hc₂ hid hheld _
    have hgo₂ := hc₁.trans_nil hc₂
    dsimp only
    rw [wp_bind]
    refine wp_query_locked (framed_credential user.id) (hgo₂.plain rfl fun _ => rfl)
      (hid ▸ hheld) ?_
    intro credential c₃ hc₃ _ hcred
    have hgo₃ := hgo₂.trans_nil hc₃
    cases credential with
    | none => exact fails_of_ne (by decide)
    | some credential =>
      dsimp only
      refine wp_guard (fun _ => fails_of_ne (by decide)) fun hverify => ?_
      have hheld₃ : .user user.id ∈ c₃.held := hc₃.le.held (hid ▸ hheld)
      rw [wp_bind, wp_note]
      refine ⟨hheld₃, wp_guard (fun _ => fails_of_ne (by decide)) fun _ => ?_⟩
      have hclean := Clean.initial.goes hgo₃
      refine meets_startSession ⟨hclean.past, hclean.epoch, ?_⟩ hgo₃.buf hheld₃ hcred ?_
        List.mem_cons_self
      · intro id hid
        rcases List.mem_cons.1 hid with hid | hid
        · cases hid
        · exact hclean.marks id hid
      · simpa [verifyPassword] using hverify

theorem meets_logout {secret : Option String} {hint : Option UUID} :
    Meets sv settings (.logout secret hint) (logout sv secret hint) {} := by
  rw [Meets, logout, wp_bind]
  refine wp_resolveOrNone fun actor c₁ hc₁ => ?_
  cases actor with
  | none => trivial
  | some actor =>
    dsimp only
    rw [wp_bind]
    refine wp_revoke fun revs c₂ hc₂ hrevs _ => ?_
    have hgo := hc₁.trans hc₂
    refine wp_leave (Clean.initial.goes hgo) fun db _ _ => .loggedOut ?_ hrevs
    rw [hgo.core_eq rfl, List.append_nil, core_revokes hrevs]

theorem meets_logoutAll {actor : Actor} :
    Meets sv settings (.logoutAll actor) (logoutAll sv actor) {} := by
  rw [Meets, logoutAll, wp_bind]
  refine wp_findUserById (fun _ => rfl) (fun _ _ => fails_of_ne (by decide)) ?_
  intro user c₁ hc₁ _ hheld _
  dsimp only
  rw [wp_bind]
  refine wp_revoke fun revs c₂ hc₂ hrevs hall => ?_
  have hgo := hc₁.trans hc₂
  have hall := hall rfl hheld (hc₁.plain rfl fun _ => rfl)
  refine wp_leave (Clean.initial.goes hgo) fun db hv hs =>
    .loggedOutAll ?_ hrevs (hc₂.le.held hheld) (hall db hv hs)
  rw [hgo.core_eq rfl, List.append_nil, core_revokes hrevs]

theorem meets_reauthenticate {actor : Actor} {password : String} :
    Meets sv settings (.reauthenticate actor password) (reauthenticate sv actor password) {} := by
  rw [Meets, reauthenticate, wp_bind]
  refine wp_findUserById (fun _ => rfl) ?_ ?_
  · intro c₁ _
    rw [wp_bind, wp_query]
    intro db t _ _ _
    rw [wp_bind, wp_query]
    exact fun _ _ _ _ _ => fails_of_ne (by decide)
  · intro user c₁ hc₁ _ _ _
    rw [wp_bind, wp_query]
    intro db t _ _ _
    rw [wp_bind, wp_query]
    intro db' t' _ _ _
    have hgo₂ := (hc₁.trans_nil (.observe db t)).trans_nil (.observe db' t')
    split
    case h_1 _ row _ hrow =>
      have hid : row.id = actor.sessionId := Store.key_of_get hrow
      refine wp_guard (fun _ => fails_of_ne (by decide)) fun _ => ?_
      rw [wp_bind, wp_utcNow]
      intro now _
      refine wp_guard (fun _ => fails_of_ne (by decide)) fun _ => ?_
      rw [wp_bind, wp_utcNow]
      intro authenticatedAt _
      have hgo₃ := (hgo₂.trans_nil (.time now)).trans_nil (.time authenticatedAt)
      rw [wp_bind]
      refine wp_flushRow (fun k hk => .inl (List.mem_singleton.1 hk)) rfl
        (fun _ _ => fails_of_ne (by decide)) fun c₄ hc₄ => ?_
      have hgo₄ := hgo₃.trans hc₄
      refine wp_leave (Clean.initial.goes hgo₄) fun _ _ _ => .reauthenticated ?_
        ⟨_, hc₄.le.clocks List.mem_cons_self, rfl⟩
      rw [hgo₄.core_eq rfl, hid]
      rfl
    · exact fails_of_ne (by decide)

/-! ## `users/administration.py` and `auth/bootstrap.py` -/

theorem Authorized.clean {actor : Actor} {limit : Option Nat} {user : User} (hclean : Clean c)
    (h : Authorized c c' actor limit user) : Clean c' where
  past := h.le.past.trans hclean.past
  epoch := h.le.epoch.trans hclean.epoch
  marks := by
    intro id hid
    have hmarked := h.marked
    cases limit with
    | none => exact hclean.marks id (hmarked ▸ hid)
    | some limit =>
      obtain ⟨now, hmarks, -⟩ := hmarked
      rw [hmarks] at hid
      rcases List.mem_cons.1 hid with hid | hid
      · cases hid
      · exact hclean.marks id hid

/-- While the membership is locked, an administrator stays one. -/
theorem sure_admin {r : Read (schema sv)} {id : UUID} {u : User} (hr : r ∈ c.reads)
    (hk : .advisory adminMembershipLock ∈ r.held) (hu : r.db.user id = some u)
    (hadmin : u.isAdmin = true) :
    c.Sure fun db => ∃ x, db.user id = some x ∧ x.isAdmin = true := by
  refine sure_of_read hr (fun op d hop ih => ?_) ⟨u, hu, hadmin⟩
  obtain ⟨y, hy, hyadmin⟩ := ih
  obtain ⟨x, hx⟩ : ∃ x, (op.apply d).user id = some x := Db.user_apply_of_some hy
  refine ⟨x, hx, ?_⟩
  rcases Db.user_apply hx with ⟨rfl, -, hnone⟩ | ⟨y', hy', hx'⟩
  · rw [hy] at hnone
    cases hnone
  · obtain rfl : y' = y := Option.some.inj (hy'.symm.trans hy)
    rcases hx' with rfl | ⟨role, isActive, rfl, rfl⟩ | ⟨t, -, rfl⟩
    · exact hyadmin
    · exact absurd hk (hop.needs _ (by simp [Op.needs]))
    · simp only [User.isAdmin, Bool.and_eq_true, Option.isSome_some, and_true] at hyadmin ⊢
      exact hyadmin.1

/-- While the membership is locked, an inactive administrator stays so, and nobody becomes one. -/
theorem sure_no_admin {r : Read (schema sv)} (hr : r ∈ c.reads)
    (hk : .advisory adminMembershipLock ∈ r.held)
    (h : ∀ id u, r.db.user id = some u → u.role = Role.admin.value → u.isActive = false) :
    c.Sure fun db => ∀ id u, db.user id = some u → u.role = Role.admin.value →
      u.isActive = false := by
  refine sure_of_read hr (fun op d hop ih id x hx hrole => ?_) h
  rcases Db.user_apply hx with ⟨rfl, -, -⟩ | ⟨y, hy, rfl | ⟨role, isActive, rfl, rfl⟩ | ⟨t, -, rfl⟩⟩
  · refine absurd hk (hop.needs _ ?_)
    simp [Op.needs, hrole, Role.value]
  · exact ih id x hy hrole
  · exact absurd hk (hop.needs _ (by simp [Op.needs]))
  · exact ih id y hy hrole

theorem meets_authorize {actor : Actor} {permission : Permission} {limit : Option Nat}
    {locked : Bool} :
    Meets sv settings (.authorize actor permission limit locked)
      (Auth.code sv settings (.authorize actor permission limit locked)) {} := by
  rw [Meets, Auth.code, wp_bind]
  refine wp_authorize rfl (fun _ _ _ _ _ h => h) (fun e c' he _ => fails_of_ne he) ?_
  exact fun _ _ _ _ => trivial

/-- The writes of `change_access`, once the last administrator is safe. -/
theorem meets_setAccess {actor : Actor} {role : Option Role} {isActive : Option Bool} {cid : String}
    {target : User} {newRole : String} {newActive : Bool} {audit : AuditActor}
    {metadata : List (String × AuditValue)} (hclean : Clean c) (hbuf : c.buf = [])
    (hmembers : .advisory adminMembershipLock ∈ c.held) (hheld : .user target.id ∈ c.held)
    (hsure : c.Sure fun db => db.user target.id = some target)
    (hverified : newRole = Role.admin.value → target.emailVerifiedAt.isSome = true)
    (hothers : c.Sure fun db => target.isAdmin = true →
      ¬ (newRole = Role.admin.value ∧ newActive = true) →
      ∃ id u, id ≠ target.id ∧ db.user id = some u ∧ u.isAdmin = true) :
    Meets sv settings (.changeAccess actor target.id role isActive cid) (do
      write (.setAccess target.id newRole newActive)
      revoke sv target.id none
      record sv audit "identity.access_changed" "user" target.id .succeeded metadata cid
      commit
      return .done) c := by
  rw [Meets, wp_bind, wp_write]
  refine ⟨fun k hk => ?_, by simp [Op.makes], ?_⟩
  · simp only [Op.needs, List.mem_cons, List.not_mem_nil, or_false] at hk
    rcases hk with rfl | rfl
    · exact hheld
    · exact hmembers
  · have hgo₁ : Goes c [.setAccess target.id newRole newActive] _ := .push _
    rw [wp_bind]
    refine wp_revoke fun revs c₂ hc₂ hrevs hall => ?_
    have hall := hall rfl hheld (hgo₁.plain hbuf fun _ => rfl)
    rw [wp_bind]
    refine wp_record (fails_of_ne (by decide)) fun row c₃ hc₃ => ?_
    have hgo₃ := (hgo₁.trans hc₂).trans hc₃
    refine wp_leave (hclean.goes hgo₃) fun db hv hs => ?_
    have hs₀ := hgo₃.le.sees hs
    refine .accessChanged ?_ hrevs (hgo₃.le.held hheld) (hsure db hv hs₀) hverified
      (hothers db hv hs₀) ?_
    · rw [hgo₃.core_eq hbuf]
      simp [core_revokes hrevs, Op.isEvidence]
    · rw [Ctx.view, hc₃.buf]
      exact hall db hv (hc₃.le.sees hs)

theorem meets_changeAccess {actor : Actor} {targetId : UUID} {role : Option Role}
    {isActive : Option Bool} {cid : String} :
    Meets sv settings (.changeAccess actor targetId role isActive cid)
      (changeAccess sv settings actor targetId role isActive cid) {} := by
  rw [Meets, changeAccess, lockMembership, wp_bind, wp_lock, wp_bind]
  refine wp_authorize rfl (fun _ _ _ _ _ h => h) (fun e c' he _ => fails_of_ne he) ?_
  intro _ c₁ hauth _
  have hclean : Clean c₁ := hauth.clean (Clean.initial.goes (.hold _))
  have hbuf : c₁.buf = [] := hauth.buf
  have hmembers : .advisory adminMembershipLock ∈ c₁.held := hauth.le.held List.mem_cons_self
  rw [wp_bind]
  refine wp_findUserById (Goes.plain (.refl c₁) hbuf fun _ => rfl)
    (fun _ _ => fails_of_ne (by decide)) ?_
  rintro target c₂ hc₂ rfl hheld hsure
  have hmembers₂ := hc₂.le.held hmembers
  dsimp only
  split
  · trivial
  · split
    case isTrue hdemotes =>
      rw [wp_bind, wp_query]
      intro db t _ _ _
      have hc₃ := hc₂.trans_nil (.observe db t)
      refine wp_guard (fun _ => fails_of_ne (by decide)) fun hcount => ?_
      refine wp_guard (fun _ => fails_of_ne (by decide)) fun hunverified => ?_
      refine meets_setAccess (hclean.goes hc₃) (hc₃.buf.trans hbuf) hmembers₂ hheld
        ((Ctx.le_observe db t).sure hsure) ?_ ?_
      · intro hrole
        simpa [hrole, ← Option.isSome_iff_ne_none] using hunverified
      · -- somebody else was an administrator when they were counted
        obtain ⟨u, hu, hadmin⟩ := List.countP_pos_iff.1 (Nat.pos_of_ne_zero hcount)
        simp only [Bool.and_eq_true, decide_eq_true_eq] at hadmin
        have hview : Db.users (c₂.view db) = db.users :=
          (hc₂.plain (g := Db.users) hbuf (fun _ => rfl)) db
        have huser : db.user u.id = some u := Store.mem_rows.1 (hview ▸ hu)
        refine (sure_admin (r := ⟨c₂.held, db, t⟩) List.mem_cons_self hmembers₂ huser
          hadmin.1).mono fun d hd _ _ => ?_
        obtain ⟨x, hx, hxadmin⟩ := hd
        exact ⟨u.id, x, hadmin.2, hx, hxadmin⟩
    case isFalse hkeeps =>
      refine wp_guard (fun _ => fails_of_ne (by decide)) fun hunverified => ?_
      refine meets_setAccess (hclean.goes hc₂) (hc₂.buf.trans hbuf) hmembers₂ hheld hsure ?_ ?_
      · intro hrole
        simpa [hrole, ← Option.isSome_iff_ne_none] using hunverified
      · intro db _ _ hadmin hdemotes
        refine absurd ⟨hadmin, ?_⟩ hkeeps
        rw [not_and_or] at hdemotes
        exact hdemotes.imp (fun h => h) fun h => by simpa using h

theorem meets_bootstrap {email password : String} {breached : Option Bool} :
    Meets sv settings (.bootstrap email password breached)
      (bootstrap sv email password breached) {} := by
  rw [Meets, bootstrap, lockMembership, wp_bind, wp_lock, wp_bind]
  have hgo₀ : Goes {} [] (Ctx.hold (S := schema sv) {} (.advisory adminMembershipLock)) := .hold _
  refine wp_findUserByEmail (fun _ => rfl) (fun _ => fails_of_ne (by decide)) ?_ ?_
  · intro c₁ hc₁
    have hgo₁ := hgo₀.trans_nil hc₁
    have hmembers : .advisory adminMembershipLock ∈ c₁.held := hc₁.le.held List.mem_cons_self
    dsimp only
    rw [wp_bind, wp_query]
    intro db t hv _ _
    have hgo₂ := hgo₁.trans_nil (.observe db t)
    refine wp_guard (fun _ => fails_of_ne (by decide)) fun hcount => ?_
    -- an administrator that there is can only be an inactive one
    have hnone : ∀ id u, db.user id = some u → u.role = Role.admin.value → u.isActive = false := by
      intro id u hu hrole
      have hview : Db.users (c₁.view db) = db.users :=
        (hgo₁.plain (g := Db.users) rfl fun _ => rfl) db
      have hmem : u ∈ (Db.users (c₁.view db)).rows := hview ▸ Store.mem_of_get hu
      have hnot := List.countP_eq_zero.1 (not_not.1 hcount) u hmem
      simpa [User.isAdmin, hrole, hv id u hu hrole] using hnot
    rw [wp_bind]
    refine wp_validateNewPassword (fun e he => fails_of_ne he) ?_
    rw [wp_bind]
    refine wp_createCustomer (hgo₂.plain rfl fun _ => rfl)
      (fun e c' hc' => (Clean.initial.goes (hgo₂.trans_nil hc')).fails e) ?_
    intro user c₃ hc₃ _ hrole hactive _ hdrawn hheld _
    rw [wp_bind, wp_utcNow]
    intro verifiedAt _
    rw [wp_bind]
    refine wp_hashPassword (fails_of_ne (by decide)) fun salt => ?_
    rw [wp_bind]
    refine wp_record (fails_of_ne (by decide)) fun audit c₄ hc₄ => ?_
    have hgo₄ := ((hgo₂.trans hc₃).trans_nil (.time verifiedAt)).trans hc₄
    have hheld₄ : .user user.id ∈ c₄.held := hc₄.le.held hheld
    have hdrawn₄ : user.id ∈ c₄.drawn := hc₄.le.drawn hdrawn
    have hmembers₄ : .advisory adminMembershipLock ∈ c₄.held := hc₄.le.held (hc₃.le.held hmembers)
    have hread : (⟨c₁.held, db, t⟩ : Read (schema sv)) ∈ c₄.reads :=
      hc₄.le.reads (hc₃.le.reads List.mem_cons_self)
    rw [wp_bind, wp_write]
    refine ⟨fun k hk => ?_, by simp [Op.makes], ?_⟩
    · simp only [Op.needs, List.mem_cons, List.not_mem_nil, or_false] at hk
      rcases hk with rfl | rfl
      · exact hheld₄
      · exact hmembers₄
    rw [wp_bind, wp_write]
    refine ⟨fun k hk => List.mem_singleton.1 hk ▸ hheld₄, by simp [Op.makes], ?_⟩
    rw [wp_bind, wp_write]
    refine ⟨fun k hk => List.mem_singleton.1 hk ▸ hheld₄,
      fun k hk => List.mem_singleton.1 hk ▸ hdrawn₄, ?_⟩
    have hgo₅ := ((hgo₄.trans (.push (.setAccess user.id Role.admin.value user.isActive))).trans
      (.push (.setVerified user.id verifiedAt))).trans
      (.push (.insertCredential { userId := user.id, passwordHash := sv.hash salt password }))
    refine wp_leave (Clean.initial.goes hgo₅) fun d hdv hs => ?_
    refine .bootstrapped (hgo₅.core_eq rfl) rfl ⟨hrole, hactive, hdrawn₄⟩ fun id u hu => ?_
    by_contra hadmin
    have hadmin : u.isAdmin = true := by simpa using hadmin
    have hinactive := sure_no_admin (c := c₄) hread hmembers hnone d hdv hs id u hu
    simp only [User.isAdmin, Bool.and_eq_true, decide_eq_true_eq] at hadmin
    rw [hinactive hadmin.1.1] at hadmin
    exact absurd hadmin.1.2 (by decide)
  · intro existing c₁ hc₁ _ _
    have hgo₁ := hgo₀.trans_nil hc₁
    dsimp only
    refine wp_guard (fun _ => fails_of_ne (by decide)) fun _ => ?_
    exact wp_leave (Clean.initial.goes hgo₁) fun _ _ _ => .nothing (hgo₁.core_eq rfl) rfl

/-! ## `auth/oidc/service.py` -/

theorem wp_auditActor {user : User} {G : Ctx (schema sv) → Db → Prop}
    {Q : AuditActor → Ctx (schema sv) → Prop} (h : ∀ audit, Q audit c) :
    wp G Notes Q Fails (auditActor sv user) c := by
  rw [auditActor]
  split
  · exact fails_of_ne (by decide)
  · exact h _

theorem wp_insertIdentity {identity : Identity} {user : User} {cid : String}
    {G : Ctx (schema sv) → Db → Prop} {Q : Unit → Ctx (schema sv) → Prop}
    (hheld : .user user.id ∈ c.held) (hplain : Plain c (·.identities))
    (hlock : .email sv (externalText identity.provider.value identity.subject) ∈ c.held)
    (h : ∀ row audit c', Goes c [.insertIdentity row, .addAudit audit] c' →
      Attached c' identity user.id row → Q () c') :
    wp G Notes Q Fails (insertIdentity sv identity user cid) c := by
  rw [insertIdentity, wp_bind, wp_utcNow]
  intro t _
  rw [wp_bind, wp_uuid4]
  intro id _
  dsimp only
  rw [wp_bind]
  refine wp_auditActor fun actor => ?_
  rw [wp_bind]
  refine wp_record (fails_of_ne (by decide)) fun audit c₁ hc₁ => ?_
  have hgo₁ : Goes c [.addAudit audit] c₁ := ((Goes.time t).trans_nil (.draw id)).of_nil hc₁
  have hdrawn : id ∈ c₁.drawn := hc₁.le.drawn List.mem_cons_self
  split
  · exact fails_of_ne (by decide)
  rw [wp_bind, wp_lock]
  refine wp_insertUnique ?_ ?_ (fun _ _ => fails_of_ne (by decide)) ?_
  · intro k hk
    simp only [Op.needs, List.mem_cons, List.not_mem_nil, or_false] at hk
    rcases hk with rfl | rfl | rfl | rfl | rfl
    · exact .inr (.inl rfl)
    · exact .inr (.inr (List.mem_cons_of_mem _ (hgo₁.le.held hheld)))
    · exact .inr (.inr (List.mem_cons_of_mem _ (hgo₁.le.held hlock)))
    · exact .inr (.inr List.mem_cons_self)
    · exact .inl rfl
  · intro k hk
    rw [List.mem_singleton.1 hk]
    exact hdrawn
  · intro r c' hc' _ hr hsub _ hfree
    refine h _ audit c' ((hgo₁.trans_nil (.hold _)).trans hc')
      ⟨rfl, rfl, rfl, hc'.le.drawn hdrawn, ?_⟩
    refine sure_of_read hr (fun op d hop ih i x hx => ?_) fun i x hx hkind => ?_
    · rcases Db.identity_apply hx with ⟨rfl, -, -⟩ | ⟨y, hy, rfl | ⟨t, -, rfl⟩⟩
      · rintro ⟨hprovider, hsubject⟩
        refine hop.needs (.uniqueSubject x.provider x.subject) (by simp [Op.needs]) (hsub ?_)
        rw [hprovider, hsubject]
        exact List.mem_cons_self
      · exact ih i x hy
      · exact ih i y hy
    · refine List.any_eq_false.1 hfree x ?_ (by simp [hkind.1, hkind.2])
      have hrows : Db.identities (c₁.view r.db) = r.db.identities := by
        rw [Ctx.view, hgo₁.buf]
        exact hplain r.db
      exact hrows ▸ Store.mem_of_get hx

/-- The session that a login by a provider issues is the one that it dates back. -/
theorem meets_finishSession {identity : Identity} {user : User} {cid : String} (hclean : Clean c)
    (hplain : Plain c (·.sessions)) (hheld : .user user.id ∈ c.held)
    (hexit : ∀ session secret now audit c', Goes c
        [.setAuthenticated session.id (now - seconds (settings.recentAuthSeconds + 1)),
          .addAudit audit, .insertSession session] c' → Issued c' user secret session →
      ReadAt c' now → ∀ db : Db, db.AdminsVerified → c'.Sees db → Exit sv settings call c' db) :
    Meets sv settings call (finishSession sv settings identity user cid) c := by
  rw [Meets, finishSession, wp_bind]
  refine wp_issue hheld hplain (fun e c' hc' => (hclean.goes hc').fails e) ?_
  intro session secret c₁ hc₁ hissued
  rw [wp_bind, wp_query]
  intro db t hv hs _
  split
  · exact fails_of_ne (by decide)
  case h_2 found hfound =>
    have hsame : found = session := by
      have hhash : found.secretHash = digest sv secret := by simpa using List.find?_some hfound
      have hget : Db.session (c₁.view db) found.id = some found :=
        Store.mem_rows.1 (List.mem_of_find?_eq_some hfound)
      have hview : c₁.view db = Op.apply (.insertSession session) (c.view db) := by
        rw [Ctx.view, hc₁.buf]
        rfl
      rw [hview] at hget
      rcases Db.session_apply hget with ⟨hop, -, -⟩ | ⟨y, hy, rfl | ⟨t, hop, -⟩ | ⟨t, hop, -⟩⟩
      · injection hop with hrow
        exact hrow.symm
      · have hy' : db.session found.id = some found := by
          rw [Db.session, ← show Db.sessions (c.view db) = db.sessions from hplain db]
          exact hy
        exact absurd (hhash.trans hissued.hash.symm) (hissued.only db hv hs _ _ hy')
      · cases hop
      · cases hop
    subst hsame
    rw [wp_bind, wp_utcNow]
    intro now _
    rw [wp_bind]
    refine wp_auditActor fun actor => ?_
    rw [wp_bind]
    refine wp_record (fails_of_ne (by decide)) fun audit c₂ hc₂ => ?_
    have hgo₂ := ((hc₁.trans_nil (.observe db t)).trans_nil (.time now)).trans hc₂
    have hle : c₁.Le c₂ := ((Ctx.le_observe db t).trans (Ctx.le_time now)).trans hc₂.le
    rw [wp_bind]
    refine wp_flushRow (fun k hk => .inl (List.mem_singleton.1 hk)) rfl
      (fun _ _ => fails_of_ne (by decide)) fun c₃ hc₃ => ?_
    refine wp_leave (hclean.goes (hgo₂.trans hc₃)) (hexit found secret now audit c₃
      (hgo₂.trans hc₃) (hissued.le (hle.trans hc₃.le)) ?_)
    exact ⟨_, hc₃.le.clocks (hc₂.le.clocks List.mem_cons_self), rfl⟩

/-- An identity keeps its subject and its user. -/
theorem sure_identity {r : Read (schema sv)} {p : ExternalIdentity} (hr : r ∈ c.reads)
    (hp : r.db.identity p.id = some p) :
    c.Sure fun db => ∀ x, db.identity p.id = some x →
      x.provider = p.provider ∧ x.subject = p.subject ∧ x.userId = p.userId := by
  have huses : r.db.Uses p.id := .inr (.inr (.inr (.inr (by simp [hp]))))
  refine sure_of_read hr (fun op d hop ih x hx => ?_) fun x hx => ?_
  · rcases Db.identity_apply hx with ⟨rfl, hid, -⟩ | ⟨y, hy, rfl | ⟨t, -, rfl⟩⟩
    · exact absurd (hid ▸ huses) (hop.makes x.id List.mem_cons_self)
    · exact ih x hy
    · exact ih y hy
  · rw [hp] at hx
    cases hx
    exact ⟨rfl, rfl, rfl⟩

theorem meets_finishLogin {identity : Identity} {attempt : Attempt} {actor : Option Actor}
    {external : Option ExternalIdentity} {cid : String} (hgo : Goes {} [] c)
    (hlogin : attempt.intent = .login)
    (hlock : .email sv (externalText identity.provider.value identity.subject) ∈ c.held)
    (hexternal : ∀ x, external = some x → x.provider = identity.provider.value ∧
      x.subject = identity.subject ∧ ∃ r ∈ c.reads, r.db.identity x.id = some x) :
    Meets sv settings (.finish identity attempt actor cid)
      (finishLogin sv settings identity external cid) c := by
  cases external with
  | some external =>
    obtain ⟨hprovider, hsubject, r, hr, hread⟩ := hexternal external rfl
    rw [Meets, finishLogin, wp_bind]
    refine wp_findUserById (hgo.plain rfl fun _ => rfl) (fun _ _ => fails_of_ne (by decide)) ?_
    intro user c₁ hc₁ hid hheld _
    have hgo₁ := hgo.trans_nil hc₁
    dsimp only
    refine wp_guard (fun _ => fails_of_ne (by decide)) fun _ => ?_
    rw [wp_bind, wp_utcNow]
    intro lastLoginAt _
    have hgo₂ := hgo₁.trans_nil (.time lastLoginAt)
    rw [wp_bind]
    refine wp_flushRow_sure (framed_identity external.id) (hgo₂.plain rfl fun _ => rfl)
      (fun k hk => .inl (List.mem_singleton.1 hk)) rfl (fun _ _ => fails_of_ne (by decide)) ?_
    intro row c₃ hc₃ hrow
    have hgo₃ := hgo₂.trans hc₃
    refine meets_finishSession (Clean.initial.goes hgo₃) (hgo₃.plain rfl fun _ => rfl)
      (hc₃.le.held (hid ▸ hheld)) ?_
    intro session secret now audit c₄ hc₄ hissued hnow db hv hs
    have hs₃ := hc₄.le.sees hs
    have hs₁ := (Ctx.le_time lastLoginAt).sees (hc₃.le.sees hs₃)
    have hkept := sure_identity hr hread db hv (hc₁.le.sees hs₁) row (hrow db hv hs₃)
    exact .entered ((hgo₃.trans hc₄).core_eq rfl) hlogin hissued hnow ⟨row, hrow db hv hs₃,
      hkept.1.trans hprovider, hkept.2.1.trans hsubject, hkept.2.2.trans hid.symm⟩
  | none =>
    rw [Meets, finishLogin]
    split
    · exact fails_of_ne (by decide)
    case h_2 email _ =>
      rw [lockEmail, wp_bind, wp_lock, wp_bind]
      have hgo₁ := hgo.trans_nil (.hold (.email sv email))
      refine wp_findUserByEmail (hgo₁.plain rfl fun _ => rfl) (fun _ => fails_of_ne (by decide)) ?_
        (fun _ _ _ _ _ => fails_of_ne (by decide))
      intro c₂ hc₂
      have hgo₂ := hgo₁.trans_nil hc₂
      dsimp only
      rw [wp_bind]
      refine wp_createCustomer (hgo₂.plain rfl fun _ => rfl)
        (fun e c' hc' => (Clean.initial.goes (hgo₂.trans_nil hc')).fails e) ?_
      intro user c₃ hc₃ _ hrole hactive _ hdrawn hheld _
      have hgo₃ := hgo₂.trans hc₃
      rw [wp_bind, wp_utcNow]
      intro verifiedAt _
      rw [wp_bind, wp_write]
      refine ⟨fun k hk => List.mem_singleton.1 hk ▸ hheld, by simp [Op.makes], ?_⟩
      have hgo₄ := (hgo₃.trans_nil (.time verifiedAt)).trans
        (.push (.setVerified user.id verifiedAt))
      rw [wp_bind]
      refine wp_insertIdentity hheld (hgo₄.plain rfl fun _ => rfl)
        (hc₃.le.held (hc₂.le.held (List.mem_cons_of_mem _ hlock))) ?_
      intro row audit c₅ hc₅ hattached
      have hgo₅ := hgo₄.trans hc₅
      refine meets_finishSession (Clean.initial.goes hgo₅) (hgo₅.plain rfl fun _ => rfl)
        (hc₅.le.held hheld) ?_
      intro session secret now audit' c₆ hc₆ hissued hnow db _ _
      refine .joined ((hgo₅.trans hc₆).core_eq rfl) hlogin ?_ ?_ hissued hnow
      · exact ⟨hrole, hactive, hc₆.le.drawn (hc₅.le.drawn hdrawn)⟩
      · exact hattached.le hc₆.le

/-- A link comes to its commit with the identity attached to the actor. -/
theorem wp_finishLink {G : Ctx (schema sv) → Db → Prop} {identity : Identity} {actor : Actor}
    {external : Option ExternalIdentity} {cid : String} (hclean : Clean c) (hbuf : c.buf = [])
    (hlock : .email sv (externalText identity.provider.value identity.subject) ∈ c.held)
    (hleave : ∀ row now c', Clean c' → core c'.buf = [.insertIdentity row] →
      Attached c' identity actor.userId row →
      Recent c' actor.userId actor.sessionId settings.recentAuthSeconds now →
      wp G Notes (fun _ _ => True) Fails (do commit; return AuthResult.done) c') :
    wp G Notes (fun _ _ => True) Fails (finishLink sv settings identity external actor cid) c := by
  rw [finishLink, wp_bind]
  refine wp_authorize hbuf (fun _ _ _ _ _ h => h) (fun e c' he _ => fails_of_ne he) ?_
  intro user c₁ hauth hlocked
  have hbuf₁ : c₁.buf = [] := hauth.buf.trans hbuf
  obtain ⟨hheld, -⟩ := hlocked rfl
  split
  · split
    · exact fails_of_ne (by decide)
    · exact fails_of_ne (by decide)
  · rw [wp_bind, wp_query]
    intro db t _ _ _
    refine wp_guard (fun _ => fails_of_ne (by decide)) fun _ => ?_
    have hgo₂ : Goes c₁ [] (c₁.observe db t) := .observe db t
    rw [wp_bind]
    refine wp_insertIdentity (hauth.id ▸ hheld) (hgo₂.plain hbuf₁ fun _ => rfl)
      (hauth.le.held hlock) ?_
    intro row audit c₃ hc₃ hattached
    have hgo₃ := hgo₂.of_nil hc₃
    obtain ⟨now, -, hrecent⟩ := hauth.marked
    exact hleave row now c₃ ((hauth.clean hclean).goes hgo₃) (hgo₃.core_eq hbuf₁)
      (hauth.id ▸ hattached) (hrecent.le hgo₃.le)

theorem meets_finishLink {identity : Identity} {attempt : Attempt} {actor : Actor}
    {external : Option ExternalIdentity} {cid : String} (hgo : Goes {} [] c)
    (hlink : attempt.intent = .link)
    (hlock : .email sv (externalText identity.provider.value identity.subject) ∈ c.held) :
    Meets sv settings (.finish identity attempt (some actor) cid)
      (finishLink sv settings identity external actor cid) c := by
  refine wp_finishLink (Clean.initial.goes hgo) hgo.buf hlock ?_
  intro row now c' hclean hcore hattached hrecent
  exact wp_leave hclean fun _ _ _ => .linked hcore hlink hattached hrecent

/-- A reauthentication comes to its commit with the actor's session and an identity of the actor. -/
theorem wp_finishReauthenticate {G : Ctx (schema sv) → Db → Prop} {identity : Identity}
    {actor : Actor} {external : Option ExternalIdentity} {cid : String} (hclean : Clean c)
    (hbuf : c.buf = [])
    (hexternal : ∀ x, external = some x → ∃ r ∈ c.reads, r.db.identity x.id = some x)
    (hleave : ∀ (own : ExternalIdentity) t lastLoginAt c', Clean c' →
      core c'.buf = [.setLastLogin own.id lastLoginAt, .setAuthenticated actor.sessionId t] →
      ReadAt c' t →
      (c'.Sure fun db => ∀ x, db.identity own.id = some x → x.userId = actor.userId) →
      wp G Notes (fun _ _ => True) Fails (do commit; return AuthResult.done) c') :
    wp G Notes (fun _ _ => True) Fails (finishReauthenticate sv identity external actor cid) c := by
  rw [finishReauthenticate, wp_bind]
  refine wp_authorize hbuf (fun _ _ _ _ _ h => h) (fun e c' he _ => fails_of_ne he) ?_
  intro user c₁ hauth _
  have hbuf₁ : c₁.buf = [] := hauth.buf.trans hbuf
  cases external with
  | none => exact fails_of_ne (by decide)
  | some external =>
    obtain ⟨r, hr, hread⟩ := hexternal external rfl
    dsimp only
    refine wp_guard (fun _ => fails_of_ne (by decide)) fun howner => ?_
    have howner : external.userId = actor.userId := by
      by_contra hne
      exact howner (by simp [hne])
    rw [wp_bind, wp_query]
    intro db t _ _ _
    split
    · exact fails_of_ne (by decide)
    case h_2 session hsession =>
      have hid : session.id = actor.sessionId := Store.key_of_get hsession
      refine wp_guard (fun _ => fails_of_ne (by decide)) fun _ => ?_
      rw [wp_bind, wp_utcNow]
      intro now _
      refine wp_guard (fun _ => fails_of_ne (by decide)) fun _ => ?_
      rw [wp_bind, wp_utcNow]
      intro authenticatedAt _
      rw [wp_bind, wp_utcNow]
      intro lastLoginAt _
      have hgo₂ : Goes c₁ [] ((((c₁.observe db t).time now).time authenticatedAt).time
          lastLoginAt) :=
        (((Goes.observe db t).trans (.time now)).trans (.time authenticatedAt)).trans (.time _)
      rw [wp_bind]
      refine wp_record (fails_of_ne (by decide)) fun audit c₃ hc₃ => ?_
      rw [wp_bind]
      refine wp_flushRow (fun k hk => .inl (List.mem_singleton.1 hk)) rfl
        (fun _ _ => fails_of_ne (by decide)) fun c₄ hc₄ => ?_
      rw [wp_bind]
      refine wp_flushRow (fun k hk => .inl (List.mem_singleton.1 hk)) rfl
        (fun _ _ => fails_of_ne (by decide)) fun c₅ hc₅ => ?_
      have hgo₅ := ((hgo₂.of_nil hc₃).trans hc₄).trans hc₅
      have hcore : core c₅.buf = [.setLastLogin external.id lastLoginAt,
          .setAuthenticated actor.sessionId authenticatedAt] := by
        rw [hgo₅.core_eq hbuf₁, hid]
        rfl
      have hat : ReadAt c₅ authenticatedAt := ⟨_, hc₅.le.clocks (hc₄.le.clocks (hc₃.le.clocks
        (List.mem_cons_of_mem _ List.mem_cons_self))), rfl⟩
      refine hleave external authenticatedAt lastLoginAt c₅ ((hauth.clean hclean).goes hgo₅)
        hcore hat ?_
      refine (sure_identity (hgo₅.le.reads (hauth.le.reads hr)) hread).mono fun d hd x hx => ?_
      exact (hd x hx).2.2.trans howner

theorem meets_finishReauthenticate {identity : Identity} {attempt : Attempt} {actor : Actor}
    {external : Option ExternalIdentity} {cid : String} (hgo : Goes {} [] c)
    (hintent : attempt.intent = .reauthenticate)
    (hexternal : ∀ x, external = some x → ∃ r ∈ c.reads, r.db.identity x.id = some x) :
    Meets sv settings (.finish identity attempt (some actor) cid)
      (finishReauthenticate sv identity external actor cid) c := by
  refine wp_finishReauthenticate (Clean.initial.goes hgo) hgo.buf hexternal ?_
  intro own t lastLoginAt c' hclean hcore hat _
  exact wp_leave hclean fun _ _ _ => .confirmed hcore hintent hat

/-- The identity that `finish` looks up under the lock of its subject. -/
theorem wp_finish {G : Ctx (schema sv) → Db → Prop} {identity : Identity} {attempt : Attempt}
    {actor : Option Actor} {cid : String} (hgo : Goes {} [] c)
    (hlogin : ∀ external c', Goes {} [] c' → attempt.intent = .login →
      .email sv (externalText identity.provider.value identity.subject) ∈ c'.held →
      (∀ x, external = some x → x.provider = identity.provider.value ∧
        x.subject = identity.subject ∧ ∃ r ∈ c'.reads, r.db.identity x.id = some x) →
      wp G Notes (fun _ _ => True) Fails (finishLogin sv settings identity external cid) c')
    (hreauthenticate : ∀ external a c', Goes {} [] c' → attempt.intent = .reauthenticate →
      actor = some a → some a.userId = attempt.actorId → some a.sessionId = attempt.sessionId →
      (∀ x, external = some x → ∃ r ∈ c'.reads, r.db.identity x.id = some x) →
      wp G Notes (fun _ _ => True) Fails (finishReauthenticate sv identity external a cid) c')
    (hlink : ∀ external a c', Goes {} [] c' → attempt.intent = .link → actor = some a →
      some a.userId = attempt.actorId → some a.sessionId = attempt.sessionId →
      .email sv (externalText identity.provider.value identity.subject) ∈ c'.held →
      wp G Notes (fun _ _ => True) Fails (finishLink sv settings identity external a cid) c') :
    wp G Notes (fun _ _ => True) Fails (finish sv settings identity attempt actor cid) c := by
  rw [finish]
  refine wp_guard (fun _ => fails_of_ne (by decide)) fun _ => ?_
  rw [lockEmail, wp_bind, wp_lock, wp_bind, wp_query]
  intro db t _ _ _
  let key : Key := .email sv (externalText identity.provider.value identity.subject)
  have hgo' : Goes {} [] ((c.hold key).observe db t) :=
    (hgo.trans_nil (.hold key)).trans_nil (.observe db t)
  have hlock : key ∈ ((c.hold key).observe db t).held := List.mem_cons_self
  have hfound : ∀ x, (Db.identities ((c.hold key).view db)).rows.find? (fun x =>
        x.provider = identity.provider.value && x.subject = identity.subject) = some x →
      x.provider = identity.provider.value ∧ x.subject = identity.subject ∧
        ∃ r ∈ ((c.hold key).observe db t).reads, r.db.identity x.id = some x := by
    intro x hx
    have hkind : x.provider = identity.provider.value ∧ x.subject = identity.subject := by
      simpa using List.find?_some hx
    have hview : (c.hold key).view db = db := by
      rw [Ctx.view, Ctx.hold, hgo.buf]
      rfl
    rw [hview] at hx
    exact ⟨hkind.1, hkind.2, _, List.mem_cons_self,
      Store.mem_rows.1 (List.mem_of_find?_eq_some hx)⟩
  split
  case isTrue hintent => exact hlogin _ _ hgo' hintent hlock hfound
  case isFalse hintent =>
    split
    · exact fails_of_ne (by decide)
    case h_2 a =>
      refine wp_guard (fun _ => fails_of_ne (by decide)) fun hbound => ?_
      simp only [ne_eq, decide_not, Bool.or_eq_true, Bool.not_eq_true', decide_eq_false_iff_not,
        not_or, not_not] at hbound
      split
      case isTrue hreauth =>
        exact hreauthenticate _ a _ hgo' hreauth rfl hbound.1 hbound.2 fun x hx =>
          (hfound x hx).2.2
      case isFalse hreauth =>
        refine hlink _ a _ hgo' ?_ rfl hbound.1 hbound.2 hlock
        cases hi : attempt.intent with
        | login => exact absurd hi hintent
        | link => rfl
        | reauthenticate => exact absurd hi hreauth

theorem meets_finish {identity : Identity} {attempt : Attempt} {actor : Option Actor}
    {cid : String} (hgo : Goes {} [] c) :
    Meets sv settings (.finish identity attempt actor cid)
      (finish sv settings identity attempt actor cid) c := by
  refine wp_finish hgo ?_ ?_ ?_
  · intro external c' hgo' hintent hlock hexternal
    exact meets_finishLogin hgo' hintent hlock hexternal
  · intro external a c' hgo' hintent hactor _ _ hexternal
    subst hactor
    exact meets_finishReauthenticate hgo' hintent hexternal
  · intro external a c' hgo' hintent hactor _ _ hlock
    subst hactor
    exact meets_finishLink hgo' hintent hlock

theorem meets_unlink {actor : Actor} {provider : ProviderName} {cid : String} :
    Meets sv settings (.unlink actor provider cid) (unlink sv settings actor provider cid) {} := by
  rw [Meets, unlink, wp_bind, wp_query]
  intro db₀ t₀ _ _ _
  split
  · exact fails_of_ne (by decide)
  · rw [lockEmail, wp_bind, wp_lock, wp_bind]
    refine wp_authorize rfl (fun _ _ _ _ _ h => h) (fun e c' he _ => fails_of_ne he) ?_
    intro user c₁ hauth hlocked
    have hclean : Clean c₁ :=
      hauth.clean (Clean.initial.goes ((Goes.observe db₀ t₀).trans (.hold _)))
    have hbuf : c₁.buf = [] := hauth.buf
    obtain ⟨hheld, -⟩ := hlocked rfl
    have hview : ∀ {c'}, Goes c₁ [] c' → ∀ db : Db, c'.view db = db := by
      intro c' hc' db
      rw [Ctx.view, hc'.buf, hbuf]
      rfl
    rw [wp_bind, wp_query]
    intro db₁ t₁ _ _ _
    have hc₂ : Goes c₁ [] (c₁.observe db₁ t₁) := .observe db₁ t₁
    rw [hview (.refl c₁)]
    split
    · exact fails_of_ne (by decide)
    case h_2 existing hexisting =>
      rw [wp_bind, wp_query]
      intro db₂ t₂ _ _ _
      have hc₃ := hc₂.trans_nil (.observe db₂ t₂)
      rw [hview hc₂, wp_bind]
      refine wp_query_locked (framed_credential actor.userId) (hc₃.plain hbuf fun _ => rfl) hheld ?_
      intro password c₄ hc₄ _ hpassword
      refine wp_guard (fun _ => fails_of_ne (by decide)) fun hmethod => ?_
      rw [wp_bind]
      refine wp_record (fails_of_ne (by decide)) fun audit c₅ hc₅ => ?_
      have hgo₅ := (hc₃.trans_nil hc₄).of_nil hc₅
      rw [wp_bind]
      refine wp_forUpdate (framed_identity existing.id) (hgo₅.plain hbuf fun _ => rfl) ?_ ?_
      · intro c₆ hc₆
        have hgo₆ := hgo₅.trans_nil hc₆
        exact wp_leave (hclean.goes hgo₆) fun _ _ _ => .nothing (hgo₆.core_eq hbuf) rfl
      · intro row c₆ hc₆ hk _ _
        have huser : existing.userId = actor.userId ∧ existing.provider = provider.value := by
          simpa using List.find?_some hexisting
        have hread₁ : db₁.identity existing.id = some existing :=
          Store.mem_rows.1 (List.mem_of_find?_eq_some hexisting)
        have hle₃ : ((c₁.observe db₁ t₁).observe db₂ t₂).Le c₆ :=
          (hc₄.le.trans hc₅.le).trans hc₆.le
        have hheld₆ := hle₃.held hheld
        dsimp only
        rw [wp_bind, wp_lock, wp_bind, wp_lock, wp_bind, wp_write]
        refine ⟨fun k hmem => ?_, by simp [Op.makes], ?_⟩
        · simp only [Op.needs, List.mem_cons, List.not_mem_nil, or_false, huser.1] at hmem
          rcases hmem with rfl | rfl
          · exact List.mem_cons_of_mem _ (List.mem_cons_of_mem _ hk)
          · exact List.mem_cons_of_mem _ (List.mem_cons_of_mem _ hheld₆)
        · have hgo₇ := (((hgo₅.trans_nil hc₆).trans_nil
            (.hold (.uniqueSubject existing.provider existing.subject))).trans_nil
            (.hold (.uniqueProvider existing.userId existing.provider))).trans
            (.push (.deleteIdentity existing))
          refine wp_leave (hclean.goes hgo₇) fun db hv hs => ?_
          have hs₆ : c₆.Sees db := hs
          refine .unlinked (hgo₇.core_eq hbuf)
            (List.mem_cons_of_mem _ (List.mem_cons_of_mem _ hheld₆)) ?_ ?_
          · intro x hx
            have hkept := sure_identity (r := ⟨c₁.held, db₁, t₁⟩)
              (hle₃.reads (List.mem_cons_of_mem _ List.mem_cons_self)) hread₁ db hv hs₆ x hx
            exact hkept.2.2.trans huser.1
          · rw [hpassword db hv ((hc₅.le.trans hc₆.le).sees hs₆)]
            by_cases hnone : password = none
            · have hcount : 1 < db₂.identities.rows.countP (·.userId = actor.userId) := by
                by_contra hle
                exact hmethod ⟨Nat.le_of_not_lt hle, by simp [hnone]⟩
              obtain ⟨x, hx, hxuser, hne⟩ := Store.exists_other hcount existing.id
              refine .inr ⟨⟨c₁.held, db₂, t₂⟩, hle₃.reads List.mem_cons_self, hheld, x,
                Store.mem_rows.1 hx, hne, by simpa using hxuser⟩
            · exact .inl hnone

/-! ## Every call -/

theorem code_meets (sv : Services) (settings : AuthSettings) (call : Call) :
    Meets sv settings call (Auth.code sv settings call) {} := by
  cases call with
  | beginRegistration => exact meets_beginRegistration
  | completeRegistration => exact meets_completeRegistration
  | login => exact meets_login
  | logout => exact meets_logout
  | logoutAll => exact meets_logoutAll
  | reauthenticate => exact meets_reauthenticate
  | beginReset => exact meets_beginReset
  | completeReset => exact meets_completeReset
  | changeAccess => exact meets_changeAccess
  | bootstrap => exact meets_bootstrap
  | finish => exact meets_finish (.refl _)
  | unlink => exact meets_unlink
  | authorize => exact meets_authorize

end

end Ekumidayomi
