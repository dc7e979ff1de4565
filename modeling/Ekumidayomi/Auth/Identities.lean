import Ekumidayomi.Auth.Runs

/-!
# External identities and login methods

What each commit does to the external identities (`IdentityChange`), and two results about whole
runs: no account is taken over through an external identity (`no_takeover`), and every account keeps
a login method (`accounts_keep_a_method`). For the second, a transaction that has counted the
identities of a user under the lock of the user's row can rely on them until it commits
(`Auth.Relies`): whoever removes one holds that lock.
-/

namespace Ekumidayomi

open Transact

/-- The rows belong to one identity. Only `last_login_at` may differ. -/
def SameIdentity (x y : ExternalIdentity) : Prop :=
  x.provider = y.provider ∧ x.subject = y.subject ∧ x.userId = y.userId

section
variable {sv : Services} {settings : AuthSettings} {call : Call} {c : Ctx (schema sv)}
  {db : Db} {ops : List Op}

theorem SameIdentity.refl (x : ExternalIdentity) : SameIdentity x x := ⟨rfl, rfl, rfl⟩

/-- What a commit does to the external identities. -/
inductive IdentityChange (settings : AuthSettings) (c : Ctx (schema sv)) (db : Db) : Call → Prop
  | kept {call : Call} :
      (∀ id x, Db.identity (c.view db) id = some x →
        ∃ y, db.identity id = some y ∧ SameIdentity x y) →
      (∀ id y, db.identity id = some y →
        ∃ x, Db.identity (c.view db) id = some x ∧ SameIdentity x y) →
      IdentityChange settings c db call
  | joined {identity : Identity} {attempt : Attempt} {actor : Option Actor}
      {correlationId : String} {row : ExternalIdentity} {user : User} :
      attempt.intent = .login → NewUser c user → .insertUser user ∈ c.buf →
      Attached c identity user.id row →
      (∀ id, Db.identity (c.view db) id = if id = row.id then some row else db.identity id) →
      IdentityChange settings c db (.finish identity attempt actor correlationId)
  | linked {identity : Identity} {attempt : Attempt} {actor : Actor} {correlationId : String}
      {row : ExternalIdentity} {now : Time} :
      attempt.intent = .link → Attached c identity actor.userId row →
      Recent c actor.userId actor.sessionId settings.recentAuthSeconds now →
      (∀ id, Db.identity (c.view db) id = if id = row.id then some row else db.identity id) →
      IdentityChange settings c db (.finish identity attempt (some actor) correlationId)
  | removed {actor : Actor} {provider : ProviderName} {correlationId : String}
      {row : ExternalIdentity} :
      .user actor.userId ∈ c.held →
      (∀ x, db.identity row.id = some x → x.userId = actor.userId) →
      (db.credential actor.userId ≠ none ∨
        ∃ r ∈ c.reads, .user actor.userId ∈ r.held ∧
          ∃ x, r.db.identity x.id = some x ∧ x.id ≠ row.id ∧ x.userId = actor.userId) →
      (∀ id, Db.identity (c.view db) id = if id = row.id then none else db.identity id) →
      IdentityChange settings c db (.unlink actor provider correlationId)

/-- A commit that writes no identity. -/
theorem identityChange_none (h : core c.buf = ops) (hon : on .identities ops = []) :
    IdentityChange settings c db call := by
  have hsame : ∀ id, Db.identity (c.view db) id = db.identity id := by
    intro id
    rw [view_identity h, hon]
    rfl
  exact .kept (fun id x hx => ⟨x, hsame id ▸ hx, .refl x⟩)
    fun id y hy => ⟨y, (hsame id).trans hy, .refl y⟩

/-- A commit that notes a login with an identity. -/
theorem view_identity_lastLogin {key : UUID} {t : Time} (h : core c.buf = ops)
    (hon : on .identities ops = [.setLastLogin key t]) (id : UUID) :
    Db.identity (c.view db) id = if id = key then
      (db.identity id).map ({ · with lastLoginAt := t }) else db.identity id := by
  rw [view_identity h, hon]
  simp only [applyOps_cons, applyOps_nil, Db.identity, Op.apply, Store.get_modify]

theorem identityChange_lastLogin {key : UUID} {t : Time} (h : core c.buf = ops)
    (hon : on .identities ops = [.setLastLogin key t]) : IdentityChange settings c db call := by
  refine .kept (fun id x hx => ?_) fun id y hy => ?_
  · rw [view_identity_lastLogin h hon] at hx
    split at hx
    · obtain ⟨y, hy, rfl⟩ := Option.map_eq_some_iff.1 hx
      exact ⟨y, hy, rfl, rfl, rfl⟩
    · exact ⟨x, hx, .refl x⟩
  · rw [view_identity_lastLogin h hon, hy]
    split
    · exact ⟨_, rfl, rfl, rfl, rfl⟩
    · exact ⟨y, rfl, .refl y⟩

theorem view_identity_insert {row : ExternalIdentity} (h : core c.buf = ops)
    (hon : on .identities ops = [.insertIdentity row]) (hs : c.Sees db) (hrow : row.id ∈ c.drawn)
    (id : UUID) :
    Db.identity (c.view db) id = if id = row.id then some row else db.identity id := by
  have hnone : db.identity row.id = none := by
    by_contra hne
    exact hs.2 row.id hrow (.inr (.inr (.inr (.inr hne))))
  rw [view_identity h, hon]
  simp only [applyOps_cons, applyOps_nil, Db.identity, Op.apply]
  split
  case isTrue hid => rw [hid, Store.get_insert_self hnone]
  case isFalse hid => rw [Store.get_insert_ne (Ne.symm hid)]

theorem Commits.identities (h : Commits sv settings call c db) (hs : c.Sees db) :
    IdentityChange settings c db call := by
  obtain ⟨-, ⟨row, hguess⟩ | ⟨-, hexit⟩⟩ := h
  · exact identityChange_none hguess.buf rfl
  · cases hexit with
    | nothing hbuf => exact identityChange_none hbuf rfl
    | issued hbuf => exact identityChange_none hbuf (on_issued (by decide))
    | registered hbuf | reauthenticated hbuf | bootstrapped hbuf =>
      exact identityChange_none hbuf rfl
    | loggedIn hbuf hrevs hrehash =>
      refine identityChange_none hbuf ?_
      rcases hrehash with rfl | ⟨hash, rfl⟩ <;> simp [on_revokes hrevs, Op.table]
    | loggedOut hbuf hrevs | loggedOutAll hbuf hrevs =>
      exact identityChange_none hbuf (on_revokes hrevs (by decide))
    | reset hbuf hrevs | accessChanged hbuf hrevs =>
      exact identityChange_none hbuf (by simp [on_revokes hrevs, Op.table])
    | entered hbuf | confirmed hbuf => exact identityChange_lastLogin hbuf rfl
    | joined hbuf hlogin hnew hattached =>
      refine .joined hlogin hnew ?_ hattached
        (view_identity_insert hbuf rfl hs hattached.drawn)
      exact (mem_core rfl).1 (hbuf ▸ by simp)
    | linked hbuf hlink hattached hrecent =>
      exact .linked hlink hattached hrecent (view_identity_insert hbuf rfl hs hattached.drawn)
    | unlinked hbuf hheld huser hmethod =>
      refine .removed hheld huser hmethod fun id => ?_
      rw [view_identity hbuf]
      exact Store.get_erase

/-! ## One user for each subject -/

/-- The unique constraint on the provider and subject of an identity. -/
def Db.UniqueSubjects (db : Db) : Prop :=
  ∀ x y : ExternalIdentity, db.identity x.id = some x → db.identity y.id = some y →
    x.provider = y.provider → x.subject = y.subject → x = y

theorem Commits.uniqueSubjects (h : Commits sv settings call c db) (hv : db.AdminsVerified)
    (hs : c.Sees db) (hu : db.UniqueSubjects) : Db.UniqueSubjects (c.view db) := by
  -- a row that is new has no other of its kind, the others are as they were
  have hadded : ∀ {identity userId row}, Attached c identity userId row →
      (∀ id, Db.identity (c.view db) id = if id = row.id then some row else db.identity id) →
      Db.UniqueSubjects (c.view db) := by
    intro identity userId row hattached hview x y hx hy hprovider hsubject
    rw [hview] at hx hy
    split at hx <;> split at hy
    · cases hx
      cases hy
      rfl
    · cases hx
      exact absurd ⟨hprovider.symm, hsubject.symm⟩ (hattached.only db hv hs _ _ hy)
    · cases hy
      exact absurd ⟨hprovider, hsubject⟩ (hattached.only db hv hs _ _ hx)
    · exact hu x y hx hy hprovider hsubject
  cases h.identities hs with
  | kept hback _ =>
    intro x y hx hy hprovider hsubject
    obtain ⟨x', hx', hxx⟩ := hback _ x hx
    obtain ⟨y', hy', hyy⟩ := hback _ y hy
    have hxid : x'.id = x.id := Store.key_of_get hx'
    have hyid : y'.id = y.id := Store.key_of_get hy'
    have heq := hu x' y' (hxid ▸ hx') (hyid ▸ hy') (by rw [← hxx.1, hprovider, hyy.1])
      (by rw [← hxx.2.1, hsubject, hyy.2.1])
    have hid : x.id = y.id := by rw [← hxid, heq, hyid]
    exact Option.some.inj (hx.symm.trans (hid ▸ hy))
  | joined _ _ _ hattached hview => exact hadded hattached hview
  | linked _ hattached _ hview => exact hadded hattached hview
  | removed _ _ _ hview =>
    intro x y hx hy
    rw [hview] at hx hy
    exact hu x y (Option.ite_none_left_eq_some.1 hx).2 (Option.ite_none_left_eq_some.1 hy).2

/-! ## No account is taken over -/

/-- A session that a `finish` issues is for the user of the identity, as it is committed. -/
theorem Commits.finish_session {identity : Identity} {attempt : Attempt} {actor : Option Actor}
    {cid : String} {x : AuthSession}
    (h : Commits sv settings (.finish identity attempt actor cid) c db) (hs : c.Sees db)
    (hnone : db.session x.id = none) (hx : Db.session (c.view db) x.id = some x) :
    attempt.intent = .login ∧ ∃ row, Db.identity (c.view db) row.id = some row ∧
      row.provider = identity.provider.value ∧ row.subject = identity.subject ∧
      row.userId = x.userId := by
  obtain ⟨row, hrow, hid, -⟩ := session_inserted hnone hx
  obtain ⟨-, ⟨row', hguess⟩ | ⟨-, hexit⟩⟩ := h
  · rw [hguess.buf] at hrow
    simp at hrow
  · cases hexit with
    | nothing hbuf | issued hbuf | linked hbuf | confirmed hbuf =>
      rw [hbuf] at hrow
      simp at hrow
    | entered hbuf hlogin hissued _ hexternal =>
      rw [hbuf] at hrow
      simp only [List.mem_cons, reduceCtorEq, Op.insertSession.injEq, List.not_mem_nil, or_false,
        false_or] at hrow
      subst hrow
      rw [view_session_issued hbuf rfl (session_eq_none hs hissued.drawn), if_pos hid.symm] at hx
      cases hx
      obtain ⟨y, hy, hprovider, hsubject, huser⟩ := hexternal
      have hyid : y.id = _ := Store.key_of_get hy
      obtain ⟨z, hz, hsame⟩ : ∃ z, Db.identity (c.view db) y.id = some z ∧ SameIdentity z y := by
        rw [view_identity_lastLogin hbuf rfl, if_pos hyid, hyid, hy]
        exact ⟨_, rfl, rfl, rfl, rfl⟩
      have hzid : z.id = y.id := Store.key_of_get hz
      exact ⟨hlogin, z, hzid ▸ hz, hsame.1.trans hprovider, hsame.2.1.trans hsubject,
        (hsame.2.2.trans huser).trans hissued.userId.symm⟩
    | joined hbuf hlogin _ hattached hissued =>
      rw [hbuf] at hrow
      simp only [List.mem_cons, reduceCtorEq, Op.insertSession.injEq, List.not_mem_nil, or_false,
        false_or] at hrow
      subst hrow
      rw [view_session_issued hbuf rfl (session_eq_none hs hissued.drawn), if_pos hid.symm] at hx
      cases hx
      refine ⟨hlogin, _, ?_, hattached.provider, hattached.subject,
        hattached.user.trans hissued.userId.symm⟩
      rw [view_identity_insert hbuf rfl hs hattached.drawn, if_pos rfl]

/-- `finish` changes no role. -/
theorem Commits.finish_role {identity : Identity} {attempt : Attempt} {actor : Option Actor}
    {cid : String} (h : Commits sv settings (.finish identity attempt actor cid) c db)
    (hs : c.Sees db) {id : UUID} {u : User} (hu : db.user id = some u) :
    ∃ u', Db.user (c.view db) id = some u' ∧ u'.role = u.role := by
  cases h.users hs with
  | same hsame => exact ⟨u, (hsame id).trans hu, rfl⟩
  | @created _ user _ hnew _ hview =>
    have hne : id ≠ user.id := by
      rintro rfl
      rw [user_eq_none hs hnew.drawn] at hu
      cases hu
    exact ⟨u, by rw [hview, if_neg hne, hu], rfl⟩

end

namespace Auth

/-- Who may attach an identity to the user of a row: a login that has created the user, or a link by
the user with a session that was live and recent in the transaction. -/
def Consents {sv : Services} (settings : AuthSettings) (s₀ : Sys sv) (tr : List (Act sv))
    (s s' : Sys sv) (row : ExternalIdentity) (attempt : Attempt) (actor : Option Actor) : Prop :=
  (attempt.intent = .login ∧ s.db.user row.userId = none ∧ s'.db.user row.userId ≠ none) ∨
  (attempt.intent = .link ∧ ∃ a, actor = some a ∧ a.userId = row.userId ∧
    ∃ now m, now ≤ s.clock ∧ Visits sv settings s₀ tr s m ∧
      LiveSession m a.userId a.sessionId settings.recentAuthSeconds now)

/-- **No account takeover through an external identity.** In every run, over any interleaving, at
every commit: an identity that is new was inserted by a `finish` with its provider and subject,
whose user consents; a session that a `finish` issues is for the one user that its provider and
subject are attached to in the committed state; and no `finish` changes the role of a user. -/
theorem no_takeover (sv : Services) (settings : AuthSettings) {s₀ s s' : Sys sv}
    {tr : List (Act sv)} {i : Nat} (h0 : Initial s₀) (hunique : s₀.db.UniqueSubjects)
    (hrun : Run sv settings s₀ tr s) (hstep : Step sv settings s (.commit i) s') :
    ∃ t, s.threads[i]? = some t ∧
      (∀ row : ExternalIdentity, s.db.identity row.id = none → s'.db.identity row.id = some row →
        ∃ identity attempt actor cid, t.call = .finish identity attempt actor cid ∧
          row.provider = identity.provider.value ∧ row.subject = identity.subject ∧
          Consents settings s₀ tr s s' row attempt actor) ∧
      (∀ identity attempt actor cid, t.call = .finish identity attempt actor cid →
        (∀ x : AuthSession, s.db.session x.id = none → s'.db.session x.id = some x →
          (∃ row : ExternalIdentity, s'.db.identity row.id = some row ∧
            row.provider = identity.provider.value ∧ row.subject = identity.subject) ∧
          ∀ row : ExternalIdentity, s'.db.identity row.id = some row →
            row.provider = identity.provider.value → row.subject = identity.subject →
            row.userId = x.userId) ∧
        ∀ id u, s.db.user id = some u → ∃ u', s'.db.user id = some u' ∧ u'.role = u.role) := by
  have hg := good_of_run h0 hrun
  have hsubjects : s.db.UniqueSubjects := run_db (Good.start h0) hrun
    (fun hv hsees hcommits => hcommits.uniqueSubjects hv hsees) hunique
  obtain ⟨t, ht, hsees, hcommits, hdb⟩ := commit_exit hg hstep
  refine ⟨t, ht, ?_, ?_⟩
  · intro row hnone hrow
    rw [hdb] at hrow
    generalize hcall : t.call = call at hcommits
    cases hcommits.identities hsees with
    | kept hback =>
      obtain ⟨y, hy, -⟩ := hback _ _ hrow
      rw [hnone] at hy
      cases hy
    | joined hlogin hnew hbuf hattached hview =>
      rw [hview, hnone] at hrow
      obtain rfl := Option.some.inj (Option.ite_none_right_eq_some.1 hrow).2
      refine ⟨_, _, _, _, rfl, hattached.provider, hattached.subject, .inl ⟨hlogin, ?_, ?_⟩⟩
      · rw [hattached.user]
        exact user_eq_none hsees hnew.drawn
      · rw [hattached.user, hdb]
        exact view_user_inserted hbuf
    | linked hlink hattached hrecent hview =>
      rw [hview, hnone] at hrow
      obtain rfl := Option.some.inj (Option.ite_none_right_eq_some.1 hrow).2
      obtain ⟨hnow, m, hvisits, hlive⟩ :=
        recent_in_run (Good.start h0) hrun ht h0.reads hrecent
      exact ⟨_, _, _, _, rfl, hattached.provider, hattached.subject,
        .inr ⟨hlink, _, rfl, hattached.user.symm, _, m, hnow, hvisits, hlive⟩⟩
    | removed _ _ _ hview =>
      rw [hview, hnone] at hrow
      simp at hrow
  · intro identity attempt actor cid hcall
    rw [hcall] at hcommits
    refine ⟨fun x hnone hx => ?_, fun id u hu => ?_⟩
    · rw [hdb] at hx ⊢
      obtain ⟨-, row, hrow, hprovider, hsubject, huser⟩ := hcommits.finish_session hsees hnone hx
      refine ⟨⟨row, hrow, hprovider, hsubject⟩, fun row' hrow' hprovider' hsubject' => ?_⟩
      have heq := hcommits.uniqueSubjects hg.valid hsees hsubjects row' row hrow' hrow
        (hprovider'.trans hprovider.symm) (hsubject'.trans hsubject.symm)
      rw [heq]
      exact huser
    · rw [hdb]
      exact hcommits.finish_role hsees hu

end Auth

namespace AuthFixture

/-- Her identity at Google, as she has never been seen before. -/
def identity : Identity :=
  { provider := .google, subject := "ada", email := some (Unicode.ofString address)
    emailVerified := true }

/-- The steps of a login that creates her account, up to its commit. -/
def joinActs : List (Auth.Act services) :=
  .start (.finish identity { provider := .google, intent := .login } none "c-1") ::
    steps 0 4 ++ [.draw 0 1] ++ steps 0 7 ++ [.draw 0 2, .advance 0, .draw 0 3] ++ steps 0 6 ++
    [.pick 0 token, .advance 0, .draw 0 4] ++ steps 0 7 ++ [.draw 0 5] ++ steps 0 5

/-- The system before the commit. -/
def joining : Auth.Sys services :=
  ((system {}).execAll (Auth.code services default) joinActs).getD (system {})

/-- The system after it. -/
def joined : Auth.Sys services :=
  (joining.exec (Auth.code services default) (.commit 0)).getD joining

theorem joining_run : Auth.Run services {} (system {}) joinActs joining :=
  Sys.run_of_isSome rfl

theorem joined_step : Auth.Step services {} joining (.commit 0) joined :=
  Sys.step_of_isSome rfl

/-- The row of her identity. -/
def google : ExternalIdentity :=
  { id := 2, userId := 1, provider := "google", subject := "ada", emailSnapshot := some address
    emailVerified := true, lastLoginAt := 1 }

end AuthFixture

/-- The identity of a new account is inserted by the login that creates it. -/
theorem Auth.no_takeover_joined : ∃ t, AuthFixture.joining.threads[0]? = some t ∧
    ∃ identity attempt actor cid, t.call = .finish identity attempt actor cid ∧
      AuthFixture.google.provider = identity.provider.value ∧
      AuthFixture.google.subject = identity.subject ∧
      Auth.Consents {} (AuthFixture.system {}) AuthFixture.joinActs AuthFixture.joining
        AuthFixture.joined AuthFixture.google attempt actor := by
  have hunique : (AuthFixture.system {}).db.UniqueSubjects := by
    intro x y hx
    cases hx
  obtain ⟨t, ht, hinserted, -⟩ := Auth.no_takeover AuthFixture.services {}
    (AuthFixture.system_initial (by decide)) hunique AuthFixture.joining_run AuthFixture.joined_step
  exact ⟨t, ht, hinserted AuthFixture.google rfl rfl⟩

/-! ## Every account keeps a login method -/

/-- The user has a password or an external identity. -/
def Db.HasMethod (db : Db) (userId : UUID) : Prop :=
  db.credential userId ≠ none ∨
    ∃ x : ExternalIdentity, db.identity x.id = some x ∧ x.userId = userId

/-- Every user has a login method. -/
def Db.EveryMethod (db : Db) : Prop := ∀ id u, db.user id = some u → db.HasMethod id

section
variable {sv : Services} {settings : AuthSettings} {call : Call} {c : Ctx (schema sv)}
  {db : Db} {ops : List Op}

/-- A password is never deleted. -/
theorem view_credential_of_some {id : UUID} (h : db.credential id ≠ none) :
    Db.credential (c.view db) id ≠ none := by
  have hops : ∀ ops : List Op, ∃ x, (applyOps ops db).credential id = some x := by
    intro ops
    induction ops with
    | nil => exact Option.ne_none_iff_exists'.1 h
    | cons op ops ih =>
      obtain ⟨x, hx⟩ := ih
      exact Db.credential_apply_of_some hx
  obtain ⟨x, hx⟩ := hops c.buf
  exact Option.ne_none_iff_exists'.2 ⟨x, hx⟩

/-- A password that the transaction inserts is there. -/
theorem view_credential_inserted {row : PasswordCredential} (h : core c.buf = ops)
    (hon : on .credentials ops = [.insertCredential row]) :
    Db.credential (c.view db) row.userId ≠ none := by
  rw [view_credential h, hon]
  simp only [applyOps_cons, applyOps_nil, Db.credential, Op.apply, Store.get_insert]
  cases db.credentials.get row.userId <;> simp

/-- A user that is new comes with a login method. -/
theorem Commits.newMethod (h : Commits sv settings call c db) (hs : c.Sees db) {id : UUID}
    {u : User} (hnone : db.user id = none) (hu : Db.user (c.view db) id = some u) :
    Db.HasMethod (c.view db) id := by
  have hsame : (∀ id, Db.user (c.view db) id = db.user id) → False := by
    intro hsame
    rw [hsame, hnone] at hu
    cases hu
  obtain ⟨-, ⟨row, hguess⟩ | ⟨-, hexit⟩⟩ := h
  · exact (hsame (view_user_eq hguess.buf rfl)).elim
  · cases hexit with
    | registered hbuf _ hnew =>
      rw [view_user_new hbuf rfl (user_eq_none hs hnew.drawn), hnone] at hu
      rw [(Option.ite_none_right_eq_some.1 hu).1]
      exact .inl (view_credential_inserted hbuf rfl)
    | bootstrapped hbuf hcred hnew =>
      rw [view_user_admin hbuf rfl (user_eq_none hs hnew.drawn), hnone] at hu
      rw [(Option.ite_none_right_eq_some.1 hu).1, ← hcred]
      exact .inl (view_credential_inserted hbuf rfl)
    | joined hbuf _ hnew hattached =>
      rw [view_user_new hbuf rfl (user_eq_none hs hnew.drawn), hnone] at hu
      rw [(Option.ite_none_right_eq_some.1 hu).1]
      refine .inr ⟨_, ?_, hattached.user⟩
      rw [view_identity_insert hbuf rfl hs hattached.drawn, if_pos rfl]
    | nothing hbuf | reauthenticated hbuf | entered hbuf | linked hbuf | confirmed hbuf
    | unlinked hbuf => exact (hsame (view_user_eq hbuf rfl)).elim
    | issued hbuf => exact (hsame (view_user_eq hbuf (on_issued (by decide)))).elim
    | loggedIn hbuf hrevs hrehash =>
      refine (hsame (view_user_eq hbuf ?_)).elim
      rcases hrehash with rfl | ⟨hash, rfl⟩ <;> simp [on_revokes hrevs, Op.table]
    | loggedOut hbuf hrevs | loggedOutAll hbuf hrevs =>
      exact (hsame (view_user_eq hbuf (on_revokes hrevs (by decide)))).elim
    | reset hbuf hrevs =>
      exact (hsame (view_user_eq hbuf (by simp [on_revokes hrevs, Op.table]))).elim
    | accessChanged hbuf hrevs _ htarget =>
      rw [view_user_access hbuf (on_access hrevs) htarget, hnone] at hu
      rw [(Option.ite_none_right_eq_some.1 hu).1, htarget] at hnone
      cases hnone

/-- An identity stays with its user, unless a commit under the lock of the user removes it. The user
then has a password, or another identity that was read under the lock. -/
theorem Commits.identity_inv (h : Commits sv settings call c db) (hs : c.Sees db) {id : UUID}
    {y : ExternalIdentity} (hy : db.identity id = some y) :
    (∃ z, Db.identity (c.view db) id = some z ∧ z.userId = y.userId) ∨
    (.user y.userId ∈ c.held ∧ (db.credential y.userId ≠ none ∨
      ∃ r ∈ c.reads, ∃ x, .user x.userId ∈ r.held ∧ r.db.identity x.id = some x ∧
        x.userId = y.userId ∧ Db.identity (c.view db) x.id = db.identity x.id)) := by
  cases h.identities hs with
  | kept _ hforth =>
    obtain ⟨x, hx, hsame⟩ := hforth id y hy
    exact .inl ⟨x, hx, hsame.2.2⟩
  | @joined _ _ _ _ row _ _ _ _ hattached hview | @linked _ _ _ _ row _ _ hattached _ hview =>
    have hne : id ≠ row.id := by
      rintro rfl
      exact hs.2 _ hattached.drawn (.inr (.inr (.inr (.inr (by simp [hy])))))
    exact .inl ⟨y, by rw [hview, if_neg hne, hy], rfl⟩
  | removed hlock huser hmethod hview =>
    rw [hview]
    split
    case isFalse => exact .inl ⟨y, hy, rfl⟩
    case isTrue hid =>
      have hyuser := huser y (hid ▸ hy)
      refine .inr ⟨hyuser ▸ hlock, ?_⟩
      rcases hmethod with hcred | ⟨r, hr, hheld, x, hx, hne, hxuser⟩
      · exact .inl (hyuser ▸ hcred)
      · refine .inr ⟨r, hr, x, hxuser ▸ hheld, hx, hxuser.trans hyuser.symm, ?_⟩
        rw [hview, if_neg hne]

end

namespace Auth

section
variable {sv : Services} {settings : AuthSettings} {s₀ s s' : Sys sv} {tr : List (Act sv)}
  {a : Act sv} {i : Nat}

/-- What a transaction has read of a user's identities under the lock of the user is still so. -/
def Relies (s : Sys sv) : Prop :=
  ∀ t ∈ s.threads, ∀ r ∈ t.ctx.reads, ∀ x : ExternalIdentity, .user x.userId ∈ r.held →
    r.db.identity x.id = some x → ∃ y, s.db.identity x.id = some y ∧ y.userId = x.userId

theorem Relies.step (hg : Good sv settings s) (h : Relies s) (hstep : Step sv settings s a s') :
    Relies s' := by
  intro u hu r hr x hheld hx
  by_cases hc : ∃ i, a = .commit i
  · obtain ⟨i, rfl⟩ := hc
    obtain ⟨t, p, ht, -, hdb, hthreads⟩ := hstep.commit_inv
    obtain ⟨j, hj⟩ := List.mem_iff_getElem?.1 hu
    rw [hthreads] at hj
    rcases Sys.get_put (s := s) hj with ⟨-, rfl⟩ | ⟨hji, hold⟩
    · cases hr
    · obtain ⟨y, hy, hyuser⟩ := h u (List.mem_of_getElem? hold) r hr x hheld hx
      obtain ⟨t', ht', hsees, hcommits, -⟩ := commit_exit hg hstep
      obtain rfl : t' = t := Option.some.inj (ht'.symm.trans ht)
      rw [hdb]
      rcases hcommits.identity_inv hsees hy with ⟨z, hz, hzuser⟩ | ⟨hlock, -⟩
      · exact ⟨z, hz, hzuser.trans hyuser⟩
      · -- the lock is held by the thread that has read, and by nobody else
        have hlocked := (hg.sound j u hold).reads_held r hr hheld
        exact absurd (hyuser ▸ hlocked) (hg.apart i j t' u (Ne.symm hji) ht hold _ hlock)
  · rw [hstep.db_eq fun i hi => hc ⟨i, hi⟩]
    rcases hstep.reads hu hr with ⟨t, ht, hr⟩ | ⟨hdb, -⟩
    · exact h t ht r hr x hheld hx
    · exact ⟨x, hdb ▸ hx, rfl⟩

/-- A commit leaves every account with a login method. -/
theorem everyMethod_step (hg : Good sv settings s) (hrelies : Relies s)
    (h : s.db.EveryMethod) (hstep : Step sv settings s (.commit i) s') : s'.db.EveryMethod := by
  intro id u hu
  obtain ⟨t, ht, hsees, hcommits, hdb⟩ := commit_exit hg hstep
  rw [hdb] at hu ⊢
  cases hold : s.db.user id with
  | none => exact hcommits.newMethod hsees hold hu
  | some v =>
    rcases h id v hold with hcred | ⟨y, hy, hyuser⟩
    · exact .inl (view_credential_of_some hcred)
    · rcases hcommits.identity_inv hsees hy with ⟨z, hz, hzuser⟩ | ⟨-, hcred | hother⟩
      · have hzid : z.id = y.id := Store.key_of_get hz
        exact .inr ⟨z, hzid ▸ hz, hzuser.trans hyuser⟩
      · exact .inl (view_credential_of_some (hyuser ▸ hcred))
      · obtain ⟨r, hr, x, hheld, hx, hxuser, hview⟩ := hother
        obtain ⟨z, hz, hzuser⟩ := hrelies t (List.mem_of_getElem? ht) r hr x hheld hx
        have hzid : z.id = x.id := Store.key_of_get hz
        refine .inr ⟨z, ?_, (hzuser.trans hxuser).trans hyuser⟩
        rw [hzid, hview, hz]

end

/-- **Every account keeps a login method.** When every user has a password or an external identity
at the start, every user has one in every state of every run, over any interleaving of the calls. -/
theorem accounts_keep_a_method (sv : Services) (settings : AuthSettings) {s₀ s : Sys sv}
    {tr : List (Act sv)} (h0 : Initial s₀) (hmethod : s₀.db.EveryMethod)
    (hrun : Run sv settings s₀ tr s) : s.db.EveryMethod := by
  have hrelies : Relies s₀ := by
    intro t ht
    rw [h0.threads] at ht
    cases ht
  have hall : Good sv settings s ∧ Relies s ∧ s.db.EveryMethod := by
    refine hrun.invariant (I := fun s => Good sv settings s ∧ Relies s ∧ s.db.EveryMethod) ?_
      ⟨Good.start h0, hrelies, hmethod⟩
    rintro s a s' ⟨hg, hrelies, hmethod⟩ hstep
    refine ⟨hg.step (code_meets sv settings) hstep, hrelies.step hg hstep, ?_⟩
    by_cases hc : ∃ i, a = .commit i
    · obtain ⟨i, rfl⟩ := hc
      exact everyMethod_step hg hrelies hmethod hstep
    · rw [hstep.db_eq fun i hi => hc ⟨i, hi⟩]
      exact hmethod
  exact hall.2.2

end Auth

namespace AuthFixture

/-- The database with two identities of an account that has no password. -/
def twoMethods : Db where
  users := db.users
  sessions := db.sessions
  identities := ⟨[{ google with id := 10 }, { google with id := 11, provider := "yahoo" }],
    by simp [Table.Keyed]⟩

/-- The steps of an `unlink` of one of them, with its commit. -/
def unlinkActs : List (Auth.Act services) :=
  .start (.unlink actor .google "c-1") :: steps 0 13 ++ [.draw 0 20] ++ steps 0 7 ++ [.commit 0]

end AuthFixture

/-- The identity at the other provider is left. -/
theorem Auth.accounts_keep_a_method_unlinked :
    Db.EveryMethod (((AuthFixture.system AuthFixture.twoMethods).execAll
      (Auth.code AuthFixture.services {}) AuthFixture.unlinkActs).getD
        (AuthFixture.system AuthFixture.twoMethods)).db := by
  refine Auth.accounts_keep_a_method AuthFixture.services {}
    (AuthFixture.system_initial (by decide)) ?_ (Sys.run_of_isSome (by decide +kernel))
  intro id u hu
  have hid : u.id = id := Store.key_of_get hu
  obtain rfl := List.mem_singleton.1 (Store.mem_of_get hu)
  exact .inr ⟨{ AuthFixture.google with id := 10 }, rfl, hid⟩

end Ekumidayomi
