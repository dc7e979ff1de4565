import Ekumidayomi.Auth.Booking

/-!
# Every call accounts for its writes

Each call of the identity services is sound whenever it commits (`code_keeps`).
-/

namespace Ekumidayomi

open Transact

namespace Ledger

section
variable {sv : Services} {settings : AuthSettings} {c : Ctx (schema sv)}

/-! ## The calls -/

/-- The program keeps its accounts from its first statement on. -/
abbrev Keeps (p : Tx sv AuthResult) : Prop := Books (fun _ _ => True) p {}

/-- A commit of a sound transaction is the end of the accounts. -/
theorem books_commit {r : AuthResult} (hc : Sound c) :
    Books (fun _ _ => True) (commit >>= fun _ => pure r) c := by
  rw [Books, along_bind, along_commit]
  exact ⟨hc, trivial⟩

/-- `begin_registration` keeps its accounts: it issues a challenge or writes nothing. -/
theorem keeps_beginRegistration {email : String} {cid : Option String} :
    Keeps (beginRegistration sv settings email cid) := by
  rw [Keeps, beginRegistration, Books, along_bind]
  refine books_unissued plain_correlation (sound_fresh rfl rfl) unissued_fresh fun text c₁ _ hs₁ hnone₁ => ?_
  rw [along_bind]
  refine books_unissued plain_uuid4 hs₁ hnone₁ fun id c₂ _ hs₂ hnone₂ => ?_
  rw [along_bind]
  refine books_unissued plain_record hs₂ hnone₂ fun _ c₃ _ hs₃ hnone₃ => ?_
  split
  · rintro ⟨⟩
  · rw [lockEmail, along_bind]
    refine books_unissued (plain_lock _) hs₃ hnone₃ fun _ c₄ _ hs₄ hnone₄ => ?_
    rw [along_bind]
    refine books_unissued plain_findUserByEmail hs₄ hnone₄ fun found c₅ _ hs₅ hnone₅ => ?_
    cases found with
    | some user =>
      dsimp only
      rw [along_bind]
      exact books_plain plain_uuid4 hs₅ fun id c₆ _ hs₆ => books_commit hs₆
    | none =>
      dsimp only
      rw [along_bind]
      exact books_issueChallenge hs₅ hnone₅ fun id c₆ _ hs₆ => books_commit hs₆

/-- `complete_registration` keeps its accounts: the challenge is consumed before the account is
made. -/
theorem keeps_completeRegistration {r : CompleteRequest} :
    Keeps (completeRegistration sv settings r) := by
  rw [Keeps, completeRegistration, Books, along_bind]
  refine books_plain plain_correlation (sound_fresh rfl rfl) fun text c₁ _ hs₁ => ?_
  rw [along_bind]
  refine books_plain plain_validateNewPassword hs₁ fun _ c₂ _ hs₂ => ?_
  rw [along_bind]
  refine books_consumeOrCommit hs₂ fun challenge c₃ _ hs₃ => ?_
  rw [along_bind]
  refine books_plain plain_findUserByEmail hs₃ fun found c₄ _ hs₄ => ?_
  cases found with
  | some _ => exact fun _ => hs₄
  | none =>
    dsimp only
    rw [along_bind]
    refine books_createCustomer hs₄ fun user c₅ _ hs₅ huser => ?_
    rw [along_bind]
    refine books_plain plain_utcNow hs₅ fun verifiedAt c₆ hc₆ hs₆ => ?_
    rw [along_bind]
    refine books_plain plain_hashPassword hs₆ fun hash c₇ hc₇ hs₇ => ?_
    rw [along_bind]
    refine books_audit fun a c₈ hc₈ htells => ?_
    have hs₈ : Sound c₈ := hs₇.goes hc₈ (List.forall_mem_singleton.2 trivial)
    rw [along_bind, along_write, along_bind, along_write]
    have hs₉ : Sound (c₈.push (.setVerified user.id verifiedAt)) :=
      (owing_kept []).push trivial hs₈
    have hgo : c₅.Follows (c₈.push (.setVerified user.id verifiedAt)) :=
      ((hc₆.trans hc₇).trans (Follows.of_adds hc₈)).trans (.push _)
    refine books_commit (hs₉.push (.of_evidence rfl ?_ (.inl ?_)) rfl)
    · rintro _ ⟨rfl⟩
      exact .inl ⟨user, hgo.buf huser, rfl⟩
    · refine ⟨a, List.mem_cons_of_mem _ ?_, htells⟩
      rw [hc₈.buf]
      exact List.mem_cons_self

/-- `login` keeps its accounts: the session is issued to a user it has read. -/
theorem keeps_login {r : LoginRequest} : Keeps (login sv settings r) := by
  rw [Keeps, login, Books, along_bind]
  have hfind : IsPlain (tryCatch (findUserByEmail sv r.email) fun e =>
      if e = .invalidEmail then pure none else throw e) :=
    plain_findUserByEmail.tryCatch fun e he => .ite (.pure _) (.throw he)
  refine books_plain hfind (sound_fresh rfl rfl) fun found c₁ _ hs₁ => ?_
  cases found with
  | none => rintro ⟨⟩
  | some found =>
    dsimp only
    rw [along_bind]
    refine books_findUserById (fun _ _ => by rintro ⟨⟩) fun read user c₂ hc₂ hr _ hu => ?_
    have hs₂ : Sound c₂ := hs₁.adds hc₂
    have hid : user.id = found.id := Store.key_of_get hu
    have hknown : Known c₂ c₂.buf user.id := by
      rw [hid, hc₂.buf]
      exact known_of_view hr (Option.ne_none_iff_exists'.2 ⟨user, hu⟩)
    dsimp only
    rw [along_bind]
    refine books_plain (plain_query _) hs₂ fun credential c₃ hc₃ hs₃ => ?_
    cases credential with
    | none => rintro ⟨⟩
    | some credential =>
      dsimp only
      refine along_guard (fun _ => by rintro ⟨⟩) fun _ => ?_
      rw [along_bind, along_note]
      have hs₄ := (owing_kept []).mark (n := .verified user.id credential.passwordHash) trivial hs₃
      refine along_guard (fun _ => by rintro ⟨⟩) fun _ => ?_
      have hknown' : Known (c₃.mark (.verified user.id credential.passwordHash)) c₃.buf user.id :=
        (hknown.follows hc₃).le (Ctx.le_mark _)
      -- the password may have been hashed again
      have hissue : ∀ c', Sound c' → Known c' c'.buf user.id →
          Books (fun _ _ => True) (issueSession sv settings r user) c' := by
        intro c₅ hs₅ hknown₅
        rw [issueSession, Books, along_bind]
        refine books_issue hs₅ hknown₅ fun secret c₆ _ hs₆ => ?_
        split
        · rw [along_bind]
          refine books_plain plain_resolveOrNone hs₆ fun previous c₇ _ hs₇ => ?_
          cases previous with
          | none => exact books_commit hs₇
          | some previous =>
            dsimp only
            rw [along_bind]
            exact books_plain plain_revoke hs₇ fun _ c₈ _ hs₈ => books_commit hs₈
        · exact books_commit hs₆
      rw [startSession]
      split
      · rw [along_bind]
        refine books_plain plain_hashPassword hs₄ fun hash c₅ hc₅ hs₅ => ?_
        rw [along_bind]
        refine books_flushPassword hs₅ (.inr ⟨_, hc₅.marks List.mem_cons_self⟩)
          fun c₆ hc₆ hs₆ => ?_
        exact hissue c₆ hs₆ ((hknown'.follows hc₅).follows hc₆)
      · exact hissue _ hs₄ hknown'

/-- `logout` keeps its accounts: it revokes and nothing else. -/
theorem keeps_logout {secret : Option String} {hint : Option UUID} :
    Keeps (logout sv secret hint) := by
  rw [Keeps, logout, Books, along_bind]
  refine books_plain plain_resolveOrNone (sound_fresh rfl rfl) fun actor c₁ _ hs₁ => ?_
  cases actor with
  | none => trivial
  | some actor =>
    dsimp only
    rw [along_bind]
    exact books_plain plain_revoke hs₁ fun _ c₂ _ hs₂ => books_commit hs₂

/-- `logout_all` keeps its accounts: it revokes and nothing else. -/
theorem keeps_logoutAll {actor : Actor} : Keeps (logoutAll sv actor) := by
  rw [Keeps, logoutAll, Books, along_bind, findUserById, if_pos rfl]
  refine books_plain plain_forUpdate (sound_fresh rfl rfl) fun user c₁ _ hs₁ => ?_
  cases user with
  | none => rintro ⟨⟩
  | some _ =>
    dsimp only
    rw [along_bind]
    exact books_plain plain_revoke hs₁ fun _ c₂ _ hs₂ => books_commit hs₂

/-- `reauthenticate` keeps its accounts: it writes the time of the session alone. -/
theorem keeps_reauthenticate {actor : Actor} {password : String} :
    Keeps (reauthenticate sv actor password) := by
  rw [Keeps, reauthenticate, Books, along_bind, findUserById, if_pos rfl]
  refine books_plain plain_forUpdate (sound_fresh rfl rfl) fun user c₁ _ hs₁ => ?_
  rw [along_bind]
  refine books_plain (plain_query _) hs₁ fun credential c₂ _ hs₂ => ?_
  rw [along_bind]
  refine books_plain (plain_query _) hs₂ fun row c₃ _ hs₃ => ?_
  split
  · refine along_guard (fun _ => by rintro ⟨⟩) fun _ => ?_
    rw [along_bind]
    refine books_plain plain_utcNow hs₃ fun now c₄ _ hs₄ => ?_
    refine along_guard (fun _ => by rintro ⟨⟩) fun _ => ?_
    rw [along_bind]
    refine books_plain plain_utcNow hs₄ fun instant c₅ _ hs₅ => ?_
    rw [along_bind]
    exact books_plain (plain_flushRow trivial) hs₅ fun _ c₆ _ hs₆ => books_commit hs₆
  · rintro ⟨⟩

/-- `begin_reset` keeps its accounts: it issues a challenge for an account, or writes nothing. -/
theorem keeps_beginReset {email : String} : Keeps (beginReset sv settings email) := by
  rw [Keeps, beginReset, Books, along_bind]
  refine books_unissued plain_findUserByEmail (sound_fresh rfl rfl) unissued_fresh
    fun found c₁ _ hs₁ hnone₁ => ?_
  cases found with
  | none =>
    dsimp only
    rw [along_bind]
    exact books_plain plain_uuid4 hs₁ fun id c₂ _ hs₂ => books_commit hs₂
  | some user =>
    dsimp only
    split
    · rw [along_bind]
      exact books_plain plain_uuid4 hs₁ fun id c₂ _ hs₂ => books_commit hs₂
    · rw [along_bind]
      refine books_unissued (plain_query _) hs₁ hnone₁ fun credential c₂ _ hs₂ hnone₂ => ?_
      cases credential with
      | none =>
        dsimp only
        rw [along_bind]
        exact books_plain plain_uuid4 hs₂ fun id c₃ _ hs₃ => books_commit hs₃
      | some _ =>
        dsimp only
        rw [along_bind]
        exact books_issueChallenge hs₂ hnone₂ fun id c₃ _ hs₃ => books_commit hs₃

/-- `complete_reset` keeps its accounts: the challenge is consumed before the password is set. -/
theorem keeps_completeReset {r : CompleteRequest} {cid : String} :
    Keeps (completeReset sv settings r cid) := by
  rw [Keeps, completeReset, Books, along_bind]
  refine books_plain plain_validateNewPassword (sound_fresh rfl rfl) fun _ c₁ _ hs₁ => ?_
  rw [along_bind]
  refine books_consumeOrCommit hs₁ fun challenge c₂ _ hs₂ => ?_
  rw [along_bind]
  refine books_plain plain_findUserByEmail hs₂ fun found c₃ _ hs₃ => ?_
  cases found with
  | none => rintro ⟨⟩
  | some found =>
    dsimp only
    rw [along_bind, findUserById, if_pos rfl]
    refine books_plain plain_forUpdate hs₃ fun user c₄ _ hs₄ => ?_
    cases user with
    | none => rintro ⟨⟩
    | some user =>
      dsimp only
      refine along_guard (fun _ => by rintro ⟨⟩) fun _ => ?_
      rw [along_bind]
      refine books_plain (plain_query _) hs₄ fun credential c₅ _ hs₅ => ?_
      cases credential with
      | none => rintro ⟨⟩
      | some _ =>
        dsimp only
        rw [along_bind]
        refine books_plain plain_hashPassword hs₅ fun hash c₆ _ hs₆ => ?_
        rw [along_bind]
        refine books_plain plain_revoke hs₆ fun _ c₇ _ hs₇ => ?_
        rw [along_bind]
        refine books_audit fun a c₈ hc₈ htells => ?_
        have hs₈ : Sound c₈ := hs₇.goes hc₈ (List.forall_mem_singleton.2 trivial)
        rw [along_bind]
        refine books_flushPassword hs₈ (.inl ⟨a, ?_, htells⟩) fun c₉ _ hs₉ => books_commit hs₉
        rw [hc₈.buf]
        exact List.mem_cons_self

/-- A change of access is told of after the sessions have been revoked. -/
theorem books_setAccess {r : Read (schema sv)} {target : User} (role : String) (isActive : Bool)
    (admin : UUID) (cid : String) (hc : Sound c) (hr : r ∈ c.reads) (hk : .user target.id ∈ r.held)
    (ht : Db.user r.db target.id = some target) :
    Books (fun _ _ => True) (do
      write (.setAccess target.id role isActive)
      revoke sv target.id none
      record sv { kind := .administrator, actorId := some admin } "identity.access_changed"
        "user" target.id .succeeded
        [("old_role", .str target.role), ("new_role", .str role),
          ("old_active", .bool target.isActive), ("new_active", .bool isActive)] cid
      commit
      return AuthResult.done) c := by
  let Tells (a : AuditRecord) : Prop :=
    a.Tells (some admin) "identity.access_changed" target.id .succeeded
      [("old_role", .str target.role), ("new_role", .str role),
        ("old_active", .bool target.isActive), ("new_active", .bool isActive)]
  rw [Books, along_bind, along_write, along_bind]
  have hkept : Ctx.Kept (S := schema sv) Op.isPlain Note.isPlain
      fun c => ∀ a, Tells a → Owing [.addAudit a] c :=
    { le := fun hle hbuf hmarks h a ha => (owing_kept _).le hle hbuf hmarks (h a ha)
      push := fun hop h a ha => (owing_kept _).push hop (h a ha)
      mark := fun hn h a ha => (owing_kept _).mark hn (h a ha) }
  have howing : ∀ a, Tells a →
      Owing [.addAudit a] (c.push (.setAccess target.id role isActive)) := by
    intro a ha
    refine ⟨booked_push (.of_evidence rfl (by rintro _ ⟨⟩) trivial) hc.booked, ?_⟩
    have hle : c.Le (c.push (.setAccess target.id role isActive)) := Ctx.le_push (c := c) _
    have hsub : ∀ op ∈ c.buf,
        op ∈ [.addAudit a] ++ (c.push (.setAccess target.id role isActive)).buf :=
      fun op hop => List.mem_append_right _ (List.mem_cons_of_mem _ hop)
    constructor
    · intro id role' isActive' hmem
      rcases List.mem_cons.1 hmem with heq | hmem
      · cases heq
      · rcases List.mem_cons.1 hmem with heq | hold
        · cases heq
          exact .inr ⟨r, hle.reads hr, hk, target, ht, admin, a, List.mem_cons_self, ha⟩
        · exact (hc.settled.access id role' isActive' hold).mono hle hsub
    · intro event hmem
      have hold : .addEvent event ∈ c.buf := by
        rcases List.mem_cons.1 hmem with heq | hmem
        · cases heq
        · rcases List.mem_cons.1 hmem with heq | hold
          · cases heq
          · exact hold
      obtain ⟨row, hrow, hannounces⟩ := hc.settled.event event hold
      exact ⟨row, hsub _ hrow, hannounces⟩
    · intro id hmark
      obtain ⟨purpose, ha⟩ := hc.settled.guess id hmark
      exact ⟨purpose, ha.mono hsub⟩
  refine plain_revoke.along hkept (fun _ _ => trivial) howing (fun _ c₁ _ hc₁ => ?_) ?_
  · rw [along_bind]
    refine books_audit fun a c₂ hc₂ htells => ?_
    have hs₂ := (hc₁ a htells)
    refine books_commit ⟨?_, ?_⟩
    · rw [Ctx.Booked, hc₂.buf]
      exact ⟨.of_plain trivial, hs₂.booked.mono fun _ _ haccount =>
        haccount.le hc₂.le (hc₂.marks ▸ List.Subset.refl _)⟩
    · rw [hc₂.buf]
      exact hs₂.settled.more hc₂.le (fun _ ho => ho) (fun _ => .inl)
        fun n hn => .inl (hc₂.marks ▸ hn)
  · exact fun _ _ he _ _ heq => absurd heq he.1

/-- `change_access` keeps its accounts: the change is recorded for the administrator who asked for
it. -/
theorem keeps_changeAccess {actor : Actor} {targetId : UUID} {role : Option Role}
    {isActive : Option Bool} {cid : String} :
    Keeps (changeAccess sv settings actor targetId role isActive cid) := by
  rw [Keeps, changeAccess, lockMembership, Books, along_bind, along_lock]
  refine ⟨trivial, ?_⟩
  have hfresh : Sound (({} : Ctx (schema sv)).hold (.advisory adminMembershipLock)) :=
    sound_fresh rfl rfl
  rw [along_bind]
  refine books_authorize hfresh fun _ c₁ _ hbuf hs₁ _ _ => ?_
  rw [along_bind]
  refine books_findUserById (fun _ _ => by rintro ⟨⟩) fun r target c₂ hc₂ hr hk hu => ?_
  have hid : target.id = targetId := Store.key_of_get hu
  have hview : c₁.view r.db = r.db := by
    rw [Ctx.view, hbuf]
    rfl
  rw [hview] at hu
  dsimp only
  split
  · trivial
  · have hwrite : ∀ c', c₂.Follows c' → Sound c' → _ := fun c' hc' hs' =>
      books_setAccess ((role.map Role.value).getD target.role) (isActive.getD target.isActive)
        actor.userId cid hs' (hc'.le.reads hr) (hid ▸ hk rfl) (hid ▸ hu)
    have hs₂ : Sound c₂ := hs₁.adds hc₂
    split
    · rw [along_bind]
      refine books_plain (plain_query _) hs₂ fun others c₃ hc₃ hs₃ => ?_
      refine along_guard (fun _ => by rintro ⟨⟩) fun _ => ?_
      exact along_guard (fun _ => by rintro ⟨⟩) fun _ => hwrite c₃ hc₃ hs₃
    · exact along_guard (fun _ => by rintro ⟨⟩) fun _ => hwrite c₂ (.refl c₂) hs₂

/-- `bootstrap` keeps its accounts: the first administrator is recorded without an actor. -/
theorem keeps_bootstrap {email password : String} {breached : Option Bool} :
    Keeps (bootstrap sv email password breached) := by
  rw [Keeps, bootstrap, lockMembership, Books, along_bind]
  refine books_plain (plain_lock _) (sound_fresh rfl rfl) fun _ c₁ _ hs₁ => ?_
  rw [along_bind]
  refine books_plain plain_findUserByEmail hs₁ fun found c₂ _ hs₂ => ?_
  cases found with
  | some existing =>
    dsimp only
    exact along_guard (fun _ => by rintro ⟨⟩) fun _ => books_commit hs₂
  | none =>
    dsimp only
    rw [along_bind]
    refine books_plain (plain_query _) hs₂ fun admins c₃ _ hs₃ => ?_
    refine along_guard (fun _ => by rintro ⟨⟩) fun _ => ?_
    rw [along_bind]
    refine books_plain plain_validateNewPassword hs₃ fun _ c₄ _ hs₄ => ?_
    rw [along_bind]
    refine books_createCustomer hs₄ fun user c₅ _ hs₅ huser => ?_
    rw [along_bind]
    refine books_plain plain_utcNow hs₅ fun verifiedAt c₆ hc₆ hs₆ => ?_
    rw [along_bind]
    refine books_plain plain_hashPassword hs₆ fun hash c₇ hc₇ hs₇ => ?_
    rw [along_bind]
    refine books_audit fun a c₈ hc₈ htells => ?_
    have hs₈ : Sound c₈ := hs₇.goes hc₈ (List.forall_mem_singleton.2 trivial)
    have huser₈ : .insertUser user ∈ c₈.buf :=
      ((hc₆.trans hc₇).trans (Follows.of_adds hc₈)).buf huser
    have ha₈ : .addAudit a ∈ c₈.buf := by
      rw [hc₈.buf]
      exact List.mem_cons_self
    rw [along_bind, along_write, along_bind, along_write, along_bind, along_write]
    have haccess : Sound (c₈.push (.setAccess user.id Role.admin.value user.isActive)) := by
      refine hs₈.pushTold (.of_evidence rfl (by rintro _ ⟨⟩) trivial) (by rintro _ ⟨⟩) ?_
      rintro _ _ _ ⟨rfl⟩
      exact .inl ⟨⟨user, List.mem_cons_of_mem _ huser₈, rfl⟩, a, List.mem_cons_of_mem _ ha₈, htells⟩
    have hverified : Sound ((c₈.push (.setAccess user.id Role.admin.value user.isActive)).push
        (.setVerified user.id verifiedAt)) := (owing_kept []).push trivial haccess
    refine books_commit (hverified.push (.of_evidence rfl ?_ (.inr ?_)) rfl)
    · rintro _ ⟨rfl⟩
      exact .inl ⟨user, List.mem_cons_of_mem _ (List.mem_cons_of_mem _ huser₈), rfl⟩
    · exact ⟨a, List.mem_cons_of_mem _ (List.mem_cons_of_mem _ ha₈), htells⟩

/-- The session of an external login belongs to a known user. -/
theorem books_finishSession {identity : Identity} {user : User} {cid : String} (hc : Sound c)
    (hknown : Known c c.buf user.id) :
    Books (fun _ _ => True) (finishSession sv settings identity user cid) c := by
  rw [finishSession, Books, along_bind]
  refine books_issue hc hknown fun secret c₁ _ hs₁ => ?_
  rw [along_bind]
  refine books_plain (plain_query _) hs₁ fun session c₂ _ hs₂ => ?_
  cases session with
  | none => rintro ⟨⟩
  | some session =>
    dsimp only
    rw [along_bind]
    refine books_plain plain_utcNow hs₂ fun now c₃ _ hs₃ => ?_
    rw [along_bind]
    refine books_auditActor fun actor _ => ?_
    rw [along_bind]
    refine books_plain plain_record hs₃ fun _ c₄ _ hs₄ => ?_
    rw [along_bind]
    exact books_plain (plain_flushRow trivial) hs₄ fun _ c₅ _ hs₅ => books_commit hs₅

/-- An external login creates the account and the identity that are not there, each recorded. -/
theorem books_finishLogin {identity : Identity} {external : Option ExternalIdentity} {cid : String}
    (hc : Sound c) :
    Books (fun _ _ => True) (finishLogin sv settings identity external cid) c := by
  unfold finishLogin
  cases external with
  | some external =>
    dsimp only
    rw [Books, along_bind]
    refine books_findUserById (fun _ _ => by rintro ⟨⟩) fun r user c₁ hc₁ hr _ hu => ?_
    have hs₁ : Sound c₁ := hc.adds hc₁
    have hknown : Known c₁ c₁.buf user.id := by
      rw [show user.id = external.userId from Store.key_of_get hu, hc₁.buf]
      exact known_of_view hr (Option.ne_none_iff_exists'.2 ⟨user, hu⟩)
    dsimp only
    refine along_guard (fun _ => by rintro ⟨⟩) fun _ => ?_
    rw [along_bind]
    refine books_plain plain_utcNow hs₁ fun now c₂ hc₂ hs₂ => ?_
    rw [along_bind]
    refine books_plain (plain_flushRow trivial) hs₂ fun _ c₃ hc₃ hs₃ => ?_
    exact books_finishSession hs₃ ((hknown.follows hc₂).follows hc₃)
  | none =>
    dsimp only
    split
    · rintro ⟨⟩
    · rw [lockEmail, Books, along_bind]
      refine books_plain (plain_lock _) hc fun _ c₁ _ hs₁ => ?_
      rw [along_bind]
      refine books_plain plain_findUserByEmail hs₁ fun found c₂ _ hs₂ => ?_
      cases found with
      | some _ => rintro ⟨⟩
      | none =>
        dsimp only
        rw [along_bind]
        refine books_createCustomer hs₂ fun created c₃ _ hs₃ huser => ?_
        have hknown : Known c₃ c₃.buf created.id := .inl ⟨created, huser, rfl⟩
        rw [along_bind]
        refine books_plain plain_utcNow hs₃ fun verifiedAt c₄ hc₄ hs₄ => ?_
        rw [along_bind]
        refine books_plain (plain_write _ trivial) hs₄ fun _ c₅ hc₅ hs₅ => ?_
        have hknown₅ := (hknown.follows hc₄).follows hc₅
        rw [along_bind]
        refine books_insertIdentity hs₅ hknown₅ fun c₆ hc₆ hs₆ => ?_
        exact books_finishSession hs₆ (hknown₅.follows hc₆)

/-- A link is recorded before the identity is inserted. -/
theorem books_finishLink {identity : Identity} {external : Option ExternalIdentity} {actor : Actor}
    {cid : String} (hc : Sound c) :
    Books (fun _ _ => True) (finishLink sv settings identity external actor cid) c := by
  rw [finishLink, Books, along_bind]
  refine books_authorize hc fun user c₁ _ _ hs₁ _ hknown => ?_
  cases external with
  | some external =>
    dsimp only
    split <;> rintro ⟨⟩
  | none =>
    dsimp only
    rw [along_bind]
    refine books_plain (plain_query _) hs₁ fun already c₂ hc₂ hs₂ => ?_
    refine along_guard (fun _ => by rintro ⟨⟩) fun _ => ?_
    rw [along_bind]
    exact books_insertIdentity hs₂ (hknown.follows hc₂) fun c₃ _ hs₃ => books_commit hs₃

/-- A new external authentication is recorded, and writes the times alone. -/
theorem books_finishReauthenticate {identity : Identity} {external : Option ExternalIdentity}
    {actor : Actor} {cid : String} (hc : Sound c) :
    Books (fun _ _ => True) (finishReauthenticate sv identity external actor cid) c := by
  rw [finishReauthenticate, Books, along_bind]
  refine books_authorize hc fun user c₁ _ _ hs₁ _ _ => ?_
  cases external with
  | none => rintro ⟨⟩
  | some external =>
    dsimp only
    refine along_guard (fun _ => by rintro ⟨⟩) fun _ => ?_
    rw [along_bind]
    refine books_plain (plain_query _) hs₁ fun session c₂ _ hs₂ => ?_
    cases session with
    | none => rintro ⟨⟩
    | some session =>
      dsimp only
      refine along_guard (fun _ => by rintro ⟨⟩) fun _ => ?_
      rw [along_bind]
      refine books_plain plain_utcNow hs₂ fun now c₃ _ hs₃ => ?_
      refine along_guard (fun _ => by rintro ⟨⟩) fun _ => ?_
      rw [along_bind]
      refine books_plain plain_utcNow hs₃ fun authenticatedAt c₄ _ hs₄ => ?_
      rw [along_bind]
      refine books_plain plain_utcNow hs₄ fun lastLoginAt c₅ _ hs₅ => ?_
      rw [along_bind]
      refine books_plain plain_record hs₅ fun _ c₆ _ hs₆ => ?_
      rw [along_bind]
      refine books_plain (plain_flushRow trivial) hs₆ fun _ c₇ _ hs₇ => ?_
      rw [along_bind]
      exact books_plain (plain_flushRow trivial) hs₇ fun _ c₈ _ hs₈ => books_commit hs₈

/-- `finish` keeps its accounts for each purpose of the attempt. -/
theorem keeps_finish {identity : Identity} {attempt : Attempt} {actor : Option Actor}
    {cid : String} : Keeps (finish sv settings identity attempt actor cid) := by
  rw [Keeps, finish]
  refine along_guard (fun _ => by rintro ⟨⟩) fun _ => ?_
  rw [lockEmail, along_bind]
  refine books_plain (plain_lock _) (sound_fresh rfl rfl) fun _ c₁ _ hs₁ => ?_
  rw [along_bind]
  refine books_plain (plain_query _) hs₁ fun external c₂ _ hs₂ => ?_
  split
  · exact books_finishLogin hs₂
  · cases actor with
    | none => rintro ⟨⟩
    | some actor =>
      dsimp only
      refine along_guard (fun _ => by rintro ⟨⟩) fun _ => ?_
      split
      · exact books_finishReauthenticate hs₂
      · exact books_finishLink hs₂

/-- `unlink` keeps its accounts: the identity is deleted with a record of its removal. -/
theorem keeps_unlink {actor : Actor} {provider : ProviderName} {cid : String} :
    Keeps (unlink sv settings actor provider cid) := by
  rw [Keeps, unlink, Books, along_bind, along_query]
  intro db₁ t₁ _ _ _ _
  split
  · rintro ⟨⟩
  case h_2 seen _ =>
    rw [lockEmail, along_bind, along_lock]
    refine ⟨trivial, ?_⟩
    rw [along_bind]
    refine books_authorize (sound_fresh rfl rfl) fun _ c₃ _ hbuf hs₃ _ _ => ?_
    rw [along_bind, along_query]
    intro db t _ _ _ _
    have hview : c₃.view db = db := by
      rw [Ctx.view, hbuf]
      rfl
    rw [hview]
    cases hfound : providerIdentity actor.userId provider db with
    | none => rintro ⟨⟩
    | some existing =>
      have hmatch := List.find?_some hfound
      simp only [Bool.and_eq_true, decide_eq_true_eq] at hmatch
      have hs₄ : Sound (c₃.observe db t) := hs₃.adds (.observe db t)
      have hget : Db.identity db existing.id = some existing :=
        Store.mem_rows.1 (List.mem_of_find?_eq_some hfound)
      dsimp only
      rw [along_bind]
      refine books_plain (plain_query _) hs₄ fun count c₅ hc₅ hs₅ => ?_
      rw [along_bind]
      refine books_plain (plain_query _) hs₅ fun credential c₆ hc₆ hs₆ => ?_
      refine along_guard (fun _ => by rintro ⟨⟩) fun _ => ?_
      rw [along_bind]
      refine books_audit fun a c₇ hc₇ htells => ?_
      have hs₇ : Sound c₇ := hs₆.goes hc₇ (List.forall_mem_singleton.2 trivial)
      have ha : .addAudit a ∈ c₇.buf := by
        rw [hc₇.buf]
        exact List.mem_cons_self
      rw [along_bind]
      refine books_plain plain_forUpdate hs₇ fun row c₈ hc₈ hs₈ => ?_
      cases row with
      | none => exact books_commit hs₈
      | some _ =>
        dsimp only
        rw [along_bind]
        refine books_plain (plain_lock _) hs₈ fun _ c₉ hc₉ hs₉ => ?_
        rw [along_bind]
        refine books_plain (plain_lock _) hs₉ fun _ c₁₀ hc₁₀ hs₁₀ => ?_
        rw [along_bind, along_write]
        refine books_commit (hs₁₀.push (.of_evidence rfl (by rintro _ ⟨⟩) ?_) rfl)
        have hgo := (hc₈.trans hc₉).trans hc₁₀
        refine ⟨⟨a, hgo.buf ha, ?_⟩, ⟨c₃.held, db, t⟩, ?_, hget⟩
        · rw [hmatch.1, hmatch.2]
          exact htells
        · have hle := ((hc₅.trans hc₆).trans (Follows.of_adds hc₇)).trans hgo |>.le
          exact hle.reads List.mem_cons_self

end

/-! ## Every call -/

/-- Each call is sound whenever it commits. -/
theorem code_keeps (sv : Services) (settings : AuthSettings) (call : Call) :
    Keeps (Auth.code sv settings call) := by
  cases call with
  | beginRegistration => exact keeps_beginRegistration
  | completeRegistration => exact keeps_completeRegistration
  | login => exact keeps_login
  | logout => exact keeps_logout
  | logoutAll => exact keeps_logoutAll
  | reauthenticate => exact keeps_reauthenticate
  | beginReset => exact keeps_beginReset
  | completeReset => exact keeps_completeReset
  | changeAccess => exact keeps_changeAccess
  | bootstrap => exact keeps_bootstrap
  | finish => exact keeps_finish
  | unlink => exact keeps_unlink
  | authorize =>
    rw [Keeps, Auth.code, Books, along_bind]
    exact books_authorize (sound_fresh rfl rfl) fun _ _ _ _ _ _ _ => trivial

end Ledger

end Ekumidayomi
