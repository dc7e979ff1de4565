import Ekumidayomi.Auth.Runs

/-!
# Revoking all sessions of a user

A commit that revokes all sessions of a user does so completely: what was there stays revoked, and
whoever had verified a password of the user before brings no session in afterwards
(`revocation_complete`). Every path that issues a session and every path that revokes all of them
holds the lock of the user's row.
-/

namespace Ekumidayomi

open Transact

/-- The transaction revokes all sessions of the user: a reset of the password, a change of access,
or a logout everywhere. -/
inductive RevokesAll (userId : UUID) : Call → List Op → Prop
  | reset {r : CompleteRequest} {cid hash : String} {ops : List Op} :
      .setPassword userId hash ∈ ops → RevokesAll userId (.completeReset r cid) ops
  | accessChanged {actor : Actor} {role : Option Role} {isActive : Option Bool}
      {cid newRole : String} {newActive : Bool} {ops : List Op} :
      .setAccess userId newRole newActive ∈ ops →
      RevokesAll userId (.changeAccess actor userId role isActive cid) ops
  | loggedOutAll {actor : Actor} {ops : List Op} : actor.userId = userId →
      RevokesAll userId (.logoutAll actor) ops

section
variable {sv : Services} {settings : AuthSettings} {call : Call} {c : Ctx (schema sv)}
  {db : Db} {userId : UUID}

/-- It holds the lock of the user and leaves no session of the user live. -/
theorem Commits.revokesAll (h : Commits sv settings call c db)
    (hrevokes : RevokesAll userId call c.buf) :
    .user userId ∈ c.held ∧ Db.AllRevoked (c.view db) userId := by
  obtain ⟨-, ⟨row, hguess⟩ | ⟨-, hexit⟩⟩ := h
  · cases hrevokes with
    | reset hmem =>
      have hcore := (mem_core rfl).2 hmem
      rw [hguess.buf] at hcore
      simp at hcore
    | accessChanged | loggedOutAll => cases hguess.completes
  · cases hrevokes with
    | reset hmem =>
      have hcore := (mem_core rfl).2 hmem
      cases hexit with
      | nothing hbuf =>
        rw [hbuf] at hcore
        cases hcore
      | issued _ _ hbegins => cases hbegins
      | reset hbuf hrevs _ hheld _ _ _ hrevoked =>
        rw [hbuf] at hcore
        simp only [List.mem_cons, List.mem_append, Op.setPassword.injEq, reduceCtorEq,
          List.not_mem_nil, or_false] at hcore
        rcases hcore with ⟨rfl, -⟩ | hcore
        · exact ⟨hheld, hrevoked⟩
        · cases hrevs _ hcore
    | accessChanged hmem =>
      have hcore := (mem_core rfl).2 hmem
      cases hexit with
      | nothing _ hidle => cases hidle
      | issued _ _ hbegins => cases hbegins
      | accessChanged _ _ hheld _ _ _ hrevoked => exact ⟨hheld, hrevoked⟩
    | loggedOutAll huser =>
      cases hexit with
      | nothing _ hidle => cases hidle
      | issued _ _ hbegins => cases hbegins
      | loggedOutAll _ _ hheld hrevoked =>
        subst huser
        exact ⟨hheld, hrevoked⟩

/-- A session stays with its user, and revoked. -/
theorem applyOps_session_keeps (ops : List Op) {id : UUID} {y : AuthSession}
    (h : db.session id = some y) :
    ∃ x, (applyOps ops db).session id = some x ∧ x.userId = y.userId ∧
      (y.revokedAt.isSome = true → x.revokedAt.isSome = true) := by
  induction ops with
  | nil => exact ⟨y, h, rfl, fun hrevoked => hrevoked⟩
  | cons op ops ih =>
    obtain ⟨x, hx, huser, hrevoked⟩ := ih
    obtain ⟨z, hz⟩ : ∃ z, (op.apply (applyOps ops db)).session id = some z :=
      Db.session_apply_of_some hx
    refine ⟨z, hz, ?_⟩
    rcases Db.session_apply_keeps hz with ⟨-, -, hnone⟩ | ⟨x', hx', huser', -, hrevoked'⟩
    · rw [hx] at hnone
      cases hnone
    · obtain rfl : x' = x := Option.some.inj (hx'.symm.trans hx)
      exact ⟨huser'.trans huser, fun hy => hrevoked' (hrevoked hy)⟩

/-- A login that issues a session has verified the password that is stored when it commits. -/
theorem Commits.login_verified {r : LoginRequest} {id : UUID} {x : AuthSession}
    (h : Commits sv settings (.login r) c db) (hnone : db.session id = none)
    (hx : Db.session (c.view db) id = some x) :
    ∃ credential, db.credential x.userId = some credential ∧
      sv.verify credential.passwordHash r.password = true ∧
      .verified x.userId credential.passwordHash ∈ c.marks := by
  obtain ⟨row, hrow, -, huser⟩ := session_inserted hnone hx
  obtain ⟨-, ⟨row', hguess⟩ | ⟨-, hexit⟩⟩ := h
  · cases hguess.completes
  · cases hexit with
    | nothing _ hidle => cases hidle
    | issued _ _ hbegins => cases hbegins
    | loggedIn hbuf hrevs hrehash hissued _ hcred hverify hmark =>
      rw [hbuf] at hrow
      rcases List.mem_append.1 hrow with hrow | hrow
      · cases hrevs _ hrow
      · rcases List.mem_cons.1 hrow with hrow | hrow
        · cases hrow
          rw [← huser, hissued.userId]
          exact ⟨_, hcred, hverify, hmark⟩
        · rcases hrehash with rfl | ⟨hash, rfl⟩ <;> simp at hrow

/-- The query of `resolve` finds sessions that are not revoked. -/
theorem liveSession_inv {hash : String} {now : Time} {hint : Option UUID} {row : AuthSession}
    {user : User} (h : liveSession hash now hint db = some (row, user)) :
    db.session row.id = some row ∧ row.revokedAt = none := by
  obtain ⟨x, hx, hfound⟩ := List.exists_of_findSome?_eq_some h
  obtain ⟨hlive, hfound⟩ := Option.ite_none_right_eq_some.1 hfound
  obtain ⟨u, -, hfound⟩ := Option.bind_eq_some_iff.1 hfound
  obtain ⟨-, hfound⟩ := Option.ite_none_right_eq_some.1 hfound
  cases hfound
  exact ⟨Store.mem_rows.1 hx, Option.isNone_iff_eq_none.1 hlive.2.1⟩

end

namespace Auth

section
variable {sv : Services} {settings : AuthSettings} {s₀ m m' s : Sys sv} {tr tr' : List (Act sv)}
  {i j : Nat} {t u : Thread (schema sv) Call Error AuthResult} {userId : UUID}

/-- A session stays with its user through a run, and revoked. -/
theorem run_session_keeps (hg : Good sv settings m) (hrun : Run sv settings m tr s) {id : UUID}
    {y : AuthSession} (hy : m.db.session id = some y) :
    ∃ x, s.db.session id = some x ∧ x.userId = y.userId ∧
      (y.revokedAt.isSome = true → x.revokedAt.isSome = true) := by
  refine run_db (P := fun db => ∃ x, db.session id = some x ∧ x.userId = y.userId ∧
    (y.revokedAt.isSome = true → x.revokedAt.isSome = true)) hg hrun ?_ ⟨y, hy, rfl, fun h => h⟩
  rintro call c db - - - ⟨x, hx, huser, hrevoked⟩
  obtain ⟨z, hz, hzuser, hzrevoked⟩ := applyOps_session_keeps c.buf hx
  exact ⟨z, hz, hzuser.trans huser, fun h => hzrevoked (hrevoked h)⟩

/-- A session that a run brings in is brought in by one of its commits. -/
theorem session_issued (hg : Good sv settings m) (hrun : Run sv settings m tr s) {id : UUID}
    {x : AuthSession} (hnone : m.db.session id = none) (hx : s.db.session id = some x) :
    ∃ n j n' y, CommitsIn sv settings m tr s n j n' ∧ n.db.session id = none ∧
      n'.db.session id = some y ∧ y.userId = x.userId := by
  obtain ⟨n, a, n', ⟨tr₁, tr₂, rfl, h1, hstep, h2⟩, hn, hn'⟩ :=
    hrun.crosses (P := fun s => s.db.session id ≠ none) (not_not.2 hnone) (by simp [hx])
  have hnone' : n.db.session id = none := not_not.1 hn
  obtain ⟨y, hy⟩ := Option.ne_none_iff_exists'.1 hn'
  have hcommit : ∃ j, a = .commit j := by
    by_contra hne
    rw [hstep.db_eq fun j hj => hne ⟨j, hj⟩] at hn'
    exact hn' hnone'
  obtain ⟨j, rfl⟩ := hcommit
  obtain ⟨z, hz, huser, -⟩ := run_session_keeps (hg.forward (h1.snoc hstep)) h2 hy
  rw [hx] at hz
  cases hz
  exact ⟨n, j, n', y, ⟨tr₁, tr₂, rfl, h1, hstep, h2⟩, hnone', hy, huser.symm⟩

/-- After its commit a thread commits no more, nor does one whose transaction has ended. -/
theorem no_second_commit (hg : Good sv settings m) (hu : m.threads[j]? = some u)
    (hepoch : u.ctx.epoch ≠ 0) (hrun : Run sv settings m tr s) {s' : Sys sv} :
    ¬ Step sv settings s (.commit j) s' := by
  intro hstep
  obtain ⟨u', hu', -, hle⟩ := run_epoch_le hrun hu
  obtain ⟨t, ht, -, hcommits, -⟩ := commit_exit (hg.forward hrun) hstep
  obtain rfl : t = u' := Option.some.inj (ht.symm.trans hu')
  have hzero : t.ctx.epoch = 0 := hcommits.1
  lia

/-- A thread that has verified a password of the user commits no more, once a commit has revoked all
sessions of the user. -/
theorem no_late_commit (hg : Good sv settings m) (hstep : Step sv settings m (.commit i) m')
    (ht : m.threads[i]? = some t) (hheld : .user userId ∈ t.ctx.held)
    (hu : m.threads[j]? = some u) {hash : String}
    (hverified : Note.verified userId hash ∈ u.ctx.marks ++ u.ctx.past)
    (hrun : Run sv settings m' tr s) {s' : Sys sv} : ¬ Step sv settings s (.commit j) s' := by
  have hrun' : Run sv settings m ([.commit i] ++ tr) s := (Lts.Run.single hstep).append hrun
  by_cases hij : j = i
  · subst hij
    obtain ⟨t', p, ht', -, -, hthreads⟩ := hstep.commit_inv
    have hget : m'.threads[j]? = some (t'.goto p t'.ctx.commit) := by
      rw [hthreads]
      exact Sys.get_put_self ht'
    exact no_second_commit (hg.step (code_meets sv settings) hstep) hget (Nat.succ_ne_zero _) hrun
  · rcases List.mem_append.1 hverified with hmark | hpast
    · obtain ⟨c, hbelow, hnote⟩ := (hg.sound j u hu).noted _ hmark
      exact absurd (hbelow.held hnote) (hg.apart i j t u (Ne.symm hij) ht hu _ hheld)
    · refine no_second_commit hg hu (fun hzero => ?_) hrun'
      rw [(hg.sound j u hu).first hzero] at hpast
      cases hpast

end

/-- A session of the user that the run has brought in since `m`, and how: at its commit, a login has
verified the password that is stored then. -/
def IssuedSince {sv : Services} (settings : AuthSettings) (m : Sys sv) (tr : List (Act sv))
    (s : Sys sv) (x : AuthSession) : Prop :=
  ∃ n j n' t, CommitsIn sv settings m tr s n j n' ∧ n.threads[j]? = some t ∧
    n.db.session x.id = none ∧ n'.db.session x.id ≠ none ∧
    ∀ r, t.call = .login r → ∃ credential, n.db.credential x.userId = some credential ∧
      sv.verify credential.passwordHash r.password = true ∧
      .verified x.userId credential.passwordHash ∈ t.ctx.marks

/-- **Revoking all sessions is complete.** In every run, over any interleaving, let a commit revoke
all sessions of a user. Every session of the user that was committed before it is revoked in every
later state, so that no query of `resolve` finds it again. Whoever had verified a password of the
user by then commits nothing any more, and a session of the user that is live later was issued after
the commit, by a login on the password that is stored at that time if by a login. -/
theorem revocation_complete (sv : Services) (settings : AuthSettings) {s₀ m m' s : Sys sv}
    {tr tr' : List (Act sv)} {i : Nat} {t : Thread (schema sv) Call Error AuthResult}
    {userId : UUID} (h0 : Initial s₀) (hm : Run sv settings s₀ tr m)
    (hstep : Step sv settings m (.commit i) m') (ht : m.threads[i]? = some t)
    (hrevokes : RevokesAll userId t.call t.ctx.buf) (hs : Run sv settings m' tr' s) :
    (∀ id x, m.db.session id = some x → x.userId = userId →
      ∃ y, s.db.session id = some y ∧ y.userId = userId ∧ y.revokedAt.isSome = true) ∧
    (∀ hash now hint row user x, liveSession hash now hint s.db = some (row, user) →
      m.db.session row.id = some x → x.userId ≠ userId) ∧
    (∀ j u hash, m.threads[j]? = some u →
      Note.verified userId hash ∈ u.ctx.marks ++ u.ctx.past →
      ∀ tr₁ n n', Run sv settings m' tr₁ n → ¬ Step sv settings n (.commit j) n') ∧
    (∀ x, s.db.session x.id = some x → x.userId = userId → x.revokedAt = none →
      IssuedSince settings m' tr' s x) := by
  have hg := good_of_run h0 hm
  have hg' : Good sv settings m' := hg.step (code_meets sv settings) hstep
  obtain ⟨t', ht', -, hcommits, hdb⟩ := commit_exit hg hstep
  obtain rfl : t' = t := Option.some.inj (ht'.symm.trans ht)
  obtain ⟨hheld, hrevoked⟩ := hcommits.revokesAll hrevokes
  rw [← hdb] at hrevoked
  -- what is there at the commit is revoked by it, and stays so
  have hafter : ∀ id y, m'.db.session id = some y → y.userId = userId →
      ∃ z, s.db.session id = some z ∧ z.userId = userId ∧ z.revokedAt.isSome = true := by
    intro id y hy hyuser
    obtain ⟨z, hz, hzuser, hzrevoked⟩ := run_session_keeps hg' hs hy
    exact ⟨z, hz, hzuser.trans hyuser, hzrevoked (hrevoked id y hy hyuser)⟩
  have hbefore : ∀ id x, m.db.session id = some x → x.userId = userId →
      ∃ z, s.db.session id = some z ∧ z.userId = userId ∧ z.revokedAt.isSome = true := by
    intro id x hx huser
    obtain ⟨y, hy, hyuser, -⟩ := run_session_keeps hg (.single hstep) hx
    exact hafter id y hy (hyuser.trans huser)
  refine ⟨hbefore, ?_, ?_, ?_⟩
  · intro hash now hint row user x hlive hx huser
    obtain ⟨z, hz, -, hzrevoked⟩ := hbefore row.id x hx huser
    obtain ⟨hrow, hunrevoked⟩ := liveSession_inv hlive
    rw [hrow] at hz
    cases hz
    simp [hunrevoked] at hzrevoked
  · intro j u hash hu hverified tr₁ n n' hn
    exact no_late_commit hg hstep ht hheld hu hverified hn
  · intro x hx huser hlive
    have hnone : m'.db.session x.id = none := by
      by_contra hne
      obtain ⟨y, hy⟩ := Option.ne_none_iff_exists'.1 hne
      obtain ⟨z, hz, hzuser, hzrevoked⟩ := run_session_keeps hg' hs hy
      rw [hx] at hz
      cases hz
      have hxrevoked := hzrevoked (hrevoked x.id y hy (hzuser.symm.trans huser))
      simp [hlive] at hxrevoked
    obtain ⟨n, j, n', y, htakes, hnone', hy, hyuser⟩ := session_issued hg' hs hnone hx
    obtain ⟨u, hu, -, hcommits', hdb'⟩ := commitsIn_exit hg' htakes
    refine ⟨n, j, n', u, htakes, hu, hnone', by simp [hy], fun r hr => ?_⟩
    rw [hr] at hcommits'
    rw [← hyuser]
    exact hcommits'.login_verified hnone' (hdb' ▸ hy)

end Auth

namespace AuthFixture

/-- The steps of a `logoutAll`, up to its commit. -/
def logoutActs : List (Auth.Act services) := .start (.logoutAll actor) :: steps 0 8

/-- The system before the commit. -/
def leaving : Auth.Sys services :=
  ((system db).execAll (Auth.code services default) logoutActs).getD (system db)

/-- The system after it. -/
def left : Auth.Sys services :=
  (leaving.exec (Auth.code services default) (.commit 0)).getD leaving

theorem leaving_run : Auth.Run services {} (system db) logoutActs leaving :=
  Sys.run_of_isSome rfl

theorem left_step : Auth.Step services {} leaving (.commit 0) left :=
  Sys.step_of_isSome rfl

theorem leaving_calls : leaving.threads.map (·.call) = [.logoutAll actor] := rfl

end AuthFixture

/-- Her session is revoked by a logout everywhere. -/
theorem Auth.revocation_complete_left : ∃ y, AuthFixture.left.db.session 2 = some y ∧
    y.userId = 1 ∧ y.revokedAt.isSome = true := by
  obtain ⟨t, -, ht, -⟩ := AuthFixture.left_step.commit_inv
  have hcall : t.call = .logoutAll AuthFixture.actor := by
    have hget := congrArg (·[0]?) AuthFixture.leaving_calls
    simpa [ht] using hget
  refine (Auth.revocation_complete AuthFixture.services {} (AuthFixture.system_initial (by decide))
    AuthFixture.leaving_run AuthFixture.left_step ht ?_ .nil).1 2 AuthFixture.session
    (rfl) rfl
  rw [hcall]
  exact .loggedOutAll rfl

end Ekumidayomi
