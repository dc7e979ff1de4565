import Ekumidayomi.Auth.Sessions

/-!
# Recent authentication

A session that passes `authorize` with `recent_auth_seconds` was issued to a login by password, or
authenticated again, within that time (`recent_authentication`). A session from a login by an
external identity is dated back by one second more than the limit, so it never passes before it has
been authenticated again. What carries this is where each commit has `authenticated_at` from
(`Authentication`).
-/

namespace Ekumidayomi

open Transact

/-- The call authenticates its session again, by password or by an external identity. -/
inductive Reauthenticates (sessionId : UUID) : Call → Prop
  | password {actor : Actor} {password : String} : actor.sessionId = sessionId →
      Reauthenticates sessionId (.reauthenticate actor password)
  | external {identity : Identity} {attempt : Attempt} {actor : Actor} {cid : String} :
      attempt.intent = .reauthenticate → actor.sessionId = sessionId →
      Reauthenticates sessionId (.finish identity attempt (some actor) cid)

section
variable {sv : Services} {settings : AuthSettings} {call : Call} {c : Ctx (schema sv)}
  {db : Db} {ops : List Op} {id : UUID} {x : AuthSession}

/-- Where a session has the instant of its authentication from, after a commit. -/
inductive Authentication (settings : AuthSettings) (c : Ctx (schema sv)) (db : Db) (id : UUID)
    (x : AuthSession) : Call → Prop
  | kept {call : Call} {y : AuthSession} : db.session id = some y →
      x.authenticatedAt = y.authenticatedAt → Authentication settings c db id x call
  | loggedIn {r : LoginRequest} : db.session id = none → ReadAt c x.authenticatedAt →
      Authentication settings c db id x (.login r)
  | again {call : Call} : db.session id ≠ none → Reauthenticates id call →
      ReadAt c x.authenticatedAt → Authentication settings c db id x call
  | datedBack {call : Call} {now : Time} : db.session id = none → ReadAt c now →
      x.authenticatedAt = now - seconds (settings.recentAuthSeconds + 1) →
      Authentication settings c db id x call

/-- The instant is that of the committed session, of the session inserted, or of a later write. -/
def Dated (ops : List Op) (db : Db) (id : UUID) (t : Time) : Prop :=
  (∃ y, db.session id = some y ∧ t = y.authenticatedAt) ∨
  (db.session id = none ∧ ∃ row, Op.insertSession row ∈ ops ∧ t = row.authenticatedAt) ∨
  Op.setAuthenticated id t ∈ ops

theorem Dated.cons {op : Op} {t : Time} (h : Dated ops db id t) : Dated (op :: ops) db id t := by
  rcases h with hkept | ⟨hnone, row, hrow, ht⟩ | hset
  · exact .inl hkept
  · exact .inr (.inl ⟨hnone, row, List.mem_cons_of_mem _ hrow, ht⟩)
  · exact .inr (.inr (List.mem_cons_of_mem _ hset))

theorem session_dated (hx : (applyOps ops db).session id = some x) :
    Dated ops db id x.authenticatedAt := by
  induction ops generalizing x with
  | nil => exact .inl ⟨x, hx, rfl⟩
  | cons op ops ih =>
    rw [applyOps_cons] at hx
    rcases Db.session_apply hx with ⟨rfl, -, hnone⟩ | ⟨y, hy, rfl | ⟨t, -, rfl⟩ | ⟨t, rfl, rfl⟩⟩
    · refine .inr (.inl ⟨?_, x, List.mem_cons_self, rfl⟩)
      by_contra hne
      obtain ⟨y, hy⟩ := Option.ne_none_iff_exists'.1 hne
      obtain ⟨z, hz, -⟩ := applyOps_session_keeps ops hy
      rw [hnone] at hz
      cases hz
    · exact (ih hy).cons
    · exact (ih hy).cons
    · exact .inr (.inr List.mem_cons_self)

/-- The same for a commit, by its writes to sessions. -/
theorem view_session_dated (h : core c.buf = ops) (hx : Db.session (c.view db) id = some x) :
    Dated ops db id x.authenticatedAt := by
  rw [view_session h] at hx
  rcases session_dated hx with hkept | ⟨hnone, row, hrow, ht⟩ | hset
  · exact .inl hkept
  · exact .inr (.inl ⟨hnone, row, List.mem_of_mem_filter hrow, ht⟩)
  · exact .inr (.inr (List.mem_of_mem_filter hset))

/-- A commit that writes to sessions only to revoke them. -/
theorem authentication_kept (h : core c.buf = ops)
    (hrevoke : ∀ op ∈ ops, op.table = .sessions → op.isRevoke = true)
    (hx : Db.session (c.view db) id = some x) : Authentication settings c db id x call := by
  rcases view_session_dated h hx with ⟨y, hy, hat⟩ | ⟨-, row, hrow, -⟩ | hset
  · exact .kept hy hat
  · cases hrevoke _ hrow rfl
  · cases hrevoke _ hset rfl

theorem Commits.authentication (h : Commits sv settings call c db) (hs : c.Sees db)
    (hx : Db.session (c.view db) id = some x) : Authentication settings c db id x call := by
  -- a session that is authenticated again
  have hagain : ∀ {actor : Actor} {t : Time} {ops call}, core c.buf = ops →
      on .sessions ops = [.setAuthenticated actor.sessionId t] → ReadAt c t →
      (actor.sessionId = id → Reauthenticates id call) →
      Authentication settings c db id x call := by
    intro actor t ops call hbuf hon hread hcall
    rw [view_session hbuf, hon, applyOps_cons] at hx
    rcases Db.session_apply hx with ⟨hop, -⟩ | ⟨y, hy, rfl | ⟨t', hop, -⟩ | ⟨t', hop, rfl⟩⟩
    · cases hop
    · exact .kept hy rfl
    · cases hop
    · cases hop
      exact .again (by simp [show db.session _ = some y from hy]) (hcall rfl) hread
  -- a session that is issued and dated back
  have hdated : ∀ {user : User} {secret : String} {session : AuthSession} {now : Time} {ops call},
      core c.buf = ops → on .sessions ops = [.setAuthenticated session.id
        (now - seconds (settings.recentAuthSeconds + 1)), .insertSession session] →
      Issued c user secret session → ReadAt c now → Authentication settings c db id x call := by
    intro user secret session now ops call hbuf hon hissued hread
    have hnone := session_eq_none hs hissued.drawn
    rw [view_session_issued hbuf hon hnone] at hx
    split at hx
    case isTrue hid =>
      cases hx
      exact .datedBack (hid ▸ hnone) hread rfl
    case isFalse => exact .kept hx rfl
  obtain ⟨-, ⟨row, hguess⟩ | ⟨-, hexit⟩⟩ := h
  · exact authentication_kept hguess.buf (by simp [Op.table]) hx
  · cases hexit with
    | nothing hbuf | registered hbuf | bootstrapped hbuf | linked hbuf | unlinked hbuf =>
      exact authentication_kept hbuf (by simp [Op.table]) hx
    | @issued _ _ _ _ deleted hbuf =>
      exact authentication_kept hbuf (by cases deleted <;> simp [Op.table]) hx
    | loggedOut hbuf hrevs | loggedOutAll hbuf hrevs =>
      exact authentication_kept hbuf (fun op hop _ => hrevs op hop) hx
    | @loggedIn _ _ _ _ _ _ _ _ rehash hbuf hrevs hrehash hissued =>
      have hpassword : ∀ op ∈ rehash, op.table = .credentials := by
        rcases hrehash with rfl | ⟨hash, rfl⟩ <;> simp [Op.table]
      rcases view_session_dated hbuf hx with ⟨y, hy, hat⟩ | ⟨hnone, row, hrow, hat⟩ | hset
      · exact .kept hy hat
      · simp only [List.mem_append, List.mem_cons, Op.insertSession.injEq] at hrow
        rcases hrow with hrow | rfl | hrow
        · cases hrevs _ hrow
        · exact .loggedIn hnone (hat ▸ hissued.instant)
        · cases hpassword _ hrow
      · simp only [List.mem_append, List.mem_cons, reduceCtorEq, false_or] at hset
        rcases hset with hset | hset
        · cases hrevs _ hset
        · cases hpassword _ hset
    | reset hbuf hrevs =>
      refine authentication_kept hbuf (fun op hop htable => ?_) hx
      simp only [List.mem_cons, List.mem_append, List.not_mem_nil, or_false] at hop
      rcases hop with rfl | hop | rfl | rfl
      · cases htable
      · exact hrevs op hop
      · cases htable
      · cases htable
    | accessChanged hbuf hrevs =>
      refine authentication_kept hbuf (fun op hop htable => ?_) hx
      rcases List.mem_append.1 hop with hop | hop
      · exact hrevs op hop
      · rw [List.mem_singleton.1 hop] at htable
        cases htable
    | reauthenticated hbuf hread => exact hagain hbuf rfl hread .password
    | entered hbuf _ hissued hread => exact hdated hbuf rfl hissued hread
    | joined hbuf _ _ _ hissued hread => exact hdated hbuf rfl hissued hread
    | confirmed hbuf hintent hread => exact hagain hbuf rfl hread (.external hintent)

end

namespace Auth

section
variable {sv : Services} {settings : AuthSettings} {m n n' s : Sys sv} {tr : List (Act sv)}
  {i : Nat} {t : Thread (schema sv) Call Error AuthResult} {id : UUID} {x : AuthSession}

/-- In the run, at the instant, a login by password has issued the session. -/
def LoggedInAt (settings : AuthSettings) (m : Sys sv) (tr : List (Act sv)) (s : Sys sv) (id : UUID)
    (instant : Time) : Prop :=
  ∃ n j n' t r, CommitsIn sv settings m tr s n j n' ∧ n.clock = instant ∧
    n.threads[j]? = some t ∧ t.call = .login r ∧ n.db.session id = none ∧ n'.db.session id ≠ none

/-- In the run, at the instant, a call has authenticated the session again. -/
def AgainAt (settings : AuthSettings) (m : Sys sv) (tr : List (Act sv)) (s : Sys sv) (id : UUID)
    (instant : Time) : Prop :=
  ∃ n j n' t, CommitsIn sv settings m tr s n j n' ∧ n.clock = instant ∧
    n.threads[j]? = some t ∧ Reauthenticates id t.call

/-- The `i`th thread has passed `authorize` with the limit, at `now` of its present transaction. -/
def Passed (s : Sys sv) (i : Nat) (id : UUID) (limit : Nat) (now : Time) : Prop :=
  ∃ t, s.threads[i]? = some t ∧ Note.authorized id limit now ∈ t.ctx.marks

/-- The commit of the `j`th thread, a `finish`, issues the session. -/
def IssuedByFinish (n : Sys sv) (j : Nat) (n' : Sys sv) (id : UUID) : Prop :=
  ∃ t identity attempt actor cid, n.threads[j]? = some t ∧
    t.call = .finish identity attempt actor cid ∧ n.db.session id = none ∧ n'.db.session id ≠ none

/-- The instant is at most `recent_auth_seconds` before `now`. -/
def Within (settings : AuthSettings) (now instant : Time) : Prop :=
  now - instant ≤ seconds settings.recentAuthSeconds ∧ instant ≤ now

/-- Where the instant of a session's authentication comes from in a run: the state at its start, a
login, an authentication of the session, or a login that has dated it back. -/
def Origin (settings : AuthSettings) (m : Sys sv) (tr : List (Act sv)) (s : Sys sv) (id : UUID)
    (t : Time) : Prop :=
  (∃ y, m.db.session id = some y ∧ t = y.authenticatedAt) ∨
  (∃ instant, (LoggedInAt settings m tr s id instant ∨ AgainAt settings m tr s id instant) ∧
    t ≤ instant ∧ instant ≤ s.clock) ∨
  t + seconds (settings.recentAuthSeconds + 1) ≤ s.clock

theorem LoggedInAt.append {s' : Sys sv} {tr' : List (Act sv)} {instant : Time}
    (h : LoggedInAt settings m tr s id instant) (hrun : Run sv settings s tr' s') :
    LoggedInAt settings m (tr ++ tr') s' id instant := by
  obtain ⟨n, j, n', t, r, htakes, hrest⟩ := h
  exact ⟨n, j, n', t, r, htakes.append hrun, hrest⟩

theorem AgainAt.append {s' : Sys sv} {tr' : List (Act sv)} {instant : Time}
    (h : AgainAt settings m tr s id instant) (hrun : Run sv settings s tr' s') :
    AgainAt settings m (tr ++ tr') s' id instant := by
  obtain ⟨n, j, n', t, htakes, hrest⟩ := h
  exact ⟨n, j, n', t, htakes.append hrun, hrest⟩

theorem Origin.snoc {s' : Sys sv} {a : Act sv} {t : Time} (h : Origin settings m tr s id t)
    (hstep : Step sv settings s a s') : Origin settings m (tr ++ [a]) s' id t := by
  have hclock := hstep.clock_le
  rcases h with hstart | ⟨instant, hat, hle, hlt⟩ | hback
  · exact .inl hstart
  · refine .inr (.inl ⟨instant, ?_, hle, Int.le_trans hlt hclock⟩)
    exact hat.imp (·.append (.single hstep)) (·.append (.single hstep))
  · exact .inr (.inr (Int.le_trans hback hclock))

/-- The instant of every session's authentication has an origin. -/
theorem run_origin (hg : Good sv settings m) (hrun : Run sv settings m tr s)
    (hx : s.db.session id = some x) : Origin settings m tr s id x.authenticatedAt := by
  induction hrun generalizing x with
  | nil => exact .inl ⟨x, hx, rfl⟩
  | @snoc s s' tr a hrun hstep ih =>
    by_cases hc : ∃ j, a = .commit j
    · obtain ⟨j, rfl⟩ := hc
      have hgs : Good sv settings s := hg.forward hrun
      obtain ⟨t, ht, hsees, hcommits, hdb⟩ := commit_exit hgs hstep
      -- what the transaction has read of the clock is not in the future
      have hread : ∀ {instant}, ReadAt t.ctx instant → instant ≤ s.clock := by
        rintro instant ⟨reading, hreading, rfl⟩
        exact (hgs.sound j t ht).before.1 reading hreading
      have hclock := hstep.clock_le
      have htakes := Lts.Takes.last hrun hstep
      generalize hcall : t.call = call at hcommits
      cases hcommits.authentication hsees (hdb ▸ hx) with
      | kept hy hat => exact hat ▸ (ih hy).snoc hstep
      | loggedIn hnone hat =>
        refine .inr (.inl ⟨s.clock, .inl ?_, hread hat, hclock⟩)
        exact ⟨s, j, s', t, _, htakes, rfl, ht, hcall, hnone, by simp [hx]⟩
      | again _ hagain hat =>
        refine .inr (.inl ⟨s.clock, .inr ?_, hread hat, hclock⟩)
        exact ⟨s, j, s', t, htakes, rfl, ht, hcall ▸ hagain⟩
      | datedBack _ hnow hat =>
        refine .inr (.inr ?_)
        have := hread hnow
        lia
    · rw [hstep.db_eq fun j hj => hc ⟨j, hj⟩] at hx
      exact (ih hx).snoc hstep

/-- The mark of `authorize` stands for a session that was live, and recent by its row. -/
theorem authorized_in_run (hg : Good sv settings m) (hrun : Run sv settings m tr s)
    {limit : Nat} {now : Time}
    (hnew : ∀ u ∈ m.threads, ∀ r ∈ u.ctx.reads, r.db.session id = none)
    (hpassed : Passed s i id limit now) :
    now ≤ s.clock ∧ ∃ l userId, Visits sv settings m tr s l ∧
      LiveSession l userId id limit now := by
  obtain ⟨t, ht, hmark⟩ := hpassed
  obtain ⟨c, hbelow, userId, ⟨r, hr, hx⟩, reading, hreading, hnow⟩ :=
    ((hg.forward hrun).sound i t ht).noted _ hmark
  obtain ⟨hle, l, hvisits, hlive⟩ := recent_in_run hg hrun ht hnew
    ⟨⟨r, hbelow.reads hr, hx⟩, reading, hbelow.clocks hreading, hnow⟩
  exact ⟨hle, l, userId, hvisits, hlive⟩

theorem seconds_lt (k : Nat) : seconds k < seconds (k + 1) := by
  simp only [seconds]
  lia

/-- What a live and recent session of a run was authenticated by. -/
theorem LiveSession.origin (hg : Good sv settings m) {l : Sys sv} {userId : UUID} {now : Time}
    (hvisits : Visits sv settings m tr s l)
    (hlive : LiveSession l userId id settings.recentAuthSeconds now) :
    (∃ y, m.db.session id = some y ∧
      now - y.authenticatedAt ≤ seconds settings.recentAuthSeconds) ∨
    ∃ instant, Within settings now instant ∧
      (LoggedInAt settings m tr s id instant ∨ AgainAt settings m tr s id instant) := by
  obtain ⟨tr₁, tr₂, rfl, h1, h2⟩ := hvisits
  obtain ⟨x, hx, -, -, -, hrecent, hclock⟩ := hlive
  rcases run_origin hg h1 hx with ⟨y, hy, hat⟩ | ⟨instant, hat, hle, hlt⟩ | hback
  · exact .inl ⟨y, hy, hat ▸ hrecent⟩
  · refine .inr ⟨instant, ⟨by lia, by lia⟩, hat.imp (·.append h2) (·.append h2)⟩
  · -- dated back by more than the limit
    have hmore := seconds_lt settings.recentAuthSeconds
    lia

/-- A session that a commit inserts is in nothing that was read before. -/
theorem unread_of_issued (hg : Good sv settings n) (hstep : Step sv settings n (.commit i) n')
    (hnone : n.db.session id = none) (hx : n'.db.session id = some x) :
    ∀ u ∈ n'.threads, ∀ r ∈ u.ctx.reads, r.db.session id = none := by
  obtain ⟨t, p, ht, -, hdb, hthreads⟩ := hstep.commit_inv
  rw [hdb] at hx
  obtain ⟨row, hrow, hid, -⟩ := session_inserted hnone hx
  have hdrawn : id ∈ t.ctx.drawn := by
    rw [← hid]
    exact (hg.sound i t ht).makes _ ((mem_core rfl).1 hrow) row.id List.mem_cons_self
  intro u hu r hr
  by_contra hne
  rw [hthreads] at hu
  rcases List.mem_or_eq_of_mem_set hu with hu | rfl
  · exact (hg.read_spent u hu r hr id (.inr (.inr (.inl hne)))).2 t (List.mem_of_getElem? ht) hdrawn
  · cases hr

end

/-- **Recent authentication is sound.** In every run, over any interleaving, let `authorize` with
`recent_auth_seconds` have succeeded at `now`. The session was not revoked and had not expired, and
at most that long before a login by password had issued it, or it had been authenticated again, by
password or by an external identity; or it was so recent in the state before the run. A session that
the login by an external identity has issued passes only after it has been authenticated again. -/
theorem recent_authentication (sv : Services) (settings : AuthSettings) {s₀ : Sys sv}
    (h0 : Initial s₀) :
    (∀ {tr s i id now}, Run sv settings s₀ tr s → Passed s i id settings.recentAuthSeconds now →
      now ≤ s.clock ∧
      (∃ l userId, Visits sv settings s₀ tr s l ∧
        LiveSession l userId id settings.recentAuthSeconds now) ∧
      ((∃ y, s₀.db.session id = some y ∧
        now - y.authenticatedAt ≤ seconds settings.recentAuthSeconds) ∨
      ∃ instant, Within settings now instant ∧
        (LoggedInAt settings s₀ tr s id instant ∨ AgainAt settings s₀ tr s id instant))) ∧
    (∀ {tr tr' n n' s i j id now}, Run sv settings s₀ tr n → Step sv settings n (.commit j) n' →
      IssuedByFinish n j n' id → Run sv settings n' tr' s →
      Passed s i id settings.recentAuthSeconds now →
      ∃ instant, Within settings now instant ∧ AgainAt settings n' tr' s id instant) := by
  refine ⟨?_, ?_⟩
  · intro tr s i id now hrun hpassed
    have hg : Good sv settings s₀ := Good.start h0
    obtain ⟨hle, l, userId, hvisits, hlive⟩ := authorized_in_run hg hrun h0.reads hpassed
    exact ⟨hle, ⟨l, userId, hvisits, hlive⟩, hlive.origin hg hvisits⟩
  · intro tr tr' n n' s i j id now hn hstep hissued hrun hpassed
    obtain ⟨u, identity, attempt, actor, cid, hu, hcall, hnone, hsome⟩ := hissued
    have hg : Good sv settings n := good_of_run h0 hn
    have hg' : Good sv settings n' := hg.step (code_meets sv settings) hstep
    obtain ⟨y, hy⟩ := Option.ne_none_iff_exists'.1 hsome
    -- the session is dated back by the commit that brings it in
    have hback : y.authenticatedAt + seconds (settings.recentAuthSeconds + 1) ≤ n'.clock := by
      obtain ⟨u', hu', hsees, hcommits, hdb⟩ := commit_exit hg hstep
      obtain rfl : u' = u := Option.some.inj (hu'.symm.trans hu)
      rw [hcall] at hcommits
      cases hcommits.authentication hsees (hdb ▸ hy) with
      | kept hold =>
        rw [hnone] at hold
        cases hold
      | again hne => exact absurd hnone hne
      | datedBack _ hread hat =>
        obtain ⟨reading, hreading, rfl⟩ := hread
        have hbefore := (hg.sound j u' hu).before.1 reading hreading
        have hclock := hstep.clock_le
        lia
    obtain ⟨-, l, userId, hvisits, hlive⟩ :=
      authorized_in_run hg' hrun (unread_of_issued hg hstep hnone hy) hpassed
    rcases hlive.origin hg' hvisits with ⟨z, hz, hrecent⟩ | ⟨instant, hwithin, hlogin | hagain⟩
    · obtain rfl : z = y := Option.some.inj (hz.symm.trans hy)
      obtain ⟨tr₁, tr₂, -, h1, -⟩ := hvisits
      obtain ⟨-, -, -, -, -, -, hnow⟩ := hlive
      have hclock := run_clock_le h1
      have hmore := seconds_lt settings.recentAuthSeconds
      lia
    · obtain ⟨k, _, _, _, _, ⟨tr₁, tr₂, -, h1, -⟩, -, -, -, hgone, -⟩ := hlogin
      obtain ⟨z, hz, -⟩ := run_session_keeps hg' h1 hy
      rw [hgone] at hz
      cases hz
    · exact ⟨instant, hwithin, hagain⟩

end Auth

namespace AuthFixture

/-- The account before its first session. -/
def account : Db := { db with sessions := .empty }

/-- The steps of a login and of an `authorize` for its session, up to its answer. -/
def authorizeActs : List (Auth.Act services) :=
  .start (.login { email := address, password }) :: steps 0 6 ++
    [.pick 0 token, .advance 0, .draw 0 2] ++ steps 0 4 ++ [.commit 0, .advance 0,
      .start (.authorize actor .profileWrite (some 300) false)] ++ steps 1 5

/-- The system after them. -/
def authorized : Auth.Sys services :=
  ((system account).execAll (Auth.code services default) authorizeActs).getD (system account)

theorem authorized_run : Auth.Run services {} (system account) authorizeActs authorized :=
  Sys.run_of_isSome rfl

theorem authorized_passed : Auth.Passed authorized 1 2 300 1 := by
  have hmarks : (authorized.threads[1]?).any fun t =>
      decide (Note.authorized 2 300 1 ∈ t.ctx.marks) := by
    decide +kernel
  obtain ⟨t, ht, hmark⟩ := (Option.any_eq_true _ _).1 hmarks
  exact ⟨t, ht, of_decide_eq_true hmark⟩

end AuthFixture

/-- A session passes right after the login that has issued it. -/
theorem Auth.recent_authentication_authorized : ∃ instant, Auth.Within {} 1 instant ∧
    (Auth.LoggedInAt {} (AuthFixture.system AuthFixture.account) AuthFixture.authorizeActs
      AuthFixture.authorized 2 instant ∨
    Auth.AgainAt {} (AuthFixture.system AuthFixture.account) AuthFixture.authorizeActs
      AuthFixture.authorized 2 instant) := by
  obtain ⟨-, -, ⟨y, hy, -⟩ | hat⟩ := (Auth.recent_authentication AuthFixture.services {}
    (AuthFixture.system_initial (by decide))).1 AuthFixture.authorized_run
    AuthFixture.authorized_passed
  · cases hy
  · exact hat

end Ekumidayomi
