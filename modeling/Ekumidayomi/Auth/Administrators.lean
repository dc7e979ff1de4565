import Ekumidayomi.Auth.Runs

/-!
# An administrator always remains

Once there is an active, verified administrator there is one in every later state, and `bootstrap`
creates an administrator at most once (`administrators_remain`). What carries it is the lock of the
membership: whoever demotes has counted the others under it, and whoever creates has found none.
-/

namespace Ekumidayomi

open Transact

/-- An active administrator with a verified address is there. -/
def Db.HasAdmin (db : Db) : Prop := ∃ id u, db.user id = some u ∧ u.isAdmin = true

section
variable {sv : Services} {settings : AuthSettings} {call : Call} {c : Ctx (schema sv)} {db : Db}

/-- Every commit leaves an administrator where there was one. -/
theorem Commits.hasAdmin (h : Commits sv settings call c db) (hs : c.Sees db)
    (hadmin : db.HasAdmin) : Db.HasAdmin (c.view db) := by
  obtain ⟨id, u, hu, hua⟩ := hadmin
  cases h.users hs with
  | same hsame => exact ⟨id, u, (hsame id).trans hu, hua⟩
  | @created _ user _ hnew _ hview =>
    have hne : id ≠ user.id := by
      rintro rfl
      rw [user_eq_none hs hnew.drawn] at hu
      cases hu
    exact ⟨id, u, by rw [hview, if_neg hne, hu], hua⟩
  | bootstrapped _ hnone _ => exact absurd hua (by simp [hnone id u hu])
  | @access _ targetId _ _ _ target newRole newActive htarget _ hothers hview =>
    by_cases hid : id = targetId
    · subst hid
      obtain rfl : target = u := Option.some.inj (htarget.symm.trans hu)
      by_cases hkeeps : newRole = Role.admin.value ∧ newActive = true
      · refine ⟨id, _, by rw [hview, if_pos rfl], ?_⟩
        simp only [User.isAdmin, Bool.and_eq_true, decide_eq_true_eq] at hua ⊢
        exact ⟨hkeeps, hua.2⟩
      · -- somebody else was an administrator, and nobody else is changed
        obtain ⟨id', u', hne, hu', hua'⟩ := hothers hua hkeeps
        exact ⟨id', u', by rw [hview, if_neg hne, hu'], hua'⟩
    · exact ⟨id, u, by rw [hview, if_neg hid, hu], hua⟩

/-- A `bootstrap` that creates a user found no administrator and leaves one. -/
theorem Commits.bootstraps {email password : String} {breached : Option Bool} {row : User}
    (h : Commits sv settings (.bootstrap email password breached) c db) (hs : c.Sees db)
    (hrow : .insertUser row ∈ c.buf) : ¬ db.HasAdmin ∧ Db.HasAdmin (c.view db) := by
  have hcore : Op.insertUser row ∈ core c.buf := (mem_core rfl).2 hrow
  obtain ⟨-, ⟨row', hguess⟩ | ⟨-, hexit⟩⟩ := h
  · rw [hguess.buf] at hcore
    simp at hcore
  · cases hexit with
    | nothing hbuf =>
      rw [hbuf] at hcore
      cases hcore
    | issued hbuf =>
      rw [hbuf] at hcore
      simp at hcore
    | bootstrapped hbuf _ hnew hadmins =>
      refine ⟨fun ⟨id, u, hu, hua⟩ => by simp [hadmins id u hu] at hua, ?_⟩
      refine ⟨_, _, by rw [view_user_admin hbuf rfl (user_eq_none hs hnew.drawn), if_pos rfl], ?_⟩
      simp [User.isAdmin, hnew.active]

end

namespace Auth

/-- The commit of the `i`th thread creates an administrator by `bootstrap`. -/
def Bootstraps {sv : Services} (s : Sys sv) (i : Nat) : Prop :=
  ∃ t email password breached row, s.threads[i]? = some t ∧
    t.call = .bootstrap email password breached ∧ Op.insertUser row ∈ t.ctx.buf

/-- **An active administrator always remains.** In every run from an initial state, over any
interleaving of the calls: once a committed state has an active, verified administrator, so has
every later one; every administrator is verified; and of two commits at most one is a `bootstrap`
that creates an administrator. -/
theorem administrators_remain (sv : Services) (settings : AuthSettings) {s₀ : Sys sv}
    (h0 : Initial s₀) :
    (∀ {tr tr' m s}, Run sv settings s₀ tr m → Run sv settings m tr' s → m.db.HasAdmin →
      s.db.HasAdmin) ∧
    (∀ {tr s}, Run sv settings s₀ tr s → s.db.AdminsVerified) ∧
    (∀ {tr tr' m m' n n' i j}, Run sv settings s₀ tr m → Step sv settings m (.commit i) m' →
      Bootstraps m i → Run sv settings m' tr' n → Step sv settings n (.commit j) n' →
      ¬ Bootstraps n j) := by
  have hpersists : ∀ {tr tr' m s}, Run sv settings s₀ tr m → Run sv settings m tr' s →
      m.db.HasAdmin → s.db.HasAdmin := by
    intro tr tr' m s hm hs hadmin
    exact run_db (good_of_run h0 hm) hs (fun _ hsees hcommits => hcommits.hasAdmin hsees) hadmin
  -- the commit of a `bootstrap` that creates leads from no administrator to one
  have hcreates : ∀ {tr m m' i}, Run sv settings s₀ tr m → Step sv settings m (.commit i) m' →
      Bootstraps m i → ¬ m.db.HasAdmin ∧ m'.db.HasAdmin := by
    intro tr m m' i hm hstep ⟨t, email, password, breached, row, ht, hcall, hrow⟩
    obtain ⟨t', ht', hsees, hcommits, hdb⟩ := commit_exit (good_of_run h0 hm) hstep
    obtain rfl : t' = t := Option.some.inj (ht'.symm.trans ht)
    rw [hcall] at hcommits
    rw [hdb]
    exact hcommits.bootstraps hsees hrow
  refine ⟨hpersists, fun hrun => (good_of_run h0 hrun).valid, ?_⟩
  intro tr tr' m m' n n' i j hm hstep hfirst hn hstep' hsecond
  have hm' := hm.snoc hstep
  have hadmin := hpersists hm' hn (hcreates hm hstep hfirst).2
  exact (hcreates (hm'.append hn) hstep' hsecond).1 hadmin

end Auth

namespace AuthFixture

/-- The steps of a `bootstrap` up to its commit. -/
def bootstrapActs : List (Auth.Act services) :=
  .start (.bootstrap address password (some false)) :: steps 0 3 ++ [.draw 0 1] ++ steps 0 5 ++
    [.pick 0 "salt", .advance 0, .draw 0 2] ++ steps 0 4 ++ [.commit 0]

/-- The system after them. -/
def bootstrapped : Auth.Sys services :=
  ((system {}).execAll (Auth.code services default) bootstrapActs).getD (system {})

theorem bootstrapped_run : Auth.Run services {} (system {}) bootstrapActs bootstrapped :=
  Sys.run_of_isSome rfl

theorem bootstrapped_hasAdmin : bootstrapped.db.HasAdmin :=
  ⟨1, { id := 1, email := address, role := "admin", emailVerifiedAt := some 1 }, rfl,
    by decide⟩

end AuthFixture

/-- The administrator of a first `bootstrap` is there when it has answered. -/
theorem Auth.administrators_remain_bootstrapped :
    Db.HasAdmin ((AuthFixture.bootstrapped.execAll (Auth.code AuthFixture.services {})
      [.advance 0]).getD AuthFixture.bootstrapped).db :=
  (Auth.administrators_remain AuthFixture.services {} (AuthFixture.system_initial (by decide))).1
    AuthFixture.bootstrapped_run (Sys.run_of_isSome rfl)
    AuthFixture.bootstrapped_hasAdmin

end Ekumidayomi
