import Ekumidayomi.Auth.Administrators
import Ekumidayomi.Auth.Keeping

/-!
# The integrity of the identity tables

In every run of the identity services, over any interleaving of their calls: the unique columns stay
unique and every credential, session and identity belongs to a user (`integrity_kept`), so that the
secret of a session never resolves to anybody but the user it was issued for (`secret_owner`).
-/

namespace Ekumidayomi

open Transact

/-! ## Runs -/

namespace Ledger

/-- What is known of a transaction that commits on the database. -/
structure Closing {sv : Services} (c : Ctx (schema sv)) (db : Db) : Prop where
  sound : Sound c
  valid : db.AdminsVerified
  sees : c.Sees db
  needs : ∀ op ∈ c.buf, ∀ k ∈ op.needs sv, k ∈ c.held
  makes : ∀ op ∈ c.buf, ∀ id ∈ op.makes, id ∈ c.drawn
  unread : ∀ r ∈ c.reads, ∀ id ∈ c.drawn, ¬ Db.Uses r.db id

section
variable {sv : Services} {settings : AuthSettings} {s₀ s s' : Auth.Sys sv}
  {tr : List (Auth.Act sv)} {i : Nat}

/-- A commit in a run. -/
theorem closing (h0 : Auth.Initial s₀) (hrun : Auth.Run sv settings s₀ tr s)
    (hstep : Auth.Step sv settings s (.commit i) s') :
    ∃ t, s.threads[i]? = some t ∧ Closing t.ctx s.db ∧ s'.db = t.ctx.view s.db := by
  have hgood : Auth.Good sv settings s := Auth.good_of_run h0 hrun
  have hmeets := run_along (code_meets sv settings) (Auth.Good.start h0) hrun
    (L := fun _ _ => True) (G := fun _ => Sound) (Q := fun _ _ _ => True)
    (E := fun _ e c => e = .invalidChallenge → Sound c)
    (fun call _ => code_keeps sv settings call) (by simp [h0.threads])
  obtain ⟨t, ht, hsound, hdb⟩ := Transact.Step.commit_meets hmeets hstep
  have hs := hgood.sound i t ht
  refine ⟨t, ht, ⟨hsound, hgood.valid, hs.sees, hs.needs, hs.makes, fun r hr id hid huses => ?_⟩, hdb⟩
  have hmem := List.mem_of_getElem? ht
  exact (hgood.read_spent t hmem r hr id huses).2 t hmem hid

/-- What every commit keeps of the database, a run keeps. -/
theorem run_kept {P : Db → Prop} {tr' : List (Auth.Act sv)} (h0 : Auth.Initial s₀)
    (hrun : Auth.Run sv settings s₀ tr s) (hrun' : Auth.Run sv settings s tr' s')
    (hcommit : ∀ {c : Ctx (schema sv)} {db : Db}, Closing c db → P db → P (c.view db))
    (h : P s.db) : P s'.db := by
  induction hrun' with
  | nil => exact h
  | @snoc m m' tr' a hrun' hstep ih =>
    by_cases hc : ∃ i, a = .commit i
    · obtain ⟨i, rfl⟩ := hc
      obtain ⟨t, -, hclosing, hdb⟩ := closing h0 (hrun.append hrun') hstep
      rw [hdb]
      exact hcommit hclosing ih
    · rw [hstep.db_eq fun i hi => hc ⟨i, hi⟩]
      exact ih

end

end Ledger

/-! ## Integrity -/

/-- The rows are as the unique constraints and the foreign keys of the tables ask. -/
structure Db.Integral (db : Db) : Prop where
  email : ∀ {id id' u u'}, db.user id = some u → db.user id' = some u' → u.email = u'.email →
    id = id'
  secret : ∀ {id id' x x'}, db.session id = some x → db.session id' = some x' →
    x.secretHash = x'.secretHash → id = id'
  purpose : ∀ {id id' x x'}, db.challenge id = some x → db.challenge id' = some x' →
    (x.email, x.purpose) = (x'.email, x'.purpose) → id = id'
  subject : ∀ {id id' x x'}, db.identity id = some x → db.identity id' = some x' →
    (x.provider, x.subject) = (x'.provider, x'.subject) → id = id'
  provider : ∀ {id id' x x'}, db.identity id = some x → db.identity id' = some x' →
    (x.userId, x.provider) = (x'.userId, x'.provider) → id = id'
  credentialUser : ∀ {id x}, db.credential id = some x → db.user id ≠ none
  sessionUser : ∀ {id x}, db.session id = some x → db.user x.userId ≠ none
  identityUser : ∀ {id x}, db.identity id = some x → db.user x.userId ≠ none

namespace Ledger

section
variable {sv : Services} {c : Ctx (schema sv)} {db : Db}

/-- An index stays unique when each write of the transaction was checked. -/
theorem Closing.unique {V : Type} (h : Closing c db) (x : Index (schema sv) V)
    (hchecked : ∀ op post, Account c op post → x.Checked c op post) (hx : x.Unique db) :
    x.Unique (c.view db) :=
  Index.unique_view h.sees h.makes h.unread (h.sound.booked.mono hchecked) hx

/-- Users are never deleted. -/
theorem user_applyAll {ops : List Op} {id : UUID} (h : db.user id ≠ none) :
    Db.user ((schema sv).applyAll ops db) id ≠ none := by
  induction ops with
  | nil => exact h
  | cons op ops ih =>
    obtain ⟨y, hy⟩ := Option.ne_none_iff_exists'.1 ih
    obtain ⟨x, hx⟩ := @Db.user_apply_of_some op _ _ _ hy
    exact Option.ne_none_iff_exists'.2 ⟨x, hx⟩

/-- A user that the transaction knows is there when it commits. -/
theorem Closing.known {ops : List Op} {id : UUID} (h : Closing c db)
    (hops : ∀ op ∈ ops, op ∈ c.buf) (hknown : Known c ops id) : Db.user (c.view db) id ≠ none := by
  rcases hknown with ⟨row, hrow, rfl⟩ | ⟨r, hr, huser⟩
  · have hinserted : ∀ ops : List Op, .insertUser row ∈ ops →
        Db.user ((schema sv).applyAll ops db) row.id ≠ none := by
      intro ops hmem
      induction ops with
      | nil => cases hmem
      | cons op ops ih =>
        rcases List.mem_cons.1 hmem with rfl | hmem
        · show Db.user (Op.apply (.insertUser row) _) row.id ≠ none
          simp [Db.user, Op.apply, Store.get_insert]
        · obtain ⟨y, hy⟩ := Option.ne_none_iff_exists'.1 (ih hmem)
          obtain ⟨x, hx⟩ := @Db.user_apply_of_some op _ _ _ hy
          exact Option.ne_none_iff_exists'.2 ⟨x, hx⟩
    exact hinserted c.buf (hops _ hrow)
  · refine user_applyAll ((h.sees.1 r hr).keeps (P := fun d => Db.user d id ≠ none) ?_ huser)
    intro op d _ hd
    obtain ⟨y, hy⟩ := Option.ne_none_iff_exists'.1 hd
    obtain ⟨x, hx⟩ := @Db.user_apply_of_some op _ _ _ hy
    exact Option.ne_none_iff_exists'.2 ⟨x, hx⟩

/-! The user of a row was there before, or belongs to a row that one of the writes inserts. -/

theorem credential_user {ops : List Op} {id : UUID} {x : PasswordCredential}
    (h : Db.credential ((schema sv).applyAll ops db) id = some x) :
    (∃ op ∈ ops, op.owner = some id) ∨ ∃ y, db.credential id = some y := by
  induction ops generalizing x with
  | nil => exact .inr ⟨x, h⟩
  | cons op ops ih =>
    rcases Db.credential_apply h with ⟨rfl, hid, -⟩ | ⟨y, hy, -⟩
    · exact .inl ⟨_, List.mem_cons_self, congrArg some hid⟩
    · exact (ih hy).imp_left fun ⟨o, ho, howner⟩ => ⟨o, List.mem_cons_of_mem _ ho, howner⟩

theorem session_user {ops : List Op} {id : UUID} {x : AuthSession}
    (h : Db.session ((schema sv).applyAll ops db) id = some x) :
    (∃ op ∈ ops, op.owner = some x.userId) ∨
      ∃ y, db.session id = some y ∧ y.userId = x.userId := by
  induction ops generalizing x with
  | nil => exact .inr ⟨x, h, rfl⟩
  | cons op ops ih =>
    rcases Db.session_apply_keeps h with ⟨rfl, -, -⟩ | ⟨y, hy, huser, -⟩
    · exact .inl ⟨_, List.mem_cons_self, rfl⟩
    · rw [huser]
      exact (ih hy).imp_left fun ⟨o, ho, howner⟩ => ⟨o, List.mem_cons_of_mem _ ho, howner⟩

theorem identity_user {ops : List Op} {id : UUID} {x : ExternalIdentity}
    (h : Db.identity ((schema sv).applyAll ops db) id = some x) :
    (∃ op ∈ ops, op.owner = some x.userId) ∨
      ∃ y, db.identity id = some y ∧ y.userId = x.userId := by
  induction ops generalizing x with
  | nil => exact .inr ⟨x, h, rfl⟩
  | cons op ops ih =>
    rcases Db.identity_apply h with ⟨rfl, -, -⟩ | ⟨y, hy, hsame⟩
    · exact .inl ⟨_, List.mem_cons_self, rfl⟩
    · have huser : x.userId = y.userId := by
        rcases hsame with rfl | ⟨t, -, rfl⟩ <;> rfl
      rw [huser]
      exact (ih hy).imp_left fun ⟨o, ho, howner⟩ => ⟨o, List.mem_cons_of_mem _ ho, howner⟩

/-- The owner of a row that the transaction inserts is there when it commits. -/
theorem Closing.owner {op : Op} {id : UUID} (h : Closing c db) (hop : op ∈ c.buf)
    (howner : op.owner = some id) : Db.user (c.view db) id ≠ none := by
  obtain ⟨post, hpost, haccount⟩ := h.sound.booked.account hop
  exact h.known hpost (haccount.owner id howner)

/-- Every commit keeps the integrity of the tables. -/
theorem Closing.integral (h : Closing c db) (hdb : db.Integral) : Db.Integral (c.view db) where
  email := by
    refine emailIndex_unique.1 (h.unique (emailIndex sv) (fun _ _ ha => ha.email) ?_)
    exact emailIndex_unique.2 hdb.email
  secret := by
    refine secretIndex_unique.1 (h.unique (secretIndex sv) (fun _ _ ha => ha.secret) ?_)
    exact secretIndex_unique.2 hdb.secret
  purpose := by
    refine purposeIndex_unique.1 (h.unique (purposeIndex sv) (fun _ _ ha => ha.purpose) ?_)
    exact purposeIndex_unique.2 hdb.purpose
  subject := by
    refine subjectIndex_unique.1 (h.unique (subjectIndex sv) (fun _ _ ha => ha.subject) ?_)
    exact subjectIndex_unique.2 hdb.subject
  provider := by
    refine providerIndex_unique.1 (h.unique (providerIndex sv) (fun _ _ ha => ha.provider) ?_)
    exact providerIndex_unique.2 hdb.provider
  credentialUser := by
    intro id x hx
    rcases credential_user hx with ⟨op, hop, howner⟩ | ⟨y, hy⟩
    · exact h.owner hop howner
    · exact user_applyAll (hdb.credentialUser hy)
  sessionUser := by
    intro id x hx
    rcases session_user hx with ⟨op, hop, howner⟩ | ⟨y, hy, huser⟩
    · exact h.owner hop howner
    · exact user_applyAll (huser ▸ hdb.sessionUser hy)
  identityUser := by
    intro id x hx
    rcases identity_user hx with ⟨op, hop, howner⟩ | ⟨y, hy, huser⟩
    · exact h.owner hop howner
    · exact user_applyAll (huser ▸ hdb.identityUser hy)

end

end Ledger

namespace Auth

/-- **The tables keep their integrity.** In every run from an initial state, over any interleaving
of the calls: no two users have one address, no two sessions one secret, no two challenges one
address and purpose, no two identities one subject, and no user two identities at one provider; and
every credential, session and identity belongs to a user. -/
theorem integrity_kept (sv : Services) (settings : AuthSettings) {s₀ s : Sys sv}
    {tr : List (Act sv)} (h0 : Initial s₀) (hdb : s₀.db.Integral)
    (hrun : Run sv settings s₀ tr s) : s.db.Integral :=
  Ledger.run_kept h0 .nil hrun Ledger.Closing.integral hdb

/-- **A secret finds one account only.** In every run from an initial state: once a session is
committed, whatever session a secret with its digest resolves to in a later state, with any hint of
the cache, is that session, and belongs to its user. -/
theorem secret_owner (sv : Services) (settings : AuthSettings) {s₀ m s : Sys sv}
    {tr tr' : List (Act sv)} (h0 : Initial s₀) (hdb : s₀.db.Integral)
    (hrun : Run sv settings s₀ tr m) (hrun' : Run sv settings m tr' s) {id : UUID} {x : AuthSession}
    (hx : m.db.session id = some x) {now : Time} {hint : Option UUID} {row : AuthSession}
    {user : User} (hfound : liveSession x.secretHash now hint s.db = some (row, user)) :
    row.id = id ∧ user.id = x.userId := by
  have hkept : ∃ y, s.db.session id = some y ∧ y.userId = x.userId ∧
      y.secretHash = x.secretHash := by
    refine Ledger.run_kept h0 hrun hrun' (P := fun db => ∃ y, db.session id = some y ∧
      y.userId = x.userId ∧ y.secretHash = x.secretHash) ?_ ⟨x, hx, rfl, rfl⟩
    rintro c db - hy
    rw [Ctx.view]
    generalize c.buf = ops
    induction ops with
    | nil => exact hy
    | cons op ops ih =>
      obtain ⟨y, hy, huser, hhash⟩ := ih
      obtain ⟨z, hz⟩ := @Db.session_apply_of_some op _ _ _ hy
      refine ⟨z, hz, ?_⟩
      rcases Db.session_apply_keeps hz with ⟨-, -, hnone⟩ | ⟨w, hw, huser', hhash', -⟩
      · rw [hnone] at hy
        cases hy
      · obtain rfl : w = y := Option.some.inj (hw.symm.trans hy)
        exact ⟨huser'.trans huser, hhash'.trans hhash⟩
  obtain ⟨y, hy, huser, hhash⟩ := hkept
  obtain ⟨row', hrow, hrest⟩ := List.exists_of_findSome?_eq_some hfound
  obtain ⟨⟨hsecret, -⟩, hrest⟩ := Option.ite_none_right_eq_some.1 hrest
  obtain ⟨user', huser', hrest⟩ := Option.bind_eq_some_iff.1 hrest
  obtain ⟨-, ⟨rfl⟩⟩ := Option.ite_none_right_eq_some.1 hrest
  have hget : s.db.session row.id = some row := Store.mem_rows.1 hrow
  have hintegral := integrity_kept sv settings h0 hdb (hrun.append hrun')
  have hid : row.id = id := hintegral.secret hget hy (hsecret.trans hhash.symm)
  obtain rfl : y = row := Option.some.inj (hy.symm.trans (hid ▸ hget))
  exact ⟨hid, (Store.key_of_get huser').trans huser⟩

end Auth

namespace AuthFixture

theorem empty_integral : Db.Integral {} where
  email := nofun
  secret := nofun
  purpose := nofun
  subject := nofun
  provider := nofun
  credentialUser := nofun
  sessionUser := nofun
  identityUser := nofun

/-- The steps of a login of the thread, to its commit. -/
def loginActs (i : Nat) (text : String) (id : UUID) : List (Auth.Act services) :=
  .start (.login { email := address, password }) :: steps i 6 ++
    [.pick i text, .advance i, .draw i id] ++ steps i 4 ++ [.commit i]

/-- The system once the administrator has logged in. -/
def loggedIn : Auth.Sys services :=
  (bootstrapped.execAll (Auth.code services default) (loginActs 1 token 3)).getD bootstrapped

/-- The system once she has logged in again. -/
def loggedInTwice : Auth.Sys services :=
  (loggedIn.execAll (Auth.code services default) (loginActs 2 "y" 4)).getD loggedIn

theorem loggedIn_run : Auth.Run services {} (system {})
    (bootstrapActs ++ loginActs 1 token 3) loggedIn :=
  bootstrapped_run.append (Sys.run_of_isSome rfl)

theorem loggedInTwice_run : Auth.Run services {} loggedIn (loginActs 2 "y" 4) loggedInTwice :=
  Sys.run_of_isSome rfl

end AuthFixture

/-- An empty database has its integrity after the first `bootstrap`. -/
theorem Auth.integrity_kept_bootstrapped : AuthFixture.bootstrapped.db.Integral :=
  Auth.integrity_kept AuthFixture.services {} (AuthFixture.system_initial (by decide))
    AuthFixture.empty_integral AuthFixture.bootstrapped_run

/-- The secret of a login finds its session and its user, after another login has made another. -/
theorem Auth.secret_owner_ada :
    (AuthFixture.loggedInTwice.db.session 4).isSome = true ∧
    ∃ row user, liveSession (hexdigest AuthFixture.tokenDigest) 2 none
      AuthFixture.loggedInTwice.db = some (row, user) ∧ row.id = 3 ∧ user.id = 1 := by
  have hx : ∃ x, AuthFixture.loggedIn.db.session 3 = some x ∧
      x.secretHash = hexdigest AuthFixture.tokenDigest ∧ x.userId = 1 := ⟨_, rfl, rfl, rfl⟩
  obtain ⟨x, hx, hhash, huser⟩ := hx
  have hfound : ∃ found, liveSession x.secretHash 2 none AuthFixture.loggedInTwice.db =
      some found := by
    rw [hhash]
    exact ⟨_, rfl⟩
  obtain ⟨⟨row, user⟩, hfound⟩ := hfound
  have howner := Auth.secret_owner AuthFixture.services {} (AuthFixture.system_initial (by decide))
    AuthFixture.empty_integral AuthFixture.loggedIn_run AuthFixture.loggedInTwice_run hx hfound
  rw [hhash] at hfound
  rw [huser] at howner
  exact ⟨rfl, row, user, hfound, howner⟩

end Ekumidayomi
