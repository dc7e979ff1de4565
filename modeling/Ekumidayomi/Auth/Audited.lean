import Ekumidayomi.Auth.Challenges
import Ekumidayomi.Auth.Evidence
import Ekumidayomi.Auth.Integrity

/-!
# No change without its audit record

What a commit of the identity services changes is told of by the audit records of the same commit
(`Audited`): who has become an administrator, whose access was changed from what to what and by
whom, which accounts, challenges and identities came or went, whose password was replaced and which
challenge was guessed at. It holds of every commit in every run (`commits_audited`).
-/

namespace Ekumidayomi

open Transact

/-- One of the records tells of the action. -/
def Shown (rows : List AuditRecord) (actorId : Option UUID) (action : String) (targetId : UUID)
    (outcome : AuditOutcome) (metadata : List (String × AuditValue)) : Prop :=
  ∃ a ∈ rows, a.Tells actorId action targetId outcome metadata

/-- The records `rows` tell of what is different in `db'`, and of the wrong codes among the marks. -/
structure Audited (db db' : Db) (marks : List Note) (rows : List AuditRecord) : Prop where
  privileged : ∀ {id u'}, db.user id = none → db'.user id = some u' →
    (u'.role = Role.customer.value ∧ u'.isActive = true) ∨
      Shown rows none "identity.admin_bootstrapped" id .succeeded []
  access : ∀ {id u u'}, db.user id = some u → db'.user id = some u' →
    (u'.role = u.role ∧ u'.isActive = u.isActive) ∨ ∃ admin : UUID,
      Shown rows (some admin) "identity.access_changed" id .succeeded
        [("old_role", .str u.role), ("new_role", .str u'.role),
          ("old_active", .bool u.isActive), ("new_active", .bool u'.isActive)]
  credential : ∀ {id x'}, db.credential id = none → db'.credential id = some x' →
    Shown rows none "auth.registration_completed" id .succeeded [] ∨
      Shown rows none "identity.admin_bootstrapped" id .succeeded []
  password : ∀ {id x x'}, db.credential id = some x → db'.credential id = some x' →
    x'.passwordHash = x.passwordHash ∨ Shown rows none "identity.password_reset" id .succeeded [] ∨
      ∃ hash, .verified id hash ∈ marks
  challenge : ∀ {id x'}, db.challenge id = none → db'.challenge id = some x' → ∃ isResend,
    Shown rows none "auth.challenge_issued" id .succeeded
      [("purpose", .str x'.purpose), ("is_resend", .bool isResend)]
  guess : ∀ {id}, .wrongCode id ∈ marks → ∃ purpose : ChallengePurpose,
    Shown rows none "auth.challenge_verification_failed" id .denied
      [("purpose", .str purpose.value)]
  linked : ∀ {id x'}, db.identity id = none → db'.identity id = some x' →
    Shown rows (some x'.userId) "identity.provider_linked" x'.userId .succeeded
      [("provider", .str x'.provider)]
  unlinked : ∀ {id x}, db.identity id = some x → db'.identity id = none →
    Shown rows (some x.userId) "identity.provider_unlinked" x.userId .succeeded
      [("provider", .str x.provider)]

/-! ## What the writes of a transaction change -/

section
variable {sv : Services} {db : Db} {ops : List Op} {id : UUID}

/-- A user that the writes make has the access of the row, or what a write gave it. -/
theorem applyAll_user_new {u : User} (h0 : db.user id = none)
    (h : Db.user ((schema sv).applyAll ops db) id = some u) :
    ∃ row, .insertUser row ∈ ops ∧ row.id = id ∧
      ((u.role = row.role ∧ u.isActive = row.isActive) ∨
        .setAccess id u.role u.isActive ∈ ops) := by
  induction ops generalizing u with
  | nil => exact absurd (h0.symm.trans h) nofun
  | cons op ops ih =>
    rcases Db.user_apply h with ⟨rfl, hid, -⟩ | ⟨y, hy, hsame⟩
    · exact ⟨u, List.mem_cons_self, hid, .inl ⟨rfl, rfl⟩⟩
    · obtain ⟨row, hrow, hid, haccess⟩ := ih hy
      refine ⟨row, List.mem_cons_of_mem _ hrow, hid, ?_⟩
      rcases hsame with rfl | ⟨_, _, rfl, rfl⟩ | ⟨_, -, rfl⟩
      · exact haccess.imp_right (List.mem_cons_of_mem op)
      · exact .inr List.mem_cons_self
      · exact haccess.imp_right (List.mem_cons_of_mem op)

/-- A user keeps its access, or a write has changed it. -/
theorem applyAll_user_access {u u' : User} (h0 : db.user id = some u)
    (h : Db.user ((schema sv).applyAll ops db) id = some u') :
    (u'.role = u.role ∧ u'.isActive = u.isActive) ∨ .setAccess id u'.role u'.isActive ∈ ops := by
  induction ops generalizing u' with
  | nil =>
    obtain rfl : u = u' := Option.some.inj (h0.symm.trans h)
    exact .inl ⟨rfl, rfl⟩
  | cons op ops ih =>
    rcases Db.user_apply h with ⟨-, -, hnone⟩ | ⟨y, hy, hsame⟩
    · exact absurd hnone (Ledger.user_applyAll (by rw [h0]; nofun))
    · rcases hsame with rfl | ⟨_, _, rfl, rfl⟩ | ⟨_, -, rfl⟩
      · exact (ih hy).imp_right (List.mem_cons_of_mem op)
      · exact .inr List.mem_cons_self
      · exact (ih hy).imp_right (List.mem_cons_of_mem op)

theorem applyAll_credential_new {x : PasswordCredential} (h0 : db.credential id = none)
    (h : Db.credential ((schema sv).applyAll ops db) id = some x) :
    ∃ row, .insertCredential row ∈ ops ∧ row.userId = id := by
  induction ops generalizing x with
  | nil => exact absurd (h0.symm.trans h) nofun
  | cons op ops ih =>
    rcases Db.credential_apply h with ⟨rfl, hid, -⟩ | ⟨y, hy, -⟩
    · exact ⟨x, List.mem_cons_self, hid⟩
    · obtain ⟨row, hrow, hid⟩ := ih hy
      exact ⟨row, List.mem_cons_of_mem _ hrow, hid⟩

theorem credential_applyAll (h : db.credential id ≠ none) :
    Db.credential ((schema sv).applyAll ops db) id ≠ none := by
  induction ops with
  | nil => exact h
  | cons op ops ih =>
    obtain ⟨y, hy⟩ := Option.ne_none_iff_exists'.1 ih
    obtain ⟨x, hx⟩ := @Db.credential_apply_of_some op _ _ _ hy
    exact Option.ne_none_iff_exists'.2 ⟨x, hx⟩

/-- A password stays as it is, or a write has replaced it. -/
theorem applyAll_password {x x' : PasswordCredential} (h0 : db.credential id = some x)
    (h : Db.credential ((schema sv).applyAll ops db) id = some x') :
    x'.passwordHash = x.passwordHash ∨ ∃ hash, .setPassword id hash ∈ ops := by
  induction ops generalizing x' with
  | nil =>
    obtain rfl : x = x' := Option.some.inj (h0.symm.trans h)
    exact .inl rfl
  | cons op ops ih =>
    rcases Db.credential_apply h with ⟨-, -, hnone⟩ | ⟨y, hy, rfl | ⟨hash, rfl, -⟩⟩
    · exact absurd hnone (credential_applyAll (by rw [h0]; nofun))
    · exact (ih hy).imp_right fun ⟨hash, hmem⟩ => ⟨hash, List.mem_cons_of_mem _ hmem⟩
    · exact .inr ⟨hash, List.mem_cons_self⟩

/-- A challenge was there before or is made by a write, with the same purpose and instant. -/
theorem applyAll_challenge {x : EmailChallenge}
    (h : Db.challenge ((schema sv).applyAll ops db) id = some x) :
    ∃ row : EmailChallenge, (.insertChallenge row ∈ ops ∨ db.challenge id = some row) ∧
      row.id = id ∧ row.purpose = x.purpose ∧ row.createdAt = x.createdAt := by
  induction ops generalizing x with
  | nil => exact ⟨x, .inr h, Store.key_of_get h, rfl, rfl⟩
  | cons op ops ih =>
    rcases Db.challenge_apply h with ⟨rfl, hid, -⟩ | ⟨y, hy, hsame⟩
    · exact ⟨x, .inl List.mem_cons_self, hid, rfl, rfl⟩
    · obtain ⟨row, hrow, hid, hpurpose, hcreated⟩ := ih hy
      refine ⟨row, hrow.imp_left (List.mem_cons_of_mem op), hid, ?_⟩
      rcases hsame with rfl | ⟨_, -, rfl⟩ | ⟨_, -, rfl⟩ <;> exact ⟨hpurpose, hcreated⟩

theorem applyAll_identity_new {x : ExternalIdentity} (h0 : db.identity id = none)
    (h : Db.identity ((schema sv).applyAll ops db) id = some x) :
    ∃ row, .insertIdentity row ∈ ops ∧ row.userId = x.userId ∧ row.provider = x.provider := by
  induction ops generalizing x with
  | nil => exact absurd (h0.symm.trans h) nofun
  | cons op ops ih =>
    rcases Db.identity_apply h with ⟨rfl, -, -⟩ | ⟨y, hy, hsame⟩
    · exact ⟨x, List.mem_cons_self, rfl, rfl⟩
    · obtain ⟨row, hrow, huser, hprovider⟩ := ih hy
      refine ⟨row, List.mem_cons_of_mem _ hrow, ?_⟩
      rcases hsame with rfl | ⟨_, -, rfl⟩ <;> exact ⟨huser, hprovider⟩

/-- An identity goes only by a write that deletes it. -/
theorem applyAll_identity_gone {x : ExternalIdentity} (h0 : db.identity id = some x)
    (h : Db.identity ((schema sv).applyAll ops db) id = none) :
    ∃ row, .deleteIdentity row ∈ ops ∧ row.id = id := by
  induction ops with
  | nil => exact absurd (h0.symm.trans h) nofun
  | cons op ops ih =>
    cases hprior : Db.identity ((schema sv).applyAll ops db) id with
    | none =>
      obtain ⟨row, hrow, hid⟩ := ih hprior
      exact ⟨row, List.mem_cons_of_mem _ hrow, hid⟩
    | some y =>
      rcases @Db.identity_apply_of_some op _ _ _ hprior with ⟨z, hz⟩ | ⟨row, rfl, hid⟩
      · exact absurd (h.symm.trans hz) nofun
      · exact ⟨row, List.mem_cons_self, hid⟩

end

/-! ## Commits -/

namespace Ledger

section
variable {sv : Services} {c : Ctx (schema sv)} {db : Db}

/-- A write that the transaction makes has its evidence among all its writes. -/
theorem Closing.evidenced {op : Op} (h : Closing c db) (hop : op ∈ c.buf) :
    ∃ post, (∀ o ∈ post, o ∈ c.buf) ∧ Evidenced c op post := by
  obtain ⟨post, hpost, haccount⟩ := h.sound.booked.account hop
  exact ⟨post, hpost, haccount.evidence⟩

/-- A row that the transaction makes is new. -/
theorem Closing.fresh {op : Op} {id : UUID} (h : Closing c db) (hop : op ∈ c.buf)
    (hid : id ∈ op.makes) : ¬ db.Uses id ∧ ∀ r ∈ c.reads, ¬ Db.Uses r.db id :=
  ⟨h.sees.2 id (h.makes op hop id hid), fun r hr => h.unread r hr id (h.makes op hop id hid)⟩

/-- The identity that a transaction deletes is of the user and the provider it has read. -/
theorem Closing.deleted {row x : ExternalIdentity} (h : Closing c db)
    (hop : .deleteIdentity row ∈ c.buf) (hx : db.identity row.id = some x) :
    x.userId = row.userId ∧ x.provider = row.provider := by
  obtain ⟨-, -, -, r, hr, hrow⟩ := h.evidenced hop
  have huses : r.db.Uses row.id := .inr (.inr (.inr (.inr (by rw [hrow]; nofun))))
  refine (h.sees.1 r hr).keeps (P := fun d => ∀ x, Db.identity d row.id = some x →
    x.userId = row.userId ∧ x.provider = row.provider) ?_ ?_ x hx
  · intro op d hout ih x hx
    rcases Db.identity_apply hx with ⟨rfl, hid, -⟩ | ⟨y, hy, rfl | ⟨_, -, rfl⟩⟩
    · exact absurd (hid ▸ huses) (hout.makes x.id List.mem_cons_self)
    · exact ih _ hy
    · exact ih y hy
  · intro x hx
    obtain rfl : row = x := Option.some.inj (hrow.symm.trans hx)
    exact ⟨rfl, rfl⟩

/-- The records of the transaction tell of what it changes. -/
theorem Closing.audited {rows : List AuditRecord} (h : Closing c db)
    (hrows : ∀ a, .addAudit a ∈ c.buf → a ∈ rows) : Audited db (c.view db) c.marks rows := by
  have hshown : ∀ {post actorId action targetId outcome metadata}, (∀ o ∈ post, o ∈ c.buf) →
      Recorded post actorId action targetId outcome metadata →
      Shown rows actorId action targetId outcome metadata := by
    rintro post actorId action targetId outcome metadata hpost ⟨a, ha, htells⟩
    exact ⟨a, hrows a (hpost _ ha), htells⟩
  constructor
  case privileged =>
    intro id u' h0 hu'
    obtain ⟨row, hrow, rfl, haccess⟩ := applyAll_user_new h0 hu'
    rcases haccess with ⟨hrole, hactive⟩ | hset
    · obtain ⟨_, _, hnew⟩ := h.evidenced hrow
      exact .inl ⟨hrole.trans hnew.1, hactive.trans hnew.2⟩
    · rcases h.sound.settled.access _ _ _ hset with ⟨-, ha⟩ | ⟨r, hr, -, target, ht, -⟩
      · exact .inr (hshown (fun _ ho => ho) ha)
      · -- nobody has read a user that this transaction makes
        refine absurd (.inl ?_) ((h.fresh hrow List.mem_cons_self).2 r hr)
        rw [ht]
        nofun
  case access =>
    intro id u u' hu hu'
    refine (applyAll_user_access hu hu').imp_right fun hset => ?_
    rcases h.sound.settled.access _ _ _ hset with ⟨⟨row, hrow, rfl⟩, -⟩ | ⟨r, hr, hk, target, ht, admin, ha⟩
    · refine absurd (.inl ?_) (h.fresh hrow List.mem_cons_self).1
      rw [hu]
      nofun
    · -- the row was read under its lock
      have hsame := (@framed_user sv id).sure hk hr db h.valid h.sees
      obtain rfl : u = target := Option.some.inj ((hu.symm.trans hsame).trans ht)
      exact ⟨admin, hshown (fun _ ho => ho) ha⟩
  case credential =>
    intro id x' h0 hx'
    obtain ⟨row, hrow, rfl⟩ := applyAll_credential_new h0 hx'
    obtain ⟨post, hpost, hevidence⟩ := h.evidenced hrow
    exact hevidence.imp (hshown hpost) (hshown hpost)
  case password =>
    intro id x x' hx hx'
    refine (applyAll_password hx hx').imp_right fun ⟨hash, hset⟩ => ?_
    obtain ⟨post, hpost, hevidence⟩ := h.evidenced hset
    exact hevidence.imp_left (hshown hpost)
  case challenge =>
    intro id x' h0 hx'
    obtain ⟨row, hrow, rfl, hpurpose, -⟩ := applyAll_challenge hx'
    have hrow := hrow.resolve_right (by rw [h0]; nofun)
    obtain ⟨post, hpost, -, isResend, ha⟩ := h.evidenced hrow
    exact ⟨isResend, hpurpose ▸ hshown hpost ha⟩
  case guess =>
    intro id hmark
    obtain ⟨purpose, ha⟩ := h.sound.settled.guess id hmark
    exact ⟨purpose, hshown (fun _ ho => ho) ha⟩
  case linked =>
    intro id x' h0 hx'
    obtain ⟨row, hrow, huser, hprovider⟩ := applyAll_identity_new h0 hx'
    obtain ⟨post, hpost, hevidence⟩ := h.evidenced hrow
    rw [← huser, ← hprovider]
    exact hshown hpost hevidence
  case unlinked =>
    intro id x hx hgone
    obtain ⟨row, hrow, rfl⟩ := applyAll_identity_gone hx hgone
    obtain ⟨huser, hprovider⟩ := h.deleted hrow hx
    obtain ⟨post, hpost, ha, -⟩ := h.evidenced hrow
    rw [huser, hprovider]
    exact hshown hpost ha

end

end Ledger

namespace Auth

/-- **No change without its audit record.** Every commit in every run from an initial state, over
any interleaving of the calls, adds audit records to the log and takes none away, and they tell of
whatever the commit changes: the access of a user with its old and new values, an administrator, a
credential, a password that was replaced without having been verified, a challenge, a wrong code, an
identity that was linked or unlinked. -/
theorem commits_audited (sv : Services) (settings : AuthSettings) {s₀ m m' : Sys sv}
    {tr : List (Act sv)} {i : Nat} (h0 : Initial s₀) (hrun : Run sv settings s₀ tr m)
    (hstep : Step sv settings m (.commit i) m') :
    ∃ t rows, m.threads[i]? = some t ∧ m'.db.audit = m.db.audit ++ rows ∧
      Audited m.db m'.db t.ctx.marks rows := by
  obtain ⟨t, ht, hclosing, hdb⟩ := Ledger.closing h0 hrun hstep
  obtain ⟨rows, hrows, hmem⟩ := @audit_applyAll sv t.ctx.buf m.db
  refine ⟨t, rows, ht, ?_, ?_⟩
  · rw [hdb]
    exact hrows
  · rw [hdb]
    exact hclosing.audited hmem

end Auth

/-- The records of her registration tell of her account. -/
theorem Auth.commits_audited_registered :
    ∃ rows, AuthFixture.registered.db.audit = AuthFixture.registering.db.audit ++ rows ∧
      (Shown rows none "auth.registration_completed" 21 .succeeded [] ∨
        Shown rows none "identity.admin_bootstrapped" 21 .succeeded []) := by
  obtain ⟨_, rows, _, hrows, haudited⟩ := Auth.commits_audited AuthFixture.services
    AuthFixture.keyed (AuthFixture.system_initial (by decide)) AuthFixture.registering_run
    AuthFixture.registered_step
  have hafter : AuthFixture.registered.db.credential 21 =
      some { userId := 21, passwordHash := "salt$correct horse battery" } := rfl
  exact ⟨rows, hrows, haudited.credential rfl hafter⟩

end Ekumidayomi
