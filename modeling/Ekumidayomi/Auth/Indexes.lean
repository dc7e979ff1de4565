import Ekumidayomi.Auth.Rules
import Ekumidayomi.Lib.Index

/-!
# The unique indexes of the identity tables

The columns that the identity tables keep unique, each with the lock that stands for its entry:
`users(email)`, `auth_sessions(secret_hash)`, `email_challenges(email, purpose)`,
`external_identities(provider, subject)` and `external_identities(user_id, provider)`.
-/

namespace Ekumidayomi

open Transact

section
variable {α κ β : Type} {key : α → κ} [DecidableEq κ] {s : Store key} {k k' : κ} {column : α → β}

/-- A column of a row after an insert. -/
theorem Store.column_insert {r : α} : ((s.insert r).get k).map column =
    ((s.get k).map column).or ((if key r = k then some r else none).map column) := by
  rw [Store.get_insert]
  cases s.get k <;> simp

/-- A change of other columns. -/
theorem Store.column_modify {f : α → α} (hf : ∀ r, key (f r) = key r)
    (h : ∀ r, column (f r) = column r) :
    ((s.modify k f hf).get k').map column = (s.get k').map column := by
  rw [Store.get_modify]
  split
  · rw [Option.map_map]
    exact Option.map_congr fun r _ => h r
  · rfl

theorem Store.column_erase : ((s.erase k).get k').map column =
    if k = k' then none else (s.get k').map column := by
  rw [Store.get_erase]
  by_cases h : k = k'
  · rw [if_pos h, if_pos h.symm]
    rfl
  · rw [if_neg h, if_neg (Ne.symm h)]

/-- A search that has found no row leaves the value to nobody. -/
theorem Store.column_vacant {p : α → Bool} {v : β} (hfree : s.rows.any p = false)
    (hp : ∀ r, column r = v → p r = true) : (s.get k).map column ≠ some v := by
  intro hv
  obtain ⟨r, hr, hcolumn⟩ := Option.map_eq_some_iff.1 hv
  exact List.any_eq_false.1 hfree r (Store.mem_of_get hr) (hp r hcolumn)

end

/-! ## The rows that a write inserts and deletes -/

/-- The row that the write inserts under the identifier. -/
def Op.newUser (op : Op) (id : UUID) : Option User :=
  match op with
  | .insertUser row => if row.id = id then some row else none
  | _ => none

@[inherit_doc Op.newUser]
def Op.newSession (op : Op) (id : UUID) : Option AuthSession :=
  match op with
  | .insertSession row => if row.id = id then some row else none
  | _ => none

@[inherit_doc Op.newUser]
def Op.newChallenge (op : Op) (id : UUID) : Option EmailChallenge :=
  match op with
  | .insertChallenge row => if row.id = id then some row else none
  | _ => none

@[inherit_doc Op.newUser]
def Op.newIdentity (op : Op) (id : UUID) : Option ExternalIdentity :=
  match op with
  | .insertIdentity row => if row.id = id then some row else none
  | _ => none

/-- The write deletes the challenge. -/
def Op.dropsChallenge (op : Op) (id : UUID) : Bool :=
  match op with
  | .deleteChallenge row => row.id = id
  | _ => false

def Op.dropsIdentity (op : Op) (id : UUID) : Bool :=
  match op with
  | .deleteIdentity row => row.id = id
  | _ => false

section
variable {sv : Services} {op : Op} {db : Db} {id id' : UUID}

theorem Op.newUser_eq {row : User} (h : op.newUser id = some row) :
    op = .insertUser row ∧ row.id = id := by
  unfold Op.newUser at h
  split at h
  · obtain ⟨hid, ⟨rfl⟩⟩ := Option.ite_none_right_eq_some.1 h
    exact ⟨rfl, hid⟩
  · cases h

theorem Op.newSession_eq {row : AuthSession} (h : op.newSession id = some row) :
    op = .insertSession row ∧ row.id = id := by
  unfold Op.newSession at h
  split at h
  · obtain ⟨hid, ⟨rfl⟩⟩ := Option.ite_none_right_eq_some.1 h
    exact ⟨rfl, hid⟩
  · cases h

theorem Op.newChallenge_eq {row : EmailChallenge} (h : op.newChallenge id = some row) :
    op = .insertChallenge row ∧ row.id = id := by
  unfold Op.newChallenge at h
  split at h
  · obtain ⟨hid, ⟨rfl⟩⟩ := Option.ite_none_right_eq_some.1 h
    exact ⟨rfl, hid⟩
  · cases h

theorem Op.newIdentity_eq {row : ExternalIdentity} (h : op.newIdentity id = some row) :
    op = .insertIdentity row ∧ row.id = id := by
  unfold Op.newIdentity at h
  split at h
  · obtain ⟨hid, ⟨rfl⟩⟩ := Option.ite_none_right_eq_some.1 h
    exact ⟨rfl, hid⟩
  · cases h

/-! A column that no write changes, after a write. -/

theorem Db.email_apply : ((op.apply db).user id).map (·.email) =
    if (false : Bool) then none
    else ((db.user id).map (·.email)).or ((op.newUser id).map (·.email)) := by
  cases op with
  | insertUser row => exact Store.column_insert
  | setAccess | setVerified =>
    refine Eq.trans ?_ Option.or_none.symm
    exact Store.column_modify (fun _ => by rfl) fun _ => rfl
  | _ => exact Option.or_none.symm

theorem Db.secretHash_apply : ((op.apply db).session id).map (·.secretHash) =
    if (false : Bool) then none
    else ((db.session id).map (·.secretHash)).or ((op.newSession id).map (·.secretHash)) := by
  cases op with
  | insertSession row => exact Store.column_insert
  | revokeSession | setAuthenticated =>
    refine Eq.trans ?_ Option.or_none.symm
    exact Store.column_modify (fun _ => by rfl) fun _ => rfl
  | _ => exact Option.or_none.symm

theorem Db.purpose_apply : ((op.apply db).challenge id).map (fun x => (x.email, x.purpose)) =
    if op.dropsChallenge id then none
    else ((db.challenge id).map fun x => (x.email, x.purpose)).or
      ((op.newChallenge id).map fun x => (x.email, x.purpose)) := by
  cases op with
  | insertChallenge row => exact Store.column_insert
  | setAttempts | setConsumed =>
    refine Eq.trans ?_ Option.or_none.symm
    exact Store.column_modify (fun _ => by rfl) fun _ => rfl
  | deleteChallenge row =>
    refine Store.column_erase.trans ?_
    by_cases h : row.id = id <;> simp [Op.dropsChallenge, Op.newChallenge, Db.challenge, h]
  | _ => exact Option.or_none.symm

/-- Every column of an identity but the instant of its last login. -/
theorem Db.identity_column_apply {β : Type} {column : ExternalIdentity → β}
    (hcolumn : ∀ x t, column { x with lastLoginAt := t } = column x) :
    ((op.apply db).identity id).map column =
      if op.dropsIdentity id then none
      else ((db.identity id).map column).or ((op.newIdentity id).map column) := by
  cases op with
  | insertIdentity row => exact Store.column_insert
  | setLastLogin _ t =>
    refine Eq.trans ?_ Option.or_none.symm
    exact Store.column_modify (fun _ => by rfl) fun x => hcolumn x t
  | deleteIdentity row =>
    refine Store.column_erase.trans ?_
    by_cases h : row.id = id <;> simp [Op.dropsIdentity, Op.newIdentity, Db.identity, h]
  | _ => exact Option.or_none.symm

end

/-! ## The indexes -/

section
variable (sv : Services)

/-- `users(email)`. -/
def emailIndex : Index (schema sv) String :=
  .ofRows (fun id db => Db.user db id) Op.newUser (fun _ _ => false) (·.email) .uniqueEmail
    (fun _ _ _ => Db.email_apply)
    (by
      intro op id row h
      obtain ⟨rfl, rfl⟩ := Op.newUser_eq h
      exact List.mem_cons_self)
    (by
      intro op id id' row row' h h'
      obtain ⟨rfl, rfl⟩ := Op.newUser_eq h
      obtain ⟨⟨rfl⟩, rfl⟩ := Op.newUser_eq h'
      rfl)
    (by
      intro op id row h
      obtain ⟨rfl, rfl⟩ := Op.newUser_eq h
      exact List.mem_append_left _ (List.mem_cons_of_mem _ List.mem_cons_self))
    .inl

/-- `auth_sessions(secret_hash)`. -/
def secretIndex : Index (schema sv) String :=
  .ofRows (fun id db => Db.session db id) Op.newSession (fun _ _ => false) (·.secretHash)
    .uniqueSecret (fun _ _ _ => Db.secretHash_apply)
    (by
      intro op id row h
      obtain ⟨rfl, rfl⟩ := Op.newSession_eq h
      exact List.mem_cons_self)
    (by
      intro op id id' row row' h h'
      obtain ⟨rfl, rfl⟩ := Op.newSession_eq h
      obtain ⟨⟨rfl⟩, rfl⟩ := Op.newSession_eq h'
      rfl)
    (by
      intro op id row h
      obtain ⟨rfl, rfl⟩ := Op.newSession_eq h
      simp [Op.needs])
    fun h => .inr (.inr (.inl h))

/-- `email_challenges(email, purpose)`. -/
def purposeIndex : Index (schema sv) (String × String) :=
  .ofRows (fun id db => Db.challenge db id) Op.newChallenge Op.dropsChallenge
    (fun x => (x.email, x.purpose)) (fun v => .uniqueChallenge v.1 v.2)
    (fun _ _ _ => Db.purpose_apply)
    (by
      intro op id row h
      obtain ⟨rfl, rfl⟩ := Op.newChallenge_eq h
      exact List.mem_cons_self)
    (by
      intro op id id' row row' h h'
      obtain ⟨rfl, rfl⟩ := Op.newChallenge_eq h
      obtain ⟨⟨rfl⟩, rfl⟩ := Op.newChallenge_eq h'
      rfl)
    (by
      intro op id row h
      obtain ⟨rfl, rfl⟩ := Op.newChallenge_eq h
      simp [Op.needs])
    fun h => .inr (.inr (.inr (.inl h)))

/-- The index of two columns of an identity. -/
def identityIndex {V : Type} (column : ExternalIdentity → V) (lock : V → Key)
    (hcolumn : ∀ x t, column { x with lastLoginAt := t } = column x)
    (hneeds : ∀ row, lock (column row) ∈ (Op.insertIdentity row).needs sv) :
    Index (schema sv) V :=
  .ofRows (fun id db => Db.identity db id) Op.newIdentity Op.dropsIdentity column lock
    (fun _ _ _ => Db.identity_column_apply hcolumn)
    (by
      intro op id row h
      obtain ⟨rfl, rfl⟩ := Op.newIdentity_eq h
      exact List.mem_cons_self)
    (by
      intro op id id' row row' h h'
      obtain ⟨rfl, rfl⟩ := Op.newIdentity_eq h
      obtain ⟨⟨rfl⟩, rfl⟩ := Op.newIdentity_eq h'
      rfl)
    (by
      intro op id row h
      obtain ⟨rfl, rfl⟩ := Op.newIdentity_eq h
      exact hneeds row)
    fun h => .inr (.inr (.inr (.inr h)))

/-- `external_identities(provider, subject)`. -/
def subjectIndex : Index (schema sv) (String × String) :=
  identityIndex sv (fun x => (x.provider, x.subject)) (fun v => .uniqueSubject v.1 v.2)
    (fun _ _ => rfl) fun _ => by simp [Op.needs]

/-- `external_identities(user_id, provider)`. -/
def providerIndex : Index (schema sv) (UUID × String) :=
  identityIndex sv (fun x => (x.userId, x.provider)) (fun v => .uniqueProvider v.1 v.2)
    (fun _ _ => rfl) fun _ => by simp [Op.needs]

variable {sv} {db : Db}

/-! What it means that the columns are unique. -/

theorem emailIndex_unique : (emailIndex sv).Unique db ↔
    ∀ {id id' u u'}, db.user id = some u → db.user id' = some u' → u.email = u'.email → id = id' :=
  (emailIndex sv).unique_ofRows (fun id db => Db.user db id) (·.email)
    fun _ _ => rfl

theorem secretIndex_unique : (secretIndex sv).Unique db ↔ ∀ {id id' x x'},
    db.session id = some x → db.session id' = some x' → x.secretHash = x'.secretHash → id = id' :=
  (secretIndex sv).unique_ofRows (fun id db => Db.session db id) (·.secretHash)
    fun _ _ => rfl

theorem purposeIndex_unique : (purposeIndex sv).Unique db ↔ ∀ {id id' x x'},
    db.challenge id = some x → db.challenge id' = some x' →
      (x.email, x.purpose) = (x'.email, x'.purpose) → id = id' :=
  (purposeIndex sv).unique_ofRows (fun id db => Db.challenge db id) (fun x => (x.email, x.purpose))
    fun _ _ => rfl

theorem subjectIndex_unique : (subjectIndex sv).Unique db ↔ ∀ {id id' x x'},
    db.identity id = some x → db.identity id' = some x' →
      (x.provider, x.subject) = (x'.provider, x'.subject) → id = id' :=
  (subjectIndex sv).unique_ofRows (fun id db => Db.identity db id) (fun x => (x.provider, x.subject))
    fun _ _ => rfl

theorem providerIndex_unique : (providerIndex sv).Unique db ↔ ∀ {id id' x x'},
    db.identity id = some x → db.identity id' = some x' →
      (x.userId, x.provider) = (x'.userId, x'.provider) → id = id' :=
  (providerIndex sv).unique_ofRows (fun id db => Db.identity db id) (fun x => (x.userId, x.provider))
    fun _ _ => rfl

end

end Ekumidayomi
