import Ekumidayomi.Auth.Runs
import Ekumidayomi.Lib.Embed
import Ekumidayomi.Lib.Rules

/-!
# Profiles and address books

`users/service.py` and `users/address.py`. The profile columns of `users` and the table
`user_addresses` stand beside the identity tables, and the requests of both services run against all
of them: `embedding` says where the identity tables are, and a call of the identity services is its
program there. The partial unique index on the default addresses has one entry for each user and
kind, which a statement that makes a row the default takes, and finds free or fails.

Every request first authorizes its actor with the lock of the user's row, so the owner stands in
each write to an address: an `UPDATE` or `DELETE` by identifier reaches a row that the transaction
has found to be the owner's. An `UPDATE` that changes nothing is sent here and not by the session,
which nobody can tell apart under that lock. Timestamps are left out, and so is `list_addresses`,
which writes nothing.
-/

namespace Ekumidayomi.Users

open Transact

/-! ## The tables -/

/-- The columns of `User` that only `update_profile` writes. -/
structure Profile where
  displayName : String := ""
  phone : Option String := none
  deriving DecidableEq, Repr

structure Address where
  id : UUID
  userId : UUID
  kind : String
  recipient : String
  line1 : String
  line2 : Option String := none
  city : String
  region : String
  postalCode : Option String := none
  countryCode : String
  phone : Option String := none
  isDefault : Bool := false
  deriving DecidableEq, Repr

/-- A default address of the user, of the kind. -/
def Address.defaultOf (userId : UUID) (kind : String) (row : Address) : Bool :=
  row.userId = userId && row.kind = kind && row.isDefault

/-- The kinds of an `AddressInput`. -/
inductive AddressKind
  | shipping | billing
  deriving DecidableEq, Repr

def AddressKind.value : AddressKind → String
  | .shipping => "shipping"
  | .billing => "billing"

structure AddressInput where
  kind : AddressKind
  recipient : String
  line1 : String
  line2 : Option String := none
  city : String
  region : String
  postalCode : Option String := none
  countryCode : String
  phone : Option String := none
  isDefault : Bool := false
  deriving DecidableEq, Repr

/-- The row when each field of the input has been set: no other column is left. -/
def AddressInput.address (data : AddressInput) (id userId : UUID) : Address :=
  { id, userId, kind := data.kind.value, recipient := data.recipient, line1 := data.line1
    line2 := data.line2, city := data.city, region := data.region, postalCode := data.postalCode
    countryCode := data.countryCode, phone := data.phone, isDefault := data.isDefault }

structure Db where
  identity : Ekumidayomi.Db := {}
  profiles : UUID → Profile := fun _ => {}
  addresses : Store Address.id := .empty

def Db.address (db : Db) (id : UUID) : Option Address := db.addresses.get id

/-- The addresses of a user. -/
def Db.owned (db : Db) (userId : UUID) : List Address :=
  db.addresses.rows.filter (·.userId = userId)

/-- A write to one row, with the owner of an address. -/
inductive Op
  | identity (op : Ekumidayomi.Op)
  | setProfile (userId : UUID) (profile : Profile)
  | insertAddress (row : Address)
  | setAddress (row : Address)
  | clearDefault (userId id : UUID)
  | deleteAddress (userId id : UUID)

/-- Change a row of the table if the user owns it, without its key. -/
def Db.change (db : Db) (userId id : UUID) (f : Address → Address) : Db :=
  { db with
    addresses := db.addresses.modify id
      (fun row => if row.userId = userId then { f row with id := row.id } else row)
      fun row => by split <;> rfl }

def Op.apply : Op → Db → Db
  | .identity op, db => { db with identity := op.apply db.identity }
  | .setProfile userId profile, db =>
    { db with profiles := Function.update db.profiles userId profile }
  | .insertAddress row, db => { db with addresses := db.addresses.insert row }
  | .setAddress row, db => db.change row.userId row.id fun _ => row
  | .clearDefault userId id, db => db.change userId id ({ · with isDefault := false })
  | .deleteAddress userId id, db =>
    if (db.address id).any (·.userId = userId) then
      { db with addresses := db.addresses.erase id }
    else db

inductive Key
  | identity (key : Ekumidayomi.Key)
  | address (id : UUID)
  | uniqueDefault (userId : UUID) (kind : String)
  deriving DecidableEq, Repr

/-- The locks that protect what a write changes: an address is added, changed and deleted under the
lock of its owner's row. -/
def Op.needs (sv : Services) : Op → List Key
  | .identity op => (op.needs sv).map .identity
  | .setProfile userId _ => [.identity (.user userId)]
  | .insertAddress row | .setAddress row => [.address row.id, .identity (.user row.userId)] ++
      if row.isDefault then [.uniqueDefault row.userId row.kind] else []
  | .clearDefault userId id | .deleteAddress userId id =>
    [.address id, .identity (.user userId)]

def Op.makes : Op → List UUID
  | .identity op => op.makes
  | .insertAddress row => [row.id]
  | _ => []

def Db.Uses (db : Db) (id : UUID) : Prop := db.identity.Uses id ∨ db.address id ≠ none

theorem Db.address_change {db : Db} {userId id k : UUID} {f : Address → Address} :
    (db.change userId id f).address k = none ↔ db.address k = none := by
  rw [address, change, Store.get_modify]
  split
  · rw [Option.map_eq_none_iff]
    rfl
  · rfl

theorem Db.uses_apply {op : Op} {db : Db} {id : UUID} (h : (op.apply db).Uses id) :
    db.Uses id ∨ id ∈ op.makes := by
  cases op with
  | identity op =>
    rcases h with h | h
    · exact (Ekumidayomi.Db.uses_apply h).imp_left .inl
    · exact .inl (.inr h)
  | setProfile => exact .inl h
  | insertAddress row =>
    by_cases hid : row.id = id
    · exact .inr (by simp [Op.makes, hid])
    · refine .inl (h.imp_right fun h => ?_)
      rwa [Op.apply, Db.address, Store.get_insert_ne hid] at h
  | setAddress | clearDefault =>
    exact .inl (h.imp_right fun h hnone => h (Db.address_change.2 hnone))
  | deleteAddress userId k =>
    rw [Op.apply] at h
    split at h
    · refine .inl (h.imp_right fun h hnone => h ?_)
      rw [Db.address, Store.get_erase]
      split
      · rfl
      · exact hnone
    · exact .inl h

/-- The tables of profiles and addresses with those of the identity services. -/
abbrev schema (sv : Services) : Schema where
  Db := Db
  Op := Op
  Key := Key
  Id := UUID
  Note := Note
  apply := Op.apply
  needs := Op.needs sv
  makes := Op.makes
  uses := Db.Uses
  valid db := db.identity.AdminsVerified
  uses_apply := Db.uses_apply

/-- A write to the identity tables shows there only. -/
theorem applyAll_identity {sv : Services} (ops : List Ekumidayomi.Op) (db : Db) :
    (schema sv).applyAll (ops.map .identity) db =
      { db with identity := (Ekumidayomi.schema sv).applyAll ops db.identity } := by
  induction ops with
  | nil => rfl
  | cons op ops ih =>
    rw [List.map_cons, Schema.applyAll_cons, ih]
    rfl

/-- The identity tables among all of them. -/
def embedding (sv : Services) : Embedding (Ekumidayomi.schema sv) (schema sv) where
  db := Db.identity
  op := .identity
  key := .identity
  id i := i
  note n := n
  id_inj h := h
  db_op _ _ := rfl
  other := by
    intro op
    cases op with
    | identity op => exact .inl ⟨op, rfl⟩
    | setProfile | insertAddress | setAddress | clearDefault => exact .inr fun _ => rfl
    | deleteAddress userId id =>
      refine .inr fun db => ?_
      show (Op.apply (.deleteAddress userId id) db).identity = db.identity
      rw [Op.apply]
      split <;> rfl
  needs_op _ := rfl
  makes_op _ := (List.map_id' _).symm
  uses_db h := .inl h
  valid_db h := h
  valid_op := by
    intro ops db _ hops
    show ((schema sv).applyAll (ops.map .identity) db).identity.AdminsVerified
    rw [applyAll_identity]
    exact hops

/-! ## The requests -/

/-- The errors of the identity services and of these, and those of the session on
`user_addresses`. -/
inductive Error
  | identity (e : Ekumidayomi.Error)
  | addressNotFound | addressLimitReached
  | integrityError | staleDataError
  deriving DecidableEq, Repr

inductive Result
  | identity (result : AuthResult)
  | profile (user : User) (profile : Profile)
  | address (row : Address)
  | done
  deriving DecidableEq, Repr

/-- A program against all the tables. -/
abbrev Tx (sv : Services) := Prog (schema sv) Error

section
variable (sv : Services) {α : Type}

def query (f : Db → α) : Tx sv α := Prog.query f

def lock (k : Key) : Tx sv Unit := Prog.acquire k

def write (op : Op) : Tx sv Unit := Prog.put op

def uuid4 : Tx sv UUID := Prog.draw

/-- `uow.commit()`. -/
def commit : Tx sv Unit := Prog.save

/-- A program of the identity services. -/
def within (p : Ekumidayomi.Tx sv α) : Tx sv α := (embedding sv).lift .identity p

def updateProfile (actor : Actor) (displayName : String) (phone : Option String) :
    Tx sv Result := do
  let user ← within sv (authorize sv actor .profileWrite none true)
  write sv (.setProfile user.id { displayName, phone })
  commit sv
  return .profile user { displayName, phone }

/-- The `SELECT` of an address by its identifier and its owner. -/
def findAddress (userId id : UUID) : Tx sv (Option Address) :=
  query sv fun db => db.addresses.rows.find? fun row => row.id = id && row.userId = userId

/-- The entry of the partial unique index that a row takes. -/
def takeDefault (row : Address) : Tx sv Unit := do
  if row.isDefault then
    lock sv (.uniqueDefault row.userId row.kind)
    if ← query sv fun db =>
        db.addresses.rows.any fun x => x.defaultOf row.userId row.kind && x.id ≠ row.id then
      throw .integrityError

/-- The bulk `UPDATE` on the rows it has found: each is locked and matched again. -/
def clearEach (userId : UUID) (kind : String) : List UUID → Tx sv Unit
  | [] => pure ()
  | id :: ids => do
    lock sv (.address id)
    if (← query sv (·.address id)).any (·.defaultOf userId kind) then
      lock sv (.uniqueDefault userId kind)
      write sv (.clearDefault userId id)
    clearEach userId kind ids

/-- The bulk `UPDATE` of `save_address`. -/
def clearDefaults (userId : UUID) (kind : String) : Tx sv Unit := do
  let ids ← query sv fun db => (db.addresses.rows.filter (·.defaultOf userId kind)).map (·.id)
  clearEach sv userId kind ids

/-- The flush of a new address. -/
def insertAddress (row : Address) : Tx sv Unit := do
  takeDefault sv row
  lock sv (.address row.id)
  write sv (.insertAddress row)

/-- The flush of a changed address. -/
def updateAddress (row : Address) : Tx sv Unit := do
  match ← Prog.forUpdate (.address row.id) (Db.address · row.id) with
  | none => throw .staleDataError
  | some _ => do
    takeDefault sv row
    write sv (.setAddress row)

/-- The address that `save_address` replaces, if it replaces one, or room for another. -/
def locateAddress (userId : UUID) : Option UUID → Tx sv (Option Address)
  | some id => do
    match ← findAddress sv userId id with
    | none => throw .addressNotFound
    | some row => return some row
  | none => do
    if 20 ≤ (← query sv fun db => db.addresses.rows.countP (·.userId = userId)) then
      throw .addressLimitReached
    return none

/-- The rest of `save_address` for the address it has found. -/
def storeAddress (userId : UUID) (data : AddressInput) : Option Address → Tx sv Result
  | none => do
    let row := data.address (← uuid4 sv) userId
    insertAddress sv row
    commit sv
    return .address row
  | some found => do
    let row := data.address found.id found.userId
    updateAddress sv row
    commit sv
    return .address row

def saveAddress (actor : Actor) (data : AddressInput) (addressId : Option UUID) :
    Tx sv Result := do
  let _ ← within sv (authorize sv actor .profileWrite none true)
  let found ← locateAddress sv actor.userId addressId
  if data.isDefault then clearDefaults sv actor.userId data.kind.value
  storeAddress sv actor.userId data found

def deleteAddress (actor : Actor) (addressId : UUID) : Tx sv Result := do
  let _ ← within sv (authorize sv actor .profileWrite none true)
  match ← findAddress sv actor.userId addressId with
  | none => throw .addressNotFound
  | some row => do
    match ← Prog.forUpdate (.address row.id) (Db.address · row.id) with
    | none => pure ()
    | some _ => do
      if row.isDefault then lock sv (.uniqueDefault row.userId row.kind)
      write sv (.deleteAddress row.userId row.id)
    commit sv
    return .done

end

/-! ## The system -/

/-- A request to one of the services. -/
inductive Call
  | identity (call : Ekumidayomi.Call)
  | updateProfile (actor : Actor) (displayName : String) (phone : Option String)
  | saveAddress (actor : Actor) (data : AddressInput) (addressId : Option UUID)
  | deleteAddress (actor : Actor) (addressId : UUID)

/-- The program of a request. -/
def code (sv : Services) (settings : AuthSettings) : Call → Tx sv Result
  | .identity call => do return .identity (← within sv (Auth.code sv settings call))
  | .updateProfile actor displayName phone => updateProfile sv actor displayName phone
  | .saveAddress actor data addressId => saveAddress sv actor data addressId
  | .deleteAddress actor addressId => deleteAddress sv actor addressId

abbrev Sys (sv : Services) := Transact.Sys (schema sv) Call Error Result

abbrev Act (sv : Services) := Transact.Act (schema sv) Call

abbrev Step (sv : Services) (settings : AuthSettings) (s : Sys sv) (a : Act sv) (s' : Sys sv) :
    Prop :=
  Transact.Step (code sv settings) s a s'

abbrev Run (sv : Services) (settings : AuthSettings) (s : Sys sv) (tr : List (Act sv))
    (s' : Sys sv) : Prop :=
  Lts.Run (Transact.Step (code sv settings)) s tr s'

end Ekumidayomi.Users
