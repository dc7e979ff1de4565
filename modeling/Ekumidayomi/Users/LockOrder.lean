import Ekumidayomi.Auth.LockOrder
import Ekumidayomi.Users.AddressBook

/-!
# The identity services, profiles and address books do not deadlock

The locks of an address book are taken under the row of its owner, and those of the identity
services in their own order, which is the order of all the locks here (`lockOrder`). So in no state
of any run do requests wait for each other in a circle (`requests_never_deadlock`). The strings
under which `finish` locks must have different integers where they differ, and an address must not
be the string of an external identity.
-/

namespace Ekumidayomi.Users

open Transact

/-! ## The order -/

/-- The ranks of the locks. -/
def Key.rank (external : List Int) : Key → Nat
  | .identity k => k.rank external
  | .address _ | .uniqueDefault _ _ => 0

/-- The row that a lock is of. -/
def Key.row : Key → Option UUID
  | .identity k => k.row
  | .address id => some id
  | .uniqueDefault _ _ => none

/-- The lock under which a lock is taken. -/
def Key.guard : Key → Db → Option Key
  | .identity k, db => (k.guard db.identity).map .identity
  | .address id, db => (db.address id).map fun x => .identity (.user x.userId)
  | .uniqueDefault userId _, _ => some (.identity (.user userId))

/-- A change to an address leaves it with its owner. -/
theorem Db.owner_of_change {db : Db} {userId id k : UUID} {f : Address → Address} {x : Address}
    (hf : ∀ y, y.userId = userId → (f y).userId = userId)
    (h : (db.change userId id f).address k = some x) :
    ∃ y, db.address k = some y ∧ y.userId = x.userId := by
  rcases Store.of_get_modify (fun row => by dsimp only; split <;> rfl) h with hx | ⟨y, hy, -, rfl⟩
  · exact ⟨x, hx, rfl⟩
  · refine ⟨y, hy, ?_⟩
    split
    case isTrue hmine => exact hmine.trans (hf y hmine).symm
    case isFalse => rfl

theorem Db.owner_of_apply {op : Op} {db : Db} {id : UUID} {x : Address}
    (h : (op.apply db).address id = some x) :
    (∃ y, db.address id = some y ∧ y.userId = x.userId) ∨ id ∈ op.makes := by
  cases op with
  | identity | setProfile => exact .inl ⟨x, h, rfl⟩
  | insertAddress row =>
    rcases Store.of_get_insert h with ⟨rfl, hid, -⟩ | hx
    · exact .inr (hid ▸ List.mem_cons_self)
    · exact .inl ⟨x, hx, rfl⟩
  | setAddress row => exact .inl (Db.owner_of_change (fun _ _ => rfl) h)
  | clearDefault userId k =>
    exact .inl (Db.owner_of_change (f := fun y => { y with isDefault := false }) (fun _ hy => hy) h)
  | deleteAddress userId k =>
    rw [Op.apply] at h
    split at h
    · exact .inl ⟨x, (Store.of_get_erase h).2, rfl⟩
    · exact .inl ⟨x, h, rfl⟩

theorem Key.guard_apply {k g : Key} {op : Op} {db : Db} (h : k.guard (op.apply db) = some g) :
    k.guard db = some g ∨ ∃ id ∈ op.makes, k.row = some id := by
  cases k with
  | identity k =>
    obtain ⟨g', hg', rfl⟩ := Option.map_eq_some_iff.1 h
    have hsame : (op.apply db).identity = db.identity → Key.guard (.identity k) db =
      some (.identity g') := by
      intro heq
      rw [heq] at hg'
      rw [Key.guard, hg', Option.map_some]
    cases op with
    | identity op =>
      rcases Ekumidayomi.Key.guard_apply hg' with hold | hmade
      · exact .inl (by rw [Key.guard, hold, Option.map_some])
      · exact .inr hmade
    | setProfile | insertAddress | setAddress | clearDefault => exact .inl (hsame rfl)
    | deleteAddress userId id =>
      refine .inl (hsame ?_)
      rw [Op.apply]
      split <;> rfl
  | address id =>
    obtain ⟨x, hx, rfl⟩ := Option.map_eq_some_iff.1 h
    rcases Db.owner_of_apply hx with ⟨y, hy, howner⟩ | hmade
    · exact .inl (by rw [Key.guard, hy, Option.map_some, howner])
    · exact .inr ⟨id, hmade, rfl⟩
  | uniqueDefault => exact .inl h

theorem Key.guard_uses {k g : Key} {db : Db} (h : k.guard db = some g) :
    (∀ db', k.guard db' = some g) ∨ ∃ id, k.row = some id ∧ db.Uses id := by
  cases k with
  | identity k =>
    obtain ⟨g', hg', rfl⟩ := Option.map_eq_some_iff.1 h
    rcases Ekumidayomi.Key.guard_uses hg' with hconst | ⟨id, hrow, huses⟩
    · exact .inl fun db' => by rw [Key.guard, hconst, Option.map_some]
    · exact .inr ⟨id, hrow, .inl huses⟩
  | address id =>
    obtain ⟨x, hx, -⟩ := Option.map_eq_some_iff.1 h
    exact .inr ⟨id, rfl, .inr (by simp [hx])⟩
  | uniqueDefault => exact .inl fun _ => h

/-- The order of all the locks. -/
abbrev lockOrder (sv : Services) (external : List Int) : LockOrder (schema sv) where
  rank := Key.rank external
  row := Key.row
  guard := Key.guard
  guard_apply := Key.guard_apply
  guard_uses := Key.guard_uses

section
variable {sv : Services} {settings : AuthSettings} {external : List Int}
  {c₀ : Ctx (Ekumidayomi.schema sv)} {c c' : Ctx (schema sv)} {k g : Ekumidayomi.Key}

/-! ## A program of the identity services keeps its order -/

theorem own_of_same (hsame : (embedding sv).Same c₀ c)
    (h : (Ekumidayomi.lockOrder sv external).Own k c₀) :
    (lockOrder sv external).Own (.identity k) c := by
  obtain ⟨id, hrow, hid⟩ := h
  rw [hsame.drawn] at hid
  obtain ⟨i, hi, rfl⟩ := List.mem_map.1 hid
  exact ⟨i, hrow, hi⟩

theorem named_of_same (hsame : (embedding sv).Same c₀ c)
    (h : (Ekumidayomi.lockOrder sv external).Named k c₀) :
    (lockOrder sv external).Named (.identity k) c := by
  intro id hrow
  obtain ⟨r, hr, huses⟩ := h id hrow
  obtain ⟨r', hr', hread⟩ := hsame.reads r hr
  rw [hread.db] at huses
  exact ⟨r', hr', .inl huses⟩

theorem guards_of_same (hsame : (embedding sv).Same c₀ c)
    (h : (Ekumidayomi.lockOrder sv external).Guards g k c₀) :
    (lockOrder sv external).Guards (.identity g) (.identity k) c := by
  obtain ⟨r, hr, hguard⟩ := h
  obtain ⟨r', hr', hread⟩ := hsame.reads r hr
  refine ⟨r', hr', ?_⟩
  show (Ekumidayomi.Key.guard k r'.db.identity).map Key.identity = _
  rw [show r'.db.identity = r.db from hread.db.symm,
    show Ekumidayomi.Key.guard k r.db = some g from hguard, Option.map_some]

theorem orderly_of_same (hsame : (embedding sv).Same c₀ c)
    (h : (Ekumidayomi.lockOrder sv external).Orderly k c₀) :
    (lockOrder sv external).Orderly (.identity k) c := by
  have hheld : ∀ {k}, k ∈ c₀.held → .identity k ∈ c.held := by
    intro k hk
    rw [hsame.held]
    exact List.mem_map_of_mem hk
  cases h with
  | held hk => exact .held (hheld hk)
  | own hown => exact .own (own_of_same hsame hown)
  | guarded hrank hnamed hg hguards =>
    exact .guarded hrank (named_of_same hsame hnamed) (hheld hg) (guards_of_same hsame hguards)
  | rises hpos hnamed hrises =>
    refine .rises hpos (named_of_same hsame hnamed) fun k' hk' => ?_
    rw [hsame.held] at hk'
    obtain ⟨k₀, hk₀, rfl⟩ := List.mem_map.1 hk'
    rcases hrises k₀ hk₀ with hlt | hown | ⟨heq, g, hg, hguards, hguards'⟩
    · exact .inl hlt
    · exact .inr (.inl (own_of_same hsame hown))
    · exact .inr (.inr ⟨heq, _, hheld hg, guards_of_same hsame hguards,
        guards_of_same hsame hguards'⟩)

/-! ## Profiles and addresses -/

/-- The program takes its locks in order, and ends in `Q` with an answer. -/
abbrev Orders (sv : Services) (external : List Int) {α : Type} (Q : α → Ctx (schema sv) → Prop)
    (p : Tx sv α) (c : Ctx (schema sv)) : Prop :=
  along (lockOrder sv external).Orderly (fun _ => True) Q (fun _ _ => True) p c

/-- The lock was seen to be the user's. -/
abbrev OfUser (external : List Int) (userId : UUID) (k : Key) (c : Ctx (schema sv)) : Prop :=
  (lockOrder sv external).Under (.identity (.user userId)) k c

/-- A request that has locked the row of its user, and has read. -/
structure Tends (c : Ctx (schema sv)) (userId : UUID) : Prop where
  held : .identity (.user userId) ∈ c.held
  read : ∃ r, r ∈ c.reads

theorem Tends.le {userId : UUID} (h : Tends c userId) (hle : c.Le c') : Tends c' userId :=
  ⟨hle.held h.held, h.read.imp fun _ hr => hle.reads hr⟩

end

section
variable {sv : Services} {external : List Int} {α : Type} {c : Ctx (schema sv)} {userId : UUID}

section
variable {L : Key → Ctx (schema sv) → Prop} {G : Ctx (schema sv) → Prop}
  {E : Error → Ctx (schema sv) → Prop}

theorem along_query {f : Db → α} {Q : α → Ctx (schema sv) → Prop} : along L G Q E (query sv f) c ↔
    ∀ (db : Db) (t : Time), db.identity.AdminsVerified → c.Sees db → c.Before t → c.Drew →
      Q (f (c.view db)) (c.observe db t) := Prog.along_query

theorem along_lock {k : Key} {Q : Unit → Ctx (schema sv) → Prop} :
    along L G Q E (lock sv k) c ↔ L k c ∧ Q () (c.hold k) := Prog.along_acquire

theorem along_write {op : Op} {Q : Unit → Ctx (schema sv) → Prop} :
    along L G Q E (write sv op) c ↔ Q () (c.push op) := Prog.along_put

theorem along_uuid4 {Q : UUID → Ctx (schema sv) → Prop} :
    along L G Q E (uuid4 sv) c ↔ ∀ id, id ∉ c.drawn → Q id (c.draw id) := Prog.along_draw

end

theorem orders_leave {a : Result} : Orders sv external (fun _ _ => True)
    (do commit sv; return a) c :=
  ⟨trivial, trivial⟩

theorem le_hold (k : Key) : c.Le (c.hold k) := Ctx.le_hold (c := c) k

theorem le_observe (db : Db) (t : Time) : c.Le (c.observe db t) := Ctx.le_observe (c := c) db t

theorem le_push (op : Op) : c.Le (c.push op) := Ctx.le_push (c := c) op

/-- An address that the request sees is of its owner. -/
theorem ofUser_of_address {db : Db} {t : Time} {row : Address} (hdrew : c.Drew)
    (hrow : row ∈ (Db.addresses (c.view db)).rows) :
    OfUser external row.userId (.address row.id) (c.observe db t) := by
  have hget : Db.address (c.view db) row.id = some row := Store.mem_rows.1 hrow
  refine LockOrder.under_of_view hdrew (i := row.id) rfl (.inr (by simp [hget])) ?_
  show Key.guard (.address row.id) (c.view db) = _
  rw [Key.guard, hget]
  rfl

theorem Tends.address (h : Tends c userId) {id : UUID}
    (hof : OfUser external userId (.address id) c) :
    (lockOrder sv external).Orderly (.address id) c :=
  .of_under rfl hof h.held

theorem Tends.uniqueDefault (h : Tends c userId) {kind : String} :
    (lockOrder sv external).Orderly (.uniqueDefault userId kind) c := by
  obtain ⟨r, hr⟩ := h.read
  exact .of_under (g := Key.identity (.user userId)) rfl (.inr ⟨nofun, r, hr, rfl⟩) h.held

theorem orders_takeDefault {row : Address} {Q : Unit → Ctx (schema sv) → Prop}
    (htends : Tends c row.userId) (h : ∀ c', c.Le c' → Q () c') :
    Orders sv external Q (takeDefault sv row) c := by
  rw [takeDefault]
  split
  · rw [Orders, along_bind, along_lock]
    refine ⟨htends.uniqueDefault, ?_⟩
    rw [along_bind, along_query]
    intro db t _ _ _ _
    split
    · trivial
    · exact h _ ((le_hold _).trans (le_observe db t))
  · exact h c (.refl c)

theorem orders_clearEach {kind : String} {ids : List UUID} {Q : Unit → Ctx (schema sv) → Prop}
    (htends : Tends c userId) (hids : ∀ id ∈ ids, OfUser external userId (.address id) c)
    (h : ∀ c', c.Le c' → Q () c') : Orders sv external Q (clearEach sv userId kind ids) c := by
  induction ids generalizing c with
  | nil => exact h c (.refl c)
  | cons id ids ih =>
    rw [List.forall_mem_cons] at hids
    have hnext : ∀ c₁, c.Le c₁ → Orders sv external Q (clearEach sv userId kind ids) c₁ :=
      fun c₁ hle => ih (htends.le hle) (fun k hk => (hids.2 k hk).le hle)
        fun c' hle' => h c' (hle.trans hle')
    rw [clearEach, Orders, along_bind, along_lock]
    refine ⟨htends.address hids.1, ?_⟩
    rw [along_bind, along_query]
    intro db t _ _ _ _
    have hle : c.Le ((c.hold (.address id)).observe db t) := (le_hold _).trans (le_observe db t)
    split
    · rw [along_bind, along_lock]
      refine ⟨(htends.le hle).uniqueDefault, ?_⟩
      rw [along_bind, along_write]
      exact hnext _ ((hle.trans (le_hold _)).trans (le_push _))
    · exact hnext _ hle

theorem orders_clearDefaults {kind : String} {Q : Unit → Ctx (schema sv) → Prop}
    (htends : Tends c userId) (h : ∀ c', c.Le c' → Q () c') :
    Orders sv external Q (clearDefaults sv userId kind) c := by
  rw [clearDefaults, Orders, along_bind, along_query]
  intro db t _ _ _ hdrew
  refine orders_clearEach (htends.le (le_observe db t)) (fun id hid => ?_)
    fun c' hle => h c' ((le_observe db t).trans hle)
  obtain ⟨row, hrow, rfl⟩ := List.mem_map.1 hid
  obtain ⟨hmem, hdefault⟩ := List.mem_filter.1 hrow
  simp only [Address.defaultOf, Bool.and_eq_true, decide_eq_true_eq] at hdefault
  exact hdefault.1.1 ▸ ofUser_of_address hdrew hmem

theorem orders_forUpdate_address {id : UUID} {Q : Option Address → Ctx (schema sv) → Prop}
    (htends : Tends c userId) (hof : OfUser external userId (.address id) c)
    (h : ∀ found c', c.Le c' → Q found c') :
    Orders sv external Q (Prog.forUpdate (.address id) (Db.address · id)) c := by
  refine Prog.along_forUpdate (fun x db t _ _ => ?_) fun found ks c' _ hc' => h found c' hc'.le
  exact (htends.le (le_observe db t)).address (hof.le (le_observe db t))

theorem orders_insertAddress {row : Address} {Q : Unit → Ctx (schema sv) → Prop}
    (htends : Tends c row.userId) (hdrawn : row.id ∈ c.drawn) (h : ∀ c', Q () c') :
    Orders sv external Q (insertAddress sv row) c := by
  rw [insertAddress, Orders, along_bind]
  refine orders_takeDefault htends fun c₁ hle => ?_
  rw [along_bind, along_lock]
  exact ⟨.own ⟨row.id, rfl, hle.drawn hdrawn⟩, h _⟩

theorem orders_updateAddress {row : Address} {Q : Unit → Ctx (schema sv) → Prop}
    (htends : Tends c row.userId) (hof : OfUser external row.userId (.address row.id) c)
    (h : ∀ c', Q () c') : Orders sv external Q (updateAddress sv row) c := by
  rw [updateAddress, Orders, along_bind]
  refine orders_forUpdate_address htends hof fun found c₁ hle => ?_
  cases found with
  | none => trivial
  | some found =>
    dsimp only
    rw [along_bind]
    exact orders_takeDefault (htends.le hle) fun c₂ _ => h _

/-- `authorize` locks the row of the actor's user. -/
theorem orders_within_authorize {actor : Actor} {Q : User → Ctx (schema sv) → Prop}
    (h : ∀ user c', .identity (.user actor.userId) ∈ c'.held → Q user c') :
    Orders sv external Q (within sv (authorize sv actor .profileWrite none true)) {} := by
  refine Embedding.along_lift (m := embedding sv) (c := {})
    (L := (Ekumidayomi.lockOrder sv external).Orderly) (G := fun _ => True)
    (Q := fun _ c₀ => .user actor.userId ∈ c₀.held) (E := fun _ _ => True) ?_ ?_ ?_ ?_ .initial ?_
  · exact fun _ _ _ hsame horderly => orderly_of_same hsame horderly
  · exact fun _ _ _ _ => trivial
  · intro user c₀ c' hsame hheld
    refine h user c' ?_
    rw [hsame.held]
    exact List.mem_map_of_mem hheld
  · exact fun _ _ _ _ _ => trivial
  · refine orders_authorize .initial fun user c₀ hc₀ _ => ?_
    rw [hc₀.held]
    exact List.mem_cons_self

/-- The address that a request finds is its user's. -/
theorem orders_findAddress {id : UUID} {Q : Option Address → Ctx (schema sv) → Prop}
    (hheld : .identity (.user userId) ∈ c.held) (hnone : ∀ c', Q none c')
    (hsome : ∀ row c', Tends c' userId → row.userId = userId →
      OfUser external userId (.address row.id) c' → Q (some row) c') :
    Orders sv external Q (findAddress sv userId id) c := by
  rw [findAddress, Orders, along_query]
  intro db t _ _ _ hdrew
  cases hfound : (Db.addresses (c.view db)).rows.find?
    (fun row => row.id = id && row.userId = userId) with
  | none => exact hnone _
  | some row =>
    have hmatch := List.find?_some hfound
    simp only [Bool.and_eq_true, decide_eq_true_eq] at hmatch
    refine hsome row _ ⟨hheld, _, List.mem_cons_self⟩ hmatch.2 ?_
    exact hmatch.2 ▸ ofUser_of_address hdrew (List.mem_of_find?_eq_some hfound)

/-! ## Requests -/

/-- The request takes its locks in order. -/
abbrev IsOrderly (sv : Services) (external : List Int) (p : Tx sv Result) (c : Ctx (schema sv)) :
    Prop :=
  Orders sv external (fun _ _ => True) p c

theorem orderly_updateProfile {actor : Actor} {displayName : String} {phone : Option String} :
    IsOrderly sv external (updateProfile sv actor displayName phone) {} := by
  rw [IsOrderly, updateProfile, Orders, along_bind]
  refine orders_within_authorize fun user c₁ _ => ?_
  rw [along_bind, along_write]
  exact orders_leave

theorem orderly_storeAddress {data : AddressInput} {found : Option Address}
    (htends : Tends c userId) (hfound : ∀ row, found = some row → row.userId = userId ∧
      OfUser external userId (.address row.id) c) :
    IsOrderly sv external (storeAddress sv userId data found) c := by
  cases found with
  | none =>
    rw [IsOrderly, storeAddress, Orders, along_bind, along_uuid4]
    intro id _
    dsimp only
    rw [along_bind]
    exact orders_insertAddress (htends.le (Ctx.le_draw (c := c) id)) List.mem_cons_self
      fun _ => orders_leave
  | some row =>
    obtain ⟨rfl, hof⟩ := hfound row rfl
    rw [IsOrderly, storeAddress, Orders, along_bind]
    exact orders_updateAddress htends hof fun _ => orders_leave

theorem orderly_saveAddress {actor : Actor} {data : AddressInput} {addressId : Option UUID} :
    IsOrderly sv external (saveAddress sv actor data addressId) {} := by
  -- the rest after the address has been found, or room for one
  have hrest : ∀ (found : Option Address) (c : Ctx (schema sv)), Tends c actor.userId →
      (∀ row, found = some row → row.userId = actor.userId ∧
        OfUser external actor.userId (.address row.id) c) →
      IsOrderly sv external (do
        if data.isDefault then clearDefaults sv actor.userId data.kind.value
        storeAddress sv actor.userId data found) c := by
    intro found c htends hfound
    split
    · rw [IsOrderly, Orders, along_bind]
      refine orders_clearDefaults htends fun c' hle => orderly_storeAddress (htends.le hle) ?_
      exact fun row hrow => ⟨(hfound row hrow).1, (hfound row hrow).2.le hle⟩
    · exact orderly_storeAddress htends hfound
  rw [IsOrderly, saveAddress, Orders, along_bind]
  refine orders_within_authorize fun user c₁ hheld => ?_
  cases addressId with
  | some id =>
    rw [locateAddress, along_bind, along_bind]
    refine orders_findAddress hheld (fun _ => trivial) fun row c₂ htends howner hof => ?_
    refine hrest (some row) c₂ htends ?_
    rintro _ ⟨rfl⟩
    exact ⟨howner, hof⟩
  | none =>
    rw [locateAddress, along_bind, along_bind, along_query]
    intro db t _ _ _ _
    refine along_guard (fun _ => trivial) fun _ => ?_
    exact hrest none _ ⟨hheld, _, List.mem_cons_self⟩ fun row hrow => by cases hrow

theorem orderly_deleteAddress {actor : Actor} {addressId : UUID} :
    IsOrderly sv external (deleteAddress sv actor addressId) {} := by
  rw [IsOrderly, deleteAddress, Orders, along_bind]
  refine orders_within_authorize fun user c₁ hheld => ?_
  rw [along_bind]
  refine orders_findAddress hheld (fun _ => trivial) fun row c₂ htends howner hof => ?_
  dsimp only
  rw [along_bind]
  refine orders_forUpdate_address htends hof fun found c₃ hle => ?_
  cases found with
  | none => exact orders_leave
  | some x =>
    dsimp only
    split
    · rw [along_bind, along_lock]
      refine ⟨howner ▸ (htends.le hle).uniqueDefault, ?_⟩
      rw [along_bind, along_write]
      exact orders_leave
    · rw [along_bind, along_write]
      exact orders_leave

/-- The request locks as a call of the identity services does, if it is one. -/
def Call.Apart (sv : Services) (external : List Int) : Call → Prop
  | .identity call => call.Apart sv external
  | _ => True

/-- Every request takes its locks in order. -/
theorem code_orders {settings : AuthSettings} {call : Call} (h : call.Apart sv external) :
    IsOrderly sv external (code sv settings call) {} := by
  cases call with
  | identity call =>
    rw [IsOrderly, code, Orders, along_bind]
    refine Embedding.along_lift (m := embedding sv) ?_ ?_ ?_ ?_ .initial
      (Ekumidayomi.code_orders h)
    · exact fun _ _ _ hsame horderly => orderly_of_same hsame horderly
    · exact fun _ _ _ _ => trivial
    · exact fun _ _ _ _ _ => trivial
    · exact fun _ _ _ _ _ => trivial
  | updateProfile => exact orderly_updateProfile
  | saveAddress => exact orderly_saveAddress
  | deleteAddress => exact orderly_deleteAddress

end

/-! ## Every run -/

/-- The identity that a request finishes a handshake with. -/
def Call.finished : Call → Option Identity
  | .identity (.finish x _ _ _) => some x
  | _ => none

/-- The identities that the requests of a run finish a handshake with. -/
def finished {sv : Services} (tr : List (Act sv)) : List Identity :=
  (tr.flatMap Act.started).filterMap Call.finished

/-- The text under which `finish` locks an external identity. -/
def lockText (identity : Identity) : String :=
  externalText identity.provider.value identity.subject

/-- The texts under which the requests of a run lock when they finish a handshake. -/
def lockTexts {sv : Services} (tr : List (Act sv)) : Set String :=
  { text | ∃ identity ∈ finished tr, text = lockText identity ∨ identity.address sv = some text }

/-- A system before its first request: the identifiers in the database were drawn before. -/
structure Unstarted {sv : Services} (s : Sys sv) : Prop where
  threads : s.threads = []
  admins : s.db.identity.AdminsVerified
  drawn : ∀ id, s.db.Uses id → id ∈ s.drawn

section
variable {sv : Services} {settings : AuthSettings} {s₀ s : Sys sv} {tr : List (Act sv)}

theorem mem_finished {call : Call} {identity : Identity} (h : .start call ∈ tr)
    (hcall : call.finished = some identity) : identity ∈ finished tr := by
  refine List.mem_filterMap.2 ⟨call, List.mem_flatMap.2 ⟨_, h, ?_⟩, hcall⟩
  exact List.mem_cons_self

/-- An address is locked under another integer than every external identity. -/
theorem apart_of_injOn
    (haddress : ∀ text email, sv.normalizeEmail text = some email →
      ∀ provider subject, email ≠ externalText provider subject)
    (hlocks : Set.InjOn (lockId sv) (lockTexts tr)) {call : Call} (hcall : .start call ∈ tr) :
    call.Apart sv ((finished tr).map fun identity => lockId sv (lockText identity)) := by
  cases call with
  | updateProfile | saveAddress | deleteAddress => trivial
  | identity call =>
    cases call with
    | finish identity attempt actor cid =>
      have hmem : identity ∈ finished tr := mem_finished hcall rfl
      refine ⟨List.mem_map.2 ⟨identity, hmem, rfl⟩, fun email hemail hexternal => ?_⟩
      obtain ⟨other, hother, hsame⟩ := List.mem_map.1 hexternal
      have htext : lockText other = email :=
        hlocks ⟨other, hother, .inl rfl⟩ ⟨identity, hmem, .inr hemail⟩ hsame
      obtain ⟨claim, -, hclaim⟩ := Option.bind_eq_some_iff.1 hemail
      obtain ⟨given, -, hgiven⟩ := Option.bind_eq_some_iff.1 hclaim
      exact haddress given email hgiven _ _ htext.symm
    | _ => trivial

/-- In no state of a run do requests wait for each other in a circle. -/
theorem requests_never_deadlock (h0 : Unstarted s₀) (hrun : Run sv settings s₀ tr s)
    (haddress : ∀ text email, sv.normalizeEmail text = some email →
      ∀ provider subject, email ≠ externalText provider subject)
    (hlocks : Set.InjOn (lockId sv) (lockTexts tr)) (i : Nat) :
    ¬ Relation.TransGen s.Waits i i := by
  have hgood : Good s₀ := .initial h0.threads h0.admins h0.drawn
  have hordered : (lockOrder sv ((finished tr).map fun x => lockId sv (lockText x))).Ordered s := by
    refine .of_run (G := fun _ _ => True) (Q := fun _ _ _ => True) (E := fun _ _ _ => True)
      (code_meets sv settings) hgood hrun (fun call hcall => ?_) h0.threads
    exact code_orders (apart_of_injOn haddress hlocks hcall)
  exact hordered.not_deadlocked i

end

namespace LockFixture

/-- Her identity at Google. -/
def identity : Identity :=
  { provider := .google, subject := "ada", email := some (Unicode.ofString AuthFixture.address)
    emailVerified := true }

/-- A login through her identity holds the locks of the identity and of her address, and a
registration under the address waits for it. -/
def waitingActs : List (Act AuthFixture.services) :=
  [.start (.identity (.finish identity { provider := .google, intent := .login } none "c-1")),
    .advance 0, .advance 0, .advance 0,
    .start (.identity (.beginRegistration AuthFixture.address (some "c-2"))), .draw 1 1, .advance 1,
    .draw 1 2, .advance 1]

def system : Sys AuthFixture.services := { db := {}, clock := 1 }

def waiting : Sys AuthFixture.services :=
  (system.execAll (code AuthFixture.services default) waitingActs).getD system

theorem waiting_run : Run AuthFixture.services {} system waitingActs waiting :=
    Sys.run_of_isSome rfl

theorem system_unstarted : Unstarted system where
  threads := rfl
  admins :=
    have hinitial : Auth.Initial (AuthFixture.system {}) := AuthFixture.system_initial (by decide)
    hinitial.admins
  drawn := by
    rintro id (hid | hid)
    · exact Db.mem_ids hid
    · exact absurd rfl hid

/-- Her address does not begin as the text of an external identity does. -/
theorem address_ne {provider subject : String} :
    AuthFixture.address ≠ externalText provider subject := by
  intro heq
  have hhead := congrArg (fun text => text.toList.head?) heq
  simp [AuthFixture.address, externalText] at hhead

/-- Her identity and her address are locked under different integers. -/
theorem injOn_lockTexts : Set.InjOn (lockId AuthFixture.services) (lockTexts waitingActs) := by
  have htexts : ∀ text ∈ lockTexts waitingActs,
      text = "external:google:ada" ∨ text = AuthFixture.address := by
    rintro text ⟨x, hx, htext⟩
    rw [show finished waitingActs = [identity] from rfl, List.mem_singleton] at hx
    subst hx
    refine htext.imp id fun haddress => ?_
    exact (Option.some.inj haddress).symm
  have hne : lockId AuthFixture.services "external:google:ada" ≠
      lockId AuthFixture.services AuthFixture.address := by decide
  intro x hx y hy heq
  rcases htexts x hx with rfl | rfl <;> rcases htexts y hy with rfl | rfl
  · rfl
  · exact absurd heq hne
  · exact absurd heq.symm hne
  · rfl

end LockFixture

/-- The registration waits for the login, and the login for nobody. -/
theorem requests_never_deadlock_waiting : LockFixture.waiting.Waits 1 0 ∧
    ¬ LockFixture.waiting.Waits 0 1 := by
  have hwaits : LockFixture.waiting.Waits 1 0 :=
    ⟨by decide, _, _, .identity (.email AuthFixture.services AuthFixture.address), _, rfl, rfl, rfl,
      List.mem_cons_self⟩
  have haddress : ∀ text email, AuthFixture.services.normalizeEmail text = some email →
      ∀ provider subject, email ≠ externalText provider subject := by
    intro text email hemail provider subject
    rw [← Option.some.inj (Option.ite_none_right_eq_some.1 hemail).2]
    exact LockFixture.address_ne
  refine ⟨hwaits, fun hback => ?_⟩
  exact requests_never_deadlock LockFixture.system_unstarted LockFixture.waiting_run haddress
    LockFixture.injOn_lockTexts 0 (.tail (.single hback) hwaits)

end Ekumidayomi.Users
