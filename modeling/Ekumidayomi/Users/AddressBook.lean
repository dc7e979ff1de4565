import Ekumidayomi.Users.Service

/-!
# Address books

What a request makes of the addresses of one user is a function of that user's addresses alone: the
book after `save_address` is `Book.save` of the book before, and after `delete_address` it is
`Book.delete` (`code_meets`). The request holds the lock of the user's row from its first read on,
so the book it has read is the one it commits on, whatever others commit meanwhile (`Edits`). The
functions on books keep every book within its limit and its defaults single (`IsBook`), and so does
every run.
-/

namespace Ekumidayomi.Users

open Transact

/-! ## The book of one user -/

/-- At most 20 addresses, and at most one default of each kind. -/
structure IsBook (book : List Address) : Prop where
  limit : book.length ≤ 20
  single : ∀ kind, book.countP (fun x => x.kind = kind && x.isDefault) ≤ 1

namespace Book

/-- The book without a default of the kind. -/
def clear (kind : String) (book : List Address) : List Address :=
  book.map fun x => if x.kind = kind && x.isDefault then { x with isDefault := false } else x

/-- Replace the address with the row's identifier, or add the row. -/
def put (row : Address) (book : List Address) : List Address :=
  if row.id ∈ book.map (·.id) then book.map fun x => if x.id = row.id then row else x
  else book ++ [row]

/-- The book after `save_address`. -/
def save (data : AddressInput) (id userId : UUID) (book : List Address) : List Address :=
  put (data.address id userId) (if data.isDefault then clear data.kind.value book else book)

/-- The book after `delete_address`. -/
def delete (id : UUID) (book : List Address) : List Address := book.filter (·.id ≠ id)

variable {book : List Address} {kind : String} {row x : Address} {data : AddressInput}
  {id userId : UUID}

@[simp] theorem ids_clear : (clear kind book).map (·.id) = book.map (·.id) := by
  rw [clear, List.map_map]
  refine List.map_congr_left fun x _ => ?_
  simp only [Function.comp_apply]
  split <;> rfl

@[simp] theorem length_clear : (clear kind book).length = book.length := List.length_map _

theorem not_default_of_clear (h : x ∈ clear kind book) (hkind : x.kind = kind) :
    x.isDefault = false := by
  obtain ⟨y, -, rfl⟩ := List.mem_map.1 h
  by_cases hy : y.kind = kind ∧ y.isDefault = true
  · rw [if_pos (by simpa using hy)]
  · rw [if_neg (by simpa using hy)] at hkind ⊢
    exact Bool.eq_false_iff.2 fun hdefault => hy ⟨hkind, hdefault⟩

/-- Clearing one kind makes no address the default of any kind. -/
theorem countP_clear (k : String) : (clear kind book).countP (fun x => x.kind = k && x.isDefault) ≤
    book.countP (fun x => x.kind = k && x.isDefault) := by
  rw [clear, List.countP_map]
  refine List.countP_mono_left fun x _ hx => ?_
  simp only [Function.comp_apply] at hx
  split at hx
  · simp at hx
  · exact hx

theorem ids_cleared :
    (if data.isDefault then clear data.kind.value book else book).map (·.id) = book.map (·.id) := by
  split
  · exact ids_clear
  · rfl

/-- A default is saved in a book without another one of its kind. -/
theorem not_default_of_cleared (hdefault : data.isDefault = true) (x : Address)
    (h : x ∈ if data.isDefault then clear data.kind.value book else book)
    (hkind : x.kind = data.kind.value) : x.isDefault = false := by
  rw [if_pos hdefault] at h
  exact not_default_of_clear h hkind

theorem mem_put : row ∈ put row book := by
  rw [put]
  split
  case isTrue h =>
    obtain ⟨x, hx, hid⟩ := List.mem_map.1 h
    exact List.mem_map.2 ⟨x, hx, if_pos hid⟩
  case isFalse => simp

theorem of_mem_put (h : x ∈ put row book) : x = row ∨ x ∈ book := by
  rw [put] at h
  split at h
  · obtain ⟨y, hy, rfl⟩ := List.mem_map.1 h
    split
    · exact .inl rfl
    · exact .inr hy
  · rcases List.mem_append.1 h with h | h
    · exact .inr h
    · exact .inl (List.mem_singleton.1 h)

theorem length_put_le : (put row book).length ≤ book.length + 1 := by
  rw [put]
  split <;> simp

theorem length_put (h : row.id ∈ book.map (·.id)) : (put row book).length = book.length := by
  rw [put, if_pos h, List.length_map]

/-- One row is put in, and only where its identifier was. -/
theorem countP_put (P : Address → Bool) (hnodup : (book.map (·.id)).Nodup) :
    (put row book).countP P ≤ book.countP P + if P row then 1 else 0 := by
  rw [put]
  split
  · clear * - hnodup
    induction book with
    | nil => simp
    | cons x book ih =>
      rw [List.map_cons, List.nodup_cons] at hnodup
      by_cases hid : x.id = row.id
      · -- no other row has the identifier
        have hrest : (book.map fun x => if x.id = row.id then row else x) = book := by
          refine (List.map_congr_left fun y hy => if_neg fun hy' => hnodup.1 ?_).trans
            (List.map_id' _)
          rw [hid, ← hy']
          exact List.mem_map_of_mem hy
        rw [List.map_cons, if_pos hid, hrest, List.countP_cons, List.countP_cons]
        omega
      · rw [List.map_cons, if_neg hid, List.countP_cons, List.countP_cons]
        have := ih hnodup.2
        omega
  · rw [List.countP_append, List.countP_singleton]

/-- A save keeps the book one, if there is room for an address under a new identifier. -/
theorem isBook_save (h : IsBook book) (hnodup : (book.map (·.id)).Nodup)
    (hroom : id ∈ book.map (·.id) ∨ book.length < 20) : IsBook (save data id userId book) := by
  generalize hb : (if data.isDefault then clear data.kind.value book else book) = b
  have hids : b.map (·.id) = book.map (·.id) := by
    rw [← hb]
    exact ids_cleared
  have hlen : b.length = book.length := by
    have := congrArg List.length hids
    simpa using this
  rw [save, hb]
  refine ⟨?_, fun kind => ?_⟩
  · rcases hroom with hid | hroom
    · rw [length_put (by rw [hids]; exact hid), hlen]
      exact h.limit
    · have hput : (put (data.address id userId) b).length ≤ b.length + 1 := length_put_le
      omega
  · have hle : b.countP (fun x => x.kind = kind && x.isDefault) ≤ 1 := by
      refine Nat.le_trans ?_ (h.single kind)
      rw [← hb]
      split
      · exact countP_clear kind
      · exact Nat.le_refl _
    refine Nat.le_trans (countP_put _ (hids ▸ hnodup)) ?_
    by_cases hrow : data.kind.value = kind ∧ data.isDefault = true
    · -- the kind was cleared before
      have hzero : b.countP (fun x => x.kind = kind && x.isDefault) = 0 := by
        rw [← hb, List.countP_eq_zero]
        intro x hx hdefault
        simp only [Bool.and_eq_true, decide_eq_true_eq] at hdefault
        rw [not_default_of_cleared hrow.2 x hx (hdefault.1.trans hrow.1.symm)] at hdefault
        cases hdefault.2
      rw [hzero]
      split <;> omega
    · have hnew : ¬ (decide (data.kind.value = kind) && data.isDefault) = true := by
        simpa using hrow
      exact Nat.le_trans (Nat.le_of_eq (congrArg (_ + ·) (if_neg hnew))) hle

/-- The saved default is the only one of its kind. -/
theorem eq_of_default_save (hdefault : data.isDefault = true) (h : x ∈ save data id userId book)
    (hkind : x.kind = data.kind.value) (hx : x.isDefault = true) : x = data.address id userId := by
  rw [save, if_pos hdefault] at h
  rcases of_mem_put h with rfl | h
  · rfl
  · rw [not_default_of_clear h hkind] at hx
    cases hx

theorem isBook_delete (h : IsBook book) : IsBook (delete id book) :=
  ⟨Nat.le_trans (List.length_filter_le _ _) h.limit,
    fun kind => Nat.le_trans (List.filter_sublist.countP_le) (h.single kind)⟩

end Book

/-! ## What a write does to the books -/

section
variable {db : Db} {userId id : UUID} {row : Address}

theorem Db.mem_owned {x : Address} :
    x ∈ db.owned userId ↔ db.address x.id = some x ∧ x.userId = userId := by
  rw [owned, List.mem_filter, Store.mem_rows, decide_eq_true_eq]
  rfl

theorem Db.nodup_owned : ((db.owned userId).map (·.id)).Nodup :=
  db.addresses.keyed.sublist (List.filter_sublist.map _)

/-- A changed address stays in its owner's book. -/
theorem Db.owned_change {f : Address → Address} (hf : ∀ x, x.userId = userId →
    (f x).userId = userId) (v : UUID) : (db.change userId id f).owned v =
    if v = userId then (db.owned v).map fun x => if x.id = id then { f x with id := x.id } else x
    else db.owned v := by
  have howner : ∀ x : Address, (if x.id = id then
      if x.userId = userId then { f x with id := x.id } else x else x).userId = x.userId := by
    intro x
    split
    · split
      case isTrue hx => exact (hf x hx).trans hx.symm
      case isFalse => rfl
    · rfl
  have hrows : (db.change userId id f).addresses.rows = db.addresses.rows.map fun x =>
      if x.id = id then if x.userId = userId then { f x with id := x.id } else x else x := by
    simp [change, Store.modify, Table.update]
  rw [owned, hrows, List.filter_map]
  simp only [Function.comp_def, howner]
  by_cases hv : v = userId
  · rw [if_pos hv]
    refine List.map_congr_left fun x hx => ?_
    have hx : x.userId = userId := hv ▸ of_decide_eq_true (List.mem_filter.1 hx).2
    rw [if_pos hx]
  · rw [if_neg hv]
    refine (List.map_congr_left fun x hx => ?_).trans (List.map_id' _)
    have hx : x.userId ≠ userId := by
      intro heq
      exact hv ((of_decide_eq_true (List.mem_filter.1 hx).2).symm.trans heq)
    rw [if_neg hx, ite_self]

theorem Db.owned_insert (hnew : db.address row.id = none) (v : UUID) :
    (Op.apply (.insertAddress row) db).owned v =
      if v = row.userId then db.owned v ++ [row] else db.owned v := by
  have hrows : (db.addresses.insert row).rows = db.addresses.rows ++ [row] := by
    rw [Store.insert, dif_pos]
    intro x hx hid
    rw [address, ← hid, Store.mem_rows.1 hx] at hnew
    cases hnew
  rw [owned, Op.apply, hrows, List.filter_append, List.filter_singleton]
  by_cases hv : v = row.userId
  · simp [hv, owned]
  · simp [hv, Ne.symm hv, owned]

theorem Db.owned_delete (v : UUID) : (Op.apply (.deleteAddress userId id) db).owned v =
    if v = userId then Book.delete id (db.owned v) else db.owned v := by
  have hcomm : (db.addresses.rows.filter (·.id ≠ id)).filter (·.userId = v) =
      Book.delete id (db.owned v) := List.filter_comm ..
  -- without an address of the user under the identifier there is nothing to delete
  have hsame : (∀ x ∈ db.owned v, x.id ≠ id) → Book.delete id (db.owned v) = db.owned v :=
    fun h => List.filter_eq_self.2 fun x hx => by simpa using h x hx
  rw [Op.apply]
  split
  case isTrue hmine =>
    show (db.addresses.rows.filter (·.id ≠ id)).filter (·.userId = v) = _
    rw [hcomm]
    split
    · rfl
    case isFalse hv =>
      refine hsame fun x hx hid => hv ?_
      obtain ⟨hget, howner⟩ := mem_owned.1 hx
      rw [← hid, hget] at hmine
      exact howner.symm.trans (of_decide_eq_true hmine)
  case isFalse hother =>
    split
    case isTrue hv =>
      refine (hsame fun x hx hid => hother ?_).symm
      obtain ⟨hget, howner⟩ := mem_owned.1 hx
      rw [← hid, hget]
      exact decide_eq_true (howner.trans hv)
    · rfl

/-- Whoever does not hold the lock of the user's row leaves the book alone. -/
theorem framed_owned {sv : Services} (userId : UUID) :
    (schema sv).Framed (.identity (.user userId)) (Db.owned · userId) := by
  intro op db h
  cases op with
  | identity | setProfile => rfl
  | insertAddress row =>
    have hother : row.userId ≠ userId := by
      rintro rfl
      exact h (by simp [Op.needs])
    show (db.addresses.insert row).rows.filter _ = _
    rw [Store.insert]
    split
    · show (db.addresses.rows ++ [row]).filter _ = _
      rw [List.filter_append, List.filter_singleton]
      simp [hother, Db.owned]
    · rfl
  | setAddress row =>
    have hother : userId ≠ row.userId := by
      rintro rfl
      exact h (by simp [Op.needs])
    exact (Db.owned_change (fun _ _ => rfl) userId).trans (if_neg hother)
  | clearDefault v id =>
    have hother : userId ≠ v := by
      rintro rfl
      exact h (by simp [Op.needs])
    exact (Db.owned_change (f := ({ · with isDefault := false })) (fun _ hx => hx) userId).trans
      (if_neg hother)
  | deleteAddress v id =>
    have hother : userId ≠ v := by
      rintro rfl
      exact h (by simp [Op.needs])
    exact (Db.owned_delete userId).trans (if_neg hother)

end

/-! ## What a request has made of a book so far -/

/-- The transaction holds the lock of the user's row, commits on the book `book` and makes of it the
book `book'`. It leaves the books of others and the identity tables as they are. -/
structure Edits {sv : Services} (c : Ctx (schema sv)) (userId : UUID) (book book' : List Address) :
    Prop where
  held : .identity (.user userId) ∈ c.held
  makes : ∀ op ∈ c.buf, Op.makes op = []
  before : c.Relates fun db _ => Db.owned db userId = book
  after : c.Shows fun db => Db.owned db userId = book'
  others : c.Relates fun db db' => Db.identity db' = Db.identity db ∧
    ∀ v, v ≠ userId → Db.owned db' v = Db.owned db v

section
variable {sv : Services} {settings : AuthSettings} {α : Type}
  {G : Ctx (schema sv) → Db → Prop} {N : Note → Ctx (schema sv) → Prop}
  {E : Error → Ctx (schema sv) → Prop} {c c' : Ctx (schema sv)} {userId : UUID}
  {book book' : List Address} {row : Address} {data : AddressInput}

/-- The book is read under the lock before anything is written. -/
theorem Edits.start {r : Read (schema sv)} (hbuf : c.buf = [])
    (hk : .identity (.user userId) ∈ r.held) (hheld : r.held ⊆ c.held) (hr : r ∈ c.reads) :
    Edits c userId (r.db.owned userId) (r.db.owned userId) := by
  have hbefore : c.Relates fun db _ => Db.owned db userId = r.db.owned userId :=
    fun db _ hs => (framed_owned userId).interferes hk (hs.1 r hr)
  have hview : ∀ db, c.view db = db := by
    intro db
    rw [Ctx.view, hbuf]
    rfl
  refine ⟨hheld hk, by simp [hbuf], hbefore, fun db hv hs => ?_, fun db _ _ => ?_⟩
  · rw [hview]
    exact hbefore db hv hs
  · rw [hview]
    exact ⟨rfl, fun _ _ => rfl⟩

theorem Edits.quiet (h : Edits c userId book book') (ha : c.Adds [] c') :
    Edits c' userId book book' where
  held := ha.le.held h.held
  makes := by
    rw [ha.buf]
    exact h.makes
  before := h.before.quiet ha
  after := h.after.quiet ha
  others := h.others.quiet ha

theorem Edits.hold (h : Edits c userId book book') (k : Key) :
    Edits (c.hold k) userId book book' :=
  h.quiet (Ctx.Adds.hold (S := schema sv) k)

theorem Edits.observe (h : Edits c userId book book') (db : Db) (t : Time) :
    Edits (c.observe db t) userId book book' :=
  h.quiet (Ctx.Adds.observe (S := schema sv) db t)

theorem Edits.draw (h : Edits c userId book book') (id : UUID) :
    Edits (c.draw id) userId book book' :=
  h.quiet (Ctx.Adds.draw (S := schema sv) id)

/-- A write to the user's book. -/
theorem Edits.push (h : Edits c userId book book') (op : Op) {f : List Address → List Address}
    (hmakes : op.makes = []) (hid : ∀ db, (op.apply db).identity = db.identity)
    (hop : ∀ db v, (op.apply db).owned v = if v = userId then f (db.owned v) else db.owned v) :
    Edits (c.push op) userId book (f book') where
  held := h.held
  makes := List.forall_mem_cons.2 ⟨hmakes, h.makes⟩
  before := h.before.push fun _ _ h => h
  after := h.after.push fun _ db' h => by rw [← h]; exact (hop db' userId).trans (if_pos rfl)
  others := h.others.push fun db db' ⟨hsame, hothers⟩ =>
    ⟨(hid db').trans hsame, fun v hv => ((hop db' v).trans (if_neg hv)).trans (hothers v hv)⟩

/-- What a request may commit. -/
theorem Edits.commits (h : Edits c userId book book') {db : Db} (hv : db.identity.AdminsVerified)
    (hs : c.Sees db) : db.owned userId = book ∧ Db.owned (c.view db) userId = book' ∧
      (∀ v, v ≠ userId → Db.owned (c.view db) v = db.owned v) ∧
      (Db.identity (c.view db)).AdminsVerified := by
  obtain ⟨hsame, hothers⟩ := h.others db hv hs
  exact ⟨h.before db hv hs, h.after db hv hs, hothers, hsame.symm ▸ hv⟩

/-! ## Statements -/

theorem wp_query {f : Db → α} {Q : α → Ctx (schema sv) → Prop} : wp G N Q E (query sv f) c ↔
    ∀ (db : Db) (t : Time), db.identity.AdminsVerified → c.Sees db → c.Before t →
      Q (f (c.view db)) (c.observe db t) := Iff.rfl

theorem wp_lock {k : Key} {Q : Unit → Ctx (schema sv) → Prop} :
    wp G N Q E (lock sv k) c ↔ Q () (c.hold k) := Iff.rfl

theorem wp_write {op : Op} {Q : Unit → Ctx (schema sv) → Prop} : wp G N Q E (write sv op) c ↔
    (∀ k ∈ op.needs sv, k ∈ c.held) ∧ (∀ id ∈ op.makes, id ∈ c.drawn) ∧ Q () (c.push op) := Iff.rfl

theorem wp_uuid4 {Q : UUID → Ctx (schema sv) → Prop} :
    wp G N Q E (uuid4 sv) c ↔ ∀ id, id ∉ c.drawn → Q id (c.draw id) := Iff.rfl

theorem wp_commit {Q : Unit → Ctx (schema sv) → Prop} : wp G N Q E (commit sv) c ↔
    (∀ db : Db, db.identity.AdminsVerified → c.Sees db →
      G c db ∧ (Db.identity (c.view db)).AdminsVerified) ∧ Q () c.commit := Iff.rfl

/-- An address of the user, found by its identifier. -/
theorem Db.any_address {db : Db} {id : UUID} {kind : String} :
    (db.address id).any (·.defaultOf userId kind) = true ↔
      ∃ x ∈ db.owned userId, x.id = id ∧ x.kind = kind ∧ x.isDefault = true := by
  constructor
  · intro h
    obtain ⟨x, hx, hdefault⟩ := Option.any_eq_true _ _ |>.1 h
    have hid : x.id = id := Store.key_of_get hx
    simp only [Address.defaultOf, Bool.and_eq_true, decide_eq_true_eq] at hdefault
    exact ⟨x, Db.mem_owned.2 ⟨hid ▸ hx, hdefault.1.1⟩, hid, hdefault.1.2, hdefault.2⟩
  · rintro ⟨x, hx, rfl, rfl, hdefault⟩
    obtain ⟨hget, rfl⟩ := Db.mem_owned.1 hx
    simp [hget, Address.defaultOf, hdefault]

/-- The rows of the bulk `UPDATE` are cleared one after another. -/
theorem wp_clearEach {kind : String} {ids : List UUID} {Q : Unit → Ctx (schema sv) → Prop}
    (hedits : Edits c userId book book')
    (h : ∀ c', Edits c' userId book (book'.map fun x =>
      if x.id ∈ ids ∧ x.kind = kind ∧ x.isDefault =
        true then { x with isDefault := false } else x) →
      Q () c') :
    wp G N Q E (clearEach sv userId kind ids) c := by
  induction ids generalizing c book' with
  | nil =>
    refine h c ?_
    simpa using hedits
  | cons id ids ih =>
    rw [clearEach, wp_bind, wp_lock, wp_bind, wp_query]
    intro db t hv hs _
    have hedits := (hedits.hold (.address id)).observe db t
    have hbook : Db.owned ((c.hold (.address id)).view db) userId = book' :=
      hedits.after db hv hs.observe
    have hnodup : (book'.map (·.id)).Nodup := hbook ▸ Db.nodup_owned
    split
    case isTrue hfound =>
      -- the row with the identifier is a default of the kind, and no other row has it
      obtain ⟨x, hx, rfl, hkind, hdefault⟩ := Db.any_address.1 hfound
      rw [hbook] at hx
      rw [wp_bind, wp_lock, wp_bind, wp_write]
      refine ⟨?_, by simp [Op.makes], ?_⟩
      · intro k hk
        simp only [Op.needs, List.mem_cons, List.not_mem_nil, or_false] at hk
        rcases hk with rfl | rfl
        · exact List.mem_cons_of_mem _ List.mem_cons_self
        · exact List.mem_cons_of_mem _ hedits.held
      · have hclear := (hedits.hold (.uniqueDefault userId kind)).push
          (.clearDefault userId x.id) rfl
          (fun _ => rfl) fun _ => Db.owned_change fun _ hy => hy
        refine ih hclear fun c' hc' => h c' ?_
        convert hc' using 1
        rw [List.map_map]
        refine List.map_congr_left fun y hy => ?_
        by_cases hid : y.id = x.id
        · obtain rfl := List.inj_on_of_nodup_map hnodup hy hx hid
          simp [hkind, hdefault]
        · simp [hid]
    case isFalse hnone =>
      refine ih hedits fun c' hc' => h c' ?_
      convert hc' using 1
      refine List.map_congr_left fun y hy => ?_
      by_cases hid : y.id = id
      · have hnot : ¬ (y.kind = kind ∧ y.isDefault = true) := by
          intro hy'
          exact hnone (Db.any_address.2 ⟨y, hbook ▸ hy, hid, hy'⟩)
        simp [hnot]
      · simp [hid]

/-- The bulk `UPDATE` leaves no default of the kind. -/
theorem wp_clearDefaults {kind : String} {Q : Unit → Ctx (schema sv) → Prop}
    (hedits : Edits c userId book book')
    (h : ∀ c', Edits c' userId book (Book.clear kind book') → Q () c') :
    wp G N Q E (clearDefaults sv userId kind) c := by
  rw [clearDefaults, wp_bind, wp_query]
  intro db t hv hs _
  have hbook : Db.owned (c.view db) userId = book' := hedits.after db hv hs
  refine wp_clearEach (hedits.observe db t) fun c' hc' => h c' ?_
  convert hc' using 1
  refine List.map_congr_left fun x hx => if_congr ?_ rfl rfl
  rw [← hbook] at hx
  obtain ⟨hget, howner⟩ := Db.mem_owned.1 hx
  have hmem : x ∈ (Db.addresses (c.view db)).rows := Store.mem_of_get hget
  simp only [Bool.and_eq_true, decide_eq_true_eq, List.mem_map, List.mem_filter]
  refine ⟨fun hdefault => ⟨⟨x, ⟨hmem, ?_⟩, rfl⟩, hdefault⟩, fun h => h.2⟩
  simp [Address.defaultOf, howner, hdefault]

/-- The entry of the index is free when the book has no other default of the kind. -/
theorem wp_takeDefault {Q : Unit → Ctx (schema sv) → Prop} (hedits : Edits c row.userId book book')
    (hfree : row.isDefault = true → ∀ x ∈ book', x.kind = row.kind → x.isDefault = true →
      x.id = row.id)
    (h : ∀ c', Edits c' row.userId book book' → c.held ⊆ c'.held → c'.drawn = c.drawn →
      (row.isDefault = true → .uniqueDefault row.userId row.kind ∈ c'.held) → Q () c') :
    wp G N Q E (takeDefault sv row) c := by
  rw [takeDefault]
  split
  case isTrue hdefault =>
    rw [wp_bind, wp_lock, wp_bind, wp_query]
    intro db t hv hs _
    have hedits := (hedits.hold (.uniqueDefault row.userId row.kind)).observe db t
    refine Prog.wp_guard (fun htaken => ?_) fun _ => ?_
    · obtain ⟨x, hx, hother⟩ := List.any_eq_true.1 htaken
      simp only [Address.defaultOf, Bool.and_eq_true, decide_eq_true_eq] at hother
      obtain ⟨⟨⟨howner, hkind⟩, hx'⟩, hid⟩ := hother
      refine absurd (hfree hdefault x ?_ hkind hx') hid
      rw [← hedits.after db hv hs.observe]
      exact Db.mem_owned.2 ⟨Store.mem_rows.1 hx, howner⟩
    · exact h _ hedits (List.subset_cons_self _ _) rfl fun _ => List.mem_cons_self
  case isFalse hdefault => exact h c hedits (fun _ hk => hk) rfl fun h => absurd h hdefault

/-- A new address, under an identifier that was drawn. -/
theorem wp_insertAddress {Q : Unit → Ctx (schema sv) → Prop}
    (hedits : Edits c row.userId book book') (hdrawn : row.id ∈ c.drawn)
    (hfree : row.isDefault = true → ∀ x ∈ book', x.kind = row.kind → x.isDefault = false)
    (h : ∀ c', row.id ∈ c'.drawn → (c'.Relates fun db db' => Db.owned db row.userId = book ∧
      Db.owned db' row.userId = book' ++ [row] ∧ (∀ v, v ≠ row.userId →
        Db.owned db' v = Db.owned db v) ∧ Db.identity db' = Db.identity db) → Q () c') :
    wp G N Q E (insertAddress sv row) c := by
  rw [insertAddress, wp_bind]
  refine wp_takeDefault hedits (fun hd x hx hkind hx' => ?_) fun c₁ hedits₁ _ hdrawn₁ hentry => ?_
  · rw [hfree hd x hx hkind] at hx'
    cases hx'
  · rw [← hdrawn₁] at hdrawn
    rw [wp_bind, wp_lock, wp_write]
    refine ⟨fun k hk => ?_, List.forall_mem_singleton.2 hdrawn, h _ hdrawn fun db hv hs => ?_⟩
    · simp only [Op.needs, List.mem_append, List.mem_cons, List.not_mem_nil, or_false] at hk
      rcases hk with (rfl | rfl) | hk
      · exact List.mem_cons_self
      · exact List.mem_cons_of_mem _ hedits₁.held
      · obtain ⟨hd, rfl⟩ : row.isDefault = true ∧ k = .uniqueDefault row.userId row.kind := by
          split at hk
          case isTrue hd => exact ⟨hd, List.mem_singleton.1 hk⟩
          case isFalse => cases hk
        exact List.mem_cons_of_mem _ (hentry hd)
    · -- nobody has used the identifier, and the transaction has made no row so far
      have hnew : (Db.address (c₁.view db) row.id) = none := by
        by_contra hsome
        rcases Schema.uses_applyAll (S := schema sv)
          (Or.inr hsome : Db.Uses (c₁.view db) row.id) with
          huses | ⟨op, hop, hmade⟩
        · exact hs.2 row.id hdrawn huses
        · rw [show (schema sv).makes op = [] from hedits₁.makes op hop] at hmade
          cases hmade
      obtain ⟨hsame, hothers⟩ := hedits₁.others db hv hs
      have hafter : Db.owned (c₁.view db) row.userId = book' := hedits₁.after db hv hs
      refine ⟨hedits₁.before db hv hs, ?_, fun v hne => ?_, hsame⟩
      · rw [← hafter]
        exact (Db.owned_insert hnew row.userId).trans (if_pos rfl)
      · exact ((Db.owned_insert hnew v).trans (if_neg hne)).trans (hothers v hne)

/-- A row of the book that is selected for update is there. -/
theorem wp_forUpdate_address {id : UUID} {x : Address} {Q : Option Address → Ctx (schema sv) → Prop}
    (hedits : Edits c userId book book') (hx : x ∈ book') (hid : x.id = id)
    (h : ∀ c', Edits c' userId book book' → c.held ⊆ c'.held → .address id ∈ c'.held →
      Q (some x) c') :
    wp G N Q E (Prog.forUpdate (.address id) (Db.address · id)) c := by
  have hget : ∀ {c' : Ctx (schema sv)} (db : Db), Edits c' userId book book' →
    db.identity.AdminsVerified →
      c'.Sees db → Db.address (c'.view db) id = some x := by
    intro c' db hedits' hv hs
    rw [← hedits'.after db hv hs] at hx
    exact hid ▸ (Db.mem_owned.1 hx).1
  rw [Prog.forUpdate, wp_bind, Prog.wp_query]
  intro db t hv hs _
  rw [hget db hedits hv hs]
  dsimp only
  rw [wp_bind, Prog.wp_acquire, Prog.wp_query]
  intro db' t' hv' hs' _
  have hedits' := (hedits.observe db t).hold (.address id)
  rw [hget db' hedits' hv' hs']
  exact h _ (hedits'.observe db' t') (List.subset_cons_self _ _) List.mem_cons_self

/-- An address of the book is replaced by a row under its identifier. -/
theorem wp_updateAddress {x : Address} {Q : Unit → Ctx (schema sv) → Prop}
    (hedits : Edits c row.userId book book') (hx : x ∈ book') (hid : x.id = row.id)
    (hfree : row.isDefault = true → ∀ x ∈ book', x.kind = row.kind → x.isDefault = false)
    (h : ∀ c', Edits c' row.userId book (Book.put row book') → Q () c') :
    wp G N Q E (updateAddress sv row) c := by
  rw [updateAddress, wp_bind]
  refine wp_forUpdate_address hedits hx hid fun c₁ hedits₁ _ hrow => ?_
  dsimp only
  rw [wp_bind]
  refine wp_takeDefault hedits₁ (fun hd x hx hkind hx' => ?_) fun c₂ hedits₂ hheld _ hentry => ?_
  · rw [hfree hd x hx hkind] at hx'
    cases hx'
  · rw [wp_write]
    refine ⟨fun k hk => ?_, by simp [Op.makes], h _ ?_⟩
    · simp only [Op.needs, List.mem_append, List.mem_cons, List.not_mem_nil, or_false] at hk
      rcases hk with (rfl | rfl) | hk
      · exact hheld hrow
      · exact hedits₂.held
      · split at hk
        case isTrue hd => exact List.mem_singleton.1 hk ▸ hentry hd
        case isFalse => cases hk
    · have hput := hedits₂.push (.setAddress row) rfl (fun _ => rfl) fun _ =>
        Db.owned_change fun _ _ => rfl
      convert hput using 1
      rw [Book.put, if_pos (List.mem_map.2 ⟨x, hx, hid⟩)]
      refine List.map_congr_left fun y _ => ?_
      split
      case isTrue hy => simp [hy]
      case isFalse => rfl

end

/-! ## Requests -/

/-- The commit makes `f` of the user's book, and changes no other. -/
def Amends {sv : Services} (c : Ctx (schema sv)) (db : Db) (userId : UUID)
    (f : List Address → List Address) : Prop :=
  Db.owned (c.view db) userId = f (db.owned userId) ∧
    ∀ v, v ≠ userId → Db.owned (c.view db) v = db.owned v

/-- What a request commits. -/
def Commits {sv : Services} : Call → Ctx (schema sv) → Db → Prop
  | .identity _, c, db | .updateProfile _ _ _, c, db => ∀ v, Db.owned (c.view db) v = db.owned v
  | .saveAddress actor data addressId, c, db => ∃ id,
      Amends c db actor.userId (Book.save data id actor.userId) ∧
      match addressId with
      | some given => given = id ∧ id ∈ (db.owned actor.userId).map (·.id)
      | none => db.address id = none ∧ (db.owned actor.userId).length < 20
  | .deleteAddress actor addressId, c, db => Amends c db actor.userId (Book.delete addressId)

/-- The errors that a request does not raise. -/
def Fails {sv : Services} (e : Error) (_ : Ctx (schema sv)) : Prop :=
  e ≠ .integrityError ∧ e ≠ .staleDataError

theorem fails_identity {e : Ekumidayomi.Error} {c : Ctx (schema sv)} :
    Fails (.identity e : Error) c := by
  constructor <;> rintro ⟨⟩

/-- A mark is one of the identity services. -/
def Notes {sv : Services} (n : Note) (c : Ctx (schema sv)) : Prop :=
  ∃ c₀, (embedding sv).Same c₀ c ∧ Ekumidayomi.Notes n c₀

abbrev Meets (sv : Services) (call : Call) (p : Tx sv Result) (c : Ctx (schema sv)) : Prop :=
  wp (Commits call) Notes (fun _ _ => True) Fails p c

section
variable {sv : Services} {settings : AuthSettings} {G : Ctx (schema sv) → Db → Prop}
  {c : Ctx (schema sv)} {book : List Address}

/-- `authorize` locks the row of the actor's user and writes nothing. -/
theorem wp_within_authorize {actor : Actor} {Q : User → Ctx (schema sv) → Prop}
    (h : ∀ user c', user.id = actor.userId → c'.buf = [] →
      .identity (.user actor.userId) ∈ c'.held → Q user c') :
    wp G Notes Q Fails (within sv (authorize sv actor .profileWrite none true)) {} := by
  -- `authorize` does not commit, so that nothing need be known of a commit
  refine Embedding.wp_lift (m := embedding sv) (c := {}) (G := fun _ _ => False)
    (N := Ekumidayomi.Notes) (Q := fun user c₀ => user.id = actor.userId ∧ c₀.buf = [] ∧
      .user actor.userId ∈ c₀.held) (E := fun _ _ => True) ?_ ?_ ?_ ?_ .initial ?_
  · exact fun _ _ _ _ _ => False.elim
  · exact fun n c₀ c' hsame hn => ⟨c₀, hsame, hn⟩
  · intro user c₀ c' hsame hpost
    refine h user c' hpost.1 ?_ ?_
    · rw [hsame.buf, hpost.2.1]
      rfl
    · rw [hsame.held]
      exact List.mem_map_of_mem hpost.2.2
  · exact fun _ _ _ _ _ => fails_identity
  · refine wp_authorize rfl (fun _ _ _ _ _ h => h) (fun _ _ _ _ => trivial) ?_
    exact fun user c₀ hauth hlocked => ⟨hauth.id, hauth.buf, (hlocked rfl).1⟩

/-- A call of the identity services leaves the addresses alone. -/
theorem meets_identity {call : Ekumidayomi.Call} :
    Meets sv (.identity call) (code sv settings (.identity call)) {} := by
  rw [Meets, code, wp_bind]
  refine Embedding.wp_lift (m := embedding sv) ?_ ?_ ?_ ?_ .initial (code_meets sv settings call)
  · intro c₀ c' db hsame _ _ v
    have hview : c'.view db =
        { db with identity := (Ekumidayomi.schema sv).applyAll c₀.buf db.identity } := by
      rw [Ctx.view, hsame.buf]
      exact applyAll_identity c₀.buf db
    rw [hview]
    rfl
  · exact fun n c₀ c' hsame hn => ⟨c₀, hsame, hn⟩
  · exact fun _ _ _ _ _ => trivial
  · exact fun _ _ _ _ _ => fails_identity

theorem meets_updateProfile {actor : Actor} {displayName : String} {phone : Option String} :
    Meets sv (.updateProfile actor displayName phone) (updateProfile sv actor displayName phone)
      {} := by
  rw [Meets, updateProfile, wp_bind]
  refine wp_within_authorize fun user c₁ hid hbuf hheld => ?_
  rw [wp_bind, wp_write]
  refine ⟨?_, by simp [Op.makes], ?_⟩
  · intro k hk
    rw [List.mem_singleton.1 hk, hid]
    exact hheld
  · rw [wp_bind, wp_commit]
    refine ⟨fun db hv _ => ?_, trivial⟩
    have hview : (c₁.push (.setProfile user.id ⟨displayName, phone⟩)).view db =
        Op.apply (.setProfile user.id ⟨displayName, phone⟩) db := by
      rw [Ctx.view, Ctx.push, hbuf]
      rfl
    refine ⟨fun v => ?_, hview.symm ▸ hv⟩
    rw [hview]
    rfl

/-- The first read of a request finds the book. -/
theorem Edits.first {userId : UUID} (hbuf : c.buf = []) (hheld : .identity (.user userId) ∈ c.held)
    (db : Db) (t : Time) :
    Edits (c.observe db t) userId (Db.owned (c.view db) userId) (Db.owned (c.view db) userId) := by
  have hview : c.view db = db := by
    rw [Ctx.view, hbuf]
    rfl
  rw [hview]
  exact .start (r := ⟨c.held, db, t⟩) hbuf hheld (fun _ hk => hk) List.mem_cons_self

/-- An address that is found by its identifier is one of the book. -/
theorem wp_findAddress {userId id : UUID} {Q : Option Address → Ctx (schema sv) → Prop}
    {N : Note → Ctx (schema sv) → Prop} (hbuf : c.buf = [])
    (hheld : .identity (.user userId) ∈ c.held) (hnone : ∀ c', Q none c')
    (hfound : ∀ book row c', row.id = id → Edits c' userId book book → row ∈ book →
      row.userId = userId → Q (some row) c') :
    wp G N Q Fails (findAddress sv userId id) c := by
  rw [findAddress, wp_query]
  intro db t _ _ _
  have hedits := Edits.first hbuf hheld db t
  cases hrow : (Db.addresses (c.view db)).rows.find? fun row => row.id = id && row.userId =
    userId with
  | none => exact hnone _
  | some row =>
    have hmem := List.mem_of_find?_eq_some hrow
    have hrow := List.find?_some hrow
    simp only [Bool.and_eq_true, decide_eq_true_eq] at hrow
    refine hfound _ row _ hrow.1 hedits ?_ hrow.2
    exact Db.mem_owned.2 ⟨Store.mem_rows.1 hmem, hrow.2⟩

/-- The address to replace is one of the book, and a new one has room in it. -/
theorem wp_locateAddress {userId : UUID} {addressId : Option UUID}
    {Q : Option Address → Ctx (schema sv) → Prop} {N : Note → Ctx (schema sv) → Prop}
    (hbuf : c.buf = []) (hheld : .identity (.user userId) ∈ c.held)
    (hnew : ∀ book c', addressId = none → Edits c' userId book book → book.length < 20 → Q none c')
    (hfound : ∀ book row c', addressId = some row.id → Edits c' userId book book → row ∈ book →
      row.userId = userId → Q (some row) c') :
    wp G N Q Fails (locateAddress sv userId addressId) c := by
  cases addressId with
  | none =>
    rw [locateAddress, wp_bind, wp_query]
    intro db t _ _ _
    refine Prog.wp_guard (fun _ => ⟨nofun, nofun⟩) fun hroom => ?_
    refine hnew _ _ rfl (Edits.first hbuf hheld db t) ?_
    rw [List.countP_eq_length_filter] at hroom
    exact Nat.not_le.1 hroom
  | some id =>
    rw [locateAddress, wp_bind]
    refine wp_findAddress hbuf hheld (fun _ => ⟨nofun, nofun⟩) ?_
    rintro book row c' rfl hedits hrow howner
    exact hfound book row c' rfl hedits hrow howner

/-- `save_address` of a new address, in the book it has cleared. -/
theorem meets_storeAddress_new {actor : Actor} {data : AddressInput}
    (hedits : Edits c actor.userId book
      (if data.isDefault then Book.clear data.kind.value book else book))
    (hroom : book.length < 20) :
    Meets sv (.saveAddress actor data none) (storeAddress sv actor.userId data none) c := by
  rw [Meets, storeAddress, wp_bind, wp_uuid4]
  intro id _
  rw [wp_bind]
  refine wp_insertAddress (hedits.draw id) List.mem_cons_self (Book.not_default_of_cleared) ?_
  intro c₁ hdrawn hrelates
  rw [wp_bind, wp_commit]
  refine ⟨fun db hv hs => ?_, trivial⟩
  obtain ⟨hbefore, hafter, hothers, hsame⟩ := hrelates db hv hs
  have hnew : db.address id = none := by
    by_contra hsome
    exact hs.2 id hdrawn (.inr hsome)
  refine ⟨⟨id, ⟨?_, hothers⟩, hnew, hbefore ▸ hroom⟩, hsame ▸ hv⟩
  rw [show db.owned actor.userId = book from hbefore, Book.save, Book.put, if_neg]
  · exact hafter
  · rw [Book.ids_cleared, ← hbefore]
    intro hmem
    obtain ⟨x, hx, hid⟩ := List.mem_map.1 hmem
    have hget := (Db.mem_owned.1 hx).1
    rw [show x.id = id from hid, hnew] at hget
    cases hget

/-- `save_address` of an address of the book, in the book it has cleared. -/
theorem meets_storeAddress_found {actor : Actor} {data : AddressInput} {row : Address}
    (hedits : Edits c actor.userId book
      (if data.isDefault then Book.clear data.kind.value book else book))
    (hrow : row ∈ book) (howner : row.userId = actor.userId) :
    Meets sv (.saveAddress actor data (some row.id)) (storeAddress sv actor.userId data (some row))
      c := by
  have hmem : row.id ∈ book.map (·.id) := List.mem_map_of_mem hrow
  have hcleared : row.id ∈ (if data.isDefault then Book.clear data.kind.value book else book).map
      (·.id) := by
    rw [Book.ids_cleared]
    exact hmem
  obtain ⟨x, hx, hid⟩ := List.mem_map.1 hcleared
  rw [Meets, storeAddress, howner, wp_bind]
  have hid : x.id = (data.address row.id actor.userId).id := hid
  refine wp_updateAddress hedits hx hid Book.not_default_of_cleared fun c₁ hedits₁ => ?_
  rw [wp_bind, wp_commit]
  refine ⟨fun db hv hs => ?_, trivial⟩
  obtain ⟨hbefore, hafter, hothers, hvalid⟩ := hedits₁.commits hv hs
  have hbefore : db.owned actor.userId = book := hbefore
  refine ⟨⟨row.id, ⟨?_, hothers⟩, rfl, ?_⟩, hvalid⟩
  · rw [hbefore]
    exact hafter
  · rw [hbefore]
    exact hmem

theorem meets_saveAddress {actor : Actor} {data : AddressInput} {addressId : Option UUID} :
    Meets sv (.saveAddress actor data addressId) (saveAddress sv actor data addressId) {} := by
  -- a default is saved in a book without another one of its kind
  have hcleared : ∀ {c book found}, Edits c actor.userId book book →
      (∀ c', Edits c' actor.userId book
          (if data.isDefault then Book.clear data.kind.value book else book) →
        Meets sv (.saveAddress actor data addressId) (storeAddress sv actor.userId data found) c') →
      Meets sv (.saveAddress actor data addressId)
        (if data.isDefault then clearDefaults sv actor.userId data.kind.value >>= fun _ =>
            storeAddress sv actor.userId data found
          else storeAddress sv actor.userId data found) c := by
    intro c book found hedits h
    split
    case isTrue hdefault =>
      rw [Meets, wp_bind]
      refine wp_clearDefaults hedits fun c' hc' => h c' ?_
      rwa [if_pos hdefault]
    case isFalse hdefault =>
      refine h c ?_
      rwa [if_neg hdefault]
  rw [Meets, saveAddress, wp_bind]
  refine wp_within_authorize fun user c₁ hid hbuf hheld => ?_
  rw [wp_bind]
  refine wp_locateAddress hbuf hheld ?_ ?_
  · rintro book c₂ rfl hedits hroom
    exact hcleared hedits fun c₃ hedits₃ => meets_storeAddress_new hedits₃ hroom
  · rintro book row c₂ rfl hedits hrow howner
    exact hcleared hedits fun c₃ hedits₃ => meets_storeAddress_found hedits₃ hrow howner

theorem meets_deleteAddress {actor : Actor} {addressId : UUID} :
    Meets sv (.deleteAddress actor addressId) (deleteAddress sv actor addressId) {} := by
  rw [Meets, deleteAddress, wp_bind]
  refine wp_within_authorize fun user c₁ hid hbuf hheld => ?_
  rw [wp_bind]
  refine wp_findAddress hbuf hheld (fun _ => by simp [Fails]) ?_
  rintro book row c₂ rfl hedits hrow howner
  dsimp only
  rw [wp_bind]
  refine wp_forUpdate_address hedits hrow rfl fun c₃ hedits₃ _ haddress => ?_
  dsimp only
  have hdelete : ∀ {c'}, Edits c' actor.userId book book → .address row.id ∈ c'.held →
      Meets sv (.deleteAddress actor row.id)
        (write sv (.deleteAddress row.userId row.id) >>= fun _ => commit sv >>= fun _ =>
          pure .done) c' := by
    intro c' hedits' haddress'
    rw [howner, Meets, wp_bind, wp_write]
    refine ⟨?_, by simp [Op.makes], ?_⟩
    · intro k hk
      simp only [Op.needs, List.mem_cons, List.not_mem_nil, or_false] at hk
      rcases hk with rfl | rfl
      · exact haddress'
      · exact hedits'.held
    · have hdelete := hedits'.push (.deleteAddress actor.userId row.id) rfl
        (((embedding sv).other _).resolve_left (by rintro ⟨_, ⟨⟩⟩)) fun _ => Db.owned_delete
      rw [wp_bind, wp_commit]
      refine ⟨fun db hv hs => ?_, trivial⟩
      obtain ⟨hbefore, hafter, hothers, hvalid⟩ := hdelete.commits hv hs
      refine ⟨⟨?_, hothers⟩, hvalid⟩
      rw [hbefore]
      exact hafter
  split
  · rw [wp_bind, wp_lock]
    exact hdelete (hedits₃.hold _) (List.mem_cons_of_mem _ haddress)
  · exact hdelete hedits₃ haddress

theorem code_meets (sv : Services) (settings : AuthSettings) (call : Call) :
    Meets sv call (code sv settings call) {} := by
  cases call with
  | identity => exact meets_identity
  | updateProfile => exact meets_updateProfile
  | saveAddress => exact meets_saveAddress
  | deleteAddress => exact meets_deleteAddress

end

/-! ## Every run -/

/-- A system before its first request: the identifiers in the database were drawn before, and every
user has a book. -/
structure Initial {sv : Services} (s : Sys sv) : Prop where
  threads : s.threads = []
  admins : s.db.identity.AdminsVerified
  drawn : ∀ id, s.db.Uses id → id ∈ s.drawn
  books : ∀ userId, IsBook (s.db.owned userId)

/-- The user whose book a request changes. -/
def Call.owner : Call → Option UUID
  | .identity _ | .updateProfile _ _ _ => none
  | .saveAddress actor _ _ | .deleteAddress actor _ => some actor.userId

section
variable {sv : Services} {settings : AuthSettings} {s₀ s s' : Sys sv} {tr : List (Act sv)}

/-- The system with what every request is known to commit and raise. -/
abbrev Good (s : Sys sv) : Prop :=
  Transact.Good Commits Notes (fun _ _ _ => True) (fun _ => Fails) s

/-- A commit changes the book of its owner only. -/
theorem Commits.owned_eq {call : Call} {c : Ctx (schema sv)} {db : Db} (h : Commits call c db)
    {v : UUID} (hv : call.owner ≠ some v) : Db.owned (c.view db) v = db.owned v := by
  cases call with
  | identity | updateProfile => exact h v
  | saveAddress actor data addressId =>
    obtain ⟨id, hamends, -⟩ := h
    exact hamends.2 v fun heq => hv (congrArg some heq.symm)
  | deleteAddress actor addressId => exact h.2 v fun heq => hv (congrArg some heq.symm)

/-- A commit leaves every user a book. -/
theorem Commits.isBook {call : Call} {c : Ctx (schema sv)} {db : Db} (h : Commits call c db)
    (hbooks : ∀ v, IsBook (db.owned v)) (v : UUID) : IsBook (Db.owned (c.view db) v) := by
  by_cases hv : call.owner = some v
  · cases call with
    | identity | updateProfile => cases hv
    | saveAddress actor data addressId =>
      cases hv
      obtain ⟨id, hamends, hid⟩ := h
      rw [hamends.1]
      refine Book.isBook_save (hbooks _) Db.nodup_owned ?_
      cases addressId with
      | none => exact .inr hid.2
      | some given => exact .inl hid.2
    | deleteAddress actor addressId =>
      cases hv
      rw [h.1]
      exact Book.isBook_delete (hbooks _)
  · rw [h.owned_eq hv]
    exact hbooks v

theorem good_and_books (h0 : Initial s₀) (hrun : Run sv settings s₀ tr s) :
    Good s ∧ ∀ v, IsBook (s.db.owned v) := by
  refine hrun.invariant (I := fun s => Good s ∧ ∀ v, IsBook (s.db.owned v)) ?_
    ⟨.initial h0.threads h0.admins h0.drawn, h0.books⟩
  rintro s a s' ⟨hgood, hbooks⟩ hstep
  refine ⟨hgood.step (code_meets sv settings) hstep, fun v => ?_⟩
  by_cases hc : ∃ i, a = .commit i
  · obtain ⟨i, rfl⟩ := hc
    obtain ⟨t, -, hcommits, hdb⟩ := Transact.Good.commit hgood hstep
    rw [hdb]
    exact hcommits.isBook hbooks v
  · rw [hstep.db_eq fun i hi => hc ⟨i, hi⟩]
    exact hbooks v

/-- In every run every user has a book: no save fails on the index, a step changes the book of the
user whose request commits and no other, and a saved default is the only one of its kind. -/
theorem address_books_kept (h0 : Initial s₀) (hrun : Run sv settings s₀ tr s) :
    (∀ v, IsBook (s.db.owned v)) ∧
    (∀ t ∈ s.threads, t.status ≠ .answered (.error .integrityError)) ∧
    ∀ a s', Step sv settings s a s' →
      (∀ v, s'.db.owned v ≠ s.db.owned v →
        ∃ i t, a = .commit i ∧ s.threads[i]? = some t ∧ t.call.owner = some v) ∧
      ∀ i t actor data addressId, a = .commit i → s.threads[i]? = some t →
        t.call = .saveAddress actor data addressId → data.isDefault = true →
        ∃ id, addressId.all (· = id) ∧ data.address id actor.userId ∈ s'.db.owned actor.userId ∧
          ∀ x ∈ s'.db.owned actor.userId, x.kind = data.kind.value → x.isDefault = true →
            x = data.address id actor.userId := by
  obtain ⟨hgood, hbooks⟩ := good_and_books h0 hrun
  refine ⟨hbooks, fun t ht herror => ?_, fun a s' hstep => ⟨fun v hchanged => ?_, ?_⟩⟩
  · obtain ⟨i, hi⟩ := List.getElem?_of_mem ht
    have hok := hgood.ok i t hi
    rw [Thread.Ok, herror] at hok
    obtain ⟨c, hfails, -⟩ := hok
    exact hfails.1 rfl
  · by_cases hc : ∃ i, a = .commit i
    · obtain ⟨i, rfl⟩ := hc
      obtain ⟨t, ht, hcommits, hdb⟩ := Transact.Good.commit hgood hstep
      refine ⟨i, t, rfl, ht, ?_⟩
      by_contra hother
      rw [hdb] at hchanged
      exact hchanged (hcommits.owned_eq hother)
    · exact absurd (congrArg (Db.owned · v) (hstep.db_eq fun i hi => hc ⟨i, hi⟩)) hchanged
  · rintro i t actor data addressId rfl ht hcall hdefault
    obtain ⟨t', ht', hcommits, hdb⟩ := Transact.Good.commit hgood hstep
    obtain rfl : t' = t := Option.some.inj (ht'.symm.trans ht)
    rw [hcall] at hcommits
    obtain ⟨id, hamends, hid⟩ := hcommits
    have hbook : s'.db.owned actor.userId =
        Book.save data id actor.userId (s.db.owned actor.userId) := by
      rw [hdb]
      exact hamends.1
    rw [hbook]
    refine ⟨id, ?_, Book.mem_put, fun x hx => Book.eq_of_default_save hdefault hx⟩
    cases addressId with
    | none => rfl
    | some given => simpa using hid.1

end

namespace BookFixture

/-- An address she has saved, the default of its kind. -/
def office : Address :=
  { id := 8, userId := 1, kind := "shipping", recipient := "Ada", line1 := "2 Side Street"
    city := "Lagos", region := "Lagos", countryCode := "NG", isDefault := true }

/-- The database of the account with that address. -/
def system : Sys AuthFixture.services :=
  { db := { identity := AuthFixture.db, addresses := ⟨[office], List.pairwise_singleton _ _⟩ }
    clock := 1, drawn := 8 :: AuthFixture.db.ids }

theorem system_initial : Initial system where
  threads := rfl
  admins :=
    have hinitial : Auth.Initial (AuthFixture.system AuthFixture.db) :=
      AuthFixture.system_initial (by decide)
    hinitial.admins
  drawn := by
    rintro id (hid | hid)
    · exact List.mem_cons_of_mem _ (Db.mem_ids hid)
    · obtain ⟨row, hrow⟩ := Option.ne_none_iff_exists'.1 hid
      have hkey : row.id = id := Store.key_of_get hrow
      rw [← hkey, List.mem_singleton.1 (Store.mem_of_get hrow)]
      exact List.mem_cons_self
  books := fun _ => ⟨(List.length_filter_le _ _).trans (by decide),
    fun _ => List.countP_le_length.trans (List.length_filter_le _ _)⟩

/-- Her new address, the default. -/
def home : AddressInput :=
  { kind := .shipping, recipient := "Ada", line1 := "1 Main Street", city := "Lagos"
    region := "Lagos", countryCode := "NG", isDefault := true }

/-- She saves it, up to the commit. -/
def saving : List (Act AuthFixture.services) :=
  .start (.saveAddress AuthFixture.actor home none) :: List.replicate 11 (.advance 0) ++
    .draw 0 9 :: List.replicate 4 (.advance 0)

def saved : Sys AuthFixture.services :=
  (system.execAll (code AuthFixture.services default) saving).getD system

theorem saved_run : Run AuthFixture.services {} system saving saved := Sys.run_of_isSome rfl

end BookFixture

/-- Her address takes the place of the default when the commit of the save is made. -/
theorem address_books_kept_saved : BookFixture.saved.db.owned 1 = [BookFixture.office] ∧
    ∃ s', Step AuthFixture.services {} BookFixture.saved (.commit 0) s' ∧
      ∃ id, BookFixture.home.address id 1 ∈ s'.db.owned 1 ∧ ∀ x ∈ s'.db.owned 1,
        x.kind = "shipping" → x.isDefault = true → x = BookFixture.home.address id 1 := by
  have hstep : Step AuthFixture.services {} BookFixture.saved (.commit 0) _ :=
    Sys.step_of_isSome rfl
  obtain ⟨-, -, hsteps⟩ := address_books_kept BookFixture.system_initial BookFixture.saved_run
  obtain ⟨id, -, hmem, honly⟩ :=
    (hsteps _ _ hstep).2 0 _ AuthFixture.actor BookFixture.home none rfl
    rfl rfl rfl
  exact ⟨rfl, _, hstep, id, hmem, honly⟩

end Ekumidayomi.Users
