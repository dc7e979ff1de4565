import Ekumidayomi.Lib.Ledger

/-!
# Unique indexes

An `Index` gives each row the value of some of its columns, and each value a lock that whoever adds
a row with it must hold. A transaction that has found a value vacant under its lock, itself
included, finds it vacant when it commits (`Index.vacant_view`), so if each row that it adds was
checked in this way (`Index.Checked`), the values stay unique (`Index.unique_view`).
-/

namespace Transact

variable {S : Schema} {V : Type}

/-- The values of the rows of one table, each with its lock. -/
structure Index (S : Schema) (V : Type) where
  value : S.Id → S.Db → Option V
  lock : V → S.Key
  /-- The value of the row that the write adds. A row that is there stays as it is. -/
  added : S.Op → S.Id → Option V
  removed : S.Op → S.Id → Bool
  value_apply : ∀ op db id, value id (S.apply op db) =
    if removed op id then none else (value id db).or (added op id)
  makes : ∀ {op id v}, added op id = some v → id ∈ S.makes op
  one : ∀ {op id id' v v'}, added op id = some v → added op id' = some v' → id = id'
  needs : ∀ {op id v}, added op id = some v → lock v ∈ S.needs op
  unused : ∀ {db id}, ¬ S.uses db id → value id db = none

namespace Index

variable {x : Index S V} {c c' : Ctx S} {db : S.Db} {v : V} {op : S.Op} {ops post : List S.Op}

/-- No row has the value. -/
def Vacant (x : Index S V) (v : V) (db : S.Db) : Prop := ∀ id, x.value id db ≠ some v

/-- No two rows have one value. -/
def Unique (x : Index S V) (db : S.Db) : Prop :=
  ∀ id id' v, x.value id db = some v → x.value id' db = some v → id = id'

/-- Each value that the write adds was found vacant under its lock, after the writes `post`. -/
def Checked (x : Index S V) (c : Ctx S) (op : S.Op) (post : List S.Op) : Prop :=
  ∀ id v, x.added op id = some v →
    ∃ r ∈ c.reads, x.lock v ∈ r.held ∧ x.Vacant v (S.applyAll post r.db)

theorem Checked.of_none (h : ∀ id, x.added op id = none) : x.Checked c op post := by
  intro id v hadded
  rw [h] at hadded
  cases hadded

theorem Checked.le (hle : c.Le c') (h : x.Checked c op post) : x.Checked c' op post := by
  intro id v hadded
  obtain ⟨r, hr, hrest⟩ := h id v hadded
  exact ⟨r, hle.reads hr, hrest⟩

/-- What a write makes of a value depends on that value only. -/
theorem isLocal (x : Index S V) (id : S.Id) : S.Local (x.value id) := by
  intro op db db' h
  rw [x.value_apply, x.value_apply, h]

theorem of_apply {id : S.Id} (h : x.value id (S.apply op db) = some v) :
    x.value id db = some v ∨ x.added op id = some v := by
  rw [x.value_apply] at h
  obtain ⟨-, h⟩ := Option.ite_none_left_eq_some.1 h
  exact Option.or_eq_some_iff.1 h |>.imp_right (·.2)

/-- A value of a row was there before, or one of the writes has added it. -/
theorem of_applyAll {id : S.Id} (h : x.value id (S.applyAll ops db) = some v) :
    x.value id db = some v ∨ ∃ op ∈ ops, x.added op id = some v := by
  induction ops with
  | nil => exact .inl h
  | cons op ops ih =>
    rcases x.of_apply h with hold | hadded
    · exact (ih hold).imp_right fun ⟨o, ho, hadded⟩ => ⟨o, List.mem_cons_of_mem _ ho, hadded⟩
    · exact .inr ⟨op, List.mem_cons_self, hadded⟩

/-- While a lock is held that whoever gives a value to a row needs, nobody else does. -/
theorem of_guarded {held : List S.Key} {db' : S.Db} {id : S.Id} {k : S.Key}
    (hneeds : ∀ {op id}, x.added op id = some v → k ∈ S.needs op) (hk : k ∈ held)
    (hi : Interferes held db db') (h : x.value id db' = some v) : x.value id db = some v := by
  refine hi.keeps (P := fun d => x.value id d = some v → x.value id db = some v) ?_ (fun h => h) h
  intro op d hop ih hv
  rcases x.of_apply hv with hold | hadded
  · exact ih hold
  · exact absurd hk (hop.needs _ (hneeds hadded))

/-- The lock of the value is one such lock. -/
theorem of_interferes {held : List S.Key} {db' : S.Db} {id : S.Id} (hk : x.lock v ∈ held)
    (hi : Interferes held db db') (h : x.value id db' = some v) : x.value id db = some v :=
  of_guarded x.needs hk hi h

/-- A value that nobody else gives to a row stays vacant. -/
theorem Vacant.guarded {held : List S.Key} {db' : S.Db} {k : S.Key}
    (hneeds : ∀ {op id}, x.added op id = some v → k ∈ S.needs op) (hk : k ∈ held)
    (hi : Interferes held db db') (h : x.Vacant v db) : x.Vacant v db' :=
  fun id hv => h id (of_guarded hneeds hk hi hv)

/-- Writes that do not add the value leave it vacant. -/
theorem Vacant.applyAll (hadded : ∀ op ∈ ops, ∀ id, x.added op id ≠ some v) (h : x.Vacant v db) :
    x.Vacant v (S.applyAll ops db) := by
  intro id hv
  rcases of_applyAll hv with hold | ⟨op, hop, hnew⟩
  · exact h id hold
  · exact hadded op hop id hnew

/-- A row that no write removes keeps its value. -/
theorem value_applyAll {id : S.Id} (hremoved : ∀ op ∈ ops, x.removed op id = false)
    (h : x.value id db = some v) : x.value id (S.applyAll ops db) = some v := by
  induction ops with
  | nil => exact h
  | cons op ops ih =>
    rw [List.forall_mem_cons] at hremoved
    rw [Schema.applyAll_cons, x.value_apply, hremoved.1, ih hremoved.2]
    rfl

/-- A value that was found vacant under its lock is vacant in every database that the transaction
may commit to. The writes of the transaction make rows with identifiers it has drawn. -/
theorem vacant_view {r : Read S} (hk : x.lock v ∈ r.held) (hi : Interferes r.held r.db db)
    (hmakes : ∀ op ∈ ops, ∀ id ∈ S.makes op, ¬ S.uses r.db id ∧ ¬ S.uses db id)
    (h : x.Vacant v (S.applyAll ops r.db)) : x.Vacant v (S.applyAll ops db) := by
  intro id hv
  have heq : x.value id r.db = x.value id db := by
    rcases of_applyAll hv with hold | ⟨op, hop, hadded⟩
    · rw [hold, of_interferes hk hi hold]
    · have hnew := hmakes op hop id (x.makes hadded)
      rw [x.unused hnew.1, x.unused hnew.2]
  exact h id (((x.isLocal id).applyAll ops heq).trans hv)

/-- Writes that were checked one by one keep the values unique. -/
theorem unique_view (hsees : c.Sees db) (hdrew : ∀ op ∈ ops, ∀ id ∈ S.makes op, id ∈ c.drawn)
    (hspent : ∀ r ∈ c.reads, ∀ id ∈ c.drawn, ¬ S.uses r.db id)
    (hchecked : c.BookedFor x.Checked ops) (h : x.Unique db) :
    x.Unique (S.applyAll ops db) := by
  induction ops with
  | nil => exact h
  | cons op post ih =>
    rw [List.forall_mem_cons] at hdrew
    have hpost : x.Unique (S.applyAll post db) := ih hdrew.2 hchecked.2
    have hvacant : ∀ id v, x.added op id = some v → x.Vacant v (S.applyAll post db) := by
      intro id v hadded
      obtain ⟨r, hr, hk, hvacant⟩ := hchecked.1 id v hadded
      refine vacant_view hk (hsees.1 r hr) (fun o ho i hi => ?_) hvacant
      have hi := hdrew.2 o ho i hi
      exact ⟨hspent r hr i hi, hsees.2 i hi⟩
    intro id id' v hv hv'
    rcases x.of_apply hv with hold | hadded
    · rcases x.of_apply hv' with hold' | hadded'
      · exact hpost id id' v hold hold'
      · exact absurd hold (hvacant id' v hadded' id)
    · rcases x.of_apply hv' with hold' | hadded'
      · exact absurd hold' (hvacant id v hadded id')
      · exact x.one hadded hadded'

/-- The index of some columns of a table, by the row that a write inserts under an identifier. -/
def ofRows {R : Type} (get : S.Id → S.Db → Option R) (inserted : S.Op → S.Id → Option R)
    (removed : S.Op → S.Id → Bool) (column : R → V) (lock : V → S.Key)
    (value_apply : ∀ op db id, (get id (S.apply op db)).map column =
      if removed op id then none
      else ((get id db).map column).or ((inserted op id).map column))
    (makes : ∀ {op id row}, inserted op id = some row → id ∈ S.makes op)
    (one : ∀ {op id id' row row'}, inserted op id = some row → inserted op id' = some row' →
      id = id')
    (needs : ∀ {op id row}, inserted op id = some row → lock (column row) ∈ S.needs op)
    (unused : ∀ {db id}, get id db ≠ none → S.uses db id) : Index S V where
  value id db := (get id db).map column
  lock := lock
  added op id := (inserted op id).map column
  removed := removed
  value_apply := value_apply
  makes := by
    intro op id v h
    obtain ⟨row, hrow, -⟩ := Option.map_eq_some_iff.1 h
    exact makes hrow
  one := by
    intro op id id' v v' h h'
    obtain ⟨row, hrow, -⟩ := Option.map_eq_some_iff.1 h
    obtain ⟨row', hrow', -⟩ := Option.map_eq_some_iff.1 h'
    exact one hrow hrow'
  needs := by
    intro op id v h
    obtain ⟨row, hrow, rfl⟩ := Option.map_eq_some_iff.1 h
    exact needs hrow
  unused := by
    intro db id h
    rw [Option.map_eq_none_iff]
    by_contra hne
    exact h (unused hne)

/-- The columns are unique when no two rows agree on them. -/
theorem unique_ofRows {R : Type} (x : Index S V) (get : S.Id → S.Db → Option R) (column : R → V)
    (hvalue : ∀ id db, x.value id db = (get id db).map column) : x.Unique db ↔
      ∀ {id id' row row'}, get id db = some row → get id' db = some row' →
        column row = column row' → id = id' := by
  constructor
  · intro h id id' row row' hrow hrow' heq
    refine h id id' (column row) ?_ ?_
    · rw [hvalue, hrow, Option.map_some]
    · rw [hvalue, hrow', heq, Option.map_some]
  · intro h id id' v hv hv'
    rw [hvalue] at hv hv'
    obtain ⟨row, hrow, rfl⟩ := Option.map_eq_some_iff.1 hv
    obtain ⟨row', hrow', heq⟩ := Option.map_eq_some_iff.1 hv'
    exact h hrow hrow' heq.symm

end Index

end Transact
