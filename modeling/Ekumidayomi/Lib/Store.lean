import Ekumidayomi.Lib.Table
import Mathlib.Data.List.Sort

/-!
# Tables whose keys are distinct by construction

`Table` has the operations on lists of rows. A `Store` is such a list together with the proof that
its keys are distinct, and its operations keep that proof: an insert of a key that is there already
changes nothing, which is what a primary key does to a statement that violates it. Each operation
has one lemma about `get`, and `mem_rows` turns what a query finds by scanning into what a key
finds.
-/

/-- A table with distinct keys. -/
structure Store {α κ : Type} (key : α → κ) where
  rows : List α
  keyed : Table.Keyed key rows

namespace Store

variable {α κ : Type} {key : α → κ}

/-- The table without rows. -/
def empty : Store key := ⟨[], List.nodup_nil⟩

/-- The first `limit` rows that match, in an order. -/
def select (s : Store key) (p : α → Bool) (le : α → α → Bool) (limit : Nat) : List α :=
  ((s.rows.filter p).insertionSort (le · · = true)).take limit

theorem mem_select {s : Store key} {r : α} {p : α → Bool} {le : α → α → Bool} {limit : Nat}
    (h : r ∈ s.select p le limit) : r ∈ s.rows ∧ p r = true := by
  have h := List.mem_of_mem_take h
  rwa [List.mem_insertionSort, List.mem_filter] at h

/-- A query selects no row twice. -/
theorem nodup_select (s : Store key) (p : α → Bool) (le : α → α → Bool) (limit : Nat) :
    ((s.select p le limit).map key).Nodup := by
  have hsorted : (((s.rows.filter p).insertionSort (le · · = true)).map key).Nodup := by
    rw [((List.perm_insertionSort _ _).map key).nodup_iff]
    exact List.Nodup.sublist (List.Sublist.map key List.filter_sublist) s.keyed
  exact List.Nodup.sublist (List.Sublist.map key (List.take_sublist _ _)) hsorted

/-- A row that matches and is not selected comes after all that are, and the limit is reached. -/
theorem select_passed {s : Store key} {r : α} {p : α → Bool} {le : α → α → Bool} {limit : Nat}
    (htotal : ∀ a b, le a b = true ∨ le b a = true)
    (htrans : ∀ a b c, le a b = true → le b c = true → le a c = true)
    (hr : r ∈ s.rows) (hp : p r = true) (hnot : r ∉ s.select p le limit) :
    (s.select p le limit).length = limit ∧ ∀ a ∈ s.select p le limit, le a r = true := by
  have : Std.Total (le · · = true) := ⟨htotal⟩
  have : IsTrans α (le · · = true) := ⟨htrans⟩
  have hsorted := List.pairwise_insertionSort (le · · = true) (s.rows.filter p)
  have hmem : r ∈ (s.rows.filter p).insertionSort (le · · = true) :=
    (List.mem_insertionSort _).2 (List.mem_filter.2 ⟨hr, hp⟩)
  unfold select at hnot ⊢
  generalize (s.rows.filter p).insertionSort (le · · = true) = sorted at *
  rw [← List.take_append_drop limit sorted] at hsorted hmem
  have hdrop := (List.mem_append.1 hmem).resolve_left hnot
  refine ⟨?_, fun a ha => (List.pairwise_append.1 hsorted).2.2 a ha r hdrop⟩
  rw [List.length_take, Nat.min_eq_left]
  by_contra hlt
  rw [List.drop_eq_nil_of_le (Nat.le_of_not_le hlt)] at hdrop
  cases hdrop

variable [DecidableEq κ]

/-- The row with the key `k`. -/
def get (s : Store key) (k : κ) : Option α := Table.find key s.rows k

/-- Add a row under a new key. -/
def insert (s : Store key) (r : α) : Store key :=
  if h : ∀ a ∈ s.rows, key a ≠ key r then ⟨s.rows ++ [r], s.keyed.append h⟩ else s

/-- Change the row with the key `k`, if there is one, without its key. -/
def modify (s : Store key) (k : κ) (f : α → α) (hf : ∀ r, key (f r) = key r) : Store key :=
  ⟨Table.update key s.rows (· = k) f, s.keyed.update hf⟩

/-- Remove the row with the key `k`. -/
def erase (s : Store key) (k : κ) : Store key :=
  ⟨Table.erase key s.rows k, s.keyed.erase⟩

/-- Change the picked rows, without their keys. -/
def modifyAll (s : Store key) (picked : List α) (f : α → α) (hf : ∀ r, key (f r) = key r) :
    Store key :=
  ⟨Table.update key s.rows (fun k => picked.any (key · = k)) f, s.keyed.update hf⟩

variable {s : Store key} {k k' : κ} {r : α} {f : α → α} {hf : ∀ r, key (f r) = key r}

theorem key_of_get (h : s.get k = some r) : key r = k := Table.key_of_find h

/-- A row is in the table when its key finds it. -/
theorem mem_rows : r ∈ s.rows ↔ s.get (key r) = some r :=
  ⟨fun h => s.keyed.find h, fun h => Table.mem_of_find h⟩

theorem mem_of_get (h : s.get k = some r) : r ∈ s.rows := Table.mem_of_find h

@[simp] theorem get_modify :
    (s.modify k f hf).get k' = if k' = k then (s.get k').map f else s.get k' := by
  rw [get, modify, Table.find_update hf]
  by_cases h : k' = k
  · simp [h, get]
  · cases hg : s.get k' <;> simp_all [get]

@[simp] theorem get_erase : (s.erase k).get k' = if k' = k then none else s.get k' := by
  rw [get, erase, Table.find_erase]
  rfl

/-- An insert leaves the rows that are there. -/
theorem get_insert :
    (s.insert r).get k = (s.get k).or (if key r = k then some r else none) := by
  rw [insert]
  split
  · exact Table.find_append
  case isFalse h =>
    by_cases hk : key r = k
    · simp only [not_forall, not_not] at h
      obtain ⟨a, ha, he⟩ := h
      have hget : s.get k = some a := by
        rw [← hk, ← he]
        exact mem_rows.1 ha
      simp [hget]
    · simp [hk]

@[simp] theorem get_insert_ne (h : key r ≠ k) : (s.insert r).get k = s.get k := by
  rw [get_insert, if_neg h, Option.or_none]

theorem get_insert_self (h : s.get (key r) = none) : (s.insert r).get (key r) = some r := by
  rw [get_insert, h, if_pos rfl, Option.none_or]

theorem get_insert_of_some (h : s.get k = some r) {r' : α} : (s.insert r').get k = some r := by
  rw [get_insert, h, Option.some_or]

theorem get_modify_of_some (hf : ∀ r, key (f r) = key r) (h : s.get k' = some r) :
    ∃ a, (s.modify k f hf).get k' = some a := by
  rw [get_modify, h]
  by_cases hk : k' = k
  · exact ⟨f r, by rw [if_pos hk]; rfl⟩
  · exact ⟨r, if_neg hk⟩

/-- A change to picked rows of the table is seen on them, and only there. -/
theorem get_modifyAll {picked : List α} (hf : ∀ r, key (f r) = key r)
    (hsub : ∀ a ∈ picked, a ∈ s.rows) (h : s.get k = some r) :
    ∃ a, (s.modifyAll picked f hf).get k = some a ∧
      ((r ∉ picked ∧ a = r) ∨ (r ∈ picked ∧ a = f r)) := by
  refine ⟨_, by rw [get, modifyAll, Table.find_update hf, ← get, h]; rfl, ?_⟩
  by_cases hp : r ∈ picked
  · refine .inr ⟨hp, ?_⟩
    have hany : picked.any (key · = k) = true :=
      List.any_eq_true.2 ⟨r, hp, decide_eq_true (key_of_get h)⟩
    simp [hany]
  · refine .inl ⟨hp, if_neg fun hany => hp ?_⟩
    obtain ⟨a, ha, he⟩ := List.any_eq_true.1 hany
    have hka : key a = key r := (of_decide_eq_true he).trans (key_of_get h).symm
    rwa [← s.keyed.eq_of_key (hsub a ha) (mem_of_get h) hka]

theorem get_modifyAll_none {picked : List α} (hf : ∀ r, key (f r) = key r) (h : s.get k = none) :
    (s.modifyAll picked f hf).get k = none := by
  rw [get, modifyAll, Table.find_update hf, ← get, h]
  rfl

theorem get_erase_ne (h : k ≠ k') : (s.erase k).get k' = s.get k' := by
  rw [get_erase, if_neg h.symm]

/-! ## Where a row comes from -/

theorem of_get_insert {a : α} (h : (s.insert r).get k = some a) :
    (a = r ∧ key r = k ∧ s.get k = none) ∨ s.get k = some a := by
  rw [get_insert] at h
  cases hk : s.get k with
  | none =>
    rw [hk, Option.none_or] at h
    obtain ⟨hkey, ha⟩ := Option.ite_none_right_eq_some.1 h
    exact .inl ⟨(Option.some.inj ha).symm, hkey, rfl⟩
  | some b =>
    rw [hk, Option.some_or] at h
    exact .inr h

theorem of_get_modify {a : α} (hf : ∀ r, key (f r) = key r)
    (h : (s.modify k f hf).get k' = some a) :
    s.get k' = some a ∨ ∃ b, s.get k' = some b ∧ k' = k ∧ a = f b := by
  rw [get_modify] at h
  split at h
  case isTrue hk =>
    obtain ⟨b, hb, ha⟩ := Option.map_eq_some_iff.1 h
    exact .inr ⟨b, hb, hk, ha.symm⟩
  case isFalse => exact .inl h

theorem of_get_erase {a : α} (h : (s.erase k).get k' = some a) :
    k' ≠ k ∧ s.get k' = some a := by
  rw [get_erase] at h
  exact Option.ite_none_left_eq_some.1 h

/-- Of two rows that match, one has another key. -/
theorem exists_other {p : α → Bool} (h : 1 < s.rows.countP p) (k : κ) :
    ∃ r ∈ s.rows, p r = true ∧ key r ≠ k := by
  by_contra hnone
  have hle : s.rows.countP p ≤ s.rows.countP (key · = k) := by
    refine List.countP_mono_left fun r hr hp => ?_
    by_contra hne
    exact hnone ⟨r, hr, hp, by simpa using hne⟩
  have hone : s.rows.countP (key · = k) ≤ 1 := by
    have hcount := List.nodup_iff_count_le_one.1 s.keyed k
    rwa [List.count, List.countP_map] at hcount
  omega

end Store
