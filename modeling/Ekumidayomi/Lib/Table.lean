import Mathlib.Data.List.Basic
import Mathlib.Data.List.Nodup

/-!
# Tables with a primary key

A table is a list of rows; `key` reads a row's primary key. The operations are those of a store
that addresses rows by key: `find`, `update` of the rows whose keys a predicate picks, `insert` at
the end and `erase`. The lemmas say what each operation does to `find`, so that a development
reasons about rows under their keys and never unfolds a list, and that each of them keeps the keys
distinct (`Keyed`).
-/

namespace Table

variable {α κ : Type*}

/-- The row with the key `k`. -/
def find [DecidableEq κ] (key : α → κ) (rows : List α) (k : κ) : Option α := rows.find? (key · = k)

/-- Change every row whose key `p` picks. -/
def update (key : α → κ) (rows : List α) (p : κ → Bool) (f : α → α) : List α :=
  rows.map fun r => if p (key r) then f r else r

/-- Remove the row with the key `k`. -/
def erase [DecidableEq κ] (key : α → κ) (rows : List α) (k : κ) : List α := rows.filter (key · ≠ k)

/-- The rows have distinct keys. -/
def Keyed (key : α → κ) (rows : List α) : Prop := (rows.map key).Nodup

variable {key : α → κ} {rows : List α} {k : κ} {r : α} {p : κ → Bool} {f : α → α}

/-! ## Keys -/

/-- Rows of a keyed table with one key are one row. -/
theorem Keyed.eq_of_key (hk : Keyed key rows) {r' : α} (h : r ∈ rows) (h' : r' ∈ rows)
    (he : key r = key r') : r = r' :=
  List.inj_on_of_nodup_map hk h h' he

theorem keys_update (hf : ∀ r, key (f r) = key r) :
    (update key rows p f).map key = rows.map key := by
  simp only [update, List.map_map]
  refine List.map_congr_left fun a _ => ?_
  by_cases hp : p (key a) = true <;> simp [hp, hf]

theorem Keyed.update (hk : Keyed key rows) (hf : ∀ r, key (f r) = key r) :
    Keyed key (update key rows p f) := by
  rw [Keyed, keys_update hf]
  exact hk

/-- A row may be replaced by another one under its key. -/
theorem Keyed.replace [DecidableEq κ] (hk : Keyed key rows) :
    Keyed key (Table.update key rows (· = key r) fun _ => r) := by
  have hsame : (Table.update key rows (· = key r) fun _ => r).map key = rows.map key := by
    rw [Table.update, List.map_map]
    refine List.map_congr_left fun a _ => ?_
    by_cases ha : key a = key r <;> simp [ha]
  rw [Keyed, hsame]
  exact hk

theorem Keyed.append (hk : Keyed key rows) (hr : ∀ a ∈ rows, key a ≠ key r) :
    Keyed key (rows ++ [r]) := by
  rw [Keyed, List.map_append, List.nodup_append]
  refine ⟨hk, by simp, fun a ha b hb => ?_⟩
  obtain ⟨c, hc, rfl⟩ := List.mem_map.1 ha
  simp only [List.map_cons, List.map_nil, List.mem_singleton] at hb
  subst hb
  exact hr c hc

theorem Keyed.erase [DecidableEq κ] (hk : Keyed key rows) : Keyed key (erase key rows k) :=
  List.Nodup.sublist (List.Sublist.map key List.filter_sublist) hk

/-- A row of an updated table is an old row, changed if its key was picked. -/
theorem mem_update (h : r ∈ update key rows p f) :
    ∃ a ∈ rows, r = if p (key a) then f a else a := by
  obtain ⟨a, ha, rfl⟩ := List.mem_map.1 h
  exact ⟨a, ha, rfl⟩

/-! ## What each operation does to `find` -/

variable [DecidableEq κ]

theorem mem_of_find (h : find key rows k = some r) : r ∈ rows := List.mem_of_find?_eq_some h

theorem key_of_find (h : find key rows k = some r) : key r = k := by
  simpa using List.find?_some h

theorem find_eq_none : find key rows k = none ↔ ∀ r ∈ rows, key r ≠ k := by
  simp [find]

theorem find_cons : find key (r :: rows) k = if key r = k then some r else find key rows k := by
  by_cases h : key r = k <;> simp [find, h]

/-- A row of a keyed table is the one its key finds. -/
theorem Keyed.find (hk : Keyed key rows) (h : r ∈ rows) : find key rows (key r) = some r := by
  cases hf : Table.find key rows (key r) with
  | none => exact absurd rfl (find_eq_none.1 hf r h)
  | some a => rw [hk.eq_of_key (mem_of_find hf) h (key_of_find hf)]

/-- An update that keeps keys is seen under them, on the rows it picks. -/
theorem find_update (hf : ∀ r, key (f r) = key r) :
    find key (update key rows p f) k = (find key rows k).map fun r => if p k then f r else r := by
  induction rows with
  | nil => rfl
  | cons a rows ih =>
    simp only [update, List.map_cons, find_cons] at ih ⊢
    by_cases hp : p (key a) = true
    · by_cases he : key a = k
      · subst he; simp [hp, hf]
      · simp [hp, hf, he, ih]
    · by_cases he : key a = k
      · subst he; simp [hp]
      · simp [hp, he, ih]

/-- A row that replaces the one under its key is seen there, if there was one. -/
theorem find_replace : find key (update key rows (· = key r) fun _ => r) k =
    if k = key r then (find key rows k).map fun _ => r else find key rows k := by
  have hsame : (update key rows (· = key r) fun _ => r) =
      update key rows (· = key r) fun a => if key a = key r then r else a := by
    refine List.map_congr_left fun a _ => ?_
    by_cases ha : key a = key r <;> simp [ha]
  rw [hsame, find_update fun a => by by_cases ha : key a = key r <;> simp [ha]]
  cases hfind : find key rows k with
  | none => simp
  | some a =>
    obtain rfl := key_of_find hfind
    by_cases ha : key a = key r <;> simp [ha]

theorem find_append : find key (rows ++ [r]) k =
    (find key rows k).or (if key r = k then some r else none) := by
  simp only [find, List.find?_append, List.find?_singleton]
  simp

theorem find_erase {k' : κ} :
    find key (erase key rows k) k' = if k' = k then none else find key rows k' := by
  induction rows with
  | nil => simp [find, erase]
  | cons a rows ih =>
    rw [erase, List.filter_cons]
    by_cases ha : key a = k
    · rw [if_neg (by simpa using ha), find_cons, ← erase, ih]
      by_cases hk : k' = k
      · simp [hk]
      · rw [if_neg hk, if_neg hk, if_neg fun h => hk (h.symm.trans ha)]
    · rw [if_pos (by simpa using ha), find_cons, ← erase, ih, find_cons]
      by_cases hk : key a = k'
      · rw [if_pos hk, if_neg fun h => ha (hk.trans h), if_pos hk]
      · rw [if_neg hk, if_neg hk]

end Table
