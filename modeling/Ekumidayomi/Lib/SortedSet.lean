import Mathlib.Data.List.Sort
import Mathlib.Data.Prod.Lex

/-!
# Sorted sets

A sorted set holds each member once, in the order of the scores and, where scores are equal, in that
of the members. A write of a member moves it when it is there already (`insert`), and a range of
lowest scores is dropped at once (`removeThrough`). A proof looks at the list of the scores: it
gains one score with a new member, and is filtered when a range is dropped.
-/

structure SortedSet (σ μ : Type*) [LinearOrder σ] [LinearOrder μ] where
  entries : List (σ ×ₗ μ)
  sorted : entries.Pairwise (· ≤ ·)
  nodup : (entries.map fun e => (ofLex e).2).Nodup

namespace SortedSet

variable {σ μ : Type*} [LinearOrder σ] [LinearOrder μ]

def empty : SortedSet σ μ := ⟨[], .nil, .nil⟩

def scores (s : SortedSet σ μ) : List σ := s.entries.map fun e => (ofLex e).1

def members (s : SortedSet σ μ) : List μ := s.entries.map fun e => (ofLex e).2

def card (s : SortedSet σ μ) : Nat := s.entries.length

/-- The entry with the lowest score. -/
def first (s : SortedSet σ μ) : Option (σ × μ) := s.entries.head?.map ofLex

/-- Give a member its score, whether it is new or not. -/
def insert (s : SortedSet σ μ) (x : σ) (m : μ) : SortedSet σ μ where
  entries := (s.entries.filter fun e => (ofLex e).2 ≠ m).orderedInsert (· ≤ ·) (toLex (x, m))
  sorted := (s.sorted.filter _).orderedInsert _ _
  nodup := by
    rw [((List.perm_orderedInsert _ _ _).map _).nodup_iff]
    refine List.nodup_cons.2 ⟨fun h => ?_, s.nodup.sublist (List.filter_sublist.map _)⟩
    obtain ⟨e, he, hm⟩ := List.mem_map.1 h
    have hne := (List.mem_filter.1 he).2
    simp [hm] at hne

/-- Drop the members whose score is at most `b`. -/
def removeThrough (s : SortedSet σ μ) (b : σ) : SortedSet σ μ where
  entries := s.entries.filter fun e => b < (ofLex e).1
  sorted := s.sorted.filter _
  nodup := s.nodup.sublist (List.filter_sublist.map _)

variable {s : SortedSet σ μ} {x b : σ} {m : μ}

@[simp] theorem scores_empty : (empty : SortedSet σ μ).scores = [] := rfl

@[simp] theorem members_empty : (empty : SortedSet σ μ).members = [] := rfl

@[simp] theorem length_scores : s.scores.length = s.card := by simp [scores, card]

@[simp] theorem scores_removeThrough :
    (s.removeThrough b).scores = s.scores.filter fun x => b < x := by
  simp [scores, removeThrough, List.filter_map, Function.comp_def]

theorem members_removeThrough_subset : (s.removeThrough b).members ⊆ s.members :=
  List.map_subset _ (List.filter_subset_self _)

theorem members_insert_subset : (s.insert x m).members ⊆ m :: s.members := by
  intro m' hm'
  obtain ⟨e, he, rfl⟩ := List.mem_map.1 hm'
  rcases (List.mem_orderedInsert _).1 he with rfl | he
  · exact List.mem_cons_self
  · exact List.mem_cons_of_mem _ (List.mem_map_of_mem (List.mem_of_mem_filter he))

/-- A new member adds its score to the others. -/
theorem scores_insert (h : m ∉ s.members) : (s.insert x m).scores.Perm (x :: s.scores) := by
  have hall : (s.entries.filter fun e => (ofLex e).2 ≠ m) = s.entries := by
    refine List.filter_eq_self.2 fun e he => ?_
    have hne : (ofLex e).2 ≠ m := by
      rintro rfl
      exact h (List.mem_map_of_mem he)
    simpa using hne
  refine ((List.perm_orderedInsert _ _ _).map _).trans ?_
  rw [hall]
  rfl

/-- A set without entries is the empty one. -/
theorem eq_empty_of_card (h : s.card = 0) : s = empty := by
  obtain ⟨entries, _, _⟩ := s
  obtain rfl : entries = [] := List.length_eq_zero_iff.1 h
  rfl

theorem first_eq_none_iff : s.first = none ↔ s.card = 0 := by
  simp [first, card]

/-- The first entry has a score of the set, and no score is lower. -/
theorem first_le {e : σ × μ} (h : s.first = some e) : e.1 ∈ s.scores ∧ ∀ x ∈ s.scores, e.1 ≤ x := by
  obtain ⟨entries, hsorted, _⟩ := s
  cases entries with
  | nil => cases h
  | cons a rest =>
    cases h
    refine ⟨List.mem_cons_self, fun x hx => ?_⟩
    rcases List.mem_cons.1 hx with rfl | hx
    · exact le_refl _
    · obtain ⟨e, he, rfl⟩ := List.mem_map.1 hx
      exact (Prod.Lex.le_iff.1 ((List.pairwise_cons.1 hsorted).1 e he)).elim le_of_lt
        fun h => le_of_eq h.1

end SortedSet
