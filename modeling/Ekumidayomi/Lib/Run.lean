import Mathlib.Data.List.Basic
import Mathlib.Data.List.Induction

/-!
# Runs of a labelled transition system

A system is a relation `step : σ → ℓ → σ → Prop`; a run is a finite sequence of its steps together
with the labels it took, oldest first (`Run`). The rules a development uses are here: a run is cut
and joined at any state (`Run.append`, `Run.split`), what every step keeps a run keeps
(`Run.invariant`), what becomes true does so in one step (`Run.crosses`), what depends on the past
is an invariant of the labels so far (`Run.history`), what a step satisfies given its past each step
of a run satisfies (`Run.judged`), and a relation that every step satisfies relates the ends of a run
(`Run.lift`).
-/

namespace Lts

variable {σ τ ℓ : Type*}

/-- A run of `step` from the first state to the last, with the labels of its steps in order. -/
inductive Run (step : σ → ℓ → σ → Prop) : σ → List ℓ → σ → Prop
  | nil {s : σ} : Run step s [] s
  | snoc {s s' s'' : σ} {tr : List ℓ} {l : ℓ} :
      Run step s tr s' → step s' l s'' → Run step s (tr ++ [l]) s''

/-- The relation of a deterministic system given by a partial step function. -/
def Taken (f : σ → ℓ → Option σ) (s : σ) (l : ℓ) (s' : σ) : Prop := f s l = some s'

instance (f : σ → ℓ → Option σ) [DecidableEq σ] (s : σ) (l : ℓ) (s' : σ) :
    Decidable (Taken f s l s') :=
  inferInstanceAs (Decidable (f s l = some s'))

section
variable {step : σ → ℓ → σ → Prop} {s s' s'' : σ} {tr tr' : List ℓ} {l : ℓ}

/-- A single step is a run. -/
theorem Run.single (h : step s l s') : Run step s [l] s' := .snoc .nil h

/-- Two runs that meet form one run. -/
theorem Run.append (h : Run step s tr s') (h' : Run step s' tr' s'') :
    Run step s (tr ++ tr') s'' := by
  induction h' with
  | nil => simpa using h
  | snoc _ hs ih => rw [← List.append_assoc]; exact ih.snoc hs

/-- A run whose labels fall in two parts passes through a state between them. -/
theorem Run.split (h : Run step s (tr ++ tr') s'') :
    ∃ s', Run step s tr s' ∧ Run step s' tr' s'' := by
  induction tr' using List.reverseRecOn generalizing s'' with
  | nil => exact ⟨s'', by simpa using h, .nil⟩
  | append_singleton tr' l ih =>
    rw [← List.append_assoc] at h
    generalize he : (tr ++ tr') ++ [l] = full at h
    cases h with
    | nil => simp at he
    | snoc h hs =>
      obtain ⟨rfl, hl⟩ := List.append_inj' he rfl
      cases hl
      obtain ⟨m, h1, h2⟩ := ih h
      exact ⟨m, h1, h2.snoc hs⟩

/-- The run passes through the state `m`. -/
def Visits (step : σ → ℓ → σ → Prop) (s : σ) (tr : List ℓ) (s' m : σ) : Prop :=
  ∃ tr₁ tr₂, tr = tr₁ ++ tr₂ ∧ Run step s tr₁ m ∧ Run step m tr₂ s'

/-- The run takes the step from `m` to `m'`. -/
def Takes (step : σ → ℓ → σ → Prop) (s : σ) (tr : List ℓ) (s' m : σ) (l : ℓ) (m' : σ) : Prop :=
  ∃ tr₁ tr₂, tr = tr₁ ++ l :: tr₂ ∧ Run step s tr₁ m ∧ step m l m' ∧ Run step m' tr₂ s'

theorem Visits.last (h : Run step s tr s') : Visits step s tr s' s' :=
  ⟨tr, [], by simp, h, .nil⟩

theorem Visits.snoc {m : σ} (h : Visits step s tr s' m) (hs : step s' l s'') :
    Visits step s (tr ++ [l]) s'' m := by
  obtain ⟨tr₁, tr₂, rfl, h1, h2⟩ := h
  exact ⟨tr₁, tr₂ ++ [l], by simp, h1, h2.snoc hs⟩

theorem Takes.last (h : Run step s tr s') (hs : step s' l s'') :
    Takes step s (tr ++ [l]) s'' s' l s'' :=
  ⟨tr, [], rfl, h, hs, .nil⟩

theorem Takes.snoc {m m' : σ} {k : ℓ} (h : Takes step s tr s' m k m') (hs : step s' l s'') :
    Takes step s (tr ++ [l]) s'' m k m' := by
  obtain ⟨tr₁, tr₂, rfl, h1, hk, h2⟩ := h
  exact ⟨tr₁, tr₂ ++ [l], by simp, h1, hk, h2.snoc hs⟩

/-- A step of the first part of a run is a step of the run. -/
theorem Takes.append {m m' : σ} {k : ℓ} (h : Takes step s tr s' m k m')
    (h' : Run step s' tr' s'') : Takes step s (tr ++ tr') s'' m k m' := by
  obtain ⟨tr₁, tr₂, rfl, h1, hk, h2⟩ := h
  exact ⟨tr₁, tr₂ ++ tr', by simp, h1, hk, h2.append h'⟩

/-- What every step keeps, a run keeps. -/
theorem Run.invariant {I : σ → Prop} (hstep : ∀ {s l s'}, I s → step s l s' → I s')
    (h : Run step s tr s') (h0 : I s) : I s' := by
  induction h with
  | nil => exact h0
  | snoc _ hs ih => exact hstep ih hs

/-- What does not hold at the start of a run and holds at its end becomes true in one of its
steps. -/
theorem Run.crosses {P : σ → Prop} (h : Run step s tr s') (hs : ¬ P s) (hs' : P s') :
    ∃ m l m', Takes step s tr s' m l m' ∧ ¬ P m ∧ P m' := by
  induction h with
  | nil => exact absurd hs' hs
  | @snoc m s' tr l hrun hstep ih =>
    by_cases hm : P m
    · obtain ⟨n, k, n', htakes, hn⟩ := ih hm
      exact ⟨n, k, n', htakes.snoc hstep, hn⟩
    · exact ⟨m, l, s', .last hrun hstep, hm, hs'⟩

/-- A property of the labels taken so far and of the state they lead to, kept by every step. -/
theorem Run.history {I : List ℓ → σ → Prop}
    (hstep : ∀ {tr s l s'}, I tr s → step s l s' → I (tr ++ [l]) s')
    (h : Run step s tr s') (h0 : I [] s) : I tr s' := by
  induction h with
  | nil => exact h0
  | snoc _ hs ih => exact hstep ih hs

/-- What every step satisfies, given the labels before it, every step of a run satisfies. -/
theorem Run.judged {I : List ℓ → σ → Prop} {V : List ℓ → ℓ → Prop}
    (hstep : ∀ {tr s l s'}, I tr s → step s l s' → I (tr ++ [l]) s')
    (hlabel : ∀ {tr s l s'}, I tr s → step s l s' → V tr l)
    (h : Run step s tr s') (h0 : I [] s) {before after : List ℓ} (heq : tr = before ++ l :: after) :
    V before l := by
  induction h generalizing after with
  | nil => simp at heq
  | @snoc m _ tr k hrun hs ih =>
    obtain rfl | ⟨after, last, rfl⟩ := List.eq_nil_or_concat' after
    · obtain ⟨rfl, hl⟩ := List.append_inj' heq rfl
      obtain rfl := (List.cons.inj hl).1
      exact hlabel (hrun.history hstep h0) hs
    · rw [← List.cons_append, ← List.append_assoc] at heq
      exact ih (List.append_inj' heq rfl).1

/-- A reflexive, transitive relation that every step satisfies relates the ends of a run. -/
theorem Run.lift {R : σ → σ → Prop} (hrefl : ∀ s, R s s)
    (htrans : ∀ {a b c}, R a b → R b c → R a c) (hstep : ∀ {s l s'}, step s l s' → R s s')
    (h : Run step s tr s') : R s s' := by
  induction h with
  | nil => exact hrefl _
  | snoc _ hs ih => exact htrans ih (hstep hs)

/-- The steps of a run are steps of a system that allows more. -/
theorem Run.weaken {step' : σ → ℓ → σ → Prop} (h : Run step s tr s')
    (hstep : ∀ {s l s'}, step s l s' → step' s l s') : Run step' s tr s' := by
  induction h with
  | nil => exact .nil
  | snoc _ hs ih => exact ih.snoc (hstep hs)

end

end Lts
