import Ekumidayomi.Lib.Run

/-!
# Programs that ask

A program asks its environment questions and goes on with the answers, until it returns or raises
(`Dialogue`). The environment answers as it likes, so a run of a program is a list of questions with
their answers. `wp` reads off the program what holds of each question given what was said before it,
and of what is returned or raised given all that was said; it holds of every run (`wp_run`,
`wp_returned`). `converse` runs a program with an environment that answers by the question alone.
-/

/-- A program with questions in `Q`, where `R q` are the answers to `q`. -/
inductive Dialogue (Q : Type) (R : Q → Type) (ε α : Type)
  | ret (a : α)
  | throw (e : ε)
  | ask (q : Q) (k : R q → Dialogue Q R ε α)

namespace Dialogue

variable {Q : Type} {R : Q → Type} {ε α β : Type}

/-- A question with its answer. -/
abbrev Said (R : Q → Type) := Sigma R

def bind : Dialogue Q R ε α → (α → Dialogue Q R ε β) → Dialogue Q R ε β
  | ret a, f => f a
  | throw e, _ => throw e
  | ask q k, f => ask q fun r => (k r).bind f

def handle : Dialogue Q R ε α → (ε → Dialogue Q R ε α) → Dialogue Q R ε α
  | ret a, _ => ret a
  | throw e, h => h e
  | ask q k, h => ask q fun r => (k r).handle h

instance : Monad (Dialogue Q R ε) where
  pure := ret
  bind := bind

instance : MonadExceptOf ε (Dialogue Q R ε) where
  throw := throw
  tryCatch := handle

/-- The answer to a question. -/
def answer (q : Q) : Dialogue Q R ε (R q) := ask q ret

/-- The result of a computation that asks nothing. -/
def ofExcept : Except ε α → Dialogue Q R ε α
  | .ok a => ret a
  | .error e => throw e

/-- The program goes on with an answer to its question. -/
inductive Step : Dialogue Q R ε α → Said R → Dialogue Q R ε α → Prop
  | ask {q : Q} {k : R q → Dialogue Q R ε α} (r : R q) : Step (ask q k) ⟨q, r⟩ (k r)

/-- What was said when the program returned. -/
def Returns (p : Dialogue Q R ε α) (said : List (Said R)) (a : α) : Prop :=
  Lts.Run Step p said (ret a)

/-- After what was said, the program asks in `G`, and returns in `P` or raises in `E`. -/
def wp (G : List (Said R) → Q → Prop) (P : α → List (Said R) → Prop)
    (E : ε → List (Said R) → Prop) : Dialogue Q R ε α → List (Said R) → Prop
  | ret a, said => P a said
  | throw e, said => E e said
  | ask q k, said => G said q ∧ ∀ r, wp G P E (k r) (said ++ [⟨q, r⟩])

section
variable {G : List (Said R) → Q → Prop} {P P' : α → List (Said R) → Prop}
  {E E' : ε → List (Said R) → Prop} {B : β → List (Said R) → Prop} {said : List (Said R)}
  {p p' : Dialogue Q R ε α}

@[simp] theorem wp_pure {a : α} : wp G P E (pure a) said ↔ P a said := Iff.rfl

@[simp] theorem wp_throw {e : ε} : wp G P E (MonadExcept.throw e) said ↔ E e said := Iff.rfl

@[simp] theorem wp_answer {q : Q} {P : R q → List (Said R) → Prop} :
    wp G P E (answer q : Dialogue Q R ε (R q)) said ↔
      G said q ∧ ∀ r, P r (said ++ [⟨q, r⟩]) := Iff.rfl

theorem wp_bind {f : α → Dialogue Q R ε β} :
    wp G B E (p >>= f) said ↔ wp G (fun a => wp G B E (f a)) E p said := by
  show wp G B E (p.bind f) said ↔ _
  induction p generalizing said with
  | ret | throw => exact Iff.rfl
  | ask q k ih => exact and_congr_right fun _ => forall_congr' fun r => ih r

theorem wp_tryCatch {h : ε → Dialogue Q R ε α} :
    wp G P E (tryCatch p h) said ↔ wp G P (fun e => wp G P E (h e)) p said := by
  show wp G P E (p.handle h) said ↔ _
  induction p generalizing said with
  | ret | throw => exact Iff.rfl
  | ask q k ih => exact and_congr_right fun _ => forall_congr' fun r => ih r

theorem wp_mono (h : wp G P E p said) (hP : ∀ a said, P a said → P' a said)
    (hE : ∀ e said, E e said → E' e said) : wp G P' E' p said := by
  induction p generalizing said with
  | ret a => exact hP a said h
  | throw e => exact hE e said h
  | ask q k ih => exact ⟨h.1, fun r => ih r (h.2 r)⟩

theorem wp_ofExcept {x : Except ε α} (hok : ∀ a, x = .ok a → P a said)
    (herror : ∀ e, x = .error e → E e said) : wp G P E (ofExcept x) said := by
  cases x with
  | ok a => exact hok a rfl
  | error e => exact herror e rfl

/-- A check that raises when it fails. -/
theorem wp_guard {c : Prop} [Decidable c] {e : ε} {next : Unit → Dialogue Q R ε α}
    (herror : c → E e said) (hok : ¬ c → wp G P E (next ()) said) :
    wp G P E (if c then MonadExcept.throw e >>= next else next ()) said := by
  by_cases h : c
  · rw [if_pos h]
    exact herror h
  · rw [if_neg h]
    exact hok h

/-- What the program asks on a run is as `wp` has it, and so is what is left of the program. -/
theorem wp_run (h : wp G P E p said) {more : List (Said R)} (hrun : Lts.Run Step p more p') :
    wp G P E p' (said ++ more) ∧
      ∀ front x rest, more = front ++ x :: rest → G (said ++ front) x.1 := by
  induction hrun with
  | nil => exact ⟨by simpa using h, by simp⟩
  | @snoc m m' more x hrun hstep ih =>
    obtain ⟨hm, hasked⟩ := ih
    cases hstep with
    | @ask q k r =>
      refine ⟨by simpa using hm.2 r, fun front y rest heq => ?_⟩
      rcases List.eq_nil_or_concat rest with rfl | ⟨rest', z, rfl⟩
      · obtain ⟨rfl, hy⟩ := List.append_inj' heq rfl
        cases hy
        exact hm.1
      · rw [List.concat_eq_append, ← List.cons_append, ← List.append_assoc] at heq
        exact hasked front y rest' (List.append_inj' heq rfl).1

/-- What a program returns is as `wp` has it. -/
theorem wp_returned (h : wp G P E p []) {a : α} (hret : p.Returns said a) : P a said := by
  exact (wp_run h hret).1

end

/-- What is said, and how the program ends, when the environment gives these answers. -/
def converse (env : (q : Q) → R q) : Dialogue Q R ε α → List (Said R) × Except ε α
  | ret a => ([], .ok a)
  | throw e => ([], .error e)
  | ask q k =>
    let (said, result) := (k (env q)).converse env
    (⟨q, env q⟩ :: said, result)

theorem run_converse (env : (q : Q) → R q) (p : Dialogue Q R ε α) :
    ∃ p', Lts.Run Step p (p.converse env).1 p' := by
  induction p with
  | ret a => exact ⟨ret a, .nil⟩
  | throw e => exact ⟨throw e, .nil⟩
  | ask q k ih =>
    obtain ⟨p', hrun⟩ := ih (env q)
    exact ⟨p', (Lts.Run.single (.ask (env q))).append hrun⟩

theorem returns_of_converse {env : (q : Q) → R q} {p : Dialogue Q R ε α} {a : α}
    (h : (p.converse env).2 = .ok a) : p.Returns (p.converse env).1 a := by
  induction p with
  | ret b =>
    cases h
    exact .nil
  | throw e => cases h
  | ask q k ih => exact (Lts.Run.single (.ask (env q))).append (ih (env q) h)

end Dialogue
