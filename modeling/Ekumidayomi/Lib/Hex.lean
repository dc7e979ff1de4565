import Mathlib.Algebra.Group.Nat.Defs
import Mathlib.Data.List.Basic

/-!
# Fixed-width hexadecimal text

`digits w n` is the `w`-digit lower-case hexadecimal text of `n`, the most significant digit
first. On numbers below `16 ^ w` it is injective, and its characters are digits, so texts joined
by any other character can be cut apart again.
-/

namespace Hex

/-- The digit of a number below sixteen. -/
def digit (n : Nat) : Char := Nat.digitChar (n % 16)

/-- The sixteen digits. -/
def alphabet : List Char := (List.range 16).map Nat.digitChar

/-- The last `w` digits of a number. -/
def digits : Nat → Nat → List Char
  | 0, _ => []
  | w + 1, n => digits w (n / 16) ++ [digit n]

@[simp] theorem length_digits (w n : Nat) : (digits w n).length = w := by
  induction w generalizing n with
  | zero => rfl
  | succ w ih => simp [digits, ih]

/-- Different residues have different digits. -/
theorem digit_inj {n m : Nat} (h : digit n = digit m) : n % 16 = m % 16 := by
  have key : ∀ a < 16, ∀ b < 16, Nat.digitChar a = Nat.digitChar b → a = b := by decide
  exact key _ (Nat.mod_lt _ (by decide)) _ (Nat.mod_lt _ (by decide)) h

/-- A number that fits is determined by its digits. -/
theorem digits_inj {w n m : Nat} (hn : n < 16 ^ w) (hm : m < 16 ^ w)
    (h : digits w n = digits w m) : n = m := by
  induction w generalizing n m with
  | zero => omega
  | succ w ih =>
    obtain ⟨hq, hr⟩ := List.append_inj' h rfl
    have hdiv : n / 16 = m / 16 := by
      refine ih ?_ ?_ hq
      · rw [Nat.pow_succ] at hn; omega
      · rw [Nat.pow_succ] at hm; omega
    have hmod := digit_inj (List.cons.inj hr).1
    omega

/-- The characters of the text are the sixteen digits. -/
theorem mem_digits {w n : Nat} {c : Char} (h : c ∈ digits w n) : c ∈ alphabet := by
  induction w generalizing n with
  | zero => cases h
  | succ w ih =>
    rcases List.mem_append.1 h with h | h
    · exact ih h
    · rw [List.mem_singleton] at h
      rw [h]
      exact List.mem_map_of_mem (List.mem_range.2 (Nat.mod_lt _ (by decide)))

end Hex
