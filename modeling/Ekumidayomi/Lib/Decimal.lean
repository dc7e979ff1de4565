import Mathlib.Algebra.Order.Field.Power
import Mathlib.Data.Nat.Log
import Mathlib.Tactic.FieldSimp
import Mathlib.Tactic.Linarith
import Mathlib.Tactic.Ring

/-!
# Decimal numbers

The numbers of the General Decimal Arithmetic: a finite one is a sign, a coefficient and an
exponent, so numbers of one value may differ in their exponents, and zero has a sign. A context is
its precision, the number of digits that a result may have; its bounds on exponents are far from
those of the operands here. Results are rounded half to even. `none` is the signal of an invalid
operation.

`quantize` gives a number a new exponent and fails where that takes too many digits, and `add`
rounds to the precision. A sum that `add` rounded is refused by `quantize` at the exponent of the
exact sum (`quantize_fix`), so the two together are exact or fail.
-/

namespace Decimal

/-! ## Rounding half to even -/

/-- `n` is the integer nearest to `q`, and even if another one is as near. -/
structure IsNearestEven (n : ℤ) (q : ℚ) : Prop where
  nearest : ∀ k : ℤ, |n - q| ≤ |k - q|
  even : ∀ k : ℤ, k ≠ n → |n - q| = |k - q| → Even n

section
variable {n k : ℤ} {q : ℚ}

theorem one_le_abs_sub (h : k ≠ n) : (1 : ℚ) ≤ |(k : ℚ) - n| := by
  have hint : (1 : ℤ) ≤ |k - n| := Int.one_le_abs (sub_ne_zero.2 h)
  exact_mod_cast hint

/-- The nearest integer is at most one half away, and even at one half. -/
theorem isNearestEven_iff : IsNearestEven n q ↔ |n - q| ≤ 1 / 2 ∧ (|n - q| = 1 / 2 → Even n) := by
  refine ⟨fun h => ?_, fun ⟨hle, heven⟩ => ⟨fun k => ?_, fun k hk hsame => heven ?_⟩⟩
  · have hup := h.nearest (n + 1)
    have hdown := h.nearest (n - 1)
    push_cast at hup hdown
    have hle : |n - q| ≤ 1 / 2 := by
      rcases abs_cases ((n : ℚ) - q) with ⟨h₁, -⟩ | ⟨h₁, -⟩ <;>
      rcases abs_cases ((n : ℚ) + 1 - q) with ⟨h₂, -⟩ | ⟨h₂, -⟩ <;>
      rcases abs_cases ((n : ℚ) - 1 - q) with ⟨h₃, -⟩ | ⟨h₃, -⟩ <;> linarith
    refine ⟨hle, fun hhalf => ?_⟩
    -- at one half the integer on the other side is as near
    rcases abs_cases ((n : ℚ) - q) with ⟨habs, -⟩ | ⟨habs, -⟩
    · refine h.even (n - 1) (by omega) ?_
      rw [hhalf, show ((n - 1 : ℤ) : ℚ) - q = -(1 / 2) by push_cast; linarith, abs_neg, abs_of_pos]
      norm_num
    · refine h.even (n + 1) (by omega) ?_
      rw [hhalf, show ((n + 1 : ℤ) : ℚ) - q = 1 / 2 by push_cast; linarith, abs_of_pos]
      norm_num
  · rcases eq_or_ne k n with rfl | hk
    · exact le_rfl
    · have hone := one_le_abs_sub hk
      have htri := abs_sub_le (k : ℚ) q n
      rw [abs_sub_comm q] at htri
      linarith
  · have hone := one_le_abs_sub hk
    have htri := abs_sub_le (k : ℚ) q n
    rw [abs_sub_comm q] at htri
    linarith

theorem IsNearestEven.neg (h : IsNearestEven n q) : IsNearestEven (-n) (-q) := by
  rw [isNearestEven_iff] at h ⊢
  have hsub : ((-n : ℤ) : ℚ) - -q = -(n - q) := by push_cast; ring
  rw [hsub, abs_neg, even_neg]
  exact h

/-- An integer is nearest to itself. -/
theorem isNearestEven_intCast (n : ℤ) : IsNearestEven n n := by
  rw [isNearestEven_iff, sub_self, abs_zero]
  norm_num

/-- What is rounded stays below an even bound if it is more than one half below it. -/
theorem IsNearestEven.lt_iff {bound : ℤ} (h : IsNearestEven n q) (hbound : Even bound) :
    n < bound ↔ q < bound - 1 / 2 := by
  rw [isNearestEven_iff] at h
  obtain ⟨hle, heven⟩ := h
  have hrange := abs_le.1 hle
  refine ⟨fun hlt => ?_, fun hlt => ?_⟩
  · have hlast : (n : ℚ) ≤ bound - 1 := by exact_mod_cast Int.le_sub_one_of_lt hlt
    by_contra hge
    -- the only way left is the tie between `bound - 1` and `bound`, and `bound - 1` is odd
    have hn : (n : ℚ) = bound - 1 := by linarith [hrange.1]
    have htie : |n - q| = 1 / 2 := by
      rw [abs_sub_comm, abs_of_nonneg] <;> linarith [hrange.1]
    have hodd : n = bound - 1 := by exact_mod_cast hn
    rw [hodd, Int.even_sub_one] at heven
    exact heven (by rw [← hodd]; exact htie) hbound
  · by_contra hge
    have hge : (bound : ℚ) ≤ n := by exact_mod_cast Int.not_lt.1 hge
    linarith [hrange.2]

end

/-- `n / d`, rounded half to even. -/
def divHalfEven (n d : ℕ) : ℕ :=
  if 2 * (n % d) < d then n / d
  else if d < 2 * (n % d) then n / d + 1
  else if n / d % 2 = 0 then n / d
  else n / d + 1

theorem divHalfEven_nearest {n d : ℕ} (hd : 0 < d) :
    IsNearestEven (divHalfEven n d) ((n : ℚ) / d) := by
  have hd' : (0 : ℚ) < d := by exact_mod_cast hd
  have hmod := Nat.mod_lt n hd
  have hn := Nat.div_add_mod' n d
  unfold divHalfEven
  generalize n / d = k at *
  generalize n % d = r at *
  -- the quotient is the whole part `k` and a part `f` below one
  obtain ⟨f, hf⟩ : ∃ f : ℚ, f * d = r := ⟨r / d, div_mul_cancel₀ _ hd'.ne'⟩
  have hquot : (n : ℚ) / d = k + f := by
    rw [div_eq_iff hd'.ne', add_mul, hf, ← hn]
    push_cast
    ring
  have hnonneg : 0 ≤ f := by
    have : 0 ≤ f * d := hf ▸ Nat.cast_nonneg r
    exact nonneg_of_mul_nonneg_left this hd'
  rw [isNearestEven_iff, hquot]
  split
  case isTrue hlow =>
    have hlow : 2 * f < 1 := by
      have : 2 * (f * d) < d := by rw [hf]; exact_mod_cast hlow
      exact lt_of_mul_lt_mul_right (by linarith) hd'.le
    rw [Int.cast_natCast, sub_add_cancel_left, abs_neg, abs_of_nonneg hnonneg]
    exact ⟨by linarith, fun h => by linarith⟩
  case isFalse hlow =>
    have hlow : 1 ≤ 2 * f := by
      have : (d : ℚ) ≤ 2 * (f * d) := by rw [hf]; exact_mod_cast Nat.not_lt.1 hlow
      exact le_of_mul_le_mul_right (by linarith) hd'
    have hone : f < 1 := by
      have : f * d < d := by rw [hf]; exact_mod_cast hmod
      exact lt_of_mul_lt_mul_right (by linarith) hd'.le
    split
    case isTrue hhigh =>
      have hhigh : 1 < 2 * f := by
        have : (d : ℚ) < 2 * (f * d) := by rw [hf]; exact_mod_cast hhigh
        exact lt_of_mul_lt_mul_right (by linarith) hd'.le
      rw [Int.cast_natCast, Nat.cast_add_one, add_sub_add_left_eq_sub, abs_of_pos (by linarith)]
      exact ⟨by linarith, fun h => by linarith⟩
    case isFalse hhigh =>
      have hhigh : 2 * f ≤ 1 := by
        have : 2 * (f * d) ≤ (d : ℚ) := by rw [hf]; exact_mod_cast Nat.not_lt.1 hhigh
        exact le_of_mul_le_mul_right (by linarith) hd'
      split
      case isTrue heven =>
        rw [Int.cast_natCast, sub_add_cancel_left, abs_neg, abs_of_nonneg hnonneg]
        exact ⟨by linarith, fun _ => by exact_mod_cast Nat.even_iff.2 heven⟩
      case isFalse hodd =>
        rw [Int.cast_natCast, Nat.cast_add_one, add_sub_add_left_eq_sub, abs_of_pos (by linarith)]
        refine ⟨by linarith, fun _ => ?_⟩
        rw [Int.even_coe_nat, Nat.even_add_one]
        exact fun h => hodd (Nat.even_iff.1 h)

/-! ## Finite numbers -/

/-- The finite number `± coefficient * 10 ^ exponent`. -/
structure Finite where
  negative : Bool
  coefficient : ℕ
  exponent : ℤ
  deriving DecidableEq, Repr

namespace Finite

variable {x y : Finite} {e : ℤ}

/-- The coefficient with its sign. -/
def signed (x : Finite) : ℤ := if x.negative then -x.coefficient else x.coefficient

def value (x : Finite) : ℚ := x.signed * 10 ^ x.exponent

@[simp] theorem natAbs_signed (x : Finite) : x.signed.natAbs = x.coefficient := by
  unfold signed
  split <;> simp

/-- The coefficient is the absolute value in units of the last digit. -/
theorem abs_value (x : Finite) : |x.value| = x.coefficient * 10 ^ x.exponent := by
  rw [value, abs_mul, abs_of_pos (zpow_pos (by norm_num) x.exponent : (0 : ℚ) < 10 ^ x.exponent),
    ← Int.cast_abs, Int.abs_eq_natAbs, natAbs_signed, Int.cast_natCast]

/-- `_rescale`: the number with another exponent, rounded half to even. -/
def rescale (x : Finite) (e : ℤ) : Finite :=
  { x with
    coefficient :=
      if e ≤ x.exponent then x.coefficient * 10 ^ (x.exponent - e).toNat
      else divHalfEven x.coefficient (10 ^ (e - x.exponent).toNat)
    exponent := e }

@[simp] theorem rescale_exponent (x : Finite) (e : ℤ) : (x.rescale e).exponent = e := rfl

@[simp] theorem rescale_negative (x : Finite) (e : ℤ) : (x.rescale e).negative = x.negative := rfl

theorem rescale_self (x : Finite) : x.rescale x.exponent = x := by
  simp [rescale]

/-- Powers of ten at two exponents. -/
theorem zpow_split {i : ℤ} (h : e ≤ i) : (10 : ℚ) ^ i = 10 ^ (i - e).toNat * 10 ^ e := by
  rw [← zpow_natCast, Int.toNat_of_nonneg (by omega), ← zpow_add₀ (by norm_num)]
  congr 1
  omega

/-- The new coefficient is nearest to the absolute value in units of the new last digit. -/
theorem rescale_nearest (x : Finite) (e : ℤ) :
    IsNearestEven (x.rescale e).coefficient (|x.value| / 10 ^ e) := by
  have hpos : (0 : ℚ) < 10 ^ e := zpow_pos (by norm_num) e
  rw [abs_value, rescale]
  dsimp only
  split
  case isTrue h =>
    have hexact : (x.coefficient : ℚ) * 10 ^ x.exponent / 10 ^ e =
        ((x.coefficient * 10 ^ (x.exponent - e).toNat : ℕ) : ℤ) := by
      rw [zpow_split h, ← mul_assoc, mul_div_cancel_right₀ _ hpos.ne']
      push_cast
      rfl
    rw [hexact]
    exact isNearestEven_intCast _
  case isFalse h =>
    have hquot : (x.coefficient : ℚ) * 10 ^ x.exponent / 10 ^ e =
        (x.coefficient : ℚ) / (10 ^ (e - x.exponent).toNat : ℕ) := by
      have hx : (10 : ℚ) ^ x.exponent ≠ 0 := (zpow_pos (by norm_num) _).ne'
      rw [zpow_split (Int.not_le.1 h).le, mul_div_mul_right _ _ hx]
      push_cast
      rfl
    rw [hquot]
    exact divHalfEven_nearest (by positivity)

/-- The sign stays in front of what is rounded. -/
theorem rescale_signed_nearest (x : Finite) (e : ℤ) :
    IsNearestEven (x.rescale e).signed (x.value / 10 ^ e) := by
  have h := rescale_nearest x e
  rw [abs_value, mul_div_assoc] at h
  rw [signed, value, signed, mul_div_assoc, rescale_negative]
  split
  · have hneg := h.neg
    rwa [← neg_mul, ← Int.cast_natCast, ← Int.cast_neg] at hneg
  · exact h

/-- How a number compares with an even bound on its digits at another exponent. -/
theorem rescale_lt_iff (x : Finite) (e : ℤ) {prec : ℕ} (hprec : 0 < prec) :
    (x.rescale e).coefficient < 10 ^ prec ↔ |x.value| < (10 ^ prec - 1 / 2) * 10 ^ e := by
  have hpos : (0 : ℚ) < 10 ^ e := zpow_pos (by norm_num) e
  have heven : Even ((10 : ℤ) ^ prec) := 
    Int.even_pow.2 ⟨by decide, hprec.ne'⟩
  have h := (rescale_nearest x e).lt_iff heven
  rw [div_lt_iff₀ hpos] at h
  push_cast at h
  rw [← h]
  exact_mod_cast Iff.rfl

/-- The number of digits of the coefficient. -/
def digits (x : Finite) : ℕ := (Nat.toDigits 10 x.coefficient).length

/-- `_fix`: the number rounded to a precision, if it has more digits. -/
def fix (prec : ℕ) (x : Finite) : Finite :=
  if x.digits ≤ prec then x
  else
    let r := x.rescale (x.exponent + (x.digits - prec : ℕ))
    if r.coefficient < 10 ^ prec then r
    else { r with coefficient := r.coefficient / 10, exponent := r.exponent + 1 }

theorem digits_le_iff {k : ℕ} (hk : 0 < k) : x.digits ≤ k ↔ x.coefficient < 10 ^ k :=
  Nat.length_toDigits_le_iff (by decide) hk

theorem fix_of_lt {prec : ℕ} (hprec : 0 < prec) (h : x.coefficient < 10 ^ prec) :
    x.fix prec = x :=
  if_pos ((digits_le_iff hprec).2 h)

theorem div_le_divHalfEven (n d : ℕ) : n / d ≤ divHalfEven n d := by
  unfold divHalfEven
  repeat' split
  all_goals omega

/-- A digit more in front of the new last digit. -/
theorem le_rescale {prec k : ℕ} (hprec : 0 < prec) (hk : 0 < k) (hexp : x.exponent = e + k)
    (h : 10 ^ (prec - 1) ≤ x.coefficient) : 10 ^ prec ≤ (x.rescale e).coefficient := by
  rw [rescale, hexp]
  dsimp only
  rw [if_pos (by omega), show (e + k - e).toNat = k by omega]
  calc 10 ^ prec ≤ 10 ^ (prec - 1 + k) := Nat.pow_le_pow_right (by decide) (by omega)
    _ = 10 ^ (prec - 1) * 10 ^ k := pow_add _ _ _
    _ ≤ x.coefficient * 10 ^ k := Nat.mul_le_mul_right _ h

/-- A number with too many digits, once rounded, still has too many at its old exponent. -/
theorem le_rescale_fix {prec : ℕ} (hprec : 0 < prec) (h : 10 ^ prec ≤ x.coefficient) :
    10 ^ prec ≤ ((x.fix prec).rescale x.exponent).coefficient := by
  have hmany : ¬ x.digits ≤ prec := by rwa [digits_le_iff hprec, Nat.not_lt]
  have hlow : 10 ^ (x.digits - 1) ≤ x.coefficient := by
    rw [← Nat.not_lt, ← digits_le_iff (by omega)]
    omega
  rw [fix, if_neg hmany]
  obtain ⟨k, hk⟩ : ∃ k, x.digits = prec + k := Nat.exists_eq_add_of_le (by omega)
  rw [hk, Nat.add_sub_cancel_left]
  -- the rounded coefficient keeps `prec` digits, or has one more
  have hround : 10 ^ (prec - 1) ≤ (x.rescale (x.exponent + k)).coefficient := by
    rw [rescale]
    dsimp only
    rw [if_neg (by omega), show (x.exponent + k - x.exponent).toNat = k by omega]
    refine le_trans ?_ (div_le_divHalfEven _ _)
    rw [Nat.le_div_iff_mul_le (by positivity), ← pow_add]
    exact le_trans (Nat.pow_le_pow_right (by decide) (by omega)) hlow
  dsimp only
  split
  case isTrue => exact le_rescale hprec (by omega : 0 < k) rfl hround
  case isFalse hcarry =>
    refine le_rescale (k := k + 1) hprec (by omega) ?_ ?_
    · rw [rescale_exponent]
      push_cast
      ring
    · rw [Nat.le_div_iff_mul_le (by decide), ← pow_succ, Nat.sub_add_cancel hprec]
      exact Nat.not_lt.1 hcarry

/-- The coefficient with its sign at a lower exponent. -/
def signedAt (x : Finite) (e : ℤ) : ℤ := x.signed * 10 ^ (x.exponent - e).toNat

theorem value_eq_signedAt (h : e ≤ x.exponent) : x.value = x.signedAt e * 10 ^ e := by
  rw [value, zpow_split h, ← mul_assoc, signedAt]
  push_cast
  rfl

/-- The exact sum. A zero is negative if both numbers are. -/
def add (x y : Finite) : Finite :=
  let e := min x.exponent y.exponent
  let sum := x.signedAt e + y.signedAt e
  { negative := if sum = 0 then x.negative && y.negative else sum < 0
    coefficient := sum.natAbs
    exponent := e }

/-- `copy_negate`. -/
def neg (x : Finite) : Finite := { x with negative := !x.negative }

@[simp] theorem add_exponent (x y : Finite) :
    (x.add y).exponent = min x.exponent y.exponent := rfl

theorem signed_add (x y : Finite) : (x.add y).signed =
    x.signedAt (min x.exponent y.exponent) + y.signedAt (min x.exponent y.exponent) := by
  rw [add, signed]
  dsimp only
  generalize x.signedAt _ + y.signedAt _ = sum
  rcases lt_trichotomy sum 0 with h | rfl | h
  · rw [if_neg h.ne, if_pos (by simpa using h)]
    omega
  · simp
  · rw [if_neg h.ne', if_neg (by simpa using h.le)]
    omega

theorem value_add (x y : Finite) : (x.add y).value = x.value + y.value := by
  rw [value_eq_signedAt (min_le_left x.exponent y.exponent),
    value_eq_signedAt (min_le_right x.exponent y.exponent), ← add_mul, value, signed_add,
    add_exponent]
  push_cast
  rfl

theorem signed_neg (x : Finite) : x.neg.signed = -x.signed := by
  cases h : x.negative <;> simp [neg, signed, h]

theorem value_neg (x : Finite) : x.neg.value = -x.value := by
  rw [value, signed_neg, value, Int.cast_neg, neg_mul]
  rfl

end Finite

/-! ## Numbers and their operations -/

/-- A number; a signalling NaN makes every operation on it fail. -/
inductive Number
  | finite (x : Finite)
  | infinity (negative : Bool)
  | nan (signaling : Bool)
  deriving DecidableEq, Repr

namespace Number

/-- `quantize(Decimal((0, (1,), e)), ROUND_HALF_EVEN)`. -/
def quantize (prec : ℕ) (e : ℤ) : Number → Option Number
  | .finite x =>
    if (x.rescale e).coefficient < 10 ^ prec then some (.finite (x.rescale e)) else none
  | .infinity _ => none
  | .nan signaling => if signaling then none else some (.nan false)

/-- `+`. -/
def add (prec : ℕ) : Number → Number → Option Number
  | .nan s, .nan t => if s || t then none else some (.nan false)
  | .nan s, _ | _, .nan s => if s then none else some (.nan false)
  | .infinity s, .infinity t => if s = t then some (.infinity s) else none
  | .infinity s, _ | _, .infinity s => some (.infinity s)
  | .finite x, .finite y => some (.finite ((x.add y).fix prec))

/-- `copy_negate`. -/
def neg : Number → Number
  | .finite x => .finite x.neg
  | .infinity s => .infinity (!s)
  | .nan signaling => .nan signaling

/-- `-`. -/
def sub (prec : ℕ) (x y : Number) : Option Number := x.add prec y.neg

/-- `==`, which no NaN is to any number. -/
def eq : Number → Number → Bool
  | .finite x, .finite y =>
    x.signedAt (min x.exponent y.exponent) == y.signedAt (min x.exponent y.exponent)
  | .infinity s, .infinity t => s == t
  | _, _ => false

theorem eq_finite {x y : Finite} : eq (.finite x) (.finite y) = true ↔ x.value = y.value := by
  have hpos : (10 : ℚ) ^ min x.exponent y.exponent ≠ 0 := (zpow_pos (by norm_num) _).ne'
  rw [eq, beq_iff_eq, Finite.value_eq_signedAt (min_le_left x.exponent y.exponent),
    Finite.value_eq_signedAt (min_le_right x.exponent y.exponent), mul_left_inj' hpos, Int.cast_inj]

section
variable {prec : ℕ} {e : ℤ} {x : Finite} {n m : Number}

theorem quantize_eq_some (h : n.quantize prec e = some m) :
    (∃ x, n = .finite x ∧ m = .finite (x.rescale e) ∧ (x.rescale e).coefficient < 10 ^ prec) ∨
      n = .nan false ∧ m = .nan false := by
  cases n with
  | finite x =>
    rw [quantize] at h
    split at h
    case isTrue hlt => exact .inl ⟨x, rfl, (Option.some.inj h).symm, hlt⟩
    case isFalse => cases h
  | infinity => cases h
  | nan signaling =>
    cases signaling with
    | false => exact .inr ⟨rfl, (Option.some.inj h).symm⟩
    | true => cases h

/-- A number with the exponent and few enough digits is left as it is. -/
theorem quantize_self (h : x.coefficient < 10 ^ prec) :
    quantize prec x.exponent (.finite x) = some (.finite x) := by
  rw [quantize, x.rescale_self, if_pos h]

/-- What `quantize` returns is left as it is. -/
theorem quantize_idem (h : n.quantize prec e = some m) : m.quantize prec e = some m := by
  rcases quantize_eq_some h with ⟨x, -, rfl, hlt⟩ | ⟨-, rfl⟩
  · exact quantize_self (x := x.rescale e) hlt
  · rfl

/-- A number that was rounded to the precision is refused at the exponent it had before. -/
theorem quantize_fix (hprec : 0 < prec) : quantize prec x.exponent (.finite (x.fix prec)) =
    if x.coefficient < 10 ^ prec then some (.finite x) else none := by
  split
  case isTrue h => rw [x.fix_of_lt hprec h, quantize_self h]
  case isFalse h =>
    rw [quantize, if_neg]
    exact Nat.not_lt.2 (Finite.le_rescale_fix hprec (Nat.not_lt.1 h))

end

end Number

end Decimal
