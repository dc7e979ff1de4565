import Ekumidayomi.Text
import Ekumidayomi.Lib.DecimalText

/-!
# Money

`quantize_money`, `normalize_currency` and `Money` of `core/types.py`, over `Decimal` in its default
context of 28 digits. A string is a list of code points, and `decimalOf` is `Decimal(text)`.

`Decimal(text)` is inside the `try` of `quantize_money` and `quantize` is not, so a string of a
number that is too large, of an infinity or of a NaN does not end in the `ValueError` of the others
(`quantize_money_total_iff`). Sums and differences are exact or fail (`money_exact`).
-/

namespace Ekumidayomi

open Unicode Decimal

/-! ## `Decimal(text)` -/

/-- A character as `Decimal` reads it: decimal digits count as those of ASCII. -/
def decimalChar (c : CodePoint) : Option Char :=
  (toChar c).map fun char => (decimalValue char).elim char Nat.digitChar

/-- `Decimal(text)`: without white space around it and without underscores. -/
def decimalOf (text : Text) : Option Number :=
  (((stripText text).filter (· ≠ ofChar '_')).mapM decimalChar).bind ofChars

/-- A digit, a minus sign or a point is read as it is. -/
theorem decimalChar_ofChar {c : Char} (h : c.isDigit = true ∨ c = '-' ∨ c = '.') :
    (0x21 ≤ c.toNat ∧ c.toNat ≤ 0x7e) ∧ c ≠ '_' ∧ decimalChar (ofChar c) = some c := by
  have hread : ∀ d : Char, decimalChar (ofChar d) =
    some ((decimalValue d).elim d Nat.digitChar) := by
    intro d
    rw [decimalChar, toChar_ofChar, Option.map_some]
  have key : ∀ n < 10, (0x21 ≤ n.digitChar.toNat ∧ n.digitChar.toNat ≤ 0x7e) ∧ n.digitChar ≠ '_' ∧
      (decimalValue n.digitChar).elim n.digitChar Nat.digitChar = n.digitChar := by decide
  rw [hread, Option.some.injEq]
  rcases h with h | rfl | rfl
  · obtain ⟨n, hn, rfl⟩ := exists_digitChar h
    exact key n hn
  · decide
  · decide

/-- A text of these characters is read as it is. -/
theorem decimalOf_map_ofChar {chars : List Char}
    (h : ∀ c ∈ chars, c.isDigit = true ∨ c = '-' ∨ c = '.') :
    decimalOf (chars.map ofChar) = Decimal.ofChars chars := by
  have hstrip : stripText (chars.map ofChar) = chars.map ofChar := by
    refine stripText_eq_self fun c hc => ?_
    obtain ⟨d, hd, rfl⟩ := List.mem_map.1 hc
    exact isSpace_printable (decimalChar_ofChar (h d hd)).1
  have hfilter : (chars.map ofChar).filter (· ≠ ofChar '_') = chars.map ofChar := by
    refine List.filter_eq_self.2 fun c hc => ?_
    obtain ⟨d, hd, rfl⟩ := List.mem_map.1 hc
    simpa [ofChar_injective.eq_iff] using (decimalChar_ofChar (h d hd)).2.1
  have hread : (chars.map ofChar).mapM decimalChar = some chars := by
    clear hstrip hfilter
    induction chars with
    | nil => rfl
    | cons c chars ih =>
      rw [List.map_cons, List.mapM_cons, (decimalChar_ofChar (h c List.mem_cons_self)).2.2,
        ih fun d hd => h d (List.mem_cons_of_mem _ hd)]
      rfl
  rw [decimalOf, hstrip, hfilter, hread, Option.bind_some]

/-- The precision of the default context. -/
def contextPrec : Nat := 28

/-! ## Amounts -/

/-- `MONEY_SCALE`. -/
def moneyScale : Nat := 4

/-- What `quantize_money` is given: a value of a type that it refuses, a `Decimal` or a string. -/
inductive MoneyInput
  | bool | float | int
  | decimal (n : Number)
  | str (text : Text)

/-- What it raises, and what `Money` raises. -/
inductive MoneyError
  | typeError (text : String)
  | valueError (text : Text)
  | invalidOperation
  deriving DecidableEq

/-- `value.quantize(MONEY_QUANTUM, rounding=ROUND_HALF_EVEN)`. -/
def quantizeNumber (n : Number) : Except MoneyError Number :=
  match n.quantize contextPrec (-moneyScale) with
  | some r => .ok r
  | none => .error .invalidOperation

/-- `quantize_money`. -/
def quantizeMoney : MoneyInput → Except MoneyError Number
  | .bool => .error (.typeError "boolean values are not valid monetary amounts")
  | .float => .error (.typeError "floating-point values are not valid monetary amounts")
  | .int => .error (.typeError "integer values are not valid monetary amounts")
  | .decimal n => quantizeNumber n
  | .str text =>
    match decimalOf text with
    | some n => quantizeNumber n
    | none => .error (.valueError (ofString "money must be a valid decimal value"))

/-- The quantized form of a number: quantizing it again changes nothing. -/
def IsQuantized (n : Number) : Prop := n.quantize contextPrec (-moneyScale) = some n

theorem quantizeNumber_eq_ok {n r : Number} :
    quantizeNumber n = .ok r ↔ n.quantize contextPrec (-moneyScale) = some r := by
  unfold quantizeNumber
  split <;> simp_all

theorem quantizeMoney_quantized {v : MoneyInput} {n : Number} (h : quantizeMoney v = .ok n) :
    IsQuantized n := by
  cases v with
  | bool | float | int => cases h
  | decimal n => exact Number.quantize_idem (quantizeNumber_eq_ok.1 h)
  | str text =>
    rw [quantizeMoney] at h
    split at h
    · exact Number.quantize_idem (quantizeNumber_eq_ok.1 h)
    · cases h

theorem IsQuantized.quantizeMoney {n : Number} (h : IsQuantized n) :
    quantizeMoney (.decimal n) = .ok n :=
  quantizeNumber_eq_ok.2 h

/-- A quantized finite number has four places and at most 28 digits. -/
theorem isQuantized_finite {x : Finite} :
    IsQuantized (.finite x) ↔ x.exponent = -moneyScale ∧ x.coefficient < 10 ^ contextPrec := by
  refine ⟨fun h => ?_, fun ⟨hexp, hlt⟩ => ?_⟩
  · rcases Number.quantize_eq_some h with ⟨y, hy, hx, hlt⟩ | ⟨h, -⟩
    · cases hy
      rw [Number.finite.injEq] at hx
      rw [← hx] at hlt
      exact ⟨by rw [hx]; rfl, hlt⟩
    · cases h
  · rw [IsQuantized, ← hexp]
    exact Number.quantize_self hlt

/-! ## Currencies -/

/-- The characters outside ASCII whose upper case is made of ASCII. -/
def upperTable : List (Nat × List Char) :=
  [(0xdf, ['S', 'S']), (0x131, ['I']), (0x17f, ['S']), (0xfb00, ['F', 'F']), (0xfb01, ['F', 'I']),
    (0xfb02, ['F', 'L']), (0xfb03, ['F', 'F', 'I']), (0xfb04, ['F', 'F', 'L']),
    (0xfb05, ['S', 'T']),
    (0xfb06, ['S', 'T'])]

/-- `str.upper()` on a character, as far as ASCII is concerned: what has an upper case outside ASCII
is left as it is, which is outside too. -/
def upperChar (c : CodePoint) : Text :=
  if 0x61 ≤ c.val ∧ c.val ≤ 0x7a then [⟨c.val - 0x20, by omega⟩]
  else match upperTable.lookup c.val with
    | some chars => chars.map ofChar
    | none => [c]

/-- `str.isascii()` and `str.isalpha()` on a character. -/
def isAsciiLetter (c : CodePoint) : Bool :=
  (0x41 ≤ c.val && c.val ≤ 0x5a) || (0x61 ≤ c.val && c.val ≤ 0x7a)

/-- `normalize_currency`. -/
def normalizeCurrency (value : Text) : Except MoneyError Text :=
  let currency := (stripText value).flatMap upperChar
  if currency.length = 3 ∧ currency.all isAsciiLetter then .ok currency
  else .error (.valueError (ofString "currency must be a three-letter ASCII code"))

/-- The pattern `^[A-Z]{3}$`. -/
def IsCurrency (currency : Text) : Prop :=
  currency.length = 3 ∧ ∀ c ∈ currency, 0x41 ≤ c.val ∧ c.val ≤ 0x5a

/-- No upper case holds a small letter of ASCII. -/
theorem not_small_of_mem_upperChar {c d : CodePoint} (h : d ∈ upperChar c) :
    ¬ (0x61 ≤ d.val ∧ d.val ≤ 0x7a) := by
  have hall : (upperTable.all fun p => p.2.all (·.toNat < 0x61)) = true := by decide
  have key : ∀ p ∈ upperTable, ∀ char ∈ p.2, ¬ (0x61 ≤ char.toNat ∧ char.toNat ≤ 0x7a) := by
    rintro p hp char hchar ⟨hle, -⟩
    have hlt := List.all_eq_true.1 (List.all_eq_true.1 hall p hp) char hchar
    exact absurd hle (Nat.not_le.2 (of_decide_eq_true hlt))
  unfold upperChar at h
  split at h
  case isTrue hsmall =>
    rw [List.mem_singleton] at h
    rw [h]
    dsimp only
    omega
  case isFalse hsmall =>
    split at h
    case h_1 chars hlookup =>
      obtain ⟨char, hchar, rfl⟩ := List.mem_map.1 h
      rw [ofChar_val]
      obtain ⟨front, back, htable, -⟩ := List.lookup_eq_some_iff.1 hlookup
      exact key (c.val, chars) (by simp [htable]) char hchar
    case h_2 =>
      rw [List.mem_singleton] at h
      rwa [h]

/-- A normalized currency is three capital letters. -/
theorem normalizeCurrency_isCurrency {value currency : Text}
    (h : normalizeCurrency value = .ok currency) : IsCurrency currency := by
  unfold normalizeCurrency at h
  dsimp only at h
  split at h
  case isFalse => cases h
  case isTrue hcheck =>
    obtain rfl := Except.ok.inj h
    refine ⟨hcheck.1, fun c hc => ?_⟩
    have hletter := List.all_eq_true.1 hcheck.2 c hc
    obtain ⟨d, -, hd⟩ := List.mem_flatMap.1 hc
    have hnot := not_small_of_mem_upperChar hd
    simp only [isAsciiLetter, Bool.or_eq_true, Bool.and_eq_true, decide_eq_true_eq] at hletter
    omega

/-- A capital letter is its own upper case. -/
theorem upperChar_capital {c : CodePoint} (h : 0x41 ≤ c.val ∧ c.val ≤ 0x5a) :
    upperChar c = [c] := by
  have key : ∀ p ∈ upperTable, 0x5a < p.1 := by decide
  rw [upperChar, if_neg (by omega)]
  split
  case h_1 chars hlookup =>
    obtain ⟨front, back, htable, -⟩ := List.lookup_eq_some_iff.1 hlookup
    have := key (c.val, chars) (by simp [htable])
    omega
  case h_2 => rfl

/-- Three capital letters are left as they are. -/
theorem IsCurrency.normalizeCurrency {currency : Text} (h : IsCurrency currency) :
    normalizeCurrency currency = .ok currency := by
  have hstrip : stripText currency = currency := by
    refine stripText_eq_self fun c hc => isSpace_printable ?_
    have := h.2 c hc
    omega
  have hupper : currency.flatMap upperChar = currency := by
    rw [List.flatMap_congr fun c hc => upperChar_capital (h.2 c hc), List.flatMap_singleton']
  rw [Ekumidayomi.normalizeCurrency, hstrip, hupper]
  refine if_pos ⟨h.1, List.all_eq_true.2 fun c hc => ?_⟩
  have := h.2 c hc
  simp only [isAsciiLetter, Bool.or_eq_true, Bool.and_eq_true, decide_eq_true_eq]
  omega

/-! ## `Money` -/

/-- `DEFAULT_CURRENCY`. -/
def defaultCurrency : Text := ofString "NGN"

/-- `Money`, with what `__post_init__` makes of its fields. -/
structure Money where
  amount : Number
  currency : Text := defaultCurrency
  quantized : IsQuantized amount
  normalized : IsCurrency currency

/-- The constructor of `Money`. -/
def Money.create (amount : MoneyInput) (currency : Text) : Except MoneyError Money :=
  match hamount : quantizeMoney amount with
  | .error e => .error e
  | .ok quantized =>
    match hcurrency : normalizeCurrency currency with
    | .error e => .error e
    | .ok normalized =>
      .ok ⟨quantized, normalized, quantizeMoney_quantized hamount,
        normalizeCurrency_isCurrency hcurrency⟩

/-- `Money.from_value`. -/
def Money.fromValue (amount : MoneyInput) (currency : Text) : Except MoneyError Money := do
  let quantized ← quantizeMoney amount
  Money.create (.decimal quantized) currency

/-- `_require_same_currency`. -/
def Money.requireSameCurrency (m other : Money) : Except MoneyError Unit :=
  if m.currency ≠ other.currency then
    .error (.valueError
      (ofString "currency mismatch: " ++ m.currency ++ ofString " != " ++ other.currency))
  else .ok ()

/-- A result of the context: an invalid operation raises. -/
def raising : Option Number → Except MoneyError Number
  | some n => .ok n
  | none => .error .invalidOperation

/-- `__add__`. -/
def Money.add (m other : Money) : Except MoneyError Money := do
  m.requireSameCurrency other
  let sum ← raising (m.amount.add contextPrec other.amount)
  Money.create (.decimal sum) m.currency

/-- `__sub__`. -/
def Money.sub (m other : Money) : Except MoneyError Money := do
  m.requireSameCurrency other
  let difference ← raising (m.amount.sub contextPrec other.amount)
  Money.create (.decimal difference) m.currency

/-- `==`. -/
def Money.eq (m other : Money) : Bool := m.amount.eq other.amount && m.currency == other.currency

namespace Money

variable {v : MoneyInput} {currency : Text} {m other r : Money} {x y : Finite}

/-- The amount is a finite number. -/
def IsFinite (m : Money) : Prop := ∃ x, m.amount = .finite x

theorem create_eq_ok : create v currency = .ok r ↔
    quantizeMoney v = .ok r.amount ∧ normalizeCurrency currency = .ok r.currency := by
  rw [create]
  split
  case h_1 e he => simp [he]
  case h_2 n hn =>
    split
    case h_1 e he => simp [he]
    case h_2 c hc =>
      obtain ⟨amount, currency', _, _⟩ := r
      simp only [hn, hc, Except.ok.injEq, Money.mk.injEq]

/-- Quantizing before the constructor does changes nothing. -/
theorem fromValue_eq_ok : fromValue v currency = .ok r ↔ create v currency = .ok r := by
  rw [fromValue, bind_ok_iff, create_eq_ok]
  constructor
  · rintro ⟨n, hn, hr⟩
    obtain ⟨hamount, hcurrency⟩ := create_eq_ok.1 hr
    rw [(quantizeMoney_quantized hn).quantizeMoney] at hamount
    exact ⟨hn.trans hamount, hcurrency⟩
  · rintro ⟨hamount, hcurrency⟩
    exact ⟨r.amount, hamount, create_eq_ok.2 ⟨r.quantized.quantizeMoney, hcurrency⟩⟩

/-- A money is created from its own fields. -/
theorem create_self (m : Money) : create (.decimal m.amount) m.currency = .ok m :=
  create_eq_ok.2 ⟨m.quantized.quantizeMoney, m.normalized.normalizeCurrency⟩

theorem requireSameCurrency_eq_ok {u : Unit} :
    m.requireSameCurrency other = .ok u ↔ m.currency = other.currency := by
  unfold requireSameCurrency
  split <;> simp_all

theorem raising_eq_ok {n : Option Number} {k : Number} : raising n = .ok k ↔ n = some k := by
  cases n <;> simp [raising]

/-- A finite amount has four places. -/
theorem exponent_eq (hm : m.amount = .finite x) : x.exponent = -moneyScale :=
  (isQuantized_finite.1 (hm ▸ m.quantized)).1

/-- The constructor refuses a number that was rounded to the precision. -/
theorem create_fix {z : Finite} (hz : z.exponent = -moneyScale) :
    create (.decimal (.finite (z.fix contextPrec))) m.currency = .ok r ↔
      r.currency = m.currency ∧ r.amount = .finite z ∧ z.coefficient < 10 ^ contextPrec := by
  rw [create_eq_ok, m.normalized.normalizeCurrency, Except.ok.injEq, quantizeMoney,
    quantizeNumber_eq_ok, ← hz, Number.quantize_fix (by decide)]
  constructor
  · rintro ⟨hamount, hcurrency⟩
    split at hamount
    case isTrue h => exact ⟨hcurrency.symm, (Option.some.inj hamount).symm, h⟩
    case isFalse => cases hamount
  · rintro ⟨hcurrency, hamount, h⟩
    rw [if_pos h, hamount, hcurrency]
    exact ⟨rfl, rfl⟩

/-- What a sum is: the exact sum, where it has no more than 28 digits. -/
theorem add_eq_ok (hm : m.amount = .finite x) (hother : other.amount = .finite y) :
    m.add other = .ok r ↔ m.currency = other.currency ∧ r.currency = m.currency ∧
      r.amount = .finite (x.add y) ∧ (x.add y).coefficient < 10 ^ contextPrec := by
  have hexp : (x.add y).exponent = -moneyScale := by
    rw [Finite.add_exponent, exponent_eq hm, exponent_eq hother, min_self]
  rw [add, bind_ok_iff, hm, hother]
  simp only [requireSameCurrency_eq_ok, bind_ok_iff, raising_eq_ok, Number.add,
    Option.some.injEq, exists_eq_left', create_fix hexp, exists_const]

/-- What a difference is, likewise. -/
theorem sub_eq_ok (hm : m.amount = .finite x) (hother : other.amount = .finite y) :
    m.sub other = .ok r ↔ m.currency = other.currency ∧ r.currency = m.currency ∧
      r.amount = .finite (x.add y.neg) ∧ (x.add y.neg).coefficient < 10 ^ contextPrec := by
  have hexp : (x.add y.neg).exponent = -moneyScale := by
    rw [Finite.add_exponent, exponent_eq hm, Finite.neg, exponent_eq hother, min_self]
  rw [sub, bind_ok_iff, hm, hother]
  simp only [requireSameCurrency_eq_ok, bind_ok_iff, raising_eq_ok, Number.sub, Number.neg,
    Number.add, Option.some.injEq, exists_eq_left', create_fix hexp, exists_const]

/-- Sums and differences of other currencies are refused. -/
theorem mixed_refused (h : m.currency ≠ other.currency) :
    m.add other = .error (.valueError
      (ofString "currency mismatch: " ++ m.currency ++ ofString " != " ++ other.currency)) ∧
    m.sub other = .error (.valueError
      (ofString "currency mismatch: " ++ m.currency ++ ofString " != " ++ other.currency)) := by
  rw [add, sub, requireSameCurrency, if_pos h]
  exact ⟨rfl, rfl⟩

/-- Finite amounts of one currency are equal if they have one value. -/
theorem eq_iff (hm : m.amount = .finite x) (hother : other.amount = .finite y) :
    m.eq other = true ↔ x.value = y.value ∧ m.currency = other.currency := by
  rw [Money.eq, hm, hother, Bool.and_eq_true, Number.eq_finite, beq_iff_eq]

end Money

theorem isCurrency_default : IsCurrency defaultCurrency := by
  have hnaira : normalizeCurrency (ofString " ngn ") = .ok defaultCurrency := by decide +kernel
  exact normalizeCurrency_isCurrency hnaira

/-- An amount in the default currency, in units of the quantum. -/
def naira (units : Nat) (h : units < 10 ^ contextPrec := by decide) : Money where
  amount := .finite ⟨false, units, -moneyScale⟩
  quantized := isQuantized_finite.2 ⟨rfl, h⟩
  normalized := isCurrency_default

/-- **Money arithmetic is exact or fails.** What a sum or a difference of finite amounts returns has
exactly the sum or the difference of the amounts, so sums associate and what was added can be taken
away, wherever they are defined; amounts of other currencies are always refused. -/
theorem money_exact {a b c : Money} {x y z : Finite} (ha : a.amount = .finite x)
    (hb : b.amount = .finite y) (hc : c.amount = .finite z) :
    (∀ r, a.add b = .ok r → r.currency = a.currency ∧
      ∃ s, r.amount = .finite s ∧ s.value = x.value + y.value) ∧
    (∀ r, a.sub b = .ok r → r.currency = a.currency ∧
      ∃ d, r.amount = .finite d ∧ d.value = x.value - y.value) ∧
    (∀ ab left bc right, a.add b = .ok ab → ab.add c = .ok left → b.add c = .ok bc →
      a.add bc = .ok right → left.eq right = true) ∧
    (∀ ab r, a.add b = .ok ab → ab.sub b = .ok r → r.eq a = true) ∧
    (a.currency ≠ b.currency → (∃ e, a.add b = .error e) ∧ ∃ e, a.sub b = .error e) := by
  refine ⟨fun r h => ?_, fun r h => ?_, fun ab left bc right hab hleft hbc hright => ?_,
    fun ab r hab hr => ?_, fun h => ⟨⟨_, (Money.mixed_refused h).1⟩, _, (Money.mixed_refused h).2⟩⟩
  · obtain ⟨-, hcurrency, hr, -⟩ := (Money.add_eq_ok ha hb).1 h
    exact ⟨hcurrency, _, hr, x.value_add y⟩
  · obtain ⟨-, hcurrency, hr, -⟩ := (Money.sub_eq_ok ha hb).1 h
    exact ⟨hcurrency, _, hr, by rw [x.value_add, y.value_neg, sub_eq_add_neg]⟩
  · obtain ⟨-, hab', hab, -⟩ := (Money.add_eq_ok ha hb).1 hab
    obtain ⟨-, hleft', hleft, -⟩ := (Money.add_eq_ok hab hc).1 hleft
    obtain ⟨-, -, hbc, -⟩ := (Money.add_eq_ok hb hc).1 hbc
    obtain ⟨-, hright', hright, -⟩ := (Money.add_eq_ok ha hbc).1 hright
    rw [Money.eq_iff hleft hright, hleft', hab', hright']
    simp only [Finite.value_add, add_assoc, and_self]
  · obtain ⟨-, hab', hab, -⟩ := (Money.add_eq_ok ha hb).1 hab
    obtain ⟨-, hr', hr, -⟩ := (Money.sub_eq_ok hab hb).1 hr
    rw [Money.eq_iff hr ha, hr', hab']
    simp only [Finite.value_add, Finite.value_neg, add_neg_cancel_right, and_self]

/-- `1.5000` and `2.2500` add up to `3.7500`. -/
theorem money_exact_naira : ∃ s, (naira 37500).amount = .finite s ∧
    s.value = (⟨false, 15000, -4⟩ : Finite).value + (⟨false, 22500, -4⟩ : Finite).value := by
  have hadd : (naira 15000).add (naira 22500) = .ok (naira 37500) :=
    (Money.add_eq_ok rfl rfl).2 ⟨rfl, rfl, rfl, by decide⟩
  exact ((money_exact (a := naira 15000) (b := naira 22500) (c := naira 0) rfl rfl rfl).1 _ hadd).2

/-! ## What strings and numbers are accepted -/

/-- A finite number that has no more than 28 digits once it is rounded to four places. -/
def IsAmount : Number → Prop
  | .finite x => |x.value| < 10 ^ 24 - 1 / 20000
  | _ => False

/-- An input that is refused before it is quantized, or is an amount. -/
def MoneyInput.InRange : MoneyInput → Prop
  | .bool | .float | .int => True
  | .decimal n => IsAmount n
  | .str text => ∀ n, decimalOf text = some n → IsAmount n

theorem quantizeNumber_finite {n : Number} {x : Finite} :
    quantizeNumber n = .ok (.finite x) ↔
      IsAmount n ∧ ∃ y, n = .finite y ∧ x = y.rescale (-moneyScale) := by
  have hbound : (10 ^ contextPrec - 1 / 2) * 10 ^ (-(moneyScale : ℤ)) =
      (10 ^ 24 - 1 / 20000 : ℚ) := by norm_num [contextPrec, moneyScale]
  rw [quantizeNumber_eq_ok]
  constructor
  · intro h
    rcases Number.quantize_eq_some h with ⟨y, rfl, hx, hlt⟩ | ⟨-, h⟩
    · rw [Finite.rescale_lt_iff y _ (by decide), hbound] at hlt
      exact ⟨hlt, y, rfl, Number.finite.inj hx⟩
    · cases h
  · rintro ⟨hamount, y, rfl, rfl⟩
    rw [Number.quantize, if_pos]
    rw [Finite.rescale_lt_iff y _ (by decide), hbound]
    exact hamount

/-- The amount is the nearest multiple of the quantum. -/
theorem quantizeNumber_nearest {y x : Finite} (h : quantizeNumber (.finite y) = .ok (.finite x)) :
    x.exponent = -4 ∧ IsNearestEven x.signed (y.value * 10 ^ 4) := by
  obtain ⟨-, z, hz, rfl⟩ := quantizeNumber_finite.1 h
  obtain rfl := Number.finite.inj hz
  refine ⟨rfl, ?_⟩
  have hnear := y.rescale_signed_nearest (-moneyScale)
  rwa [zpow_neg, div_inv_eq_mul, moneyScale, zpow_natCast] at hnear

/-- What is made of an input in range is a finite amount. -/
theorem Money.create_finite {v : MoneyInput} {currency : Text} {m : Money} (hv : v.InRange)
    (h : create v currency = .ok m) : m.IsFinite := by
  have hamount := (create_eq_ok.1 h).1
  have key : ∀ n, IsAmount n → quantizeNumber n = .ok m.amount → m.IsFinite := by
    intro n hn hquant
    cases n with
    | finite y =>
      rw [quantizeNumber_finite.2 ⟨hn, y, rfl, rfl⟩] at hquant
      exact ⟨_, (Except.ok.inj hquant).symm⟩
    | infinity | nan => cases hn
  cases v with
  | bool | float | int => cases hamount
  | decimal n => exact key n hv hamount
  | str text =>
    rw [quantizeMoney] at hamount
    split at hamount
    case h_1 n hn => exact key n (hv n hn) hamount
    case h_2 => cases hamount

/-- The money that the constructor, `from_value`, sums and differences make of inputs. -/
inductive Money.Made (P : MoneyInput → Prop) : Money → Prop
  | create {v : MoneyInput} {currency : Text} {m : Money} : P v → create v currency = .ok m →
    Made P m
  | fromValue {v : MoneyInput} {currency : Text} {m : Money} : P v →
      fromValue v currency = .ok m → Made P m
  | add {a b m : Money} : Made P a → Made P b → a.add b = .ok m → Made P m
  | sub {a b m : Money} : Made P a → Made P b → a.sub b = .ok m → Made P m

/-- What is made of inputs in range is finite. -/
theorem Money.Made.isFinite {m : Money} (h : Made MoneyInput.InRange m) : m.IsFinite := by
  induction h with
  | create hv h => exact create_finite hv h
  | fromValue hv h => exact create_finite hv (fromValue_eq_ok.1 h)
  | add _ _ h iha ihb =>
    obtain ⟨x, ha⟩ := iha
    obtain ⟨y, hb⟩ := ihb
    exact ⟨_, ((add_eq_ok ha hb).1 h).2.2.1⟩
  | sub _ _ h iha ihb =>
    obtain ⟨x, ha⟩ := iha
    obtain ⟨y, hb⟩ := ihb
    exact ⟨_, ((sub_eq_ok ha hb).1 h).2.2.1⟩

/-- A string is turned into the amount nearest to its number, or refused with a `ValueError`, and no
money made of it holds anything but a finite amount. -/
def ParsesTotally (text : Text) : Prop :=
  ((∃ x y, quantizeMoney (.str text) = .ok (.finite x) ∧ x.exponent = -4 ∧
      decimalOf text = some (.finite y) ∧ IsNearestEven x.signed (y.value * 10 ^ 4)) ∨
    ∃ message, quantizeMoney (.str text) = .error (.valueError message)) ∧
  ∀ currency m, (Money.create (.str text) currency = .ok m ∨
    Money.fromValue (.str text) currency = .ok m) → m.IsFinite

/-- **When money parsing is total and finite.** It is on the strings that are no number and on those
of a finite number that rounds to fewer than 29 digits, and all money made of such inputs by the
constructors and by arithmetic is finite. -/
theorem quantize_money_total_iff (text : Text) :
    (ParsesTotally text ↔ (MoneyInput.str text).InRange) ∧
    ∀ m, Money.Made MoneyInput.InRange m → m.IsFinite := by
  refine ⟨⟨fun ⟨h, hfinite⟩ n hn => ?_, fun h => ⟨?_, fun currency m hm => ?_⟩⟩,
    fun m h => h.isFinite⟩
  · rw [quantizeMoney, hn] at h
    dsimp only at h
    rcases h with ⟨x, y, hquant, -⟩ | ⟨message, hquant⟩
    · exact (quantizeNumber_finite.1 hquant).1
    · unfold quantizeNumber at hquant
      split at hquant <;> cases hquant
  · rw [quantizeMoney]
    cases hn : decimalOf text with
    | none => exact .inr ⟨_, rfl⟩
    | some n =>
      have hamount := h n hn
      cases n with
      | finite y =>
        have hquant := quantizeNumber_finite.2 ⟨hamount, y, rfl, rfl⟩
        obtain ⟨hexp, hnear⟩ := quantizeNumber_nearest hquant
        exact .inl ⟨_, y, hquant, hexp, rfl, hnear⟩
      | infinity | nan => cases hamount
  · rw [Money.fromValue_eq_ok, or_self] at hm
    exact Money.create_finite h hm

/-- A sum of amounts that were given as a string and as a number. -/
theorem quantize_money_total_iff_sum : (naira 37500).IsFinite := by
  have hadd : (naira 15000).add (naira 22500) = .ok (naira 37500) :=
    (Money.add_eq_ok rfl rfl).2 ⟨rfl, rfl, rfl, by decide⟩
  have hread : decimalOf (ofString " +1_.50001 ") = some (.finite ⟨false, 150001, -5⟩) := by
    decide +kernel
  have hcurrency := isCurrency_default.normalizeCurrency
  have hfirst : Money.create (.str (ofString " +1_.50001 ")) defaultCurrency = .ok (naira 15000) :=
    Money.create_eq_ok.2 ⟨by decide +kernel, hcurrency⟩
  have hsecond : Money.create (.decimal (.finite ⟨false, 225, -2⟩)) defaultCurrency =
      .ok (naira 22500) := Money.create_eq_ok.2 ⟨by decide +kernel, hcurrency⟩
  refine (quantize_money_total_iff (ofString " +1_.50001 ")).2 _
    (.add (.create ?_ hfirst) (.create ?_ hsecond) hadd)
  · intro n hn
    obtain rfl := Option.some.inj (hread.symm.trans hn)
    rw [IsAmount, Finite.abs_value]
    norm_num
  · rw [MoneyInput.InRange, IsAmount, Finite.abs_value]
    norm_num

/-- A NaN is returned; an infinity, a signalling NaN and a number of 25 digits raise
`InvalidOperation`. -/
theorem quantize_money_escapes : ¬ ParsesTotally (ofString "NaN") ∧
    ¬ ParsesTotally (ofString "-Infinity") ∧ ¬ ParsesTotally (ofString "sNaN") ∧
    ¬ ParsesTotally (ofString "1e24") := by
  have hnan : quantizeMoney (.str (ofString "NaN")) = .ok (.nan false) := by decide +kernel
  have hraised : ∀ text ∈ [ofString "-Infinity", ofString "sNaN", ofString "1e24"],
      quantizeMoney (.str text) = .error .invalidOperation := by decide +kernel
  have hno : ∀ {text}, quantizeMoney (.str text) = .error .invalidOperation →
      ¬ ParsesTotally text := by
    rintro text h ⟨⟨x, y, hquant, -⟩ | ⟨message, hquant⟩, -⟩ <;> rw [h] at hquant <;> cases hquant
  refine ⟨?_, hno (hraised _ (by simp)), hno (hraised _ (by simp)), hno (hraised _ (by simp))⟩
  rintro ⟨⟨x, y, hquant, -⟩ | ⟨message, hquant⟩, -⟩ <;> rw [hnan] at hquant <;> cases hquant

end Ekumidayomi
