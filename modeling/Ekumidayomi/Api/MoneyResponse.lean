import Ekumidayomi.Lib.Python
import Ekumidayomi.Money

/-!
# Money in responses and in columns

`MoneyResponse` of `api/schemas.py` and `money_type` of `db/types.py`. `Money` keeps its scale but
not the range of either format: the pattern of the response and the precision of the column both end
below `10 ^ 15`, and inside that range a response is read back as the money that it was made of
(`money_formats_iff`).
-/

namespace Ekumidayomi

open Unicode Decimal

/-- `MONEY_PRECISION`. -/
def moneyPrecision : Nat := 19

/-- A value of the type `NUMERIC(precision, scale)`: `scale` places and `precision` digits at
most. -/
def FitsNumeric (precision scale : Nat) (x : Finite) : Prop :=
  ∃ k : Int, |k| < 10 ^ precision ∧ x.value = k / 10 ^ scale

/-- A value of the columns of `money_type`. -/
def FitsMoneyType (x : Finite) : Prop := FitsNumeric moneyPrecision moneyScale x

/-- `format(amount, ".4f")`. -/
def formatAmount : Number → List Char
  | .finite x => x.toChars moneyScale
  | .infinity negative => (if negative then ['-'] else []) ++ "Infinity".toList
  | .nan signaling => (if signaling then ['s'] else []) ++ "NaN".toList

namespace Api

/-- The part `-?` of a pattern, cut off. -/
def dropMinus : List Char → List Char
  | '-' :: text => text
  | text => text

/-- `_MONEY_RESPONSE_PATTERN`, which is `-?(?:0|[1-9][0-9]{0,14})\\.[0-9]{4}`, matched in full. -/
def isMoneyText (text : List Char) : Bool :=
  let (whole, rest) := (dropMinus text).span Char.isDigit
  (whole == ['0'] || (whole.head? != some '0' && 1 ≤ whole.length && whole.length ≤ 15)) &&
    match rest with
    | '.' :: fraction => fraction.length == 4 && fraction.all Char.isDigit
    | _ => false

instance (currency : Text) : Decidable (IsCurrency currency) :=
  inferInstanceAs (Decidable (_ ∧ _))

/-- `MoneyResponse`, with the patterns of its fields. -/
structure MoneyResponse where
  amount : List Char
  currency : Text := defaultCurrency
  isMoneyText : isMoneyText amount = true
  isCurrency : IsCurrency currency

/-- The constructor of `MoneyResponse`; it fails with the names of the fields that do not match. -/
def MoneyResponse.create (amount : List Char) (currency : Text) :
    Except (List String) MoneyResponse :=
  if hamount : Api.isMoneyText amount = true then
    if hcurrency : IsCurrency currency then .ok ⟨amount, currency, hamount, hcurrency⟩
    else .error ["currency"]
  else .error ("amount" :: if IsCurrency currency then [] else ["currency"])

/-- `MoneyResponse.from_domain`. -/
def MoneyResponse.fromDomain (value : Money) : Except (List String) MoneyResponse :=
  MoneyResponse.create (formatAmount value.amount) value.currency

section
variable {m : Money} {x : Finite}

/-- The digits of a whole part match the pattern if they are no more than fifteen. -/
theorem whole_matches (n : Nat) :
    (Nat.toDigits 10 n == ['0'] || ((Nat.toDigits 10 n).head? != some '0' &&
      1 ≤ (Nat.toDigits 10 n).length && (Nat.toDigits 10 n).length ≤ 15)) = true ↔ n < 10 ^ 15 := by
  rcases Nat.eq_zero_or_pos n with rfl | hn
  · simp
  · have hhead := Python.head_toDigits hn
    have hlength := Nat.length_toDigits_le_iff (b := 10) (n := n) (k := 15) (by decide) (by decide)
    have hpos : 1 ≤ (Nat.toDigits 10 n).length := Nat.length_toDigits_pos
    have hzero : Nat.toDigits 10 n ≠ ['0'] := fun h => hhead (by rw [h]; rfl)
    rw [← hlength]
    simp [hhead, hpos, hzero]

theorem dropMinus_sign {negative : Bool} {c : Char} {text : List Char} (h : c.isDigit = true) :
    dropMinus ((if negative then ['-'] else []) ++ c :: text) = c :: text := by
  have hne := (toLower_of_isDigit h).2.2.2.1
  cases negative with
  | true => rfl
  | false => simp [dropMinus, hne]

/-- The text of an amount matches the pattern if its whole part has no more than fifteen digits. -/
theorem isMoneyText_toChars (hexp : x.exponent = -moneyScale) :
    isMoneyText (x.toChars moneyScale) = true ↔ x.coefficient / 10 ^ moneyScale < 10 ^ 15 := by
  have hdigits : ∀ c ∈ Nat.toDigits 10 (x.coefficient / 10 ^ moneyScale), c.isDigit = true :=
    fun c hc => Nat.isDigit_of_mem_toDigits (by decide) (by decide) hc
  have hfraction : (fractionChars moneyScale (x.coefficient % 10 ^ moneyScale)).length = 4 ∧
      (fractionChars moneyScale (x.coefficient % 10 ^ moneyScale)).all Char.isDigit = true :=
    ⟨length_fractionChars (by decide) (Nat.mod_lt _ (by decide)),
      List.all_eq_true.2 fun c hc => isDigit_fractionChars hc⟩
  rw [← whole_matches, isMoneyText, Finite.toChars_eq (by decide) hexp]
  obtain ⟨c, text, htext⟩ := List.exists_cons_of_ne_nil
    (Nat.toDigits_ne_nil (n := x.coefficient / 10 ^ moneyScale) (b := 10))
  have hc : c.isDigit = true := hdigits c (by rw [htext]; exact List.mem_cons_self)
  have hpoint : (('.' :: fractionChars moneyScale (x.coefficient % 10 ^ moneyScale)).head?.all
      (!·.isDigit)) = true := rfl
  have hspan := span_isDigit hdigits hpoint
  rw [htext] at hspan ⊢
  rw [List.cons_append, dropMinus_sign hc, ← List.cons_append, hspan]
  simp [hfraction]

/-- The range of the formats, in digits. -/
theorem coefficient_lt_iff (hexp : x.exponent = -moneyScale) :
    x.coefficient < 10 ^ moneyPrecision ↔ |x.value| < 10 ^ 15 := by
  have hunit : (10 : ℚ) ^ (-(moneyScale : ℤ)) = 1 / 10 ^ 4 := by norm_num [moneyScale]
  have hcast : x.coefficient < 10 ^ moneyPrecision ↔ (x.coefficient : ℚ) < 10 ^ 15 * 10 ^ 4 := by
    rw [← Nat.cast_lt (α := ℚ)]
    norm_num [moneyPrecision]
  rw [x.abs_value, hexp, hunit, mul_one_div, div_lt_iff₀ (by norm_num), hcast]

/-- A number with four places is a value of the columns exactly in that range. -/
theorem fitsMoneyType_iff (hexp : x.exponent = -moneyScale) :
    FitsMoneyType x ↔ |x.value| < 10 ^ 15 := by
  have hvalue : ∀ k : ℤ, x.value = k / 10 ^ moneyScale ↔ x.signed = k := by
    intro k
    rw [Finite.value, hexp, zpow_neg, zpow_natCast, ← div_eq_mul_inv,
      div_left_inj' (by norm_num), Int.cast_inj]
  have habs : ∀ k : ℤ, |k| < 10 ^ moneyPrecision ↔ k.natAbs < 10 ^ moneyPrecision := by
    intro k
    rw [Int.abs_eq_natAbs]
    exact_mod_cast Iff.rfl
  rw [← coefficient_lt_iff hexp, FitsMoneyType, FitsNumeric, ← x.natAbs_signed]
  constructor
  · rintro ⟨k, hk, hx⟩
    rwa [(hvalue k).1 hx, ← habs]
  · intro h
    exact ⟨x.signed, (habs _).2 h, (hvalue _).2 rfl⟩

/-- What the constructor returns has the fields it was given. -/
theorem MoneyResponse.create_eq_ok {amount : List Char} {currency : Text} {r : MoneyResponse} :
    create amount currency = .ok r ↔
      Api.isMoneyText amount = true ∧ IsCurrency currency ∧ r.amount = amount ∧
        r.currency = currency := by
  obtain ⟨amount', currency', h₁, h₂⟩ := r
  unfold create
  split
  case isTrue hamount =>
    split
    case isTrue hcurrency => simp [hamount, hcurrency, eq_comm]
    case isFalse hcurrency => simp [hcurrency]
  case isFalse hamount => simp [hamount]

/-- The text of an amount is read as the amount. -/
theorem quantizeMoney_formatAmount (hm : m.amount = .finite x) :
    quantizeMoney (.str ((formatAmount m.amount).map ofChar)) = .ok m.amount := by
  obtain ⟨hexp, hlt⟩ := isQuantized_finite.1 (hm ▸ m.quantized)
  have hrep : x.Representable := by
    have hdigits : x.digits ≤ contextPrec := (Finite.digits_le_iff (by decide)).2 hlt
    simp only [Finite.Representable, Finite.adjusted, hexp, maxPrec, minEtiny, maxEmax, moneyScale,
      contextPrec] at hdigits ⊢
    omega
  have hself : x.rescale (-moneyScale) = x := by rw [← hexp, x.rescale_self]
  have hread : decimalOf ((x.toChars moneyScale).map ofChar) = some (.finite x) := by
    rw [decimalOf_map_ofChar fun c => mem_toChars, ofChars_toChars (by decide) (by rwa [hself]),
      hself]
  rw [hm, formatAmount, quantizeMoney, hread]
  exact quantizeNumber_eq_ok.2 (hm ▸ m.quantized)

end

/-- **Which money fits its formats.** A finite money is a value of its columns exactly if it is
below `10 ^ 15`, and `from_domain` succeeds in exactly that range; what the response holds is read
back as the same money. -/
theorem money_formats_iff {m : Money} {x : Finite} (hm : m.amount = .finite x) :
    (FitsMoneyType x ↔ |x.value| < 10 ^ 15) ∧
    ((∃ r, MoneyResponse.fromDomain m = .ok r) ↔ |x.value| < 10 ^ 15) ∧
    ∀ r, MoneyResponse.fromDomain m = .ok r →
      Money.fromValue (.str (r.amount.map ofChar)) r.currency = .ok m := by
  have hexp := Money.exponent_eq hm
  refine ⟨fitsMoneyType_iff hexp, ?_, fun r hr => ?_⟩
  · have hmatch : Api.isMoneyText (formatAmount m.amount) = true ↔ |x.value| < 10 ^ 15 := by
      rw [hm, formatAmount, isMoneyText_toChars hexp, ← coefficient_lt_iff hexp,
        Nat.div_lt_iff_lt_mul (by decide)]
      rfl
    rw [← hmatch]
    constructor
    · rintro ⟨r, hr⟩
      exact (MoneyResponse.create_eq_ok.1 hr).1
    · intro h
      exact ⟨⟨formatAmount m.amount, m.currency, h, m.normalized⟩,
        MoneyResponse.create_eq_ok.2 ⟨h, m.normalized, rfl, rfl⟩⟩
  · obtain ⟨-, -, hamount, hcurrency⟩ := MoneyResponse.create_eq_ok.1 hr
    rw [hamount, hcurrency, Money.fromValue_eq_ok, Money.create_eq_ok,
      quantizeMoney_formatAmount hm, m.normalized.normalizeCurrency]
    exact ⟨rfl, rfl⟩

/-- The largest amount in range has a response. -/
theorem money_formats_iff_largest :
    ∃ r, MoneyResponse.fromDomain (naira 9999999999999999999) = .ok r := by
  refine (money_formats_iff (m := naira 9999999999999999999) rfl).2.1.2 ?_
  rw [Finite.abs_value]
  norm_num [moneyScale]

/-- One more unit is still money, by a sum and by the constructor, and fits neither format. -/
theorem money_formats_exceeded :
    (naira 9999999999999999999).add (naira 1) = .ok (naira 10000000000000000000) ∧
    Money.create (.str (ofString "1000000000000000")) defaultCurrency =
      .ok (naira 10000000000000000000) ∧
    ¬ FitsMoneyType ⟨false, 10000000000000000000, -4⟩ ∧
    ¬ ∃ r, MoneyResponse.fromDomain (naira 10000000000000000000) = .ok r := by
  refine ⟨(Money.add_eq_ok rfl rfl).2 ⟨rfl, rfl, rfl, by decide⟩,
    Money.create_eq_ok.2 ⟨by decide +kernel, isCurrency_default.normalizeCurrency⟩, ?_, ?_⟩
  · rw [fitsMoneyType_iff rfl, ← coefficient_lt_iff rfl]
    decide
  · rintro ⟨r, hr⟩
    have hmatch := (MoneyResponse.create_eq_ok.1 hr).1
    rw [naira, formatAmount, isMoneyText_toChars rfl] at hmatch
    exact absurd hmatch (by decide)

end Api

end Ekumidayomi
