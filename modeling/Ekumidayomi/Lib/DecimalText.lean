import Ekumidayomi.Lib.Decimal

/-!
# Texts of decimal numbers

`ofChars` reads a numeric string of the General Decimal Arithmetic, whatever the case of its
letters: a sign, then digits with a point and an exponent, an infinity or a NaN with its diagnostic
digits. It is exact, so a number whose exponent is out of every range is refused. `Finite.toChars`
writes a number with a fixed number of places; what it writes is read as the number at that exponent
(`ofChars_toChars`).
-/

namespace Decimal

/-- `MAX_EMAX` of 64-bit platforms. -/
def maxEmax : ℤ := 999999999999999999

/-- `MAX_PREC` of 64-bit platforms. -/
def maxPrec : ℕ := 999999999999999999

/-- `MIN_ETINY` of 64-bit platforms. -/
def minEtiny : ℤ := -1999999999999999997

/-- The exponent of the first digit. -/
def Finite.adjusted (x : Finite) : ℤ := x.exponent + x.digits - 1

/-- A number that is represented exactly. -/
def Finite.Representable (x : Finite) : Prop :=
  x.digits ≤ maxPrec ∧ minEtiny ≤ x.exponent ∧ x.adjusted ≤ maxEmax

instance (x : Finite) : Decidable x.Representable := inferInstanceAs (Decidable (_ ∧ _ ∧ _))

/-- A sign, and the text behind it. -/
def readSign : List Char → Bool × List Char
  | '-' :: text => (true, text)
  | '+' :: text => (false, text)
  | text => (false, text)

/-- The exponent part, `e` and a number, at the end of a text; none is an exponent of zero. -/
def readExponent : List Char → Option ℤ
  | [] => some 0
  | c :: text =>
    let (negative, digits) := readSign text
    if (c = 'e' ∨ c = 'E') ∧ digits ≠ [] ∧ digits.all Char.isDigit then
      let n := Nat.ofDigitChars 10 digits 0
      some (if negative then -n else n)
    else none

/-- The digits behind a point, and the text behind them. -/
def readFraction : List Char → List Char × List Char
  | '.' :: text => text.span Char.isDigit
  | text => ([], text)

/-- A number with digits, a point and an exponent. -/
def readFinite (negative : Bool) (text : List Char) : Option Finite := do
  let (whole, text) := text.span Char.isDigit
  let (fraction, text) := readFraction text
  let exponent ← readExponent text
  let x : Finite :=
    { negative
      coefficient := Nat.ofDigitChars 10 (whole ++ fraction) 0
      exponent := exponent - fraction.length }
  if whole ++ fraction ≠ [] ∧ x.Representable then some x else none

/-- `Decimal(text)` on characters of ASCII; `none` when it raises `InvalidOperation`. -/
def ofChars (text : List Char) : Option Number :=
  let (negative, text) := readSign text
  match text.map Char.toLower with
  | ['i', 'n', 'f'] | ['i', 'n', 'f', 'i', 'n', 'i', 't', 'y'] => some (.infinity negative)
  | 'n' :: 'a' :: 'n' :: digits => if digits.all Char.isDigit then some (.nan false) else none
  | 's' :: 'n' :: 'a' :: 'n' :: digits => if digits.all Char.isDigit then some (.nan true) else none
  | _ => (readFinite negative text).map .finite

/-- The digits of the part behind the point, `places` of them. -/
def fractionChars (places n : ℕ) : List Char :=
  let digits := Nat.toDigits 10 n
  List.replicate (places - digits.length) '0' ++ digits

/-- `format(x, f".{places}f")`. -/
def Finite.toChars (places : ℕ) (x : Finite) : List Char :=
  let r := x.rescale (-places)
  (if r.negative then ['-'] else []) ++ (Nat.toDigits 10 (r.coefficient / 10 ^ places) ++
    if places = 0 then [] else '.' :: fractionChars places (r.coefficient % 10 ^ places))

/-! ## What is written is read -/

section
variable {places n : ℕ}

theorem length_fractionChars (hplaces : 0 < places) (h : n < 10 ^ places) :
    (fractionChars places n).length = places := by
  have hle := (Nat.length_toDigits_le_iff (b := 10) (by decide) hplaces).2 h
  rw [fractionChars, List.length_append, List.length_replicate]
  omega

theorem isDigit_fractionChars {c : Char} (h : c ∈ fractionChars places n) : c.isDigit = true := by
  rcases List.mem_append.1 h with h | h
  · rw [List.eq_of_mem_replicate h]
    rfl
  · exact Nat.isDigit_of_mem_toDigits (by decide) (by decide) h

/-- The digits around the point spell the coefficient. -/
theorem ofDigitChars_split (hplaces : 0 < places) (n : ℕ) :
    Nat.ofDigitChars 10 (Nat.toDigits 10 (n / 10 ^ places) ++
      fractionChars places (n % 10 ^ places)) 0 = n := by
  have hlength := length_fractionChars hplaces (Nat.mod_lt n (by positivity))
  rw [Nat.ofDigitChars_append, Nat.ofDigitChars_ten_toDigits, Nat.ofDigitChars_eq_ofDigitChars_zero,
    hlength, fractionChars, Nat.ofDigitChars_append, Nat.ofDigitChars_replicate_zero, Nat.mul_zero,
    Nat.ofDigitChars_ten_toDigits]
  exact Nat.div_add_mod n (10 ^ places)

/-- A number with just these places is written as it is. -/
theorem Finite.toChars_eq (hplaces : 0 < places) {x : Finite} (hexp : x.exponent = -places) :
    x.toChars places = (if x.negative then ['-'] else []) ++
      (Nat.toDigits 10 (x.coefficient / 10 ^ places) ++
        '.' :: fractionChars places (x.coefficient % 10 ^ places)) := by
  rw [Finite.toChars, ← hexp, x.rescale_self, if_neg hplaces.ne']

/-- What is written is made of digits, a sign and a point. -/
theorem mem_toChars {x : Finite} {c : Char} (h : c ∈ x.toChars places) :
    c.isDigit = true ∨ c = '-' ∨ c = '.' := by
  have hdigit : ∀ {k}, c ∈ Nat.toDigits 10 k → c.isDigit = true :=
    fun hc => Nat.isDigit_of_mem_toDigits (by decide) (by decide) hc
  rw [Finite.toChars, List.mem_append, List.mem_append] at h
  rcases h with h | h | h
  · split at h
    · exact .inr (.inl (List.mem_singleton.1 h))
    · cases h
  · exact .inl (hdigit h)
  · split at h
    · cases h
    · rcases List.mem_cons.1 h with rfl | h
      · exact .inr (.inr rfl)
      · exact .inl (isDigit_fractionChars h)

theorem exists_digitChar {c : Char} (h : c.isDigit = true) : ∃ n < 10, c = Nat.digitChar n := by
  obtain ⟨hlow, hhigh⟩ := Char.isDigit_iff_toNat.1 h
  have hlow : 48 ≤ c.toNat := hlow
  have hhigh : c.toNat ≤ 57 := hhigh
  refine ⟨c.toNat - 48, by omega, Char.toNat_inj.1 ?_⟩
  rw [Nat.toNat_digitChar_of_lt_ten (by omega)]
  omega

/-- A digit is none of the other characters of a numeric string. -/
theorem toLower_of_isDigit {c : Char} (h : c.isDigit = true) :
    c.toLower ≠ 'i' ∧ c.toLower ≠ 'n' ∧ c.toLower ≠ 's' ∧ c ≠ '-' ∧ c ≠ '+' := by
  have key : ∀ n < 10, n.digitChar.toLower ≠ 'i' ∧ n.digitChar.toLower ≠ 'n' ∧
      n.digitChar.toLower ≠ 's' ∧ n.digitChar ≠ '-' ∧ n.digitChar ≠ '+' := by decide
  obtain ⟨n, hn, rfl⟩ := exists_digitChar h
  exact key n hn

/-- Digits in front of anything else are cut off. -/
theorem span_isDigit {digits text : List Char} (h : ∀ c ∈ digits, c.isDigit = true)
    (htext : text.head?.all (!·.isDigit) = true) :
    (digits ++ text).span Char.isDigit = (digits, text) := by
  rw [List.span_eq_takeWhile_dropWhile, List.takeWhile_append_of_pos h,
    List.dropWhile_append_of_pos h]
  cases text with
  | nil => simp
  | cons c text =>
    have hc : c.isDigit = false := by simpa using htext
    simp [hc]

/-- A text that starts with a digit is a finite number or none. -/
theorem ofChars_digit {negative : Bool} {c : Char} {text : List Char} (h : c.isDigit = true) :
    ofChars ((if negative then ['-'] else []) ++ c :: text) =
      (readFinite negative (c :: text)).map .finite := by
  obtain ⟨hi, hn, hs, hminus, hplus⟩ := toLower_of_isDigit h
  have hsign : readSign ((if negative then ['-'] else []) ++ c :: text) =
    (negative, c :: text) := by
    cases negative with
    | true => rfl
    | false => simp [readSign, hminus, hplus]
  rw [ofChars, hsign]
  dsimp only
  rw [List.map_cons]
  split
  all_goals simp_all

/-- Digits around a point. -/
theorem readFinite_point {negative : Bool} {whole fraction : List Char} (hne : whole ≠ [])
    (hwhole : ∀ c ∈ whole, c.isDigit = true) (hfraction : ∀ c ∈ fraction, c.isDigit = true)
    {x : Finite} (hx : x = ⟨negative, Nat.ofDigitChars 10 (whole ++ fraction) 0, -fraction.length⟩)
    (hrep : x.Representable) : readFinite negative (whole ++ '.' :: fraction) = some x := by
  have hnil : (([] : List Char).head?.all (!·.isDigit)) = true := rfl
  have hend := span_isDigit hfraction hnil
  rw [List.append_nil] at hend
  rw [readFinite, span_isDigit hwhole rfl]
  dsimp only
  rw [readFraction, hend]
  dsimp only [readExponent, bind, Option.bind]
  rw [zero_sub, ← hx, if_pos ⟨by simp [hne], hrep⟩]

/-- What is written with some places is read as the number with that many. -/
theorem ofChars_toChars (hplaces : 0 < places) {x : Finite}
    (hrep : (x.rescale (-places)).Representable) :
    ofChars (x.toChars places) = some (.finite (x.rescale (-places))) := by
  rw [Finite.toChars, if_neg hplaces.ne']
  generalize hr : x.rescale (-places) = r at hrep ⊢
  have hdigits : ∀ c ∈ Nat.toDigits 10 (r.coefficient / 10 ^ places), c.isDigit = true :=
    fun c hc => Nat.isDigit_of_mem_toDigits (by decide) (by decide) hc
  have hlength := length_fractionChars hplaces (Nat.mod_lt r.coefficient (by positivity))
  have hread : readFinite r.negative (Nat.toDigits 10 (r.coefficient / 10 ^ places) ++
      '.' :: fractionChars places (r.coefficient % 10 ^ places)) = some r := by
    refine readFinite_point Nat.toDigits_ne_nil hdigits (fun c => isDigit_fractionChars) ?_ hrep
    rw [ofDigitChars_split hplaces, hlength, ← hr]
    rfl
  obtain ⟨c, text, htext⟩ := List.exists_cons_of_ne_nil
    (Nat.toDigits_ne_nil (n := r.coefficient / 10 ^ places) (b := 10))
  rw [htext] at hread hdigits ⊢
  rw [List.cons_append, ofChars_digit (hdigits c List.mem_cons_self), ← List.cons_append, hread]
  rfl

end

end Decimal
