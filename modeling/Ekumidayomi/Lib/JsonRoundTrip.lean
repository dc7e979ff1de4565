import Ekumidayomi.Lib.Json

/-!
# What `json.dumps` writes, `json.loads` reads

The text of a value is read as `Value.coerced`: tuples come back as lists and keys as the strings
that stand for them, and what was granted to the encoder is all that the scan asks for.
-/

namespace Python

open Unicode

variable {t rest : Text} {c : CodePoint}

/-! ## Strings -/

/-- A letter after a backslash. -/
theorem scanString_letter {e : CodePoint} (he : e ≠ ofChar 'u') :
    scanString (ofChar '\\' :: e :: rest) = push (unescape e) (scanString rest) := by
  rw [scanString.eq_def]
  dsimp only
  rw [if_neg (by decide), if_pos rfl, if_neg he]

/-- Four digits of a code point that is no surrogate. -/
theorem scanString_digits {w x y z : CodePoint} {n : Nat} (h : hex4 w x y z = some n)
    (hhigh : isHighSurrogate n = false) :
    scanString (ofChar '\\' :: ofChar 'u' :: w :: x :: y :: z :: rest) =
      push (codePoint n) (scanString rest) := by
  rw [scanString.eq_def]
  dsimp only
  rw [if_neg (by decide), if_pos rfl, if_pos rfl]
  simp only [h, hhigh, Bool.false_and, Option.bind_eq_bind, Option.bind_some, Bool.false_eq_true,
    if_false]
  split
  · rfl
  · rfl

/-- The digits of an escaped control character. -/
theorem hex4_digits {n : Nat} (h : n < 0x20) : ∃ w x y z,
    (Hex.digits 4 n).map ofChar = [w, x, y, z] ∧ hex4 w x y z = some n := by
  have key : ∀ n < 0x20, hex4 (ofChar (Hex.digit (n / 16 / 16 / 16)))
    (ofChar (Hex.digit (n / 16 / 16)))
      (ofChar (Hex.digit (n / 16))) (ofChar (Hex.digit n)) = some n := by decide
  exact ⟨_, _, _, _, rfl, key n h⟩

theorem scanString_escape (c : CodePoint) (rest : Text) :
    scanString (escape c ++ rest) = push (some c) (scanString rest) := by
  have hletter : ∀ {e : CodePoint} {s : String}, ofString s = [ofChar '\\', e] → e ≠ ofChar 'u' →
      unescape e = some c → scanString (ofString s ++ rest) = push (some c) (scanString rest) := by
    intro e s hs he hc
    rw [hs, ← hc]
    exact scanString_letter he
  unfold escape
  split
  case isTrue h => subst h; exact hletter rfl (by decide) (by decide)
  split
  case isTrue h => subst h; exact hletter rfl (by decide) (by decide)
  split
  case isTrue h => obtain rfl : c = ⟨0x8, by decide⟩ := Fin.ext h; exact hletter rfl (by decide) rfl
  split
  case isTrue h => obtain rfl : c = ⟨0x9, by decide⟩ := Fin.ext h; exact hletter rfl (by decide) rfl
  split
  case isTrue h => obtain rfl : c = ⟨0xa, by decide⟩ := Fin.ext h; exact hletter rfl (by decide) rfl
  split
  case isTrue h => obtain rfl : c = ⟨0xc, by decide⟩ := Fin.ext h; exact hletter rfl (by decide) rfl
  split
  case isTrue h => obtain rfl : c = ⟨0xd, by decide⟩ := Fin.ext h; exact hletter rfl (by decide) rfl
  split
  case isTrue h =>
    obtain ⟨w, x, y, z, hdigits, hval⟩ := hex4_digits h
    have hhigh : isHighSurrogate c.val = false := by
      simp only [isHighSurrogate, Bool.and_eq_false_iff, decide_eq_false_iff_not]
      omega
    rw [hdigits, ← codePoint_val c]
    exact scanString_digits hval hhigh
  case isFalse hquote hbackslash _ _ _ _ _ hcontrol =>
    rw [List.singleton_append, scanString.eq_def]
    dsimp only
    rw [if_neg hquote, if_neg hbackslash, if_neg hcontrol]

/-- A string in quotes is read. -/
theorem scanString_quote (s rest : Text) :
    scanString (s.flatMap escape ++ ofChar '"' :: rest) = some (s, rest) := by
  induction s with
  | nil =>
    rw [List.flatMap_nil, List.nil_append, scanString.eq_def]
    rfl
  | cons c s ih =>
    rw [List.flatMap_cons, List.append_assoc, scanString_escape, ih]
    rfl

/-! ## Numbers -/

/-- What may follow a number: nothing that goes on with it. -/
def EndsNumber (rest : Text) : Prop :=
  ∀ c ∈ rest.head?, isDigit c = false ∧ c ≠ ofChar '.' ∧ c ≠ ofChar 'e' ∧ c ≠ ofChar 'E'

theorem EndsNumber.nil : EndsNumber [] := nofun

theorem endsNumber_cons (h : isDigit c = false ∧ c ≠ ofChar '.' ∧ c ≠ ofChar 'e' ∧ c ≠ ofChar 'E') :
    EndsNumber (c :: t) := by
  intro x hx
  cases hx
  exact h

theorem takeWhile_digits {ds : Text} (hds : ∀ c ∈ ds, isDigit c = true)
    (hrest : ∀ c ∈ rest.head?, isDigit c = false) :
    (ds ++ rest).takeWhile isDigit = ds ∧ (ds ++ rest).dropWhile isDigit = rest := by
  rw [List.takeWhile_append_of_pos hds, List.dropWhile_append_of_pos hds]
  cases rest with
  | nil => simp
  | cons c rest =>
    have hc := hrest c rfl
    rw [List.takeWhile_cons_of_neg (by simp [hc]), List.dropWhile_cons_of_neg (by simp [hc])]
    simp

theorem isDigit_ofChar {c : Char} (h : c.isDigit = true) : isDigit (ofChar c) = true := by
  simp only [Char.isDigit, Bool.and_eq_true, decide_eq_true_eq, ge_iff_le] at h
  rw [isDigit, Bool.and_eq_true]
  exact ⟨decide_eq_true h.1, decide_eq_true h.2⟩

/-- A text that begins with something else than a digit. -/
theorem head_not_digit (h : isDigit c = false) : ∀ x ∈ (c :: t).head?, isDigit x = false := by
  intro x hx
  cases hx
  exact h

/-- What follows the whole part of a number is no digit. -/
theorem Numeral.not_digit (n : Numeral) (hrest : EndsNumber rest) :
    ∀ c ∈ (n.fraction ++ (n.exponent ++ rest)).head?, isDigit c = false := by
  rcases n.isFraction with hf | ⟨ds, hf, -⟩
  · rcases n.isExponent with he | ⟨e, sign, ds, he, hmark, -⟩
    · rw [hf, he]
      exact fun c hc => (hrest c hc).1
    · rw [hf, he]
      rcases hmark with rfl | rfl
      · exact head_not_digit (by decide)
      · exact head_not_digit (by decide)
  · rw [hf]
    exact head_not_digit (by decide)

theorem scanWhole_append {whole : Text}
    (h : whole = [ofChar '0'] ∨ IsDigits whole ∧ whole.head? ≠ some (ofChar '0'))
    (hrest : ∀ c ∈ rest.head?, isDigit c = false) :
    scanWhole (whole ++ rest) = some (whole, rest) := by
  rcases h with rfl | ⟨⟨hne, hds⟩, hzero⟩
  · rfl
  · cases whole with
    | nil => exact absurd rfl hne
    | cons d ds =>
      have hd : d ≠ ofChar '0' := by simpa using hzero
      obtain ⟨htake, hdrop⟩ :=
        takeWhile_digits (fun c hc => hds c (List.mem_cons_of_mem _ hc)) hrest
      rw [List.cons_append, scanWhole, if_neg hd, if_pos (hds d List.mem_cons_self), htake, hdrop]

/-- There is no fraction where the text does not go on with a point. -/
theorem scanFraction_none (h : t.head? ≠ some (ofChar '.')) : scanFraction t = ([], t) := by
  unfold scanFraction
  split
  case h_1 c d t =>
    have hc : c ≠ ofChar '.' := by simpa using h
    rw [if_neg (by simp [hc])]
  case h_2 => rfl

theorem scanFraction_append {fraction : Text}
    (h : fraction = [] ∨ ∃ ds, fraction = ofChar '.' :: ds ∧ IsDigits ds)
    (hpoint : rest.head? ≠ some (ofChar '.')) (hrest : ∀ c ∈ rest.head?, isDigit c = false) :
    scanFraction (fraction ++ rest) = (fraction, rest) := by
  rcases h with rfl | ⟨ds, rfl, hne, hds⟩
  · exact scanFraction_none hpoint
  · cases ds with
    | nil => exact absurd rfl hne
    | cons d ds =>
      obtain ⟨htake, hdrop⟩ :=
        takeWhile_digits (fun c hc => hds c (List.mem_cons_of_mem _ hc)) hrest
      rw [List.cons_append, List.cons_append, scanFraction,
        if_pos (by simp [hds d List.mem_cons_self]), htake, hdrop]

theorem scanExponent_append {exponent : Text}
    (h : exponent = [] ∨ ∃ e sign ds, exponent = e :: (sign ++ ds) ∧
      (e = ofChar 'e' ∨ e = ofChar 'E') ∧ (sign = [] ∨ sign = [ofChar '+'] ∨ sign = [ofChar '-']) ∧
      IsDigits ds) (hrest : EndsNumber rest) :
    scanExponent (exponent ++ rest) = (exponent, rest) := by
  rcases h with rfl | ⟨e, sign, ds, rfl, hmark, hsign, hne, hds⟩
  · cases rest with
    | nil => rfl
    | cons c rest =>
      obtain ⟨-, -, he, hE⟩ := hrest c rfl
      rw [List.nil_append, scanExponent, if_neg (by simp [he, hE])]
  · have hscan : scanSign [ofChar '+', ofChar '-'] (sign ++ (ds ++ rest)) = (sign, ds ++ rest) := by
      rcases hsign with rfl | rfl | rfl
      · cases ds with
        | nil => exact absurd rfl hne
        | cons d ds =>
          have hd : d ≠ ofChar '+' ∧ d ≠ ofChar '-' := by
            have hdigit := hds d List.mem_cons_self
            constructor <;> rintro rfl <;> exact absurd hdigit (by decide)
          simp [scanSign, hd.1, hd.2]
      · rfl
      · rfl
    obtain ⟨htake, hdrop⟩ := takeWhile_digits hds fun c hc => (hrest c hc).1
    rw [List.cons_append, List.append_assoc, scanExponent, if_pos (by simpa using hmark), hscan]
    dsimp only
    rw [htake, hdrop, if_neg (by simpa using hne)]

/-- A number is read up to its end. -/
theorem matchNumber_append (n : Numeral) (hrest : EndsNumber rest) :
    matchNumber (n.text ++ rest) = some (n.sign, n.whole, n.fraction ++ n.exponent, rest) := by
  have hsign : scanSign [ofChar '-'] (n.text ++ rest) =
      (n.sign, n.whole ++ (n.fraction ++ (n.exponent ++ rest))) := by
    unfold Numeral.text
    simp only [List.append_assoc]
    rcases n.isSign with hs | hs
    · rw [hs]
      rcases n.isWhole with hw | ⟨⟨hne, hds⟩, -⟩
      · rw [hw]
        rfl
      · cases hw : n.whole with
        | nil => exact absurd hw hne
        | cons d ds =>
          have hd : d ≠ ofChar '-' := by
            rintro rfl
            exact absurd (hds _ (by rw [hw]; exact List.mem_cons_self)) (by decide)
          simp [scanSign, hd]
    · rw [hs]
      rfl
  have hpoint : (n.exponent ++ rest).head? ≠ some (ofChar '.') ∧
      ∀ c ∈ (n.exponent ++ rest).head?, isDigit c = false := by
    rcases n.isExponent with he | ⟨e, sign, ds, he, hmark, -⟩
    · rw [he]
      exact ⟨fun h => (hrest _ h).2.1 rfl, fun c hc => (hrest c hc).1⟩
    · rw [he]
      rcases hmark with rfl | rfl
      · exact ⟨by simp [ofChar], head_not_digit (by decide)⟩
      · exact ⟨by simp [ofChar], head_not_digit (by decide)⟩
  simp only [matchNumber, hsign, scanWhole_append n.isWhole (n.not_digit hrest),
    scanFraction_append n.isFraction hpoint.1 hpoint.2, scanExponent_append n.isExponent hrest,
    Option.bind_eq_bind, Option.bind_some]
  rfl

/-! ## Integers -/

theorem isDigits_natText (n : Nat) : IsDigits (natText n) := by
  refine ⟨by simp [natText, Nat.toDigits_ne_nil], fun c hc => ?_⟩
  obtain ⟨d, hd, rfl⟩ := List.mem_map.1 hc
  exact isDigit_ofChar (Nat.isDigit_of_mem_toDigits (by decide) (by decide) hd)

theorem natText_whole (n : Nat) : natText n = [ofChar '0'] ∨
    IsDigits (natText n) ∧ (natText n).head? ≠ some (ofChar '0') := by
  rcases Nat.eq_zero_or_pos n with rfl | hn
  · exact .inl rfl
  · refine .inr ⟨isDigits_natText n, fun h => head_toDigits hn ?_⟩
    rw [natText, List.head?_map, Option.map_eq_some_iff] at h
    obtain ⟨d, hd, hzero⟩ := h
    rw [hd, ofChar_injective hzero]

theorem natOf_natText (n : Nat) : natOf (natText n) = n := by
  rw [natOf, natText, List.foldl_map]
  exact Nat.ofDigitChars_eq_foldl.symm.trans Nat.ofDigitChars_ten_toDigits

theorem intOf_intText (i : Int) : intOf (intText i) = i := by
  cases i with
  | ofNat n =>
    obtain ⟨hne, hdigits⟩ := isDigits_natText n
    have hof := natOf_natText n
    show intOf (natText n) = n
    cases ht : natText n with
    | nil => exact absurd ht hne
    | cons c t =>
      have hc : c ≠ ofChar '-' := by
        rintro rfl
        exact absurd (hdigits _ (by rw [ht]; exact List.mem_cons_self)) (by decide)
      rw [ht] at hof
      rw [intOf, if_neg hc, hof]
  | negSucc n =>
    show intOf (ofChar '-' :: natText (n + 1)) = _
    rw [intOf, if_pos rfl, natOf_natText]
    rfl

/-- The text of an `int` as a number. -/
def intNumeral (i : Int) : Numeral where
  sign := match i with
    | .ofNat _ => []
    | .negSucc _ => [ofChar '-']
  whole := natText i.natAbs
  fraction := []
  exponent := []
  isSign := by cases i <;> simp
  isWhole := natText_whole _
  isFraction := .inl rfl
  isExponent := .inl rfl

/-- A number that is nothing but its digits. -/
def Numeral.ofWhole (whole : Text)
    (isWhole : whole = [ofChar '0'] ∨ IsDigits whole ∧ whole.head? ≠ some (ofChar '0')) :
    Numeral where
  sign := []
  whole
  fraction := []
  exponent := []
  isSign := .inl rfl
  isWhole
  isFraction := .inl rfl
  isExponent := .inl rfl

theorem intNumeral_parts (i : Int) : (intNumeral i).sign ++ (intNumeral i).whole = intText i := by
  cases i <;> rfl

theorem intNumeral_text (i : Int) : (intNumeral i).text = intText i := by
  rw [← intNumeral_parts]
  simp [Numeral.text, intNumeral]

/-! ## What is read -/

/-- A scan reads something and asks for nothing that is refused. -/
def Reads {α : Type} (limits : Limits) (x : Scan α) (a : α) : Prop :=
  x.result = some a ∧ ∀ demand ∈ x.demands, limits.allows demand = true

section
variable {α β : Type} {limits : Limits} {x : Scan α} {f : α → Scan β} {a : α} {b : β}

theorem Reads.pure (a : α) : Reads limits (pure a) a := ⟨rfl, nofun⟩

theorem Reads.of {o : Option α} (h : o = some a) : Reads limits (.of o) a := ⟨h, nofun⟩

theorem Reads.ask {demand : Demand} (h : limits.allows demand = true) :
    Reads limits (.ask demand) () :=
  ⟨rfl, fun _ hd => by rw [List.mem_singleton.1 hd]; exact h⟩

theorem Reads.bind (hx : Reads limits x a) (hf : Reads limits (f a) b) :
    Reads limits (x >>= f) b := by
  obtain ⟨demands, result⟩ := x
  obtain ⟨rfl, hdemands⟩ := hx
  exact ⟨hf.1, fun d hd => (List.mem_append.1 hd).elim (hdemands d) (hf.2 d)⟩

theorem Reads.run (h : Reads limits x a) : x.run limits = .ok a := by
  have hnone : x.demands.find? (fun demand => !limits.allows demand) = none :=
    List.find?_eq_none.2 fun d hd => by simp [h.2 d hd]
  rw [Scan.run, hnone, h.1]

/-- A scan that nothing is refused to reads something or finds that the text is not JSON. -/
theorem Scan.run_granted (h : ∀ demand ∈ x.demands, limits.allows demand = true) :
    (∃ a, x.run limits = .ok a) ∨ x.run limits = .error .jsonDecodeError := by
  have hnone : x.demands.find? (fun demand => !limits.allows demand) = none :=
    List.find?_eq_none.2 fun d hd => by simp [h d hd]
  rw [Scan.run, hnone]
  cases x.result with
  | none => exact .inr rfl
  | some a => exact .inl ⟨a, rfl⟩

/-- A scan that something is refused to ends with it. -/
theorem Scan.run_refused {demand : Demand} (hmem : demand ∈ x.demands)
    (h : limits.allows demand = false) :
    x.run limits = .error .valueError ∨ x.run limits = .error .recursionError := by
  rw [Scan.run]
  cases hfind : x.demands.find? fun demand => !limits.allows demand with
  | none =>
    have hallowed := List.find?_eq_none.1 hfind demand hmem
    simp [h] at hallowed
  | some refused =>
    cases refused with
    | digits n => exact .inl rfl
    | nesting depth => exact .inr rfl

end

section
variable {F : Type} {floats : Floats F} {limits : Limits}

theorem bind_ok {ε α β : Type} {x : Except ε α} {f : α → Except ε β} {b : β}
    (h : (x >>= f) = .ok b) : ∃ a, x = .ok a ∧ f a = .ok b := by
  cases x with
  | error e => cases h
  | ok a => exact ⟨a, rfl, h⟩

theorem grant_ok {demand : Demand} {u : Unit} (h : limits.grant demand = .ok u) :
    limits.allows demand = true := by
  unfold Limits.grant at h
  split at h
  case isTrue hallows => exact hallows
  case isFalse => cases demand <;> cases h

theorem dumpsInt_ok {i : Int} {text : Text} (h : dumpsInt limits i = .ok text) :
    limits.allows (.digits (digitCount i)) = true ∧ text = intText i := by
  obtain ⟨_, hgrant, h⟩ := bind_ok h
  exact ⟨grant_ok hgrant, (Except.ok.inj h).symm⟩

theorem dumpsFloat_ok {x : F} {text : Text} (h : dumpsFloat floats x = .ok text) :
    floats.finite x = true ∧ text = floats.repr x := by
  unfold dumpsFloat at h
  split at h
  case isTrue hx => exact ⟨hx, (Except.ok.inj h).symm⟩
  case isFalse => cases h

theorem reads_int {i : Int} {text : Text} (h : dumpsInt limits i = .ok text)
    (hrest : EndsNumber rest) : Reads limits (scanNumber floats (text ++ rest)) (.int i, rest) := by
  have hallows := dumpsInt_ok h
  have hmatch := matchNumber_append (intNumeral i) hrest
  rw [intNumeral_text, ← hallows.2] at hmatch
  refine .bind (.of hmatch) ?_
  have hempty : ((intNumeral i).fraction ++ (intNumeral i).exponent).isEmpty = true := rfl
  dsimp only
  rw [if_pos hempty, intNumeral_parts, intOf_intText]
  refine .bind (.ask ?_) (.pure _)
  rw [show (intNumeral i).whole.length = digitCount i from List.length_map ..]
  exact hallows.1

theorem reads_float {x : F} (hx : floats.finite x = true) (hrest : EndsNumber rest) :
    Reads limits (scanNumber floats (floats.repr x ++ rest)) (.float x, rest) := by
  obtain ⟨n, htext, hne⟩ := floats.repr_numeral x hx
  have hmatch := matchNumber_append n hrest
  rw [htext] at hmatch
  refine .bind (.of hmatch) ?_
  dsimp only
  rw [if_neg (by simpa using hne)]
  have hread : n.sign ++ n.whole ++ (n.fraction ++ n.exponent) = floats.repr x := by
    rw [← htext, Numeral.text, List.append_assoc]
  rw [hread, floats.ofText_repr x hx]
  exact .pure _


/-- The first code point of a number is a digit, after a sign if there is one. -/
theorem Numeral.head (n : Numeral) (rest : Text) : ∃ d t, isDigit d = true ∧
    (n.text ++ rest = d :: t ∨ n.text ++ rest = ofChar '-' :: d :: t) := by
  have hwhole : ∃ d t, isDigit d = true ∧ n.whole = d :: t := by
    rcases n.isWhole with hw | ⟨⟨hne, hds⟩, -⟩
    · exact ⟨_, _, by decide, hw⟩
    · cases hw : n.whole with
      | nil => exact absurd hw hne
      | cons d t => exact ⟨d, t, hds d (by rw [hw]; exact List.mem_cons_self), rfl⟩
  obtain ⟨d, t, hd, hw⟩ := hwhole
  rcases n.isSign with hs | hs
  · exact ⟨d, _, hd, .inl (by rw [Numeral.text, hs, hw]; rfl)⟩
  · exact ⟨d, _, hd, .inr (by rw [Numeral.text, hs, hw]; rfl)⟩

/-- A constant begins with a letter, or with a letter after the sign. -/
theorem constants_head {e : Text × Value F} (h : e ∈ constants floats) :
    ∃ c name, isDigit c = false ∧ c ≠ ofChar '-' ∧
      (e.1 = c :: name ∨ e.1 = ofChar '-' :: c :: name) := by
  simp only [constants, List.mem_cons, List.not_mem_nil, or_false] at h
  rcases h with rfl | rfl | rfl | rfl | rfl | rfl
  · exact ⟨_, _, by decide, by decide, .inl rfl⟩
  · exact ⟨_, _, by decide, by decide, .inl rfl⟩
  · exact ⟨_, _, by decide, by decide, .inl rfl⟩
  · exact ⟨_, _, by decide, by decide, .inl rfl⟩
  · exact ⟨_, _, by decide, by decide, .inl rfl⟩
  · exact ⟨_, _, by decide, by decide, .inr rfl⟩

/-- No constant begins as a number does. -/
theorem scanAtom_numeral (n : Numeral) (rest : Text) :
    scanAtom floats (n.text ++ rest) = scanNumber floats (n.text ++ rest) := by
  have hnone : (constants floats).find? (fun e => e.1.isPrefixOf (n.text ++ rest)) = none := by
    obtain ⟨d, t, hd, htext⟩ := n.head rest
    have hne : ∀ c, isDigit c = false → c ≠ d := by
      rintro c hc rfl
      exact absurd (hc.symm.trans hd) Bool.false_ne_true
    refine List.find?_eq_none.2 fun e he => ?_
    obtain ⟨c, name, hc, hminus, hname⟩ := constants_head he
    rcases hname with hname | hname <;> rcases htext with htext | htext
    · simp [hname, htext, hne c hc]
    · simp [hname, htext, hminus]
    · simp [hname, htext, hne (ofChar '-') (by decide)]
    · simp [hname, htext, hne c hc]
  rw [scanAtom, hnone]

/-! ## Values -/

/-- The string that stands for a key. -/
def keyString (floats : Floats F) : Key F → Text
  | .str s => s
  | .none => ofString "null"
  | .bool b => ofString (if b then "true" else "false")
  | .int i => intText i
  | .float x => floats.repr x
  | .other => []

mutual

/-- What comes back for a value. -/
def Value.coerced (floats : Floats F) : Value F → Value F
  | .list items | .tuple items => .list (coercedItems floats items)
  | .dict entries => dictOf (coercedEntries floats entries)
  | v => v

def coercedItems (floats : Floats F) : List (Value F) → List (Value F)
  | [] => []
  | v :: items => v.coerced floats :: coercedItems floats items

def coercedEntries (floats : Floats F) : List (Key F × Value F) → List (Text × Value F)
  | [] => []
  | (key, v) :: entries => (keyString floats key, v.coerced floats) :: coercedEntries floats entries

end

/-- The text of a key is the string that stands for it. -/
theorem keyText_ok {key : Key F} {name : Text} (h : keyText floats limits key = .ok name) :
    name = keyString floats key := by
  cases key with
  | none | bool | str => exact (Except.ok.inj h).symm
  | int i => exact (dumpsInt_ok h).2
  | float x => exact (dumpsFloat_ok h).2
  | other => cases h

/-- A text that is not taken for white space or for the end of a container. -/
def Begins (t : Text) : Prop :=
  ∃ c u, t = c :: u ∧ isSpace c = false ∧ c ≠ ofChar ']' ∧ c ≠ ofChar '}'

theorem Begins.append (h : Begins t) (rest : Text) : Begins (t ++ rest) := by
  obtain ⟨c, u, rfl, hc⟩ := h
  exact ⟨c, u ++ rest, rfl, hc⟩

theorem Begins.skipSpace (h : Begins t) : skipSpace t = t := by
  obtain ⟨c, u, rfl, hc, -⟩ := h
  exact List.dropWhile_cons_of_neg (by simp [hc])

theorem Begins.numeral (n : Numeral) : Begins n.text := by
  obtain ⟨d, t, hd, htext⟩ := n.head []
  rw [List.append_nil] at htext
  have hdigit : 0x30 ≤ d.val ∧ d.val ≤ 0x39 := by simpa [isDigit] using hd
  rcases htext with htext | htext
  · refine ⟨d, t, htext, ?_, ?_, ?_⟩
    · simp only [isSpace, Bool.or_eq_false_iff, beq_eq_false_iff_ne]
      omega
    · rintro rfl
      exact absurd hd (by decide)
    · rintro rfl
      exact absurd hd (by decide)
  · exact ⟨_, _, htext, by decide, by decide, by decide⟩

theorem begins_int (i : Int) : Begins (intText i) := by
  rw [← intNumeral_text]
  exact .numeral _

theorem begins_dumps {v : Value F} {depth : Nat} {text : Text}
    (h : dumps floats limits depth v = .ok text) : Begins text := by
  cases v with
  | none => rw [← Except.ok.inj h]; exact ⟨_, _, rfl, by decide, by decide, by decide⟩
  | bool b =>
    rw [← Except.ok.inj h]
    cases b <;> exact ⟨_, _, rfl, by decide, by decide, by decide⟩
  | int i =>
    rw [(dumpsInt_ok h).2]
    exact begins_int i
  | float x =>
    obtain ⟨hx, rfl⟩ := dumpsFloat_ok h
    obtain ⟨n, htext, -⟩ := floats.repr_numeral x hx
    rw [← htext]
    exact .numeral n
  | str s => rw [← Except.ok.inj h]; exact ⟨_, _, rfl, by decide, by decide, by decide⟩
  | list items | tuple items | dict entries =>
    obtain ⟨_, -, h⟩ := bind_ok h
    obtain ⟨_, -, h⟩ := bind_ok h
    rw [← Except.ok.inj h]
    exact ⟨_, _, rfl, by decide, by decide, by decide⟩
  | other => cases h

theorem begins_commaJoin {text : Text} {texts : List Text} (h : Begins text) :
    Begins (commaJoin (text :: texts)) := by
  cases texts with
  | nil => exact h
  | cons => exact h.append _

/-- Whatever does not open a string or a container is an atom. -/
theorem scanOnce_atom {fuel depth : Nat} (hquote : c ≠ ofChar '"') (hbracket : c ≠ ofChar '[')
    (hbrace : c ≠ ofChar '{') :
    scanOnce floats (fuel + 1) depth (c :: t) = scanAtom floats (c :: t) := by
  rw [scanOnce.eq_def]
  dsimp only
  rw [if_neg hquote, if_neg hbracket, if_neg hbrace]

theorem scanOnce_numeral (n : Numeral) {fuel depth : Nat} (rest : Text) :
    scanOnce floats (fuel + 1) depth (n.text ++ rest) = scanNumber floats (n.text ++ rest) := by
  rw [← scanAtom_numeral]
  obtain ⟨d, t, hd, htext⟩ := n.head rest
  have hne : ∀ c, isDigit c = false → d ≠ c := by
    rintro c hc rfl
    exact absurd (hc.symm.trans hd) Bool.false_ne_true
  rcases htext with htext | htext <;> rw [htext]
  · exact scanOnce_atom (hne _ (by decide)) (hne _ (by decide)) (hne _ (by decide))
  · exact scanOnce_atom (by decide) (by decide) (by decide)

/-- A list that is not empty is read item by item. -/
theorem reads_list {fuel depth : Nat} {t rest : Text} {items : List (Value F)}
    (hgrant : limits.allows (.nesting (depth + 1)) = true) (ht : Begins t)
    (h : Reads limits (scanItems floats fuel (depth + 1) t) (items, rest)) :
    Reads limits (scanOnce floats (fuel + 1) depth (ofChar '[' :: t)) (.list items, rest) := by
  obtain ⟨c, u, rfl, hspace, hbracket, hbrace⟩ := ht
  have hskip : skipSpace (c :: u) = c :: u := Begins.skipSpace ⟨c, u, rfl, hspace, hbracket, hbrace⟩
  rw [scanOnce.eq_def]
  dsimp only
  rw [if_neg (by decide), if_pos rfl]
  refine .bind (.ask hgrant) ?_
  rw [hskip, List.head?_cons, if_neg (by simpa using hbracket)]
  exact .bind h (.pure _)

/-- A dictionary that is not empty is read member by member. -/
theorem reads_dict {fuel depth : Nat} {t rest : Text} {members : List (Text × Value F)}
    (hgrant : limits.allows (.nesting (depth + 1)) = true) (ht : Begins t)
    (h : Reads limits (scanMembers floats fuel (depth + 1) t) (members, rest)) :
    Reads limits (scanOnce floats (fuel + 1) depth (ofChar '{' :: t)) (dictOf members, rest) := by
  obtain ⟨c, u, rfl, hspace, hbracket, hbrace⟩ := ht
  have hskip : skipSpace (c :: u) = c :: u := Begins.skipSpace ⟨c, u, rfl, hspace, hbracket, hbrace⟩
  rw [scanOnce.eq_def]
  dsimp only
  rw [if_neg (by decide), if_neg (by decide), if_pos rfl]
  refine .bind (.ask hgrant) ?_
  rw [hskip, List.head?_cons, if_neg (by simpa using hbrace)]
  exact .bind h (.pure _)

/-- The last item of a list, before its bracket. -/
theorem reads_lastItem {fuel depth : Nat} {t rest : Text} {v : Value F}
    (h : Reads limits (scanOnce floats fuel depth t) (v, ofChar ']' :: rest)) :
    Reads limits (scanItems floats (fuel + 1) depth t) ([v], rest) := by
  rw [scanItems.eq_def]
  exact .bind h (.pure _)

/-- An item of a list, before a comma. -/
theorem reads_item {fuel depth : Nat} {t next rest : Text} {v : Value F} {items : List (Value F)}
    (h : Reads limits (scanOnce floats fuel depth t) (v, ofChar ',' :: next)) (hnext : Begins next)
    (hitems : Reads limits (scanItems floats fuel depth next) (items, rest)) :
    Reads limits (scanItems floats (fuel + 1) depth t) (v :: items, rest) := by
  rw [scanItems.eq_def]
  refine .bind h ?_
  have hcomma : skipSpace (ofChar ',' :: next) = ofChar ',' :: next :=
    List.dropWhile_cons_of_neg (by decide)
  dsimp only
  rw [hcomma]
  dsimp only
  rw [if_neg (by decide), if_pos rfl, hnext.skipSpace]
  exact .bind hitems (.pure _)

theorem quote_append (s u : Text) : quote s ++ u =
    ofChar '"' :: (s.flatMap escape ++ ofChar '"' :: u) := by
  rw [quote, List.cons_append, List.append_assoc, List.singleton_append]

/-- The last member of an object, before its brace. -/
theorem reads_lastMember {fuel depth : Nat} {name t rest : Text} {v : Value F} (ht : Begins t)
    (h : Reads limits (scanOnce floats fuel depth t) (v, ofChar '}' :: rest)) :
    Reads limits (scanMembers floats (fuel + 1) depth (quote name ++ ofChar ':' :: t))
      ([(name, v)], rest) := by
  rw [quote_append, scanMembers.eq_def]
  refine .bind (.of (scanString_quote name _)) ?_
  have hcolon : skipSpace (ofChar ':' :: t) = ofChar ':' :: t :=
    List.dropWhile_cons_of_neg (by decide)
  dsimp only
  rw [hcolon]
  dsimp only
  rw [if_pos rfl, ht.skipSpace]
  exact .bind h (.pure _)

/-- A member of an object, before a comma. -/
theorem reads_member {fuel depth : Nat} {name t next rest : Text} {v : Value F}
    {members : List (Text × Value F)} (ht : Begins t)
    (h : Reads limits (scanOnce floats fuel depth t) (v, ofChar ',' :: next)) (hnext : Begins next)
    (hmembers : Reads limits (scanMembers floats fuel depth next) (members, rest)) :
    Reads limits (scanMembers floats (fuel + 1) depth (quote name ++ ofChar ':' :: t))
      ((name, v) :: members, rest) := by
  rw [quote_append, scanMembers.eq_def]
  refine .bind (.of (scanString_quote name _)) ?_
  have hcolon : skipSpace (ofChar ':' :: t) = ofChar ':' :: t :=
    List.dropWhile_cons_of_neg (by decide)
  have hcomma : skipSpace (ofChar ',' :: next) = ofChar ',' :: next :=
    List.dropWhile_cons_of_neg (by decide)
  dsimp only
  rw [hcolon]
  dsimp only
  rw [if_pos rfl, ht.skipSpace]
  refine .bind h ?_
  dsimp only
  rw [hcomma]
  dsimp only
  rw [if_neg (by decide), if_pos rfl, hnext.skipSpace]
  exact .bind hmembers (.pure _)

theorem commaJoin_cons (t t' : Text) (ts : List Text) :
    commaJoin (t :: t' :: ts) = t ++ ofChar ',' :: commaJoin (t' :: ts) := rfl

/-- The texts of a sequence in brackets. -/
theorem reads_sequence {items : List (Value F)} {texts : List Text} {depth fuel : Nat} {rest : Text}
    (hgrant : limits.allows (.nesting (depth + 1)) = true)
    (htexts : dumpsItems floats limits (depth + 1) items = .ok texts)
    (hitems : items ≠ [] → Reads limits
      (scanItems floats fuel (depth + 1) (commaJoin texts ++ ofChar ']' :: rest))
      (coercedItems floats items, rest)) :
    Reads limits (scanOnce floats (fuel + 1) depth
      (ofChar '[' :: (commaJoin texts ++ [ofChar ']']) ++ rest))
      (.list (coercedItems floats items), rest) := by
  rw [List.cons_append, List.append_assoc, List.singleton_append]
  cases items with
  | nil =>
    rw [← Except.ok.inj htexts, scanOnce.eq_def]
    exact .bind (.ask hgrant) (.pure _)
  | cons v items =>
    obtain ⟨text, htext, htexts⟩ := bind_ok htexts
    obtain ⟨texts', -, htexts⟩ := bind_ok htexts
    refine reads_list hgrant ?_ (hitems (List.cons_ne_nil v items))
    rw [← Except.ok.inj htexts]
    exact (begins_commaJoin (begins_dumps htext)).append _

/-- The texts of the entries of a dictionary in braces. -/
theorem reads_object {entries : List (Key F × Value F)} {texts : List Text} {depth fuel : Nat}
    {rest : Text} (hgrant : limits.allows (.nesting (depth + 1)) = true)
    (htexts : dumpsEntries floats limits (depth + 1) entries = .ok texts)
    (hentries : entries ≠ [] → Reads limits
      (scanMembers floats fuel (depth + 1) (commaJoin texts ++ ofChar '}' :: rest))
      (coercedEntries floats entries, rest)) :
    Reads limits (scanOnce floats (fuel + 1) depth
      (ofChar '{' :: (commaJoin texts ++ [ofChar '}']) ++ rest))
      (dictOf (coercedEntries floats entries), rest) := by
  rw [List.cons_append, List.append_assoc, List.singleton_append]
  cases entries with
  | nil =>
    rw [← Except.ok.inj htexts, scanOnce.eq_def]
    exact .bind (.ask hgrant) (.pure _)
  | cons e entries =>
    obtain ⟨key, v⟩ := e
    obtain ⟨name, -, htexts⟩ := bind_ok htexts
    obtain ⟨text, -, htexts⟩ := bind_ok htexts
    obtain ⟨texts', -, htexts⟩ := bind_ok htexts
    refine reads_dict hgrant ?_ (hentries (List.cons_ne_nil _ entries))
    rw [← Except.ok.inj htexts]
    refine (begins_commaJoin ?_).append _
    exact ⟨_, _, rfl, by decide, by decide, by decide⟩

mutual

/-- The text of a value is read as what comes back for it. -/
theorem reads_value : ∀ (v : Value F) {depth : Nat} {text : Text},
    dumps floats limits depth v = .ok text → ∀ {rest : Text}, EndsNumber rest → ∀ {fuel : Nat},
    text.length ≤ fuel →
    Reads limits (scanOnce floats fuel depth (text ++ rest)) (v.coerced floats, rest)
  | v, depth, text, h, rest, hrest, 0, hfuel => by
    obtain ⟨c, u, rfl, -⟩ := begins_dumps h
    cases hfuel
  | .none, depth, text, h, rest, hrest, fuel + 1, hfuel => by
    rw [← Except.ok.inj h]
    exact .pure _
  | .bool b, depth, text, h, rest, hrest, fuel + 1, hfuel => by
    rw [← Except.ok.inj h]
    cases b <;> exact .pure _
  | .int i, depth, text, h, rest, hrest, fuel + 1, hfuel => by
    have hread : Reads limits (scanNumber floats (text ++ rest)) (.int i, rest) := reads_int h hrest
    rw [(dumpsInt_ok h).2, ← intNumeral_text] at hread ⊢
    rw [scanOnce_numeral]
    exact hread
  | .float x, depth, text, h, rest, hrest, fuel + 1, hfuel => by
    obtain ⟨hx, rfl⟩ := dumpsFloat_ok h
    have hread : Reads limits (scanNumber floats (floats.repr x ++ rest)) (.float x, rest) :=
      reads_float hx hrest
    obtain ⟨n, htext, -⟩ := floats.repr_numeral x hx
    rw [← htext] at hread ⊢
    rw [scanOnce_numeral]
    exact hread
  | .str s, depth, text, h, rest, hrest, fuel + 1, hfuel => by
    have hquote := scanString_quote s rest
    rw [← Except.ok.inj h, quote, List.cons_append, List.append_assoc, List.singleton_append,
      scanOnce.eq_def]
    exact .bind (.of hquote) (.pure _)
  | .list items, depth, text, h, rest, hrest, fuel + 1, hfuel => by
    obtain ⟨_, hgrant, h⟩ := bind_ok h
    obtain ⟨texts, htexts, h⟩ := bind_ok h
    obtain rfl := Except.ok.inj h
    simp only [List.length_cons, List.length_append, List.length_nil] at hfuel
    exact reads_sequence (grant_ok hgrant) htexts fun hne =>
      reads_items items hne htexts (by omega)
  | .tuple items, depth, text, h, rest, hrest, fuel + 1, hfuel => by
    obtain ⟨_, hgrant, h⟩ := bind_ok h
    obtain ⟨texts, htexts, h⟩ := bind_ok h
    obtain rfl := Except.ok.inj h
    simp only [List.length_cons, List.length_append, List.length_nil] at hfuel
    exact reads_sequence (grant_ok hgrant) htexts fun hne =>
      reads_items items hne htexts (by omega)
  | .dict entries, depth, text, h, rest, hrest, fuel + 1, hfuel => by
    obtain ⟨_, hgrant, h⟩ := bind_ok h
    obtain ⟨texts, htexts, h⟩ := bind_ok h
    obtain rfl := Except.ok.inj h
    simp only [List.length_cons, List.length_append, List.length_nil] at hfuel
    exact reads_object (grant_ok hgrant) htexts fun hne =>
      reads_members entries hne htexts (by omega)
  | .other, depth, text, h, rest, hrest, fuel + 1, hfuel => by cases h

theorem reads_items : ∀ (items : List (Value F)), items ≠ [] → ∀ {depth : Nat} {texts : List Text},
    dumpsItems floats limits depth items = .ok texts → ∀ {rest : Text} {fuel : Nat},
    (commaJoin texts).length < fuel →
    Reads limits (scanItems floats fuel depth (commaJoin texts ++ ofChar ']' :: rest))
      (coercedItems floats items, rest)
  | [], hne, depth, texts, h, rest, fuel, hfuel => absurd rfl hne
  | v :: items, hne, depth, texts, h, rest, 0, hfuel => absurd hfuel (Nat.not_lt_zero _)
  | [v], hne, depth, texts, h, rest, fuel + 1, hfuel => by
    obtain ⟨text, htext, h⟩ := bind_ok h
    obtain rfl := Except.ok.inj h
    exact reads_lastItem (reads_value v htext (endsNumber_cons (by decide)) (Nat.le_of_lt_succ hfuel))
  | v :: w :: items, hne, depth, texts, h, rest, fuel + 1, hfuel => by
    obtain ⟨text, htext, h⟩ := bind_ok h
    obtain ⟨texts, htexts, h⟩ := bind_ok h
    obtain rfl := Except.ok.inj h
    obtain ⟨text', htext', hrest⟩ := bind_ok htexts
    obtain ⟨texts', -, hrest⟩ := bind_ok hrest
    obtain rfl := Except.ok.inj hrest
    simp only [commaJoin_cons, List.length_append, List.length_cons] at hfuel
    have hitems : Reads limits (scanItems floats fuel depth
        (commaJoin (text' :: texts') ++ ofChar ']' :: rest))
        (coercedItems floats (w :: items), rest) :=
      reads_items (w :: items) (List.cons_ne_nil _ _) htexts (by omega)
    rw [commaJoin_cons, List.append_assoc, List.cons_append]
    refine reads_item (reads_value v htext (endsNumber_cons (by decide)) (by omega)) ?_ hitems
    exact (begins_commaJoin (begins_dumps htext')).append _

theorem reads_members : ∀ (entries : List (Key F × Value F)), entries ≠ [] → ∀ {depth : Nat}
    {texts : List Text}, dumpsEntries floats limits depth entries = .ok texts →
    ∀ {rest : Text} {fuel : Nat}, (commaJoin texts).length < fuel →
    Reads limits (scanMembers floats fuel depth (commaJoin texts ++ ofChar '}' :: rest))
      (coercedEntries floats entries, rest)
  | [], hne, depth, texts, h, rest, fuel, hfuel => absurd rfl hne
  | (key, v) :: entries, hne, depth, texts, h, rest, 0, hfuel => absurd hfuel (Nat.not_lt_zero _)
  | (key, v) :: entries, hne, depth, texts, h, rest, fuel + 1, hfuel => by
    obtain ⟨name, hname, h⟩ := bind_ok h
    obtain ⟨text, htext, h⟩ := bind_ok h
    obtain ⟨texts, htexts, h⟩ := bind_ok h
    obtain rfl := Except.ok.inj h
    obtain rfl := keyText_ok hname
    have hlength : (quote (keyString floats key) ++ ofChar ':' :: text).length ≥ text.length + 1 := by
      simp
    cases entries with
    | nil =>
      obtain rfl := Except.ok.inj htexts
      rw [commaJoin] at hfuel ⊢
      rw [List.append_assoc, List.cons_append]
      refine reads_lastMember ((begins_dumps htext).append _) ?_
      exact reads_value v htext (endsNumber_cons (by decide)) (by omega)
    | cons e entries =>
      obtain ⟨key', v'⟩ := e
      obtain ⟨name', -, hrest⟩ := bind_ok htexts
      obtain ⟨text', -, hrest⟩ := bind_ok hrest
      obtain ⟨texts', -, hrest⟩ := bind_ok hrest
      obtain rfl := Except.ok.inj hrest
      rw [commaJoin_cons, List.length_append, List.length_cons] at hfuel
      have hmembers : Reads limits (scanMembers floats fuel depth
          (commaJoin ((quote name' ++ ofChar ':' :: text') :: texts') ++ ofChar '}' :: rest))
          (coercedEntries floats ((key', v') :: entries), rest) :=
        reads_members ((key', v') :: entries) (List.cons_ne_nil _ _) htexts (by omega)
      rw [commaJoin_cons, List.append_assoc, List.append_assoc, List.cons_append, List.cons_append]
      refine reads_member ((begins_dumps htext).append _)
        (reads_value v htext (endsNumber_cons (by decide)) (by omega)) ?_ hmembers
      refine (begins_commaJoin ?_).append _
      exact ⟨_, _, rfl, by decide, by decide, by decide⟩

end

/-- The text of a value is decoded to what comes back for it. -/
theorem reads_text {v : Value F} {text : Text} (h : dumps floats limits 0 v = .ok text) :
    Reads limits (scanText floats text) (v.coerced floats) := by
  have hread := reads_value v h EndsNumber.nil (show text.length ≤ 2 * text.length + 1 by omega)
  rw [List.append_nil] at hread
  rw [scanText, (begins_dumps h).skipSpace]
  exact .bind hread (.pure _)

end

/-! ## Bytes -/

/-- Bytes that begin with two characters of ASCII are read as UTF-8. -/
theorem decodeBytes_encodeUtf8 {c d : CodePoint} {bytes : List UInt8}
    (hc : 0 < c.val ∧ c.val < 0x80)
    (hd : 0 < d.val ∧ d.val < 0x80) (h : encodeUtf8 (c :: d :: t) = some bytes) :
    decodeBytes bytes = some (c :: d :: t) := by
  have hdecode : decodeUtf8 true bytes = some (c :: d :: t) := decodeUtf8_encodeUtf8 h
  have hbytes : ∃ rest, bytes = .ofNat c.val :: .ofNat d.val :: rest := by
    unfold encodeUtf8 at h
    split at h
    · cases h
    · refine ⟨t.flatMap utf8Bytes, ?_⟩
      rw [← Option.some.inj h, List.flatMap_cons, List.flatMap_cons, utf8Bytes, utf8Bytes,
        if_pos hc.2, if_pos hd.2]
      rfl
  obtain ⟨rest, rfl⟩ := hbytes
  have ha := toNat_ofNat (show c.val < 0x100 by omega)
  have hb := toNat_ofNat (show d.val < 0x100 by omega)
  generalize UInt8.ofNat c.val = a at *
  generalize UInt8.ofNat d.val = b at *
  have hmark : ∀ {x : UInt8} {mark : List UInt8}, x.toNat = 0 ∨ 0x80 ≤ x.toNat →
      (x :: mark).isPrefixOf (a :: b :: rest) = false := by
    intro x mark hx
    have hne : x ≠ a := by
      rintro rfl
      omega
    exact Bool.and_eq_false_iff.2 (.inl (beq_eq_false_iff_ne.2 hne))
  have hzero : a ≠ 0 ∧ b ≠ 0 := by
    constructor <;> rintro rfl <;> simp at ha hb <;> omega
  unfold decodeBytes
  rw [hmark (by decide), hmark (by decide), hmark (by decide), hmark (by decide), hmark (by decide)]
  simp only [Bool.false_eq_true, if_false]
  split
  case h_1 heq =>
    obtain ⟨rfl, rfl, -⟩ := heq
    rw [if_neg hzero.1, if_neg hzero.2, hdecode]
  case h_2 heq =>
    obtain ⟨rfl, rfl, -⟩ := heq
    rw [if_neg hzero.1, if_neg hzero.2, hdecode]
  case h_3 => exact hdecode

/-- `json.loads` of what `json.dumps` writes. -/
theorem loads_dumps {F : Type} {floats : Floats F} {limits : Limits} {v : Value F} {c d : CodePoint}
    {bytes : List UInt8} (hc : 0 < c.val ∧ c.val < 0x80) (hd : 0 < d.val ∧ d.val < 0x80)
    (h : dumps floats limits 0 v = .ok (c :: d :: t))
    (hbytes : encodeUtf8 (c :: d :: t) = some bytes) :
    loads floats limits bytes = .ok (v.coerced floats) := by
  rw [loads, decodeBytes_encodeUtf8 hc hd hbytes]
  exact (reads_text h).run

/-! ## Floats that are whole numbers -/

/-- A float with a whole value, or one that is not finite. -/
inductive Whole
  | finite (i : Int)
  | nan
  | infinity (negative : Bool)
  deriving DecidableEq

/-- The text `i.0`. -/
def wholeNumeral (i : Int) : Numeral :=
  { intNumeral i with
    fraction := [ofChar '.', ofChar '0']
    isFraction := .inr ⟨natText 0, rfl, isDigits_natText 0⟩ }

/-- The floats with a whole value, which are written with one zero after the point. -/
def wholeFloats : Floats Whole where
  finite
    | .finite _ => true
    | _ => false
  repr
    | .finite i => (wholeNumeral i).text
    | _ => []
  ofText t := .finite (intOf (t.dropLast.dropLast))
  nan := .nan
  infinity := .infinity false
  negInfinity := .infinity true
  eq x y := x ≠ .nan && x = y
  eqInt x i := x = .finite i
  repr_numeral
    | .finite i, _ => ⟨wholeNumeral i, rfl, List.cons_ne_nil _ _⟩
  ofText_repr
    | .finite i, _ => by
      have htext : (wholeNumeral i).text = intText i ++ [ofChar '.', ofChar '0'] := by
        rw [← intNumeral_parts]
        simp [Numeral.text, wholeNumeral, intNumeral]
      have hdrop : (intText i ++ [ofChar '.', ofChar '0']).dropLast.dropLast = intText i := by
        simp
      show Whole.finite (intOf (wholeNumeral i).text.dropLast.dropLast) = _
      rw [htext, hdrop, intOf_intText]
  eq_self
    | .finite i, _ => by simp

end Python
