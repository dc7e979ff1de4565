import Mathlib.Data.List.Basic

/-!
# Code points and their encodings

A text is a list of code points, surrogates among them, as a Python `str` is. `encodeUtf8` is
strict; the decoders of UTF-8, UTF-16 and UTF-32 take a surrogate for what it is when `pass` is set,
which is the error handler `surrogatepass`. What is encoded is decoded again
(`decodeUtf8_encodeUtf8`), and what is decoded has no other bytes (`encodeUtf8_decodeUtf8`).
-/

namespace Unicode

abbrev CodePoint := Fin 0x110000

abbrev Text := List CodePoint

/-- The code point of a character. -/
def ofChar (c : Char) : CodePoint :=
  ⟨c.toNat, by rcases c.valid with h | ⟨_, h⟩ <;> simp only [Char.toNat, UInt32.toNat] at * <;> omega⟩

@[simp] theorem ofChar_val (c : Char) : (ofChar c).val = c.toNat := rfl

theorem ofChar_injective : Function.Injective ofChar := by
  intro c d h
  have hnat : (ofChar c).val = (ofChar d).val := by rw [h]
  exact Char.ext (UInt32.toNat_inj.1 hnat)

/-- The code points of a string. -/
def ofString (s : String) : Text := s.toList.map ofChar

def isHighSurrogate (n : Nat) : Bool := 0xd800 ≤ n && n ≤ 0xdbff

def isLowSurrogate (n : Nat) : Bool := 0xdc00 ≤ n && n ≤ 0xdfff

def isSurrogate (n : Nat) : Bool := 0xd800 ≤ n && n ≤ 0xdfff

/-- The character of a code point that is no surrogate. -/
def toChar (c : CodePoint) : Option Char :=
  if isSurrogate c.val then none else some (Char.ofNat c.val)

/-- The string of a text without surrogates. -/
def asString (t : Text) : Option String := (t.mapM toChar).map String.ofList

theorem isSurrogate_ofChar (c : Char) : isSurrogate (ofChar c).val = false := by
  have hvalid : c.toNat < 0xd800 ∨ 0xdfff < c.toNat := by
    rcases c.valid with h | ⟨h, -⟩
    · exact .inl h
    · exact .inr h
  rw [ofChar_val, isSurrogate]
  simp only [Bool.and_eq_false_iff, decide_eq_false_iff_not]
  omega

@[simp] theorem toChar_ofChar (c : Char) : toChar (ofChar c) = some c := by
  rw [toChar, isSurrogate_ofChar, ofChar_val, Char.ofNat_toNat]
  rfl

@[simp] theorem asString_ofString (s : String) : asString (ofString s) = some s := by
  have hchars : (ofString s).mapM toChar = some s.toList := by
    rw [ofString]
    induction s.toList with
    | nil => rfl
    | cons c chars ih => simp [ih]
  rw [asString, hchars, Option.map_some, String.ofList_toList]

theorem ofChar_of_toChar {c : CodePoint} {d : Char} (h : toChar c = some d) : ofChar d = c := by
  unfold toChar at h
  split at h
  case isTrue => cases h
  case isFalse hno =>
    obtain rfl := Option.some.inj h
    have hvalid : c.val.isValidChar := by
      simp only [isSurrogate, Bool.and_eq_true, decide_eq_true_eq, not_and_or, Nat.not_le] at hno
      have hlt := c.isLt
      rcases hno with h | h
      · exact .inl h
      · exact .inr ⟨h, hlt⟩
    apply Fin.ext
    rw [ofChar_val, Char.ofNat, dif_pos hvalid]
    rfl

theorem asString_some {t : Text} {s : String} (h : asString t = some s) : t = ofString s := by
  obtain ⟨chars, hchars, rfl⟩ := Option.map_eq_some_iff.1 h
  rw [ofString, String.toList_ofList]
  clear h
  induction t generalizing chars with
  | nil => cases hchars; rfl
  | cons c t ih =>
    rw [List.mapM_cons] at hchars
    obtain ⟨d, hd, hchars⟩ := Option.bind_eq_some_iff.1 hchars
    obtain ⟨ds, hds, hchars⟩ := Option.bind_eq_some_iff.1 hchars
    obtain rfl := Option.some.inj hchars
    rw [List.map_cons, ofChar_of_toChar hd, ← ih ds hds]

/-- The code point that a pair of surrogates stands for. -/
def joinSurrogates (high low : Nat) : Nat := 0x10000 + (high - 0xd800) * 0x400 + (low - 0xdc00)

/-- A number as a code point. -/
def codePoint (n : Nat) : Option CodePoint := if h : n < 0x110000 then some ⟨n, h⟩ else none

/-! ## UTF-8 -/

/-- The bytes of a code point in UTF-8. -/
def utf8Bytes (c : CodePoint) : List UInt8 :=
  let n := c.val
  if n < 0x80 then [.ofNat n]
  else if n < 0x800 then [.ofNat (0xc0 + n / 0x40), .ofNat (0x80 + n % 0x40)]
  else if n < 0x10000 then
    [.ofNat (0xe0 + n / 0x1000), .ofNat (0x80 + n / 0x40 % 0x40), .ofNat (0x80 + n % 0x40)]
  else
    [.ofNat (0xf0 + n / 0x40000), .ofNat (0x80 + n / 0x1000 % 0x40), .ofNat (0x80 + n / 0x40 % 0x40),
      .ofNat (0x80 + n % 0x40)]

/-- UTF-8, which has no bytes for a surrogate. -/
def encodeUtf8 (t : Text) : Option (List UInt8) :=
  if t.any fun c => isSurrogate c.val then none else some (t.flatMap utf8Bytes)

/-- The six bits of a continuation byte. -/
def continuation (b : UInt8) : Option Nat :=
  if 0x80 ≤ b.toNat ∧ b.toNat < 0xc0 then some (b.toNat - 0x80) else none

/-- A code point of two, three or four bytes. -/
def ofBits (pass : Bool) (least n : Nat) : Option CodePoint :=
  if n < least ∨ (isSurrogate n ∧ !pass) then none else codePoint n

/-- UTF-8 decoded. -/
def decodeUtf8 (pass : Bool) : List UInt8 → Option Text
  | [] => some []
  | a :: rest =>
    if a.toNat < 0x80 then do
      return (← codePoint a.toNat) :: (← decodeUtf8 pass rest)
    else if a.toNat < 0xc0 then none
    else if a.toNat < 0xe0 then
      match rest with
      | b :: rest => do
        let c ← ofBits pass 0x80 ((a.toNat - 0xc0) * 0x40 + (← continuation b))
        return c :: (← decodeUtf8 pass rest)
      | _ => none
    else if a.toNat < 0xf0 then
      match rest with
      | b :: b' :: rest => do
        let c ← ofBits pass 0x800
          (((a.toNat - 0xe0) * 0x40 + (← continuation b)) * 0x40 + (← continuation b'))
        return c :: (← decodeUtf8 pass rest)
      | _ => none
    else
      match rest with
      | b :: b' :: b'' :: rest => do
        let c ← ofBits pass 0x10000
          ((((a.toNat - 0xf0) * 0x40 + (← continuation b)) * 0x40 + (← continuation b')) * 0x40 +
            (← continuation b''))
        return c :: (← decodeUtf8 pass rest)
      | _ => none

/-! ## UTF-16 and UTF-32 -/

/-- A code unit of two bytes. -/
def unit16 (big : Bool) (a b : UInt8) : Nat :=
  if big then a.toNat * 0x100 + b.toNat else b.toNat * 0x100 + a.toNat

/-- UTF-16 decoded. -/
def decodeUtf16 (pass big : Bool) : List UInt8 → Option Text
  | [] => some []
  | [_] => none
  | a :: b :: rest =>
    let n := unit16 big a b
    let alone := if isSurrogate n && !pass then none else do
      return (← codePoint n) :: (← decodeUtf16 pass big rest)
    match rest with
    | a' :: b' :: rest =>
      if isHighSurrogate n && isLowSurrogate (unit16 big a' b') then do
        return (← codePoint (joinSurrogates n (unit16 big a' b'))) :: (← decodeUtf16 pass big rest)
      else alone
    | _ => alone

/-- UTF-32 decoded. -/
def decodeUtf32 (pass big : Bool) : List UInt8 → Option Text
  | [] => some []
  | a :: b :: c :: d :: rest =>
    let n := if big then unit16 big a b * 0x10000 + unit16 big c d
      else unit16 big c d * 0x10000 + unit16 big a b
    if isSurrogate n && !pass then none
    else do return (← codePoint n) :: (← decodeUtf32 pass big rest)
  | _ => none

/-! ## What is encoded is decoded -/

theorem codePoint_val (c : CodePoint) : codePoint c.val = some c := dif_pos c.isLt

theorem toNat_ofNat {n : Nat} (h : n < 0x100) : (UInt8.ofNat n).toNat = n := by
  simp only [UInt8.toNat_ofNat']
  omega

theorem continuation_ofNat (n : Nat) : continuation (.ofNat (0x80 + n % 0x40)) =
    some (n % 0x40) := by
  rw [continuation, toNat_ofNat (by omega), if_pos (by omega)]
  exact congrArg some (by omega)

theorem ofBits_val {pass : Bool} {least : Nat} {c : CodePoint} (hleast : least ≤ c.val)
    (hc : isSurrogate c.val = false) : ofBits pass least c.val = some c := by
  rw [ofBits, if_neg, codePoint_val]
  simp only [hc, Bool.false_eq_true, false_and, or_false]
  omega

theorem bind_cons (c : CodePoint) (t : Option Text) :
    (t.bind fun t => pure (c :: t)) = t.map (c :: ·) := by
  cases t <;> rfl

/-- The bytes of a code point are read as that code point. -/
theorem decodeUtf8_utf8Bytes {pass : Bool} {c : CodePoint} (hc : isSurrogate c.val = false)
    (rest : List UInt8) :
    decodeUtf8 pass (utf8Bytes c ++ rest) = (decodeUtf8 pass rest).map (c :: ·) := by
  have hlt := c.isLt
  unfold utf8Bytes
  dsimp only
  split
  case isTrue h =>
    rw [List.singleton_append, decodeUtf8.eq_def]
    dsimp only
    rw [toNat_ofNat (by omega), if_pos h, codePoint_val]
    exact bind_cons c _
  split
  case isTrue h =>
    have hbits : (0xc0 + c.val / 0x40 - 0xc0) * 0x40 + c.val % 0x40 = c.val := by omega
    rw [List.cons_append, List.cons_append, List.nil_append, decodeUtf8, toNat_ofNat (by omega),
      if_neg (by omega), if_neg (by omega), if_pos (by omega)]
    simp only [continuation_ofNat, Option.bind_eq_bind,
      Option.bind_some, hbits, ofBits_val (Nat.not_lt.1 (by assumption)) hc]
    exact bind_cons c _
  split
  case isTrue h =>
    have hbits : ((0xe0 + c.val / 0x1000 - 0xe0) * 0x40 + c.val / 0x40 % 0x40) * 0x40 +
        c.val % 0x40 = c.val := by omega
    simp only [List.cons_append, List.nil_append]
    rw [decodeUtf8, toNat_ofNat (by omega), if_neg (by omega), if_neg (by omega),
      if_neg (by omega), if_pos (by omega)]
    simp only [continuation_ofNat, Option.bind_eq_bind,
      Option.bind_some, hbits, ofBits_val (Nat.not_lt.1 (by assumption)) hc]
    exact bind_cons c _
  case isFalse h =>
    have hbits : (((0xf0 + c.val / 0x40000 - 0xf0) * 0x40 + c.val / 0x1000 % 0x40) * 0x40 +
        c.val / 0x40 % 0x40) * 0x40 + c.val % 0x40 = c.val := by omega
    simp only [List.cons_append, List.nil_append]
    rw [decodeUtf8, toNat_ofNat (by omega), if_neg (by omega), if_neg (by omega),
      if_neg (by omega), if_neg (by omega)]
    simp only [continuation_ofNat, Option.bind_eq_bind,
      Option.bind_some, hbits, ofBits_val (Nat.not_lt.1 h) hc]
    exact bind_cons c _

theorem decodeUtf8_encodeUtf8 {pass : Bool} {t : Text} {bytes : List UInt8}
    (h : encodeUtf8 t = some bytes) : decodeUtf8 pass bytes = some t := by
  unfold encodeUtf8 at h
  split at h
  case isTrue => cases h
  case isFalse hno =>
    obtain rfl := Option.some.inj h
    simp only [List.any_eq_true, not_exists, not_and, Bool.not_eq_true] at hno
    clear h
    induction t with
    | nil => rfl
    | cons c t ih =>
      rw [List.flatMap_cons, decodeUtf8_utf8Bytes (hno c List.mem_cons_self),
        ih fun c hc => hno c (List.mem_cons_of_mem _ hc)]
      rfl

/-! ## What is decoded is encoded -/

theorem codePoint_some {n : Nat} {c : CodePoint} (h : codePoint n = some c) : c.val = n := by
  unfold codePoint at h
  split at h
  · rw [← Option.some.inj h]
  · cases h

theorem continuation_some {b : UInt8} {n : Nat} (h : continuation b = some n) :
    b.toNat = 0x80 + n ∧ n < 0x40 := by
  unfold continuation at h
  split at h
  · have hn := Option.some.inj h
    omega
  · cases h

theorem ofBits_some {pass : Bool} {least n : Nat} {c : CodePoint}
    (h : ofBits pass least n = some c) :
    c.val = n ∧ least ≤ n ∧ (pass = false → isSurrogate n = false) := by
  unfold ofBits at h
  split at h
  case isTrue => cases h
  case isFalse hno =>
    rw [not_or, Nat.not_lt] at hno
    refine ⟨codePoint_some h, hno.1, ?_⟩
    rintro rfl
    simpa using hno.2

theorem ofNat_of_toNat {b : UInt8} {n : Nat} (h : b.toNat = n) : UInt8.ofNat n = b := by
  rw [← h]
  exact UInt8.ofNat_toNat

/-- What is decoded is nothing, or begins with the bytes of a code point. -/
theorem decodeUtf8_some {pass : Bool} {bytes : List UInt8} {t : Text}
    (h : decodeUtf8 pass bytes = some t) : bytes = [] ∧ t = [] ∨
      ∃ c t' rest, t = c :: t' ∧ bytes = utf8Bytes c ++ rest ∧ decodeUtf8 pass rest = some t' ∧
        (pass = false → isSurrogate c.val = false) := by
  rw [decodeUtf8.eq_def] at h
  split at h
  case h_1 => exact .inl ⟨rfl, (Option.some.inj h).symm⟩
  case h_2 a rest =>
    refine .inr ?_
    have ha := a.toNat_lt
    split at h
    case isTrue hone =>
      obtain ⟨c, hc, h⟩ := Option.bind_eq_some_iff.1 h
      obtain ⟨t', ht, h⟩ := Option.bind_eq_some_iff.1 h
      obtain rfl := Option.some.inj h
      have hval := codePoint_some hc
      refine ⟨c, t', rest, rfl, ?_, ht, fun _ => ?_⟩
      · rw [utf8Bytes, if_pos (by omega), ofNat_of_toNat hval.symm]
        rfl
      · simp only [isSurrogate, hval, Bool.and_eq_false_iff, decide_eq_false_iff_not]
        omega
    split at h
    case isTrue => cases h
    split at h
    case isTrue =>
      split at h
      case h_2 => cases h
      case h_1 b rest =>
        obtain ⟨k, hk, h⟩ := Option.bind_eq_some_iff.1 h
        obtain ⟨c, hc, h⟩ := Option.bind_eq_some_iff.1 h
        obtain ⟨t', ht, h⟩ := Option.bind_eq_some_iff.1 h
        obtain rfl := Option.some.inj h
        obtain ⟨hb, hlt⟩ := continuation_some hk
        obtain ⟨hval, hleast, hpass⟩ := ofBits_some hc
        refine ⟨c, t', rest, rfl, ?_, ht, fun hp => hval ▸ hpass hp⟩
        rw [utf8Bytes, if_neg (by omega), if_pos (by omega), ofNat_of_toNat (b := a) (by omega),
          ofNat_of_toNat (b := b) (by omega)]
        rfl
    split at h
    case isTrue =>
      split at h
      case h_2 => cases h
      case h_1 b b' rest =>
        obtain ⟨k, hk, h⟩ := Option.bind_eq_some_iff.1 h
        obtain ⟨k', hk', h⟩ := Option.bind_eq_some_iff.1 h
        obtain ⟨c, hc, h⟩ := Option.bind_eq_some_iff.1 h
        obtain ⟨t', ht, h⟩ := Option.bind_eq_some_iff.1 h
        obtain rfl := Option.some.inj h
        obtain ⟨hb, hlt⟩ := continuation_some hk
        obtain ⟨hb', hlt'⟩ := continuation_some hk'
        obtain ⟨hval, hleast, hpass⟩ := ofBits_some hc
        refine ⟨c, t', rest, rfl, ?_, ht, fun hp => hval ▸ hpass hp⟩
        rw [utf8Bytes, if_neg (by omega), if_neg (by omega), if_pos (by omega),
          ofNat_of_toNat (b := a) (by omega), ofNat_of_toNat (b := b) (by omega),
          ofNat_of_toNat (b := b') (by omega)]
        rfl
    case isFalse =>
      split at h
      case h_2 => cases h
      case h_1 b b' b'' rest =>
        obtain ⟨k, hk, h⟩ := Option.bind_eq_some_iff.1 h
        obtain ⟨k', hk', h⟩ := Option.bind_eq_some_iff.1 h
        obtain ⟨k'', hk'', h⟩ := Option.bind_eq_some_iff.1 h
        obtain ⟨c, hc, h⟩ := Option.bind_eq_some_iff.1 h
        obtain ⟨t', ht, h⟩ := Option.bind_eq_some_iff.1 h
        obtain rfl := Option.some.inj h
        obtain ⟨hb, hlt⟩ := continuation_some hk
        obtain ⟨hb', hlt'⟩ := continuation_some hk'
        obtain ⟨hb'', hlt''⟩ := continuation_some hk''
        obtain ⟨hval, hleast, hpass⟩ := ofBits_some hc
        refine ⟨c, t', rest, rfl, ?_, ht, fun hp => hval ▸ hpass hp⟩
        rw [utf8Bytes, if_neg (by omega), if_neg (by omega), if_neg (by omega),
          ofNat_of_toNat (b := a) (by omega), ofNat_of_toNat (b := b) (by omega),
          ofNat_of_toNat (b := b') (by omega), ofNat_of_toNat (b := b'') (by omega)]
        rfl

/-- What is decoded has the same bytes when it is encoded. -/
theorem encodeUtf8_decodeUtf8 {bytes : List UInt8} {t : Text}
    (h : decodeUtf8 false bytes = some t) : encodeUtf8 t = some bytes := by
  have hbytes : (t.any fun c => isSurrogate c.val) = false ∧ t.flatMap utf8Bytes = bytes := by
    induction t generalizing bytes with
    | nil =>
      rcases decodeUtf8_some h with ⟨rfl, -⟩ | ⟨_, _, _, hcons, -⟩
      · exact ⟨rfl, rfl⟩
      · cases hcons
    | cons c t ih =>
      rcases decodeUtf8_some h with ⟨-, hnil⟩ | ⟨_, _, rest, hcons, rfl, hrest, hno⟩
      · cases hnil
      · obtain ⟨rfl, rfl⟩ := List.cons.inj hcons
        obtain ⟨hany, hflat⟩ := ih hrest
        rw [List.any_cons, hno rfl, hany, List.flatMap_cons, hflat]
        exact ⟨rfl, rfl⟩
  rw [encodeUtf8, hbytes.1, hbytes.2]
  rfl

end Unicode
