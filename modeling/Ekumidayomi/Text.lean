import Ekumidayomi.Types
import Ekumidayomi.Lib.Unicode

/-!
# Text as the source reads and writes it

The parts of `str`, `int`, `uuid.UUID` and `json` that the modelled modules rely on: decimal digits
and white space of Unicode 15.1, `int(text, 16)`, the texts `UUID(text)` accepts, and the text that
`json.dumps` writes for a string with `ensure_ascii=False`, and the text that a column of a bounded
length keeps. Identifiers are told apart by their texts (`uuidChars_inj`, `hexdigest_inj`).
-/

namespace Ekumidayomi

/-- The zeros of the decimal digits of Unicode; each starts a run of ten. -/
def decimalZeros : List Nat :=
  [0x30, 0x660, 0x6f0, 0x7c0, 0x966, 0x9e6, 0xa66, 0xae6, 0xb66, 0xbe6, 0xc66, 0xce6, 0xd66, 0xde6,
    0xe50, 0xed0, 0xf20, 0x1040, 0x1090, 0x17e0, 0x1810, 0x1946, 0x19d0, 0x1a80, 0x1a90, 0x1b50,
    0x1bb0, 0x1c40, 0x1c50, 0xa620, 0xa8d0, 0xa900, 0xa9d0, 0xa9f0, 0xaa50, 0xabf0, 0xff10, 0x104a0,
    0x10d30, 0x11066, 0x110f0, 0x11136, 0x111d0, 0x112f0, 0x11450, 0x114d0, 0x11650, 0x116c0,
    0x11730, 0x118e0, 0x11950, 0x11c50, 0x11d50, 0x11da0, 0x11f50, 0x16a60, 0x16ac0, 0x16b50,
    0x1d7ce, 0x1d7d8, 0x1d7e2, 0x1d7ec, 0x1d7f6, 0x1e140, 0x1e2f0, 0x1e4f0, 0x1e950, 0x1fbf0]

/-- The value of a decimal digit. -/
def decimalValue (c : Char) : Option Nat :=
  (decimalZeros.find? fun z => z ≤ c.toNat && c.toNat < z + 10).map (c.toNat - ·)

/-- `str.isdecimal()`. -/
def isDecimal (s : String) : Bool := s ≠ "" && s.toList.all fun c => (decimalValue c).isSome

/-- `int(text)` on decimal digits. -/
def decimalInt (s : String) : Nat :=
  s.toList.foldl (fun n c => n * 10 + (decimalValue c).getD 0) 0

/-- `str.isspace()` on a character. -/
def isSpace (c : Char) : Bool :=
  let n := c.toNat
  (0x9 ≤ n && n ≤ 0xd) || (0x1c ≤ n && n ≤ 0x20) || n = 0x85 || n = 0xa0 || n = 0x1680 ||
    (0x2000 ≤ n && n ≤ 0x200a) || n = 0x2028 || n = 0x2029 || n = 0x202f || n = 0x205f || n = 0x3000

/-- `str.strip` of the characters that `p` picks. -/
def strip (p : Char → Bool) (text : List Char) : List Char :=
  ((text.dropWhile p).reverse.dropWhile p).reverse

/-- `str.strip()`. -/
def stripText (t : Unicode.Text) : Unicode.Text :=
  let space : Unicode.CodePoint → Bool := fun c => (Unicode.toChar c).any isSpace
  ((t.dropWhile space).reverse.dropWhile space).reverse

/-- `str.replace(pattern, "")`, from left to right; `fuel` bounds the scan and the length of the
text is enough. -/
def removeAll (pattern : List Char) : Nat → List Char → List Char
  | 0, text => text
  | _, [] => []
  | fuel + 1, c :: text =>
    if pattern.isPrefixOf (c :: text) then
      removeAll pattern fuel ((c :: text).drop pattern.length)
    else c :: removeAll pattern fuel text

/-- The value of a digit in base sixteen. -/
def hexValue (c : Char) : Option Nat :=
  if 'a' ≤ c && c ≤ 'f' then some (c.toNat - 'a'.toNat + 10)
  else if 'A' ≤ c && c ≤ 'F' then some (c.toNat - 'A'.toNat + 10)
  else decimalValue c

/-- The digits of a literal in base sixteen, with single underscores between them. -/
def hexDigits (n : Nat) (afterDigit : Bool) : List Char → Option Nat
  | [] => if afterDigit then some n else none
  | c :: text =>
    if c = '_' then (if afterDigit then hexDigits n false text else none)
    else match hexValue c with
      | some d => hexDigits (n * 16 + d) true text
      | none => none

/-- A character as `int` reads it: white space and decimal digits outside ASCII are written in ASCII,
and what else is outside it is no part of a number. -/
def transformDecimalAndSpace (c : Char) : Char :=
  if c.toNat < 127 then c
  else if isSpace c then ' '
  else ((decimalValue c).map Nat.digitChar).getD '?'

/-- White space to the parser of numbers. Unlike `str.isspace()` it leaves out the separators
`U+001C` to `U+001F`. -/
def isLiteralSpace (c : Char) : Bool := (0x9 ≤ c.toNat && c.toNat ≤ 0xd) || c = ' '

/-- `int(text, 16)`: white space around it, a sign, the prefix `0x` and underscores are allowed. -/
def intBase16 (text : List Char) : Option Int :=
  let text := strip isLiteralSpace (text.map transformDecimalAndSpace)
  let (negative, text) := match text with
    | '-' :: rest => (true, rest)
    | '+' :: rest => (false, rest)
    | _ => (false, text)
  let text := match text with
    | '0' :: 'x' :: '_' :: rest | '0' :: 'X' :: '_' :: rest | '0' :: 'x' :: rest
    | '0' :: 'X' :: rest => rest
    | _ => text
  (hexDigits 0 false text).map fun n => if negative then -(n : Int) else n

/-- `UUID(text)`. -/
def parseUUID (s : String) : Option UUID :=
  let text := removeAll "urn:".toList s.toList.length s.toList
  let text := removeAll "uuid:".toList text.length text
  let text := (strip (fun c => c = '{' || c = '}') text).filter (· ≠ '-')
  if text.length ≠ 32 then none
  else match intBase16 text with
    | some (.ofNat n) => if n < 2 ^ 128 then some (BitVec.ofNat 128 n) else none
    | _ => none

-- a separator of information is white space to `strip` and none to `int`
example : parseUUID "0123456789abcdef0123456789abcde\u001f" = none := by decide +kernel

/-- The escape of a character in a JSON string, with `ensure_ascii=False`. -/
def jsonEscape (c : Char) : List Char :=
  if c = '"' then ['\\', '"']
  else if c = '\\' then ['\\', '\\']
  else if c = '\n' then ['\\', 'n']
  else if c = '\r' then ['\\', 'r']
  else if c = '\t' then ['\\', 't']
  else if c.toNat = 0x8 then ['\\', 'b']
  else if c.toNat = 0xc then ['\\', 'f']
  else if c.toNat < 0x20 then '\\' :: 'u' :: Hex.digits 4 c.toNat
  else [c]

/-- A string as `json.dumps` writes it. -/
def jsonString (s : String) : List Char := '"' :: s.toList.flatMap jsonEscape ++ ['"']

/-- A text as a column `String(n)` stores it; `none` when the database refuses it. What stands past
the end is cut off where it is all spaces, and no text holds `U+0000`. -/
def storedText (n : Nat) (s : String) : Option String :=
  if s.toList.any (·.toNat = 0) || (s.toList.drop n).any (· ≠ ' ') then none
  else some (String.ofList (s.toList.take n))

/-! ## Lengths -/

/-- A text whose characters are each replaced by at most `n` grows at most `n` times. -/
theorem length_flatMap_le {α : Type} {f : Char → List α} {n : Nat} (h : ∀ c, (f c).length ≤ n)
    (text : List Char) : (text.flatMap f).length ≤ n * text.length := by
  induction text with
  | nil => simp
  | cons c text ih =>
    rw [List.flatMap_cons, List.length_append, List.length_cons, Nat.mul_succ]
    have hc := h c
    omega

theorem encode_inj {s t : String} (h : encode s = encode t) : s = t := by
  have hbytes : s.toList.utf8Encode = t.toList.utf8Encode := congrArg List.toByteArray h
  have hdecoded := congrArg ByteArray.utf8Decode? hbytes
  rw [List.utf8Decode?_utf8Encode, List.utf8Decode?_utf8Encode] at hdecoded
  exact String.toList_inj.1 (List.toArray_inj (Option.some.inj hdecoded))

theorem length_encode_le (s : String) : (encode s).length ≤ 4 * s.toList.length :=
  length_flatMap_le (fun c => by simpa using c.utf8Size_le_four) s.toList

theorem length_jsonEscape_le (c : Char) : (jsonEscape c).length ≤ 6 := by
  unfold jsonEscape
  repeat' split
  all_goals simp

theorem length_jsonString_le (s : String) : (jsonString s).length ≤ 6 * s.toList.length + 2 := by
  have h := length_flatMap_le length_jsonEscape_le s.toList
  simp only [jsonString, List.length_cons, List.length_append, List.length_nil]
  omega

/-! ## Texts without white space -/

/-- A printable character of ASCII is no white space. -/
theorem isSpace_printable {c : Unicode.CodePoint} (h : 0x21 ≤ c.val ∧ c.val ≤ 0x7e) :
    (Unicode.toChar c).any isSpace = false := by
  cases hc : Unicode.toChar c with
  | none => rfl
  | some char =>
    have hval : char.toNat = c.val := by rw [← Unicode.ofChar_of_toChar hc, Unicode.ofChar_val]
    simp only [Option.any_some, isSpace, hval, Bool.or_eq_false_iff, Bool.and_eq_false_iff,
      decide_eq_false_iff_not]
    omega

/-- Without white space there is nothing to strip. -/
theorem stripText_eq_self {t : Unicode.Text}
    (h : ∀ c ∈ t, (Unicode.toChar c).any isSpace = false) : stripText t = t := by
  have hkeep : ∀ u : Unicode.Text, u ⊆ t →
      u.dropWhile (fun c => (Unicode.toChar c).any isSpace) = u := by
    intro u hu
    cases u with
    | nil => rfl
    | cons c u => rw [List.dropWhile_cons_of_neg (by simp [h c (hu List.mem_cons_self)])]
  rw [stripText, hkeep t (List.Subset.refl t), hkeep t.reverse fun c hc => List.mem_reverse.1 hc,
    List.reverse_reverse]

/-! ## Identifiers are told apart by their texts -/

@[simp] theorem length_uuidChars (u : UUID) : (uuidChars u).length = 36 := by
  simp [uuidChars]

/-- Without its hyphens the text of an identifier is its digits. -/
theorem filter_uuidChars (u : UUID) : (uuidChars u).filter (· ≠ '-') = Hex.digits 32 u.toNat := by
  have hno : ∀ c ∈ Hex.digits 32 u.toNat, c ≠ '-' := by
    intro c hc
    obtain ⟨n, hn, rfl⟩ := List.mem_map.1 (Hex.mem_digits hc)
    have key : ∀ n < 16, Nat.digitChar n ≠ '-' := by decide
    exact key n (List.mem_range.1 hn)
  have hkeep : ∀ l : List Char, l ⊆ Hex.digits 32 u.toNat → l.filter (· ≠ '-') = l := by
    intro l hl
    rw [List.filter_eq_self]
    exact fun c hc => by simpa using hno c (hl hc)
  have hcut : ∀ n m : Nat, ∀ d : List Char, (d.drop n).take m ++ d.drop (n + m) = d.drop n := by
    intro n m d
    rw [← List.drop_drop]
    exact List.take_append_drop m (d.drop n)
  generalize hd : Hex.digits 32 u.toNat = d at hkeep
  simp only [uuidChars, hd, List.filter_append, List.filter_cons, ne_eq, not_true_eq_false,
    decide_false, Bool.false_eq_true, if_false]
  simp only [← ne_eq, hkeep _ (List.take_subset _ _), hkeep _ (List.drop_subset _ _),
    hkeep _ (List.Subset.trans (List.take_subset _ _) (List.drop_subset _ _))]
  rw [hcut 16 4, hcut 12 4, hcut 8 4]
  exact List.take_append_drop 8 d

/-- Identifiers with one text are one identifier. -/
theorem uuidChars_inj {u v : UUID} (h : uuidChars u = uuidChars v) : u = v := by
  have hd : Hex.digits 32 u.toNat = Hex.digits 32 v.toNat := by
    rw [← filter_uuidChars, h, filter_uuidChars]
  have hfits : ∀ x : UUID, x.toNat < 16 ^ 32 := fun x => x.isLt
  exact BitVec.eq_of_toNat_eq (Hex.digits_inj (hfits u) (hfits v) hd)

/-- Digests with one text are one digest. -/
theorem hexdigest_inj {a b : Bytes} (h : hexdigest a = hexdigest b) : a = b := by
  have h : a.flatMap (fun x => Hex.digits 2 x.toNat) = b.flatMap (fun x => Hex.digits 2 x.toNat) :=
    String.ofList_injective h
  -- a byte at the front gives two digits
  have hcons : ∀ (x : UInt8) (l : Bytes), (x :: l).flatMap (fun x => Hex.digits 2 x.toNat) ≠
    [] := by
    intro x l hnil
    have hlen := congrArg List.length hnil
    rw [List.flatMap_cons, List.length_append, Hex.length_digits] at hlen
    exact absurd hlen (by simp)
  induction a generalizing b with
  | nil =>
    cases b with
    | nil => rfl
    | cons y b => exact absurd h.symm (hcons y b)
  | cons x a ih =>
    cases b with
    | nil => exact absurd h (hcons x a)
    | cons y b =>
      obtain ⟨hx, hrest⟩ := List.append_inj h (by simp)
      have hxy : x.toNat = y.toNat := Hex.digits_inj x.toNat_lt y.toNat_lt hx
      rw [UInt8.toNat_inj.1 hxy, ih (congrArg String.ofList hrest) hrest]

/-- Numbers with one decimal text are one number. -/
theorem toDigits_inj {m n : Nat} (h : Nat.toDigits 10 m = Nat.toDigits 10 n) : m = n := by
  rw [← Nat.ofDigitChars_ten_toDigits (n := m), h, Nat.ofDigitChars_ten_toDigits]

end Ekumidayomi
