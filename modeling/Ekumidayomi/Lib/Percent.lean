import Mathlib.Data.List.Basic

/-!
# Percent encoding

`encode safe` writes a safe byte as the character with its number and any other byte as `%` and two
hexadecimal digits; `decode` reads either form. Where the safe bytes are ASCII and `%` is not among
them (`Plain`), what is encoded is decoded again (`decode_encode`), so texts that differ are written
differently. A text that is written element by element splits at a separator exactly where the text
it was written from does (`flatMap_splitOn`).
-/

namespace Percent

/-- The upper-case digit of a number in base sixteen. -/
def hexDigit (n : Nat) : Char := (Nat.digitChar n).toUpper

/-- The value of a digit in base sixteen, of either case. -/
def hexValue (c : Char) : Option Nat :=
  if '0' ≤ c ∧ c ≤ '9' then some (c.toNat - '0'.toNat)
  else if 'A' ≤ c ∧ c ≤ 'F' then some (c.toNat - 'A'.toNat + 10)
  else if 'a' ≤ c ∧ c ≤ 'f' then some (c.toNat - 'a'.toNat + 10)
  else none

/-- A byte as it is written. -/
def encodeByte (safe : UInt8 → Bool) (b : UInt8) : List Char :=
  if safe b then [.ofNat b.toNat] else ['%', hexDigit (b.toNat / 16), hexDigit (b.toNat % 16)]

/-- Bytes as they are written. -/
def encode (safe : UInt8 → Bool) (bytes : List UInt8) : List Char :=
  bytes.flatMap (encodeByte safe)

/-- The bytes of a text: `%` and two digits stand for a byte, another character for itself. -/
def decode : List Char → List UInt8
  | '%' :: c :: d :: text =>
    match hexValue c, hexValue d with
    | some m, some n => .ofNat (16 * m + n) :: decode text
    | _, _ => .ofNat '%'.toNat :: decode (c :: d :: text)
  | c :: text => .ofNat c.toNat :: decode text
  | [] => []

/-- The safe bytes are characters that cannot be taken for the start of an escape. -/
structure Plain (safe : UInt8 → Bool) : Prop where
  ascii : ∀ b, safe b = true → b.toNat < 0x80
  percent : safe 0x25 = false

@[simp] theorem hexValue_hexDigit {n : Nat} (h : n < 16) : hexValue (hexDigit n) = some n := by
  have key : ∀ n < 16, hexValue (hexDigit n) = some n := by decide
  exact key n h

theorem toNat_ofNat (b : UInt8) : (Char.ofNat b.toNat).toNat = b.toNat := by
  have hvalid : b.toNat.isValidChar := .inl (by have hb := b.toNat_lt; omega)
  rw [Char.ofNat, dif_pos hvalid]
  rfl

theorem decode_cons {c : Char} (hc : c ≠ '%') (text : List Char) :
    decode (c :: text) = .ofNat c.toNat :: decode text := by
  rw [decode]
  intro _ _ _ heq _
  exact hc heq

variable {safe : UInt8 → Bool}

/-- A written byte is read back, whatever follows. -/
theorem decode_encodeByte (hsafe : Plain safe) (b : UInt8) (text : List Char) :
    decode (encodeByte safe b ++ text) = b :: decode text := by
  have hb : b.toNat < 256 := b.toNat_lt
  unfold encodeByte
  split
  case isTrue h =>
    have hne : Char.ofNat b.toNat ≠ '%' := by
      intro heq
      have hval : b.toNat = (0x25 : UInt8).toNat := by
        rw [← toNat_ofNat b, heq]
        rfl
      rw [UInt8.toNat_inj.1 hval, hsafe.percent] at h
      cases h
    rw [List.singleton_append, decode_cons hne, toNat_ofNat, UInt8.ofNat_toNat]
  case isFalse =>
    simp only [List.cons_append, List.nil_append, decode]
    rw [hexValue_hexDigit (by omega), hexValue_hexDigit (by omega)]
    dsimp only
    rw [Nat.div_add_mod, UInt8.ofNat_toNat]

theorem decode_encode (hsafe : Plain safe) (bytes : List UInt8) :
    decode (encode safe bytes) = bytes := by
  induction bytes with
  | nil => rfl
  | cons b bytes ih =>
    rw [encode, List.flatMap_cons, decode_encodeByte hsafe]
    exact congrArg (b :: ·) ih

/-- A character of an encoded text is a safe one, `%` or an upper-case digit. -/
theorem mem_encode {bytes : List UInt8} {c : Char} (h : c ∈ encode safe bytes) :
    (∃ b ∈ bytes, safe b = true ∧ c = .ofNat b.toNat) ∨ c = '%' ∨ ∃ n < 16, c = hexDigit n := by
  obtain ⟨b, hb, hc⟩ := List.mem_flatMap.1 h
  have hlt : b.toNat < 256 := b.toNat_lt
  unfold encodeByte at hc
  split at hc
  case isTrue hsafe => exact .inl ⟨b, hb, hsafe, List.mem_singleton.1 hc⟩
  case isFalse =>
    simp only [List.mem_cons, List.not_mem_nil, or_false] at hc
    obtain rfl | rfl | rfl := hc
    · exact .inr (.inl rfl)
    · exact .inr (.inr ⟨_, by omega, rfl⟩)
    · exact .inr (.inr ⟨_, by omega, rfl⟩)

section
variable {α β : Type*} [DecidableEq α] [DecidableEq β] {f : α → List β} {a : α} {b : β}

/-- What stands before the first separator is lengthened at its front. -/
theorem splitOn_append (front text : List β) (h : b ∉ front) :
    (front ++ text).splitOn b = (text.splitOn b).modifyHead (front ++ ·) := by
  induction front with
  | nil =>
    obtain ⟨first, rest, hsplit⟩ := List.exists_cons_of_ne_nil (List.splitOn_ne_nil b text)
    simp [hsplit]
  | cons c front ih =>
    simp only [List.mem_cons, not_or] at h
    have hc : (c == b) ≠ true := by simpa using Ne.symm h.1
    rw [List.cons_append, List.splitOn_cons_eq_if_modifyHead, if_neg hc, ih h.2,
      List.modifyHead_modifyHead]
    rfl

/-- What splitting gives is made of the elements of the text. -/
theorem mem_of_mem_splitOn {text part : List α} {x : α} (hpart : part ∈ text.splitOn a)
    (hx : x ∈ part) : x ∈ text := by
  induction text generalizing part with
  | nil =>
    rw [List.splitOn_nil, List.mem_singleton] at hpart
    rw [hpart] at hx
    exact hx
  | cons c text ih =>
    rw [List.splitOn_cons_eq_if_modifyHead] at hpart
    obtain ⟨first, rest, hsplit⟩ := List.exists_cons_of_ne_nil (List.splitOn_ne_nil a text)
    rw [hsplit] at hpart ih
    split at hpart
    case isTrue =>
      obtain rfl | hpart := List.mem_cons.1 hpart
      · cases hx
      · exact List.mem_cons_of_mem _ (ih hpart hx)
    case isFalse =>
      obtain rfl | hpart := List.mem_cons.1 hpart
      · obtain rfl | hx := List.mem_cons.1 hx
        · exact List.mem_cons_self
        · exact List.mem_cons_of_mem _ (ih List.mem_cons_self hx)
      · exact List.mem_cons_of_mem _ (ih (List.mem_cons_of_mem _ hpart) hx)

/-- A text written element by element has the separator exactly where the text it was written from
has its own. -/
theorem flatMap_splitOn (hsep : f a = [b]) (hother : ∀ x, x ≠ a → b ∉ f x) (text : List α) :
    (text.flatMap f).splitOn b = (text.splitOn a).map (·.flatMap f) := by
  induction text with
  | nil => rfl
  | cons x text ih =>
    rw [List.flatMap_cons, List.splitOn_cons_eq_if_modifyHead]
    by_cases hx : x = a
    · subst hx
      rw [hsep, List.singleton_append, List.splitOn_cons_eq_if_modifyHead, if_pos (by simp),
        if_pos (by simp), ih]
      rfl
    · rw [splitOn_append _ _ (hother x hx), ih, if_neg (by simpa using hx)]
      obtain ⟨first, rest, hsplit⟩ := List.exists_cons_of_ne_nil (List.splitOn_ne_nil a text)
      simp [hsplit]

end

end Percent
