import Ekumidayomi.Lib.Url

/-!
# Forms in queries

`urlencode` writes pairs of texts as a query and `formPairs` reads one. What is written is read back
(`formPairs_urlencode`), and none of the characters that end a query is written
(`mem_urlencode`).
-/

namespace Python

open Unicode

/-- The bytes that `quote` leaves as they are in any case. -/
def isUnreserved (b : UInt8) : Bool :=
  let n := b.toNat
  (0x41 ≤ n && n ≤ 0x5a) || (0x61 ≤ n && n ≤ 0x7a) || (0x30 ≤ n && n ≤ 0x39) || n == 0x5f ||
    n == 0x2e || n == 0x2d || n == 0x7e

/-- The bytes that `quote_plus` has `quote` leave as they are. -/
def isFormSafe (b : UInt8) : Bool := isUnreserved b || b == 0x20

def plusChar (c : Char) : CodePoint := if c = ' ' then ofChar '+' else ofChar c

def spaceChar (c : Char) : Char := if c = '+' then ' ' else c

/-- `quote_plus`; a surrogate is a `UnicodeEncodeError`. -/
def quotePlus (t : Text) : Option Text :=
  (encodeUtf8 t).map fun bytes => (Percent.encode isFormSafe bytes).map plusChar

/-- `unquote_plus`, on UTF-8. -/
def unquotePlus (t : Text) : Option Text := do
  let chars ← t.mapM toChar
  decodeUtf8 false (Percent.decode (chars.map spaceChar))

/-- `quote_plus(key) + "=" + quote_plus(value)`. -/
def quotePair (pair : Text × Text) : Option Text := do
  let key ← quotePlus pair.1
  let value ← quotePlus pair.2
  return key ++ ofChar '=' :: value

/-- `urlencode`. -/
def urlencode (pairs : List (Text × Text)) : Option Text :=
  (pairs.mapM quotePair).map ([ofChar '&'].intercalate ·)

/-- The pair that a part of a query stands for. -/
def unquotePair (part : Text) : Option (Text × Text) := do
  let (key, _, value) := partition (ofChar '=') part
  return (← unquotePlus key, ← unquotePlus value)

/-- The pairs of a query. -/
def formPairs (query : Text) : Option (List (Text × Text)) :=
  if query = [] then some [] else (query.splitOn (ofChar '&')).mapM unquotePair

/-- The characters of an encoded text. -/
def isFormChar (c : CodePoint) : Bool :=
  isAsciiAlpha c || isDigit c || (ofString "_.-~%+").contains c

section
variable {t q : Text} {pairs : List (Text × Text)}

theorem isFormSafe_plain : Percent.Plain isFormSafe where
  ascii b h := by
    simp only [isFormSafe, isUnreserved, Bool.or_eq_true, Bool.and_eq_true, decide_eq_true_eq,
      beq_iff_eq] at h
    rcases h with h | rfl
    · omega
    · decide
  percent := by decide

/-- A character of an encoded text, before its spaces are replaced. -/
theorem formChar_of_mem {bytes : List UInt8} {c : Char} (h : c ∈ Percent.encode isFormSafe bytes) :
    c = ' ' ∨ isFormChar (ofChar c) = true ∧ c ≠ '+' := by
  rcases Percent.mem_encode h with ⟨b, -, hb, rfl⟩ | rfl | ⟨n, hn, rfl⟩
  · rw [isFormSafe, Bool.or_eq_true, beq_iff_eq] at hb
    rcases hb with hb | rfl
    · have key : ∀ n < 256, isUnreserved (.ofNat n) = true →
          isFormChar (ofChar (Char.ofNat n)) = true ∧ Char.ofNat n ≠ '+' := by decide +kernel
      have hkey := key b.toNat b.toNat_lt
      rw [UInt8.ofNat_toNat] at hkey
      exact .inr (hkey hb)
    · exact .inl rfl
  · exact .inr (by decide)
  · have key : ∀ n < 16, isFormChar (ofChar (Percent.hexDigit n)) = true ∧
        Percent.hexDigit n ≠ '+' := by decide
    exact .inr (key n hn)

theorem mem_quotePlus {c : CodePoint} (h : quotePlus t = some q) (hc : c ∈ q) :
    isFormChar c = true := by
  obtain ⟨bytes, -, rfl⟩ := Option.map_eq_some_iff.1 h
  obtain ⟨d, hd, rfl⟩ := List.mem_map.1 hc
  rw [plusChar]
  split
  case isTrue => decide
  case isFalse hspace => exact ((formChar_of_mem hd).resolve_left hspace).1

theorem lt_of_isFormChar {c : CodePoint} (h : isFormChar c = true) : 0x20 < c.val := by
  rw [isFormChar, Bool.or_eq_true, Bool.or_eq_true] at h
  rcases h with (h | h) | h
  · simp only [isAsciiAlpha, Bool.or_eq_true, Bool.and_eq_true, decide_eq_true_eq] at h
    omega
  · simp only [isDigit, Bool.and_eq_true, decide_eq_true_eq] at h
    omega
  · have key : ∀ d ∈ ofString "_.-~%+", 0x20 < d.val := by simp [ofString]
    exact key c (by simpa using h)

theorem mapM_toChar (chars : List Char) : (chars.map ofChar).mapM toChar = some chars := by
  induction chars with
  | nil => rfl
  | cons c chars ih => simp [ih]

theorem unquotePlus_quotePlus (h : quotePlus t = some q) : unquotePlus q = some t := by
  obtain ⟨bytes, hbytes, rfl⟩ := Option.map_eq_some_iff.1 h
  have hplus : (Percent.encode isFormSafe bytes).map plusChar =
      ((Percent.encode isFormSafe bytes).map fun c => if c = ' ' then '+' else c).map ofChar := by
    rw [List.map_map]
    refine List.map_congr_left fun c _ => ?_
    rw [plusChar, Function.comp_apply]
    split <;> rfl
  have hback : ((Percent.encode isFormSafe bytes).map fun c => if c = ' ' then '+' else c).map
      spaceChar = Percent.encode isFormSafe bytes := by
    rw [List.map_map]
    refine (List.map_congr_left fun c hc => ?_).trans (List.map_id _)
    rw [Function.comp_apply, spaceChar]
    rcases formChar_of_mem hc with rfl | ⟨-, hne⟩
    · rfl
    · by_cases hspace : c = ' '
      · rw [hspace]
        rfl
      · rw [if_neg hspace, if_neg hne]
        rfl
  rw [unquotePlus, hplus, mapM_toChar, Option.bind_eq_bind, Option.bind_some, hback,
    Percent.decode_encode isFormSafe_plain, decodeUtf8_encodeUtf8 hbytes]

theorem quotePair_some {pair : Text × Text} (h : quotePair pair = some q) :
    ∃ key value, quotePlus pair.1 = some key ∧ quotePlus pair.2 = some value ∧
      q = key ++ ofChar '=' :: value := by
  obtain ⟨key, hkey, h⟩ := Option.bind_eq_some_iff.1 h
  obtain ⟨value, hvalue, h⟩ := Option.bind_eq_some_iff.1 h
  exact ⟨key, value, hkey, hvalue, (Option.some.inj h).symm⟩

theorem mem_quotePair {pair : Text × Text} {c : CodePoint} (h : quotePair pair = some q)
    (hc : c ∈ q) : isFormChar c = true ∨ c = ofChar '=' := by
  obtain ⟨key, value, hkey, hvalue, rfl⟩ := quotePair_some h
  rw [List.mem_append, List.mem_cons] at hc
  rcases hc with hc | rfl | hc
  · exact .inl (mem_quotePlus hkey hc)
  · exact .inr rfl
  · exact .inl (mem_quotePlus hvalue hc)

theorem unquotePair_quotePair {pair : Text × Text} (h : quotePair pair = some q) :
    unquotePair q = some pair := by
  obtain ⟨key, value, hkey, hvalue, rfl⟩ := quotePair_some h
  have hno : ofChar '=' ∉ key := by
    intro hmem
    exact absurd (mem_quotePlus hkey hmem) (by decide)
  rw [unquotePair, partition_append hno]
  dsimp only
  rw [unquotePlus_quotePlus hkey, unquotePlus_quotePlus hvalue]
  rfl

/-- The parts that are written are read one by one. -/
theorem mapM_quotePair {parts : List Text} (h : pairs.mapM quotePair = some parts) :
    parts.mapM unquotePair = some pairs ∧ ∀ part ∈ parts, ∃ pair, quotePair pair = some part := by
  induction pairs generalizing parts with
  | nil =>
    cases h
    exact ⟨rfl, List.forall_mem_nil _⟩
  | cons pair pairs ih =>
    rw [List.mapM_cons] at h
    obtain ⟨part, hpart, h⟩ := Option.bind_eq_some_iff.1 h
    obtain ⟨parts', hparts', h⟩ := Option.bind_eq_some_iff.1 h
    obtain rfl := Option.some.inj h
    obtain ⟨hread, hwritten⟩ := ih hparts'
    refine ⟨?_, List.forall_mem_cons.2 ⟨⟨pair, hpart⟩, hwritten⟩⟩
    rw [List.mapM_cons, unquotePair_quotePair hpart, hread]
    rfl

theorem mem_intercalate {α : Type*} {sep c : α} {parts : List (List α)}
    (h : c ∈ [sep].intercalate parts) : c = sep ∨ ∃ part ∈ parts, c ∈ part := by
  induction parts with
  | nil => cases h
  | cons part parts ih =>
    cases parts with
    | nil => exact .inr ⟨part, List.mem_cons_self, by simpa using h⟩
    | cons next parts =>
      rw [List.intercalate_cons_cons, List.mem_append, List.mem_append, List.mem_singleton] at h
      rcases h with (hc | rfl) | hc
      · exact .inr ⟨part, List.mem_cons_self, hc⟩
      · exact .inl rfl
      · exact (ih hc).imp_right fun h => h.imp fun _ h => ⟨List.mem_cons_of_mem _ h.1, h.2⟩

/-- The characters of a query that is written. -/
theorem mem_urlencode {c : CodePoint} (h : urlencode pairs = some q) (hc : c ∈ q) :
    isFormChar c = true ∨ c = ofChar '=' ∨ c = ofChar '&' := by
  obtain ⟨parts, hparts, rfl⟩ := Option.map_eq_some_iff.1 h
  rcases mem_intercalate hc with rfl | ⟨part, hpart, hc⟩
  · exact .inr (.inr rfl)
  · obtain ⟨pair, hpair⟩ := (mapM_quotePair hparts).2 part hpart
    exact (mem_quotePair hpair hc).imp_right .inl

/-- Nothing in a query that is written ends it. -/
theorem urlencode_char {c : CodePoint} (h : urlencode pairs = some q) (hc : c ∈ q) :
    0x20 < c.val ∧ c ≠ ofChar '#' := by
  rcases mem_urlencode h hc with hform | rfl | rfl
  · refine ⟨lt_of_isFormChar hform, ?_⟩
    rintro rfl
    exact absurd hform (by decide)
  · decide
  · decide

/-- **The pairs that are written are read.** -/
theorem formPairs_urlencode (h : urlencode pairs = some q) : formPairs q = some pairs := by
  obtain ⟨parts, hparts, rfl⟩ := Option.map_eq_some_iff.1 h
  obtain ⟨hread, hwritten⟩ := mapM_quotePair hparts
  cases parts with
  | nil =>
    cases hread
    rfl
  | cons part parts =>
    have hno : ∀ p ∈ part :: parts, ofChar '&' ∉ p := by
      intro p hp hmem
      obtain ⟨pair, hpair⟩ := hwritten p hp
      rcases mem_quotePair hpair hmem with hc | hc <;> exact absurd hc (by decide)
    have hsplit := List.splitOn_intercalate (ofChar '&') hno (List.cons_ne_nil _ _)
    have hne : [ofChar '&'].intercalate (part :: parts) ≠ [] := by
      intro hnil
      obtain ⟨pair, hpair⟩ := hwritten part List.mem_cons_self
      obtain ⟨key, value, -, -, rfl⟩ := quotePair_some hpair
      rw [hnil, List.splitOn_nil] at hsplit
      exact List.append_ne_nil_of_right_ne_nil key (List.cons_ne_nil (ofChar '=') value)
        (List.cons.inj hsplit).1.symm
    rw [formPairs, if_neg hne, hsplit, hread]

end

end Python
