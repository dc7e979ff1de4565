import Ekumidayomi.Lib.Hex
import Mathlib.Data.List.Basic

/-!
# Values shared by the domains

The values that the modelled modules exchange: identifiers, instants of the UTC clock, byte strings
and the truth values Python gives to optional columns. An instant is a number of microseconds, the
resolution of `datetime` and of `timestamptz`.
-/

namespace Ekumidayomi

/-- A `uuid.UUID`: 128 bits, ordered as PostgreSQL orders the `uuid` type. -/
abbrev UUID := BitVec 128

/-- An aware `datetime` in UTC, in microseconds. -/
abbrev Time := Int

/-- A `bytes` object. -/
abbrev Bytes := List UInt8

/-- A `dict[str, str]`, each key at most once. -/
abbrev Dict := List (String × String)

/-- `timedelta(seconds=n)`. -/
def seconds (n : Nat) : Int := n * 1000000

/-- `str.encode()`. -/
def encode (s : String) : Bytes := s.toList.flatMap String.utf8EncodeChar

/-- The characters of `str(uuid)`: groups of 8, 4, 4, 4 and 12 digits. -/
def uuidChars (u : UUID) : List Char :=
  let digits := Hex.digits 32 u.toNat
  digits.take 8 ++ '-' :: ((digits.drop 8).take 4 ++ '-' :: ((digits.drop 12).take 4 ++
    '-' :: ((digits.drop 16).take 4 ++ '-' :: digits.drop 20)))

/-- `str(uuid)`. -/
def uuidStr (u : UUID) : String := String.ofList (uuidChars u)

/-- `bytes.hex()`, the text of `hexdigest`. -/
def hexdigest (digest : Bytes) : String :=
  String.ofList (digest.flatMap fun b => Hex.digits 2 b.toNat)

/-- The truth value of an optional string column: `None` and the empty string are false. -/
def truthy : Option String → Bool
  | none => false
  | some s => s ≠ ""

/-- The comparison `column <= bound` of SQL: null when the column is null, so never true. -/
def atMost (column : Option Time) (bound : Time) : Bool := column.any (· ≤ bound)

/-- The comparison `column > bound` of SQL, likewise. -/
def after (column : Option Time) (bound : Time) : Bool := column.any (bound < ·)

/-- `key in d`. -/
def Dict.contains (d : Dict) (key : String) : Bool := d.any (·.1 == key)

/-- `d[key] = value`, on a dictionary kept in insertion order. -/
def Dict.insert (d : Dict) (key value : String) : Dict :=
  if d.contains key then d.map fun e => if e.1 = key then (key, value) else e
  else d ++ [(key, value)]

/-- `{**d, **e}`. -/
def Dict.merge (d e : Dict) : Dict := e.foldl (fun acc kv => acc.insert kv.1 kv.2) d

/-- The characters `[a-z]`. -/
def isLower (c : Char) : Bool := 'a' ≤ c && c ≤ 'z'

/-- The characters `[0-9]`. -/
def isDigit (c : Char) : Bool := '0' ≤ c && c ≤ '9'

/-- The characters `[A-Za-z0-9]`. -/
def isAlnum (c : Char) : Bool := isLower c || isDigit c || ('A' ≤ c && c ≤ 'Z')

/-- The pattern `[a-z][a-z0-9]*(?:_[a-z0-9]+)*`, matched in full. -/
def isSnakeCase (s : String) : Bool :=
  match s.toList.splitOn '_' with
  | [] => false
  | first :: rest =>
    (first.head?.any isLower) && ((first :: rest).all fun part =>
      !part.isEmpty && part.all fun c => isLower c || isDigit c)

/-- The pattern `[a-z][a-z0-9_]{0,99}`, matched in full. -/
def isSafeName (s : String) : Bool :=
  match s.toList with
  | [] => false
  | first :: rest =>
    isLower first && rest.length ≤ 99 && rest.all fun c => isLower c || isDigit c || c == '_'

/-- The pattern `[a-f0-9]{64}`, matched in full. -/
def isHex64 (s : String) : Bool :=
  s.toList.length == 64 && s.toList.all fun c => ('a' ≤ c && c ≤ 'f') || isDigit c

@[simp] theorem truthy_none : truthy none = false := rfl

/-- A fingerprint in the accepted form counts as present. -/
theorem truthy_of_isHex64 {s : String} (h : isHex64 s = true) : truthy (some s) = true := by
  have hne : s ≠ "" := by
    rintro rfl
    revert h
    decide
  simpa [truthy] using hne

/-- A null column is never at most a bound. -/
@[simp] theorem atMost_none (bound : Time) : atMost none bound = false := rfl

@[simp] theorem atMost_some (t bound : Time) : atMost (some t) bound = decide (t ≤ bound) := by
  simp [atMost]

@[simp] theorem after_none (bound : Time) : after none bound = false := rfl

@[simp] theorem after_some (t bound : Time) : after (some t) bound = decide (bound < t) := by
  simp [after]

/-- The result of a step that succeeds. -/
theorem bind_ok_iff {ε α β : Type} {x : Except ε α} {f : α → Except ε β} {b : β} :
    (x >>= f) = .ok b ↔ ∃ a, x = .ok a ∧ f a = .ok b := by
  cases x with
  | error e => simp [bind, Except.bind]
  | ok a => simp [bind, Except.bind]

end Ekumidayomi
