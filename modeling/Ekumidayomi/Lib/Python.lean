import Ekumidayomi.Lib.Unicode

/-!
# Values of Python

The built-in values that data is made of, as trees: a `dict` is its items in their order, and an
object of any other type is `other`. `Value.eq` is `==`. Floats are a type `F` with the texts that
they are written as (`Floats`); the text of a finite one is a `Numeral` and reads as the same float.
-/

namespace Python

open Unicode

/-! ## Numerals -/

def isDigit (c : CodePoint) : Bool := 0x30 ≤ c.val && c.val ≤ 0x39

/-- A sequence of digits that is not empty. -/
def IsDigits (t : Text) : Prop := t ≠ [] ∧ ∀ c ∈ t, isDigit c = true

/-- A number in text. The whole part has no zero in front of it. -/
structure Numeral where
  sign : Text
  whole : Text
  fraction : Text
  exponent : Text
  isSign : sign = [] ∨ sign = [ofChar '-']
  isWhole : whole = [ofChar '0'] ∨ IsDigits whole ∧ whole.head? ≠ some (ofChar '0')
  isFraction : fraction = [] ∨ ∃ ds, fraction = ofChar '.' :: ds ∧ IsDigits ds
  isExponent : exponent = [] ∨ ∃ e sign ds, exponent = e :: (sign ++ ds) ∧
    (e = ofChar 'e' ∨ e = ofChar 'E') ∧ (sign = [] ∨ sign = [ofChar '+'] ∨ sign = [ofChar '-']) ∧
    IsDigits ds

def Numeral.text (n : Numeral) : Text := n.sign ++ (n.whole ++ (n.fraction ++ n.exponent))

/-- The digits of a number. -/
def natText (n : Nat) : Text := (Nat.toDigits 10 n).map ofChar

/-- A positive number has no zero in front of it. -/
theorem head_toDigits {n : Nat} (hn : 0 < n) : (Nat.toDigits 10 n).head? ≠ some '0' := by
  induction n using Nat.strongRecOn with
  | ind n ih =>
    rcases Nat.lt_or_ge n 10 with hlt | hge
    · have key : ∀ n < 10, 0 < n → n.digitChar ≠ '0' := by decide
      rw [Nat.toDigits_of_lt_base hlt]
      simpa using key n hlt hn
    · rw [Nat.toDigits_of_base_le (by decide) hge, List.head?_append_of_ne_nil _ Nat.toDigits_ne_nil]
      exact ih (n / 10) (by omega) (by omega)

/-- `int.__repr__`. -/
def intText : Int → Text
  | .ofNat n => natText n
  | .negSucc n => ofChar '-' :: natText (n + 1)

/-- The number that digits spell. -/
def natOf (t : Text) : Nat := t.foldl (fun n c => 10 * n + (c.val - 0x30)) 0

/-- `int(text)`, on a sign and digits. -/
def intOf : Text → Int
  | [] => 0
  | c :: t => if c = ofChar '-' then -natOf t else natOf (c :: t)

/-- `float`: `repr` is `float.__repr__` of a finite number and `ofText` is `float(text)`. -/
structure Floats (F : Type) where
  finite : F → Bool
  repr : F → Text
  ofText : Text → F
  nan : F
  infinity : F
  negInfinity : F
  eq : F → F → Bool
  eqInt : F → Int → Bool
  repr_numeral : ∀ x, finite x = true →
    ∃ n : Numeral, n.text = repr x ∧ n.fraction ++ n.exponent ≠ []
  ofText_repr : ∀ x, finite x = true → ofText (repr x) = x
  eq_self : ∀ x, finite x = true → eq x x = true

/-! ## Values -/

/-- A key of a `dict`; `other` is an object of any other type. -/
inductive Key (F : Type)
  | none
  | bool (b : Bool)
  | int (i : Int)
  | float (x : F)
  | str (s : Text)
  | other

inductive Value (F : Type)
  | none
  | bool (b : Bool)
  | int (i : Int)
  | float (x : F)
  | str (s : Text)
  | list (items : List (Value F))
  | tuple (items : List (Value F))
  | dict (entries : List (Key F × Value F))
  | other

section
variable {F : Type} (floats : Floats F)

/-- `==` of numbers. -/
def eqNumber : Int ⊕ F → Int ⊕ F → Bool
  | .inl i, .inl j => i == j
  | .inl i, .inr x | .inr x, .inl i => floats.eqInt x i
  | .inr x, .inr y => floats.eq x y

/-- A key as a number: a `bool` is an `int`. -/
def Key.number : Key F → Option (Int ⊕ F)
  | .bool b => some (.inl b.toNat)
  | .int i => some (.inl i)
  | .float x => some (.inr x)
  | _ => Option.none

/-- `==` of keys. -/
def Key.eq : Key F → Key F → Bool
  | .none, .none => true
  | .str s, .str t => s == t
  | k, l => match k.number, l.number with
    | some m, some n => eqNumber floats m n
    | _, _ => false

/-- `d[key]`. -/
def lookup (entries : List (Key F × Value F)) (key : Key F) : Option (Value F) :=
  (entries.find? fun e => e.1.eq floats key).map (·.2)

/-- A value as a number. -/
def Value.number : Value F → Option (Int ⊕ F)
  | .bool b => some (.inl b.toNat)
  | .int i => some (.inl i)
  | .float x => some (.inr x)
  | _ => Option.none

mutual

/-- `==`. -/
def Value.eq : Value F → Value F → Bool
  | .none, w => match w with
    | .none => true
    | _ => false
  | .bool b, w => w.number.any (eqNumber floats (.inl b.toNat))
  | .int i, w => w.number.any (eqNumber floats (.inl i))
  | .float x, w => w.number.any (eqNumber floats (.inr x))
  | .str s, w => match w with
    | .str t => s == t
    | _ => false
  | .list items, w => match w with
    | .list items' => eqItems items items'
    | _ => false
  | .tuple items, w => match w with
    | .tuple items' => eqItems items items'
    | _ => false
  | .dict entries, w => match w with
    | .dict entries' => entries.length == entries'.length && eqEntries entries entries'
    | _ => false
  | .other, _ => false

def eqItems : List (Value F) → List (Value F) → Bool
  | [], items => items.isEmpty
  | _ :: _, [] => false
  | v :: items, w :: items' => v.eq w && eqItems items items'

/-- Every entry of the first dictionary is one of the second. -/
def eqEntries : List (Key F × Value F) → List (Key F × Value F) → Bool
  | [], _ => true
  | (key, v) :: entries, entries' =>
    (match lookup floats entries' key with
      | some w => v.eq w
      | .none => false) && eqEntries entries entries'

end

mutual

/-- The keys of every dictionary in a value differ. -/
def Value.WellFormed : Value F → Prop
  | .list items | .tuple items => WellFormedItems items
  | .dict entries =>
    (entries.map (·.1)).Pairwise (fun k l => k.eq floats l = false) ∧ WellFormedEntries entries
  | _ => True

def WellFormedItems : List (Value F) → Prop
  | [] => True
  | v :: items => v.WellFormed ∧ WellFormedItems items

def WellFormedEntries : List (Key F × Value F) → Prop
  | [] => True
  | (_, v) :: entries => v.WellFormed ∧ WellFormedEntries entries

end

end

end Python
