import Ekumidayomi.Lib.Hex
import Ekumidayomi.Lib.Python

/-!
# `json.dumps` and `json.loads`

The encoder and the decoder of Python's `json`. The encoder is that of `allow_nan=False`,
`ensure_ascii=False` and `separators=(",", ":")`. Both ask the interpreter for what is bounded: to
write or to read an `int` of so many digits, to go so many containers deep (`Demand`). A scan
(`Scan`) records what it asks for, in order, beside what it reads when nothing is refused, and the
first demand beyond the `Limits` ends it (`Scan.run`).
-/

namespace Python

open Unicode

/-! ## Limits -/

/-- What is asked of the interpreter. -/
inductive Demand
  | digits (n : Nat)
  | nesting (depth : Nat)
  deriving DecidableEq

/-- What the interpreter grants: `sys.get_int_max_str_digits()` and the recursion limit. -/
structure Limits where
  digits : Nat := 4300
  nesting : Nat

def Limits.allows (limits : Limits) : Demand → Bool
  | .digits n => n ≤ limits.digits
  | .nesting depth => depth ≤ limits.nesting

/-! ## The encoder -/

/-- What `json.dumps` raises. -/
inductive DumpsError
  | typeError | valueError | recursionError
  deriving DecidableEq

/-- Go on if the interpreter grants it. -/
def Limits.grant (limits : Limits) (demand : Demand) : Except DumpsError Unit :=
  if limits.allows demand then .ok ()
  else match demand with
    | .digits _ => .error .valueError
    | .nesting _ => .error .recursionError

/-- The number of digits of an `int`. -/
def digitCount (i : Int) : Nat := (Nat.toDigits 10 i.natAbs).length

/-- The text of an `int`. -/
def dumpsInt (limits : Limits) (i : Int) : Except DumpsError Text := do
  limits.grant (.digits (digitCount i))
  return intText i

/-- The escape of a code point in a string. -/
def escape (c : CodePoint) : Text :=
  if c = ofChar '"' then ofString "\\\""
  else if c = ofChar '\\' then ofString "\\\\"
  else if c.val = 0x8 then ofString "\\b"
  else if c.val = 0x9 then ofString "\\t"
  else if c.val = 0xa then ofString "\\n"
  else if c.val = 0xc then ofString "\\f"
  else if c.val = 0xd then ofString "\\r"
  else if c.val < 0x20 then ofString "\\u" ++ (Hex.digits 4 c.val).map ofChar
  else [c]

/-- A string in quotes. -/
def quote (s : Text) : Text := ofChar '"' :: (s.flatMap escape ++ [ofChar '"'])

/-- Texts with commas between them. -/
def commaJoin : List Text → Text
  | [] => []
  | [t] => t
  | t :: ts => t ++ ofChar ',' :: commaJoin ts

section
variable {F : Type} (floats : Floats F) (limits : Limits)

/-- The text of a `float`, which is refused when it is not finite. -/
def dumpsFloat (x : F) : Except DumpsError Text :=
  if floats.finite x then .ok (floats.repr x) else .error .valueError

/-- The string that stands for a key. -/
def keyText : Key F → Except DumpsError Text
  | .str s => .ok s
  | .none => .ok (ofString "null")
  | .bool b => .ok (ofString (if b then "true" else "false"))
  | .int i => dumpsInt limits i
  | .float x => dumpsFloat floats x
  | .other => .error .typeError

mutual

/-- `json.dumps(value)`, inside of `depth` containers. -/
def dumps (depth : Nat) : Value F → Except DumpsError Text
  | .none => .ok (ofString "null")
  | .bool b => .ok (ofString (if b then "true" else "false"))
  | .int i => dumpsInt limits i
  | .float x => dumpsFloat floats x
  | .str s => .ok (quote s)
  | .list items | .tuple items => do
    limits.grant (.nesting (depth + 1))
    return ofChar '[' :: (commaJoin (← dumpsItems (depth + 1) items) ++ [ofChar ']'])
  | .dict entries => do
    limits.grant (.nesting (depth + 1))
    return ofChar '{' :: (commaJoin (← dumpsEntries (depth + 1) entries) ++ [ofChar '}'])
  | .other => .error .typeError

def dumpsItems (depth : Nat) : List (Value F) → Except DumpsError (List Text)
  | [] => .ok []
  | v :: items => do
    let text ← dumps depth v
    return text :: (← dumpsItems depth items)

def dumpsEntries (depth : Nat) : List (Key F × Value F) → Except DumpsError (List Text)
  | [] => .ok []
  | (key, v) :: entries => do
    let name ← keyText floats limits key
    let text ← dumps depth v
    return (quote name ++ ofChar ':' :: text) :: (← dumpsEntries depth entries)

end

end

/-! ## Scans -/

/-- A scan: what it asks for, and what it reads; `none` when the text is not JSON. -/
structure Scan (α : Type) where
  demands : List Demand
  result : Option α

namespace Scan
variable {α β : Type}

instance : Monad Scan where
  pure a := ⟨[], some a⟩
  bind x f := match x.result with
    | none => ⟨x.demands, none⟩
    | some a => ⟨x.demands ++ (f a).demands, (f a).result⟩

/-- Ask for something. -/
def ask (demand : Demand) : Scan Unit := ⟨[demand], some ()⟩

/-- A step that asks for nothing. -/
def of (x : Option α) : Scan α := ⟨[], x⟩

end Scan

/-- White space between the tokens. -/
def isSpace (c : CodePoint) : Bool := c.val == 0x20 || c.val == 0x9 || c.val == 0xa || c.val == 0xd

def skipSpace (t : Text) : Text := t.dropWhile isSpace

/-! ## Strings -/

def hexDigit (c : CodePoint) : Option Nat :=
  if isDigit c then some (c.val - 0x30)
  else if 0x61 ≤ c.val ∧ c.val ≤ 0x66 then some (c.val - 0x61 + 10)
  else if 0x41 ≤ c.val ∧ c.val ≤ 0x46 then some (c.val - 0x41 + 10)
  else none

def hex4 (a b c d : CodePoint) : Option Nat := do
  return (((← hexDigit a) * 16 + (← hexDigit b)) * 16 + (← hexDigit c)) * 16 + (← hexDigit d)

/-- The code point that a letter after a backslash stands for. -/
def unescape (c : CodePoint) : Option CodePoint :=
  if c = ofChar '"' || c = ofChar '\\' || c = ofChar '/' then some c
  else if c = ofChar 'b' then codePoint 0x8
  else if c = ofChar 'f' then codePoint 0xc
  else if c = ofChar 'n' then codePoint 0xa
  else if c = ofChar 'r' then codePoint 0xd
  else if c = ofChar 't' then codePoint 0x9
  else none

/-- A code point in front of what is read after it. -/
def push (c : Option CodePoint) (rest : Option (Text × Text)) : Option (Text × Text) := do
  let c ← c
  let (s, rest) ← rest
  return (c :: s, rest)

/-- `scanstring`, after the opening quote: the string and what follows it. An escaped high surrogate
is joined with an escaped low one that follows it. -/
def scanString : Text → Option (Text × Text)
  | [] => none
  | c :: t =>
    if c = ofChar '"' then some ([], t)
    else if c = ofChar '\\' then
      match t with
      | [] => none
      | e :: t =>
        if e = ofChar 'u' then
          match t with
          | w :: x :: y :: z :: t => do
            let n ← hex4 w x y z
            let alone := push (codePoint n) (scanString t)
            match t with
            | b :: u :: w' :: x' :: y' :: z' :: t =>
              if isHighSurrogate n && b = ofChar '\\' && u = ofChar 'u' then do
                let m ← hex4 w' x' y' z'
                if isLowSurrogate m then push (codePoint (joinSurrogates n m)) (scanString t)
                else alone
              else alone
            | _ => alone
          | _ => none
        else push (unescape e) (scanString t)
    else if c.val < 0x20 then none
    else push (some c) (scanString t)

/-! ## Numbers -/

/-- One of some signs, or nothing. -/
def scanSign (signs : List CodePoint) : Text → Text × Text
  | [] => ([], [])
  | c :: t => if signs.contains c then ([c], t) else ([], c :: t)

def scanWhole : Text → Option (Text × Text)
  | [] => none
  | c :: t =>
    if c = ofChar '0' then some ([c], t)
    else if isDigit c then some (c :: t.takeWhile isDigit, t.dropWhile isDigit)
    else none

/-- A point and digits, or nothing. -/
def scanFraction : Text → Text × Text
  | c :: d :: t =>
    if c = ofChar '.' && isDigit d then
      (c :: d :: t.takeWhile isDigit, t.dropWhile isDigit)
    else ([], c :: d :: t)
  | t => ([], t)

/-- An exponent, or nothing. -/
def scanExponent : Text → Text × Text
  | [] => ([], [])
  | c :: t =>
    if c = ofChar 'e' || c = ofChar 'E' then
      let (sign, u) := scanSign [ofChar '+', ofChar '-'] t
      if (u.takeWhile isDigit).isEmpty then ([], c :: t)
      else (c :: (sign ++ u.takeWhile isDigit), u.dropWhile isDigit)
    else ([], c :: t)

/-- `_match_number`: the sign, the whole part, what makes it a `float`, and what follows. -/
def matchNumber (t : Text) : Option (Text × Text × Text × Text) := do
  let (sign, t) := scanSign [ofChar '-'] t
  let (whole, t) ← scanWhole t
  let (fraction, t) := scanFraction t
  let (exponent, t) := scanExponent t
  return (sign, whole, fraction ++ exponent, t)

section
variable {F : Type} (floats : Floats F)

def scanNumber (t : Text) : Scan (Value F × Text) := do
  let (sign, whole, rest, t) ← Scan.of (matchNumber t)
  if rest.isEmpty then
    Scan.ask (.digits whole.length)
    return (.int (intOf (sign ++ whole)), t)
  else return (.float (floats.ofText (sign ++ whole ++ rest)), t)

/-- The names of values. -/
def constants : List (Text × Value F) :=
  [(ofString "null", .none), (ofString "true", .bool true), (ofString "false", .bool false),
    (ofString "NaN", .float floats.nan), (ofString "Infinity", .float floats.infinity),
    (ofString "-Infinity", .float floats.negInfinity)]

/-- A constant or a number. -/
def scanAtom (t : Text) : Scan (Value F × Text) :=
  match (constants floats).find? fun e => e.1.isPrefixOf t with
  | some (name, v) => pure (v, t.drop name.length)
  | none => scanNumber floats t

/-! ## The decoder -/

/-- `d[key] = value`, on a dictionary kept in insertion order. -/
def insertKey {α : Type} (d : List (Text × α)) (e : Text × α) : List (Text × α) :=
  if d.any (·.1 == e.1) then d.map fun e' => if e'.1 == e.1 then (e.1, e.2) else e'
  else d ++ [e]

/-- The dictionary of some members, of which the last of one name counts. -/
def dictOf (members : List (Text × Value F)) : Value F :=
  .dict ((members.foldl insertKey []).map fun e => (.str e.1, e.2))

mutual

/-- `scan_once`, inside of `depth` containers: a value and what follows it. -/
def scanOnce : Nat → Nat → Text → Scan (Value F × Text)
  | 0, _, _ => .of none
  | fuel + 1, depth, text =>
    match text with
    | [] => .of none
    | c :: rest =>
      if c = ofChar '"' then do
        let (s, rest) ← Scan.of (scanString rest)
        return (.str s, rest)
      else if c = ofChar '[' then do
        Scan.ask (.nesting (depth + 1))
        let rest := skipSpace rest
        if rest.head? = some (ofChar ']') then return (.list [], rest.tail)
        else do
          let (items, rest) ← scanItems fuel (depth + 1) rest
          return (.list items, rest)
      else if c = ofChar '{' then do
        Scan.ask (.nesting (depth + 1))
        let rest := skipSpace rest
        if rest.head? = some (ofChar '}') then return (.dict [], rest.tail)
        else do
          let (members, rest) ← scanMembers fuel (depth + 1) rest
          return (dictOf members, rest)
      else scanAtom floats (c :: rest)

/-- The items of an array that is not empty, and what follows its bracket. -/
def scanItems : Nat → Nat → Text → Scan (List (Value F) × Text)
  | 0, _, _ => .of none
  | fuel + 1, depth, text => do
    let (v, rest) ← scanOnce fuel depth text
    match skipSpace rest with
    | [] => .of none
    | c :: rest =>
      if c = ofChar ']' then return ([v], rest)
      else if c = ofChar ',' then do
        let (items, rest) ← scanItems fuel depth (skipSpace rest)
        return (v :: items, rest)
      else .of none

/-- The members of an object that is not empty, and what follows its brace. -/
def scanMembers : Nat → Nat → Text → Scan (List (Text × Value F) × Text)
  | 0, _, _ => .of none
  | fuel + 1, depth, text =>
    match text with
    | [] => .of none
    | q :: rest =>
      if q = ofChar '"' then do
        let (key, rest) ← Scan.of (scanString rest)
        match skipSpace rest with
        | [] => .of none
        | c :: rest =>
          if c = ofChar ':' then do
            let (v, rest) ← scanOnce fuel depth (skipSpace rest)
            match skipSpace rest with
            | [] => .of none
            | c :: rest =>
              if c = ofChar '}' then return ([(key, v)], rest)
              else if c = ofChar ',' then do
                let (members, rest) ← scanMembers fuel depth (skipSpace rest)
                return ((key, v) :: members, rest)
              else .of none
          else .of none
      else .of none

end

/-- `JSONDecoder.decode`: one value with white space around it. Every call goes on with a shorter
text, or comes from one that does, so the steps suffice (`scanText_steps`). -/
def scanText (text : Text) : Scan (Value F) := do
  let (v, rest) ← scanOnce floats (2 * text.length + 1) 0 (skipSpace text)
  if (skipSpace rest).isEmpty then return v else .of none

end

/-! ## Bytes -/

/-- `json.detect_encoding` and the decoding of the bytes with `surrogatepass`. -/
def decodeBytes (bytes : List UInt8) : Option Text :=
  let utf32 := fun big => decodeUtf32 true big
  let utf16 := fun big => decodeUtf16 true big
  if [0, 0, 0xfe, 0xff].isPrefixOf bytes then utf32 true (bytes.drop 4)
  else if [0xff, 0xfe, 0, 0].isPrefixOf bytes then utf32 false (bytes.drop 4)
  else if [0xfe, 0xff].isPrefixOf bytes then utf16 true (bytes.drop 2)
  else if [0xff, 0xfe].isPrefixOf bytes then utf16 false (bytes.drop 2)
  else if [0xef, 0xbb, 0xbf].isPrefixOf bytes then decodeUtf8 true (bytes.drop 3)
  else match bytes with
    | a :: b :: c :: d :: _ =>
      if a = 0 then (if b ≠ 0 then utf16 true bytes else utf32 true bytes)
      else if b = 0 then (if c ≠ 0 ∨ d ≠ 0 then utf16 false bytes else utf32 false bytes)
      else decodeUtf8 true bytes
    | [a, b] =>
      if a = 0 then utf16 true bytes
      else if b = 0 then utf16 false bytes
      else decodeUtf8 true bytes
    | _ => decodeUtf8 true bytes

/-- What `json.loads` raises: `JSONDecodeError`, `UnicodeDecodeError`, another `ValueError` or
`RecursionError`. -/
inductive LoadsError
  | jsonDecodeError | unicodeDecodeError | valueError | recursionError
  deriving DecidableEq

/-- A scan within the limits. -/
def Scan.run {α : Type} (limits : Limits) (x : Scan α) : Except LoadsError α :=
  match x.demands.find? fun demand => !limits.allows demand with
  | some (.digits _) => .error .valueError
  | some (.nesting _) => .error .recursionError
  | none => match x.result with
    | some a => .ok a
    | none => .error .jsonDecodeError

/-- `json.loads(bytes)`. -/
def loads {F : Type} (floats : Floats F) (limits : Limits) (bytes : List UInt8) :
    Except LoadsError (Value F) :=
  match decodeBytes bytes with
  | none => .error .unicodeDecodeError
  | some text => (scanText floats text).run limits

end Python
