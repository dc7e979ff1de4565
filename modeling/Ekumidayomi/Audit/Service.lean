import Ekumidayomi.Text
import Ekumidayomi.Events
import Mathlib.Data.Finset.Card

/-!
# Sanitizing the metadata of audit records

`audit/service.py`: what `record` stores of the metadata it is given. A Python value that reaches
the sanitizer is a tree `AuditObject`, a value that it returns is an `AuditValue`. The one mutable
cell `budget` of the source is passed through the recursion. `floatRepr` is `float.__repr__`, which
`json.dumps` writes a finite number with.
-/

namespace Ekumidayomi.Audit

/-- A key of a mapping: a string, or an object of another type. -/
inductive AuditKey
  | str (s : String)
  | other
  deriving DecidableEq, Repr

/-- The values the sanitizer is given. A `datetime` is the instant it denotes, and a naive one
denotes none; a mapping is its items, in their order. A `str` is a `String` and has no lone
surrogates, which the sanitizer would count and return like any other character. -/
inductive AuditObject
  | none
  | bool (b : Bool)
  | int (i : Int)
  | float (x : PyFloat)
  | str (s : String)
  | uuid (u : UUID)
  | datetime (instant : Option Time)
  | mapping (items : List (AuditKey × AuditObject))
  | list (items : List AuditObject)
  | tuple (items : List AuditObject)
  | other
  deriving Repr

/-- `AuditValue`: the values the sanitizer returns. -/
inductive AuditValue
  | none
  | bool (b : Bool)
  | int (i : Int)
  | float (mantissa exponent : Int)
  | str (s : String)
  | list (items : List AuditValue)
  | mapping (items : List (String × AuditValue))
  deriving Repr

/-- The errors that sanitizing raises. -/
inductive AuditError
  | notMapping
  | tooManyAllowedKeys
  | allowedKeyFormat
  | depth
  | tooManyFields
  | keyType
  | tooManyValues
  | notFinite
  | naive
  | dateRange
  | tooManyItems
  | unsupported
  | intDigits
  | byteLimit
  deriving DecidableEq, Repr

/-- The text of a raised error. -/
def AuditError.text : AuditError → String
  | notMapping => "audit metadata must be a mapping"
  | tooManyAllowedKeys => "too many allowed audit metadata keys"
  | allowedKeyFormat => "allowed audit metadata keys must use safe snake case"
  | depth => "audit metadata exceeds the nesting limit"
  | tooManyFields => "audit metadata mapping contains too many fields"
  | keyType => "audit metadata keys must be strings"
  | tooManyValues => "audit metadata contains too many values"
  | notFinite => "audit metadata numbers must be finite"
  | naive => "datetime must be timezone-aware"
  | dateRange => "date value out of range"
  | tooManyItems => "audit metadata list contains too many items"
  | unsupported => "audit metadata contains an unsupported value"
  | intDigits => "Exceeds the limit (4300 digits) for integer string conversion; " ++
      "use sys.set_int_max_str_digits() to increase the limit"
  | byteLimit => "audit metadata exceeds the byte limit"

/-- `REDACTED_VALUE`. -/
def redactedValue : String := "[REDACTED]"

/-- `_MAX_METADATA_BYTES`. -/
def maxMetadataBytes : Nat := 16384

/-- `_MAX_METADATA_DEPTH`. -/
def maxMetadataDepth : Nat := 4

/-- `_MAX_MAPPING_FIELDS`. -/
def maxMappingFields : Nat := 50

/-- `_MAX_LIST_ITEMS`. -/
def maxListItems : Nat := 20

/-- `_MAX_TOTAL_VALUES`. -/
def maxTotalValues : Nat := 100

/-- `_MAX_STRING_LENGTH`. -/
def maxStringLength : Nat := 500

/-- `_SENSITIVE_METADATA_KEY_PARTS`. -/
def sensitiveMetadataKeyParts : List String :=
  ["address", "authorization", "body", "card", "cardholder", "connection", "cookie", "credential",
    "cvc", "cvv", "email", "hash", "ip", "otp", "pan", "password", "passwd", "payload", "phone",
    "secret", "session", "token"]

/-! ## Keys -/

/-- The characters `[A-Z]`. -/
def isUpper (c : Char) : Bool := 'A' ≤ c && c ≤ 'Z'

/-- `re.sub(r"(?<=[a-z0-9])(?=[A-Z])", "_", key)`. -/
def separateWords : List Char → List Char
  | a :: b :: text =>
    if (isLower a || isDigit a) && isUpper b then a :: '_' :: separateWords (b :: text)
    else a :: separateWords (b :: text)
  | text => text

/-- `_is_sensitive_key`. The keys it is asked about are allowed ones, so they are ASCII, and there
`str.casefold` only lowers `[A-Z]`. -/
def isSensitiveKey (key : String) : Bool :=
  let folded := (separateWords key.toList).map Char.toLower
  let parts := (folded.splitOnP fun c => !(isLower c || isDigit c)).filter (!·.isEmpty)
  parts.any fun part => sensitiveMetadataKeyParts.contains (String.ofList part)

/-- `_validate_allowed_keys`. -/
def validateAllowedKeys (allowedKeys : Finset String) : Except AuditError Unit :=
  if allowedKeys.card > maxTotalValues then .error .tooManyAllowedKeys
  else if ∃ key ∈ allowedKeys, isSafeName key = false then .error .allowedKeyFormat
  else .ok ()

/-! ## Instants -/

/-- The last `w` decimal digits of a number. -/
def decimals : Nat → Nat → List Char
  | 0, _ => []
  | w + 1, n => decimals w (n / 10) ++ [Nat.digitChar (n % 10)]

/-- The year, month and day of a day counted from 1970-01-01. The years are cut at the first of
March, and four hundred of them at a time. -/
def civilDate (day : Int) : Int × Int × Int :=
  let shifted := day + 719468
  let era := shifted / 146097
  let dayOfEra := shifted % 146097
  let yearOfEra := (dayOfEra - dayOfEra / 1460 + dayOfEra / 36524 - dayOfEra / 146096) / 365
  let dayOfYear := dayOfEra - (365 * yearOfEra + yearOfEra / 4 - yearOfEra / 100)
  let month := (5 * dayOfYear + 2) / 153
  let dayOfMonth := dayOfYear - (153 * month + 2) / 5 + 1
  let month := if month < 10 then month + 3 else month - 9
  let year := yearOfEra + era * 400 + if month ≤ 2 then 1 else 0
  (year, month, dayOfMonth)

/-- `value.isoformat().replace("+00:00", "Z")` on an instant in UTC. -/
def isoformatZ (t : Time) : List Char :=
  let microsecond := (t % 1000000).toNat
  let second := ((t / 1000000) % 86400).toNat
  let (year, month, day) := civilDate (t / 86400000000)
  let fraction := if microsecond = 0 then [] else '.' :: decimals 6 microsecond
  decimals 4 year.toNat ++ '-' :: (decimals 2 month.toNat ++ '-' :: (decimals 2 day.toNat ++
    'T' :: (decimals 2 (second / 3600) ++ ':' :: (decimals 2 (second / 60 % 60) ++
      ':' :: (decimals 2 (second % 60) ++ (fraction ++ ['Z']))))))

/-- `serialize_utc`, with the `require_utc` in it: a naive value is refused, and so is an instant
that is outside the years 1 to 9999 once it is read in UTC. -/
def serializeUtc (instant : Option Time) : Except AuditError String :=
  match instant with
  | .none => .error .naive
  | .some t =>
    if t < -62135596800000000 ∨ 253402300800000000 ≤ t then .error .dateRange
    else .ok (String.ofList (isoformatZ t))

example : serializeUtc (some 1767268800000000) = .ok "2026-01-01T12:00:00Z" := by decide

/-! ## Values -/

/-- `_validate_depth`. -/
def validateDepth (depth : Nat) : Except AuditError Unit :=
  if depth > maxMetadataDepth then .error .depth else .ok ()

/-- `_consume_budget`, returning what is left. -/
def consumeBudget : Nat → Except AuditError Nat
  | 0 => .error .tooManyValues
  | rest + 1 => .ok rest

/-- The checks at the head of `_sanitize_mapping`. -/
def validateMapping (depth fields : Nat) : Except AuditError Unit := do
  validateDepth depth
  if fields > maxMappingFields then .error .tooManyFields else .ok ()

/-- The check of `_sanitize_value` on the length of a list or a tuple. -/
def validateItems (items : Nat) : Except AuditError Unit :=
  if items > maxListItems then .error .tooManyItems else .ok ()

section
variable (allowedKeys : Finset String)

mutual

/-- `_sanitize_value`, returning the value and what is left of the budget. -/
def sanitizeValue (depth budget : Nat) : AuditObject → Except AuditError (AuditValue × Nat)
  | .none => do
    validateDepth depth
    return (.none, budget)
  | .bool b => do
    validateDepth depth
    return (.bool b, budget)
  | .int i => do
    validateDepth depth
    return (.int i, budget)
  | .float x => do
    validateDepth depth
    match x with
    | .finite m e => return (.float m e, budget)
    | _ => throw .notFinite
  | .str s => do
    validateDepth depth
    return (.str (String.ofList (s.toList.take maxStringLength)), budget)
  | .uuid u => do
    validateDepth depth
    return (.str (uuidStr u), budget)
  | .datetime instant => do
    validateDepth depth
    return (.str (← serializeUtc instant), budget)
  | .mapping items => do
    validateDepth depth
    validateMapping depth items.length
    let (entries, rest) ← sanitizeEntries depth budget items
    return (.mapping entries, rest)
  | .list items | .tuple items => do
    validateDepth depth
    validateItems items.length
    let (output, rest) ← sanitizeItems depth budget items
    return (.list output, rest)
  | .other => do
    validateDepth depth
    throw .unsupported

/-- The loop of `_sanitize_value` over the items of a list or a tuple at `depth`. -/
def sanitizeItems (depth budget : Nat) :
    List AuditObject → Except AuditError (List AuditValue × Nat)
  | [] => return ([], budget)
  | item :: items => do
    let rest ← consumeBudget budget
    let (value, rest) ← sanitizeValue (depth + 1) rest item
    let (output, rest) ← sanitizeItems depth rest items
    return (value :: output, rest)

/-- The loop of `_sanitize_mapping` over the items of a mapping at `depth`. The keys of a mapping
are distinct, so that `output[key] = …` adds an entry at the end. -/
def sanitizeEntries (depth budget : Nat) :
    List (AuditKey × AuditObject) → Except AuditError (List (String × AuditValue) × Nat)
  | [] => return ([], budget)
  | (.other, _) :: _ => throw .keyType
  | (.str key, item) :: items => do
    if key ∈ allowedKeys then
      let rest ← consumeBudget budget
      if isSensitiveKey key then
        let (output, rest) ← sanitizeEntries depth rest items
        return ((key, .str redactedValue) :: output, rest)
      else
        let (value, rest) ← sanitizeValue (depth + 1) rest item
        let (output, rest) ← sanitizeEntries depth rest items
        return ((key, value) :: output, rest)
    else sanitizeEntries depth budget items

end

/-- `_sanitize_mapping`. -/
def sanitizeMapping (depth budget : Nat) (items : List (AuditKey × AuditObject)) :
    Except AuditError (List (String × AuditValue) × Nat) := do
  validateMapping depth items.length
  sanitizeEntries allowedKeys depth budget items

end

/-! ## The text that is measured -/

section
variable (floatRepr : Int → Int → String)

/-- Texts joined by commas. -/
def joined (texts : List (List Char)) : List Char := (texts.intersperse [',']).flatten

mutual

/-- `json.dumps` without blanks. An integer of more than 4300 digits has no text. -/
def AuditValue.dumps : AuditValue → Except AuditError (List Char)
  | .none => .ok "null".toList
  | .bool b => .ok (if b then "true".toList else "false".toList)
  | .int i =>
    if (Nat.toDigits 10 i.natAbs).length > 4300 then .error .intDigits
    else .ok ((if i < 0 then ['-'] else []) ++ Nat.toDigits 10 i.natAbs)
  | .float m e => .ok (floatRepr m e).toList
  | .str s => .ok (jsonString s)
  | .list items => do return '[' :: joined (← dumpsItems items) ++ [']']
  | .mapping items => do return '{' :: joined (← dumpsEntries items) ++ ['}']

/-- The texts of the items of a list. -/
def dumpsItems : List AuditValue → Except AuditError (List (List Char))
  | [] => .ok []
  | item :: items => do return (← item.dumps) :: (← dumpsItems items)

/-- The texts of the items of a mapping. -/
def dumpsEntries : List (String × AuditValue) → Except AuditError (List (List Char))
  | [] => .ok []
  | (key, item) :: items => do
    return (jsonString key ++ ':' :: (← item.dumps)) :: (← dumpsEntries items)

end

/-- `sanitize_audit_metadata`. -/
def sanitizeAuditMetadata (metadata : AuditObject) (allowedKeys : Finset String) :
    Except AuditError (List (String × AuditValue)) :=
  match metadata with
  | .mapping items => do
    validateAllowedKeys allowedKeys
    let (sanitized, _) ← sanitizeMapping allowedKeys 0 maxTotalValues items
    let encoded := encode (String.ofList (← (AuditValue.mapping sanitized).dumps floatRepr))
    if encoded.length > maxMetadataBytes then throw .byteLimit
    return sanitized
  | _ => .error .notMapping

end

end Ekumidayomi.Audit
