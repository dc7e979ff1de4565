import Ekumidayomi.Lib.Unicode
import Ekumidayomi.Types

/-!
# Domain events

`events.py`: the immutable envelope of a fact emitted by one aggregate, with the admission of its
payload. Python values that reach the payload are the trees `EventValue`; a value that is not
JSON-safe is `other`. A string of a payload is a list of code points, since a `str` may hold
surrogates; keys and types are strings, since the patterns refuse all that is not ASCII. The budget
list `budget` of the source, one mutable cell, is passed through the recursion.
-/

namespace Ekumidayomi

/-- A Python `float`: a finite binary number, or a value `math.isfinite` refuses. -/
inductive PyFloat
  | finite (mantissa exponent : Int)
  | infinite (negative : Bool)
  | nan
  deriving DecidableEq, Repr

/-- The values a payload is built from, before and after freezing. -/
inductive EventValue
  | none
  | bool (b : Bool)
  | int (i : Int)
  | float (x : PyFloat)
  | str (s : Unicode.Text)
  | list (items : List EventValue)
  | tuple (items : List EventValue)
  | mapping (items : List (String × EventValue))
  | other
  deriving Repr

/-- The errors of the event contract, with the texts the source raises. -/
inductive EventError
  | typeName (field : String)
  | version
  | depth
  | tooManyValues
  | notFinite
  | stringLength
  | unsafeValue
  | keyFormat
  | sensitiveKey
  deriving DecidableEq, Repr

/-- The text of a raised error. -/
def EventError.text : EventError → String
  | typeName field => field ++ " must use lowercase snake case and at most 100 characters"
  | version => "aggregate_version must be positive"
  | depth => "event payload exceeds the maximum nesting depth"
  | tooManyValues => "event payload contains too many values"
  | notFinite => "event payload must contain finite numbers"
  | stringLength => "event payload strings must not exceed 10000 characters"
  | unsafeValue => "event payload must contain only JSON-safe values"
  | keyFormat => "event payload keys must use lowercase snake case"
  | sensitiveKey => "event payload contains a sensitive key"

/-- `_SENSITIVE_KEY_PARTS`. -/
def sensitiveKeyParts : List String :=
  ["authorization", "card", "cookie", "credential", "cvv", "password", "secret", "token"]

/-- `_MAX_PAYLOAD_DEPTH`. -/
def maxPayloadDepth : Nat := 8

/-- `_MAX_PAYLOAD_VALUES`. -/
def maxPayloadValues : Nat := 500

/-- `_MAX_PAYLOAD_STRING_LENGTH`. -/
def maxPayloadStringLength : Nat := 10000

/-- `_validate_type`. -/
def validateType (name value : String) : Except EventError Unit :=
  if value.length > 100 || !isSnakeCase value then .error (.typeName name) else .ok ()

/-- `_validate_payload_key`. -/
def validatePayloadKey (key : String) : Except EventError String :=
  if key.length > 100 || !isSnakeCase key then .error .keyFormat
  else if (key.toList.splitOn '_').any fun part => sensitiveKeyParts.contains (String.ofList part)
  then .error .sensitiveKey
  else .ok key

/-- The two checks every value passes first: its depth, and the budget it is charged to. -/
def chargeValue (depth budget : Nat) : Except EventError Nat :=
  if depth > maxPayloadDepth then .error .depth
  else match budget with
    | 0 => .error .tooManyValues
    | rest + 1 => .ok rest

mutual

/-- `_freeze_value`, returning the frozen value and what is left of the budget. -/
def freezeValue (depth budget : Nat) : EventValue → Except EventError (EventValue × Nat)
  | .none => do return (.none, ← chargeValue depth budget)
  | .bool b => do return (.bool b, ← chargeValue depth budget)
  | .int i => do return (.int i, ← chargeValue depth budget)
  | .float x => do
    let rest ← chargeValue depth budget
    match x with
    | .finite m e => return (.float (.finite m e), rest)
    | _ => throw .notFinite
  | .str s => do
    let rest ← chargeValue depth budget
    if s.length > maxPayloadStringLength then throw .stringLength
    return (.str s, rest)
  | .list items | .tuple items => do
    let (frozen, rest) ← freezeItems (depth + 1) (← chargeValue depth budget) items
    return (.tuple frozen, rest)
  | .mapping items => do
    let (frozen, rest) ← freezeMapping (depth + 1) (← chargeValue depth budget) items
    return (.mapping frozen, rest)
  | .other => do
    let _ ← chargeValue depth budget
    throw .unsafeValue

/-- The generator over the items of a list or a tuple. -/
def freezeItems (depth budget : Nat) :
    List EventValue → Except EventError (List EventValue × Nat)
  | [] => return ([], budget)
  | item :: items => do
    let (frozen, rest) ← freezeValue depth budget item
    let (frozenItems, rest) ← freezeItems depth rest items
    return (frozen :: frozenItems, rest)

/-- `_freeze_mapping`: a key is validated before its value is charged. -/
def freezeMapping (depth budget : Nat) :
    List (String × EventValue) → Except EventError (List (String × EventValue) × Nat)
  | [] => return ([], budget)
  | (key, item) :: items => do
    let validated ← validatePayloadKey key
    let (frozen, rest) ← freezeValue depth budget item
    let (frozenItems, rest) ← freezeMapping depth rest items
    return ((validated, frozen) :: frozenItems, rest)

end

mutual

/-- `_thaw_value`. -/
def thawValue : EventValue → EventValue
  | .tuple items => .list (thawItems items)
  | .mapping items => .mapping (thawMapping items)
  | value => value

/-- `_thaw_value` on the items of a tuple. -/
def thawItems : List EventValue → List EventValue
  | [] => []
  | item :: items => thawValue item :: thawItems items

/-- `_thaw_value` on the items of a mapping. -/
def thawMapping : List (String × EventValue) → List (String × EventValue)
  | [] => []
  | (key, item) :: items => (key, thawValue item) :: thawMapping items

end

/-- `DomainEvent`, after `__post_init__`. -/
structure DomainEvent where
  eventId : UUID
  eventType : String
  aggregateType : String
  aggregateId : UUID
  aggregateVersion : Int
  occurredAt : Time
  payload : List (String × EventValue)
  deriving Repr

/-- The constructor of `DomainEvent` with the checks of `__post_init__`, in their order. -/
def DomainEvent.create (eventId : UUID) (eventType aggregateType : String) (aggregateId : UUID)
    (aggregateVersion : Int) (occurredAt : Time) (payload : List (String × EventValue)) :
    Except EventError DomainEvent := do
  validateType "event_type" eventType
  validateType "aggregate_type" aggregateType
  if aggregateVersion < 1 then throw .version
  let (frozen, _) ← freezeMapping 1 maxPayloadValues payload
  return { eventId, eventType, aggregateType, aggregateId, aggregateVersion, occurredAt,
           payload := frozen }

/-- `DomainEvent.payload_dict`. -/
def DomainEvent.payloadDict (event : DomainEvent) : List (String × EventValue) :=
  thawMapping event.payload

/-- The envelope of a created event is the one it was given; only the payload is rebuilt. -/
theorem DomainEvent.create_envelope {eventId : UUID} {eventType aggregateType : String}
    {aggregateId : UUID} {aggregateVersion : Int} {occurredAt : Time}
    {payload : List (String × EventValue)} {event : DomainEvent}
    (h : DomainEvent.create eventId eventType aggregateType aggregateId aggregateVersion occurredAt
      payload = .ok event) :
    event.eventId = eventId ∧ event.eventType = eventType ∧ event.aggregateType = aggregateType ∧
      event.aggregateId = aggregateId ∧ event.aggregateVersion = aggregateVersion ∧
      event.occurredAt = occurredAt := by
  simp only [DomainEvent.create, bind, Except.bind] at h
  split at h
  · cases h
  split at h
  · cases h
  split at h
  · cases h
  split at h
  · cases h
  cases h
  exact ⟨rfl, rfl, rfl, rfl, rfl, rfl⟩

end Ekumidayomi
