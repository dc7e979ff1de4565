import Ekumidayomi.Lib.JsonCoercion
import Ekumidayomi.Types

/-!
# The bodies of the authentication requests

`auth/schemas.py`. FastAPI reads the body of a request with `json.loads` and pydantic makes a model
of what it reads: the models forbid other fields, a field is a `str` without surrogates whose length
is within its bounds, and a model carries what was checked of its fields. `parse` is pydantic's
parser of a UUID.
-/

namespace Ekumidayomi

open Unicode Python

/-! ## Fields -/

section
variable {F : Type} (floats : Floats F)

/-- The values of the fields of a model that forbids all others. -/
def modelFields (names : List String) : Value F → Option (List (Value F))
  | .dict entries =>
    if entries.all fun e => names.any fun name => e.1.eq floats (.str (ofString name)) then
      names.mapM fun name => lookup floats entries (.str (ofString name))
    else none
  | _ => none

end

section
variable {F : Type}

/-- A `str`. -/
def strField : Value F → Option String
  | .str t => asString t
  | _ => none

/-- `Field(min_length=..., max_length=...)`. -/
def HasLength (least most : Nat) (s : String) : Prop := least ≤ s.length ∧ s.length ≤ most
deriving Decidable

/-- A `str` whose length is within bounds. -/
def boundedField (least most : Nat) (v : Value F) :
    Option { s : String // HasLength least most s } :=
  (strField v).bind fun s => if h : HasLength least most s then some ⟨s, h⟩ else none

/-- The pattern `^[0-9]{6}$`. -/
def isCode (s : String) : Bool := s.toList.length == 6 && s.toList.all isDigit

end

/-! ## Models -/

structure EmailInput where
  email : { s : String // HasLength 3 320 s }

structure VerifyInput where
  challengeId : UUID
  code : String
  password : { s : String // HasLength 15 128 s }
  code_pattern : isCode code = true

structure LoginInput where
  email : { s : String // HasLength 3 320 s }
  password : { s : String // HasLength 1 128 s }

structure PasswordInput where
  password : { s : String // HasLength 1 128 s }

section
variable {F : Type} (floats : Floats F)

def EmailInput.validate (data : Value F) : Option EmailInput := do
  match ← modelFields floats ["email"] data with
  | [email] => return { email := ← boundedField 3 320 email }
  | _ => none

def VerifyInput.validate (parse : String → Option UUID) (data : Value F) : Option VerifyInput := do
  match ← modelFields floats ["challenge_id", "code", "password"] data with
  | [challengeId, code, password] =>
    let challengeId ← (← strField challengeId) |> parse
    let code ← strField code
    let password ← boundedField 15 128 password
    if h : isCode code = true then return { challengeId, code, password, code_pattern := h }
    else none
  | _ => none

def LoginInput.validate (data : Value F) : Option LoginInput := do
  match ← modelFields floats ["email", "password"] data with
  | [email, password] =>
    return { email := ← boundedField 3 320 email, password := ← boundedField 1 128 password }
  | _ => none

def PasswordInput.validate (data : Value F) : Option PasswordInput := do
  match ← modelFields floats ["password"] data with
  | [password] => return { password := ← boundedField 1 128 password }
  | _ => none

end

/-! ## What a validated body holds -/

section
variable {F : Type} {floats : Floats F} {names : List String} {data : Value F}
  {values : List (Value F)}

/-- A body that is validated is a dictionary with its fields and no others. -/
theorem modelFields_some (h : modelFields floats names data = some values) :
    ∃ entries, data = .dict entries ∧
      names.mapM (fun name => lookup floats entries (.str (ofString name))) = some values ∧
      ∀ name, name ∉ names → lookup floats entries (.str (ofString name)) = none := by
  unfold modelFields at h
  split at h
  case h_2 => cases h
  case h_1 entries =>
    split at h
    case isFalse => cases h
    case isTrue hall =>
      refine ⟨entries, rfl, h, fun name hname => ?_⟩
      rw [lookup, List.find?_eq_none.2, Option.map_none]
      intro e he heq
      obtain ⟨other, hother, hkey⟩ := List.any_eq_true.1 (List.all_eq_true.1 hall e he)
      have hsame : ofString name = ofString other := by
        rw [Key.eq_str.1 heq] at hkey
        exact Key.str.inj (Key.eq_str.1 hkey)
      have hstring : some name = some other := by
        rw [← asString_ofString name, hsame, asString_ofString]
      exact hname (Option.some.inj hstring ▸ hother)

/-- The value of the first field. -/
theorem first_field {f : String → Option (Value F)} {name : String} {v : Value F}
    (h : (name :: names).mapM f = some (v :: values)) : f name = some v := by
  rw [List.mapM_cons] at h
  obtain ⟨w, hw, h⟩ := Option.bind_eq_some_iff.1 h
  obtain ⟨_, -, h⟩ := Option.bind_eq_some_iff.1 h
  cases h
  exact hw

theorem strField_some {v : Value F} {s : String} (h : strField v = some s) :
    ∃ t, v = .str t ∧ asString t = some s := by
  cases v <;> first | exact ⟨_, rfl, h⟩ | cases h

theorem boundedField_some {least most : Nat} {v : Value F}
    {s : { s : String // HasLength least most s }} (h : boundedField least most v = some s) :
    strField v = some s.1 := by
  obtain ⟨text, htext, h⟩ := Option.bind_eq_some_iff.1 h
  split at h
  · rw [htext, ← Option.some.inj h]
  · cases h

/-- The address of a body. -/
theorem EmailInput.validate_some {body : EmailInput} (h : validate floats data = some body) :
    ∃ entries t, data = .dict entries ∧
      lookup floats entries (.str (ofString "email")) = some (.str t) ∧
      asString t = some body.email.1 := by
  obtain ⟨values, hvalues, hbody⟩ := Option.bind_eq_some_iff.1 h
  obtain ⟨entries, rfl, hfields, -⟩ := modelFields_some hvalues
  split at hbody
  case h_2 => cases hbody
  case h_1 email =>
    obtain ⟨address, haddress, heq⟩ := Option.bind_eq_some_iff.1 hbody
    obtain ⟨t, htext, ht⟩ := strField_some (boundedField_some haddress)
    cases heq
    exact ⟨entries, t, rfl, htext ▸ first_field hfields, ht⟩

/-- The address of a body with a password. -/
theorem LoginInput.validate_some {body : LoginInput} (h : validate floats data = some body) :
    ∃ entries t, data = .dict entries ∧
      lookup floats entries (.str (ofString "email")) = some (.str t) ∧
      asString t = some body.email.1 := by
  obtain ⟨values, hvalues, hbody⟩ := Option.bind_eq_some_iff.1 h
  obtain ⟨entries, rfl, hfields, -⟩ := modelFields_some hvalues
  split at hbody
  case h_2 => cases hbody
  case h_1 email password =>
    obtain ⟨address, haddress, hrest⟩ := Option.bind_eq_some_iff.1 hbody
    obtain ⟨_, -, heq⟩ := Option.bind_eq_some_iff.1 hrest
    obtain ⟨t, htext, ht⟩ := strField_some (boundedField_some haddress)
    cases heq
    exact ⟨entries, t, rfl, htext ▸ first_field hfields, ht⟩

/-- The challenge of a body, which has no address. -/
theorem VerifyInput.validate_some {parse : String → Option UUID} {body : VerifyInput}
    (h : validate floats parse data = some body) :
    ∃ entries t, data = .dict entries ∧
      lookup floats entries (.str (ofString "email")) = none ∧
      lookup floats entries (.str (ofString "challenge_id")) = some (.str t) ∧
      (asString t).bind parse = some body.challengeId := by
  obtain ⟨values, hvalues, hbody⟩ := Option.bind_eq_some_iff.1 h
  obtain ⟨entries, rfl, hfields, hno⟩ := modelFields_some hvalues
  split at hbody
  case h_2 => cases hbody
  case h_1 challengeId code password =>
    obtain ⟨text, hfield, hid⟩ := Option.bind_eq_some_iff.1 hbody
    obtain ⟨id, hparse, hcode⟩ := Option.bind_eq_some_iff.1 hid
    obtain ⟨_, -, hpassword⟩ := Option.bind_eq_some_iff.1 hcode
    obtain ⟨_, -, hpattern⟩ := Option.bind_eq_some_iff.1 hpassword
    obtain ⟨t, htext, ht⟩ := strField_some hfield
    split at hpattern
    case isFalse => cases hpattern
    case isTrue =>
      cases hpattern
      refine ⟨entries, t, rfl, hno "email" (by decide), htext ▸ first_field hfields, ?_⟩
      rw [ht]
      exact hparse

/-- A body with a password only. -/
theorem PasswordInput.validate_some {body : PasswordInput} (h : validate floats data = some body) :
    ∃ entries, data = .dict entries ∧
      lookup floats entries (.str (ofString "email")) = none ∧
      lookup floats entries (.str (ofString "challenge_id")) = none := by
  obtain ⟨values, hvalues, -⟩ := Option.bind_eq_some_iff.1 h
  obtain ⟨entries, rfl, -, hno⟩ := modelFields_some hvalues
  exact ⟨entries, rfl, hno "email" (by decide), hno "challenge_id" (by decide)⟩

end

end Ekumidayomi
