import Ekumidayomi.Audit.Query
import Ekumidayomi.Auth.Initiation

/-!
# Request ids

`api/middleware.py`. The request id that `dispatch` stores in `request.state` is the correlation id
of what the request records. A trusted header may begin with a character that the recorder does not
take at the beginning: the patterns agree on all others (`request_id_recorded_iff`).
-/

namespace Ekumidayomi.Api

open Transact

/-- The characters `[A-Za-z0-9._-]`. -/
def isRequestIdChar (c : Char) : Bool := isAlnum c || c == '.' || c == '_' || c == '-'

/-- `_REQUEST_ID_PATTERN`, which is `[A-Za-z0-9._-]{1,128}`, matched in full. -/
def isRequestId (s : String) : Bool :=
  1 ≤ s.toList.length && s.toList.length ≤ 128 && s.toList.all isRequestIdChar

/-- `_request_id`, given the header and the value of `uuid4`. -/
def requestId (trustIncomingRequestIds : Bool) (supplied : Option String) (fresh : UUID) : String :=
  match supplied with
  | some supplied =>
    if trustIncomingRequestIds && isRequestId supplied then supplied else uuidStr fresh
  | none => uuidStr fresh

/-- The text begins with one of the characters `[A-Za-z0-9]`. -/
def startsAlnum (s : String) : Bool := s.toList.head?.any isAlnum

/-- A request id is a correlation id exactly when it begins with a letter or a digit. -/
theorem validCorrelationId_of_isRequestId {s : String} (h : isRequestId s = true) :
    validCorrelationId s = startsAlnum s := by
  simp only [isRequestId, Bool.and_eq_true, decide_eq_true_eq] at h
  obtain ⟨⟨hpos, hmax⟩, hall⟩ := h
  rw [validCorrelationId, startsAlnum]
  cases htext : s.toList with
  | nil => rfl
  | cons first rest =>
    rw [htext, List.length_cons] at hmax
    rw [htext, List.all_cons, Bool.and_eq_true] at hall
    have hrest : (rest.all fun c => isAlnum c || c == '.' || c == '_' || c == ':' || c == '-') =
        true := by
      refine List.all_eq_true.2 fun c hc => ?_
      have hchar := List.all_eq_true.1 hall.2 c hc
      simp only [isRequestIdChar, Bool.or_eq_true] at hchar ⊢
      tauto
    have hlength : decide (rest.length ≤ 127) = true := decide_eq_true (by omega)
    dsimp only
    rw [hrest, hlength, Bool.and_true, Bool.and_true]
    rfl

section
variable {trustIncomingRequestIds : Bool} {supplied : Option String} {fresh : UUID}

/-- What the middleware stores is a correlation id unless it is a trusted header of the other
kind. -/
theorem validCorrelationId_requestId :
    validCorrelationId (requestId trustIncomingRequestIds supplied fresh) = true ↔
      (trustIncomingRequestIds = true → ∀ header ∈ supplied, isRequestId header = true →
        startsAlnum header = true) := by
  cases supplied with
  | none => simp [requestId, validCorrelationId_uuidStr]
  | some header =>
    rw [requestId]
    by_cases htaken : (trustIncomingRequestIds && isRequestId header) = true
    · rw [if_pos htaken]
      rw [Bool.and_eq_true] at htaken
      rw [validCorrelationId_of_isRequestId htaken.2]
      simp [htaken]
    · rw [if_neg htaken]
      rw [Bool.and_eq_true] at htaken
      simp only [validCorrelationId_uuidStr, Option.mem_some_iff, true_iff]
      rintro htrust _ rfl hid
      exact absurd ⟨htrust, hid⟩ htaken

end

/-- The recorder takes the request id, whatever it records under valid names, exactly when no header
is trusted that is a request id and begins with one of the characters `[._-]`. -/
theorem request_id_recorded_iff (trustIncomingRequestIds : Bool) (supplied : Option String)
    (fresh : UUID) (sv : Services) (actor : AuditActor) (action targetType : Audit.AuditName)
    (targetId : UUID) (outcome : AuditOutcome) (metadata : List (String × AuditValue))
    (o : Oracle (schema sv)) (h : Here (schema sv)) :
    (∃ h', (record sv actor action.val targetType.val targetId outcome metadata
      (requestId trustIncomingRequestIds supplied fresh)).alone o h = (.ok (), h')) ↔
      (trustIncomingRequestIds = true → ∀ header ∈ supplied, isRequestId header = true →
        startsAlnum header = true) := by
  rw [← validCorrelationId_requestId]
  constructor
  · rintro ⟨h', hrecord⟩
    by_contra hinvalid
    rw [alone_record_refused (Bool.eq_false_iff.2 hinvalid)] at hrecord
    cases hrecord
  · intro hvalid
    exact ⟨_, alone_record hvalid⟩

/-- The recorder refuses the trusted header `-1`. -/
theorem hyphenated_header_refused :
    ¬ ∀ (trustIncomingRequestIds : Bool) (supplied : Option String) (fresh : UUID) (sv : Services)
      (actor : AuditActor) (action targetType : Audit.AuditName) (targetId : UUID)
      (outcome : AuditOutcome) (metadata : List (String × AuditValue)) (o : Oracle (schema sv))
      (h : Here (schema sv)),
      ∃ h', (record sv actor action.val targetType.val targetId outcome metadata
        (requestId trustIncomingRequestIds supplied fresh)).alone o h = (.ok (), h') := by
  intro hrecorded
  obtain ⟨h', hok⟩ := hrecorded true (some "-1") 0 AuthFixture.services { kind := .anonymous }
    ⟨"auth.challenge_issued", by decide⟩ ⟨"email_challenge", by decide⟩ 3 .succeeded []
    ⟨fun _ => 0, fun _ => 0, fun _ => ""⟩ { db := {} }
  have hinvalid : validCorrelationId (requestId true (some "-1") 0) = false := by decide
  rw [alone_record_refused hinvalid] at hok
  cases hok

end Ekumidayomi.Api
