import Ekumidayomi.Outbox.Payloads
import Ekumidayomi.Lib.Json

/-!
# Events and the columns of their rows

The columns of `outbox/model.py` and what PostgreSQL lets into them: `INTEGER` holds 32 bits,
`VARCHAR(n)` at most `n` characters, and the text of `JSONB` neither U+0000 nor a surrogate that is
not in a pair. A row that `OutboxRepository.add` stages is `Storable` when all its columns are and
the checks of the table hold; `digits` is how many digits the interpreter lets `json.dumps` write
for an `int`. Which admitted events are storable is said by their version and by the parts of their
payload.
-/

namespace Ekumidayomi

open Unicode

/-! ## The domains of the columns -/

/-- `INTEGER`. -/
def IsInteger (i : Int) : Prop := -2147483648 ≤ i ∧ i ≤ 2147483647
deriving Decidable

/-- `VARCHAR(n)`. -/
def IsVarchar (n : Nat) (s : String) : Prop := s.length ≤ n ∧ ∀ c ∈ s.toList, c.toNat ≠ 0

/-- A string in `JSONB`. -/
def isJsonText : Text → Bool
  | [] => true
  | [c] => c.val ≠ 0 && !isSurrogate c.val
  | c :: d :: t =>
    if isHighSurrogate c.val then isLowSurrogate d.val && isJsonText t
    else c.val ≠ 0 && !isSurrogate c.val && isJsonText (d :: t)

mutual

/-- A value that `JSONB` holds, once `json.dumps` has written it. -/
def EventValue.IsJsonb (digits : Nat) : EventValue → Prop
  | .none | .bool _ => True
  | .int i => Python.digitCount i ≤ digits
  | .float x => x.isFinite = true
  | .str s => isJsonText s = true
  | .list items | .tuple items => IsJsonbItems digits items
  | .mapping items => IsJsonbMapping digits items
  | .other => False

def IsJsonbItems (digits : Nat) : List EventValue → Prop
  | [] => True
  | item :: items => item.IsJsonb digits ∧ IsJsonbItems digits items

def IsJsonbMapping (digits : Nat) : List (String × EventValue) → Prop
  | [] => True
  | (key, item) :: items =>
    isJsonText (ofString key) = true ∧ item.IsJsonb digits ∧ IsJsonbMapping digits items

end

/-- The text of a status. -/
def OutboxStatus.value : OutboxStatus → String
  | pending => "pending"
  | processing => "processing"
  | published => "published"
  | failed => "failed"
  | dead => "dead"
  | skipped => "skipped"
  | uncertain => "uncertain"
  | blocked => "blocked"

/-- A row within the domains of its columns and the checks of the table. -/
structure OutboxMessage.Storable (digits : Nat) (row : OutboxMessage) : Prop where
  idempotencyKey : IsVarchar 255 row.idempotencyKey
  eventType : IsVarchar 100 row.eventType
  aggregateType : IsVarchar 100 row.aggregateType
  aggregateVersion : IsInteger row.aggregateVersion
  payload : IsJsonbMapping digits row.payload
  status : IsVarchar 20 row.status.value
  attempts : IsInteger row.attempts
  lastErrorCode : ∀ code ∈ row.lastErrorCode, IsVarchar 100 code
  deliveryFingerprint : ∀ fingerprint ∈ row.deliveryFingerprint, IsVarchar 64 fingerprint
  deliveryReceipts : ∀ receipt ∈ row.deliveryReceipts,
    isJsonText (ofString receipt.1) = true ∧ isJsonText (ofString receipt.2) = true
  retryBudget : IsInteger row.retryBudget
  aggregate_version_positive : 0 < row.aggregateVersion
  retry_budget_positive : 0 < row.retryBudget
  lease_pair_valid : row.claimToken.isSome = row.leaseExpiresAt.isSome

/-! ## Texts without U+0000 -/

/-- A string has no surrogates. -/
theorem isJsonText_ofString {s : String} (h : ∀ c ∈ s.toList, c.toNat ≠ 0) :
    isJsonText (ofString s) = true := by
  have hplain : ∀ c : Char, isHighSurrogate (ofChar c).val = false := by
    intro c
    have hsurrogate := isSurrogate_ofChar c
    simp only [isSurrogate, isHighSurrogate, Bool.and_eq_false_iff, decide_eq_false_iff_not] at *
    omega
  rw [ofString]
  generalize s.toList = chars at h
  induction chars with
  | nil => rfl
  | cons c chars ih =>
    have hc := h c List.mem_cons_self
    have hrest := ih fun d hd => h d (List.mem_cons_of_mem _ hd)
    cases chars with
    | nil =>
      rw [List.map_cons, List.map_nil, isJsonText, isSurrogate_ofChar, ofChar_val]
      simpa using hc
    | cons d chars =>
      rw [List.map_cons] at hrest
      rw [List.map_cons, List.map_cons, isJsonText, hplain, hrest, isSurrogate_ofChar, ofChar_val]
      simp [hc]

theorem mem_intercalate {α : Type} {c : α} {separator : List α} :
    ∀ {parts : List (List α)}, c ∈ separator.intercalate parts →
      c ∈ separator ∨ ∃ part ∈ parts, c ∈ part
  | [], h => by cases h
  | [part], h => by
    rw [List.intercalate_singleton] at h
    exact .inr ⟨part, List.mem_singleton_self _, h⟩
  | part :: next :: parts, h => by
    rw [List.intercalate_cons_cons, List.mem_append, List.mem_append] at h
    rcases h with (h | h) | h
    · exact .inr ⟨part, List.mem_cons_self, h⟩
    · exact .inl h
    · rcases mem_intercalate h with h | ⟨part', hmem, h⟩
      · exact .inl h
      · exact .inr ⟨part', List.mem_cons_of_mem _ hmem, h⟩

/-- The characters of a name in snake case. -/
theorem isSnakeCase_chars {s : String} (h : isSnakeCase s = true) :
    ∀ c ∈ s.toList, c = '_' ∨ isLower c = true ∨ isDigit c = true := by
  intro c hc
  have hjoin : ['_'].intercalate (s.toList.splitOn '_') = s.toList := List.intercalate_splitOn _
  rw [← hjoin] at hc
  rcases mem_intercalate hc with hc | ⟨part, hpart, hc⟩
  · exact .inl (List.mem_singleton.1 hc)
  · refine .inr ?_
    unfold isSnakeCase at h
    split at h
    case h_1 heq =>
      rw [heq] at hpart
      cases hpart
    case h_2 first rest heq =>
      rw [heq] at hpart
      simp only [Bool.and_eq_true, List.all_eq_true, Bool.or_eq_true] at h
      exact (h.2 part hpart).2 c hc

theorem toNat_ne_zero {c : Char} (h : c = '_' ∨ isLower c = true ∨ isDigit c = true) :
    c.toNat ≠ 0 := by
  rcases h with rfl | h | h
  · decide
  all_goals
    rintro hzero
    obtain rfl : c = Char.ofNat 0 := by rw [← hzero, Char.ofNat_toNat]
    revert h
    decide

/-- A name in snake case, if it is not too long. -/
theorem IsVarchar.snakeCase {n : Nat} {s : String} (hlength : s.length ≤ n)
    (h : isSnakeCase s = true) : IsVarchar n s :=
  ⟨hlength, fun c hc => toNat_ne_zero (isSnakeCase_chars h c hc)⟩

theorem IsVarchar.of_validateType {name value : String} (h : validateType name value = .ok ()) :
    IsVarchar 100 value := by
  unfold validateType at h
  split at h
  case isTrue => cases h
  case isFalse hvalid =>
    simp only [Bool.or_eq_true, decide_eq_true_eq, not_or, Nat.not_lt, Bool.not_eq_true',
      Bool.not_eq_false] at hvalid
    exact .snakeCase hvalid.1 hvalid.2

theorem IsVarchar.of_isIdempotencyKey {s : String} (h : isIdempotencyKey s = true) :
    IsVarchar 255 s := by
  have halnum : ∀ {c : Char}, (isLower c || ('A' ≤ c && c ≤ 'Z') || isDigit c) = true →
      c.toNat ≠ 0 := by
    rintro c hc hzero
    obtain rfl : c = Char.ofNat 0 := by rw [← hzero, Char.ofNat_toNat]
    revert hc
    decide
  unfold isIdempotencyKey at h
  dsimp only at h
  split at h
  case h_1 => cases h
  case h_2 first rest heq =>
    simp only [Bool.and_eq_true, decide_eq_true_eq, List.all_eq_true] at h
    obtain ⟨⟨hfirst, hlength⟩, hrest⟩ := h
    refine ⟨?_, fun c hc => ?_⟩
    · rw [← String.length_toList, heq, List.length_cons]
      omega
    · rw [heq] at hc
      rcases List.mem_cons.1 hc with rfl | hc
      · exact halnum hfirst
      · rcases Bool.or_eq_true_iff.1 (hrest c hc) with hc | hc
        · exact halnum hc
        · have hmem := List.contains_iff_mem.1 hc
          simp only [List.mem_cons, List.not_mem_nil, or_false] at hmem
          rcases hmem with rfl | rfl | rfl | rfl <;> decide

theorem OutboxStatus.isVarchar_value (status : OutboxStatus) : IsVarchar 20 status.value := by
  cases status <;> exact ⟨by decide, by simp [OutboxStatus.value]⟩

/-! ## Payloads -/

/-- Nothing in a value keeps it out of `JSONB`: a string has no U+0000 and only pairs of surrogates,
and the digits of an `int` are not too many. -/
def EventValue.Writable (digits : Nat) : EventValue → Prop
  | .str s => isJsonText s = true
  | .int i => Python.digitCount i ≤ digits
  | _ => True

/-- What is asked of the parts of a payload. -/
def Part.Writable (digits : Nat) : Part → Prop
  | .key _ => True
  | .value _ v => v.Writable digits

instance (digits : Nat) (part : Part) : Decidable (part.Writable digits) :=
  match part with
  | .value _ (.str s) => inferInstanceAs (Decidable (isJsonText s = true))
  | .value _ (.int i) => inferInstanceAs (Decidable (Python.digitCount i ≤ digits))
  | .key _ | .value _ .none | .value _ (.bool _) | .value _ (.float _) | .value _ (.list _)
  | .value _ (.tuple _) | .value _ (.mapping _) | .value _ .other => .isTrue trivial

theorem Part.Admissible.isJsonText_key {name : String} (h : (Part.key name).Admissible) :
    isJsonText (ofString name) = true :=
  isJsonText_ofString fun c hc => toNat_ne_zero (isSnakeCase_chars h.2.1 c hc)

mutual

/-- An admitted value is held by `JSONB` exactly when all its parts are. -/
theorem isJsonb_read (digits depth : Nat) : ∀ v : EventValue,
    (∀ part ∈ v.parts depth, part.Admissible) →
    ((v.read .list).IsJsonb digits ↔ ∀ part ∈ v.parts depth, part.Writable digits)
  | .none, _ | .bool _, _ | .int _, _ | .str _, _ => by
    simp [EventValue.read, EventValue.IsJsonb, EventValue.parts, Part.Writable, EventValue.Writable]
  | .float x, h => by
    have hfinite : x.isFinite = true := (h _ (List.mem_singleton_self _)).2
    simp [EventValue.read, EventValue.IsJsonb, EventValue.parts, Part.Writable, EventValue.Writable,
      hfinite]
  | .other, h => ((h _ (List.mem_singleton_self _)).2).elim
  | .list items, h | .tuple items, h => by
    rw [EventValue.parts, List.forall_mem_cons] at h ⊢
    rw [EventValue.read, EventValue.IsJsonb, isJsonbItems_read digits (depth + 1) items h.2]
    exact (and_iff_right trivial).symm
  | .mapping items, h => by
    rw [EventValue.parts, List.forall_mem_cons] at h ⊢
    rw [EventValue.read, EventValue.IsJsonb, isJsonbMapping_read digits (depth + 1) items h.2]
    exact (and_iff_right trivial).symm

theorem isJsonbItems_read (digits depth : Nat) : ∀ items : List EventValue,
    (∀ part ∈ itemParts depth items, part.Admissible) →
    (IsJsonbItems digits (readItems .list items) ↔
      ∀ part ∈ itemParts depth items, part.Writable digits)
  | [], _ => iff_of_true trivial nofun
  | item :: items, h => by
    rw [itemParts, List.forall_mem_append] at h ⊢
    rw [readItems, IsJsonbItems, isJsonb_read digits depth item h.1,
      isJsonbItems_read digits depth items h.2]

theorem isJsonbMapping_read (digits depth : Nat) : ∀ items : List (String × EventValue),
    (∀ part ∈ mappingParts depth items, part.Admissible) →
    (IsJsonbMapping digits (readMapping .list items) ↔
      ∀ part ∈ mappingParts depth items, part.Writable digits)
  | [], _ => iff_of_true trivial nofun
  | (key, item) :: items, h => by
    rw [mappingParts, List.cons_append, List.forall_mem_cons, List.forall_mem_append] at h ⊢
    obtain ⟨hkey, hitem, hitems⟩ := h
    rw [readMapping, IsJsonbMapping, isJsonb_read digits depth item hitem,
      isJsonbMapping_read digits depth items hitems]
    exact ⟨fun h => ⟨trivial, h.2⟩, fun h => ⟨hkey.isJsonText_key, h.2⟩⟩

end

/-! ## Staged rows -/

section
variable {eventId aggregateId : UUID} {eventType aggregateType : String} {aggregateVersion : Int}
  {occurredAt : Time} {payload : List (String × EventValue)} {event : DomainEvent}
  {db db' : Outbox} {key : Option String} {availableAt : Option Time} {id : UUID}

/-- The row of an admitted event lies within the columns of its table exactly when the version is
one of 32 bits and every part of the payload can be written. -/
theorem event_storable_iff (digits : Nat)
    (hevent : DomainEvent.create eventId eventType aggregateType aggregateId aggregateVersion
      occurredAt payload = .ok event)
    (hadd : OutboxRepository.add db event key availableAt id = .ok db') :
    ∃ row, db'.messages = db.messages ++ [row] ∧
      (row.Storable digits ↔
        aggregateVersion ≤ 2147483647 ∧ ∀ part ∈ mappingParts 1 payload, part.Writable digits) := by
  obtain ⟨henvelope, hadmissible, rfl⟩ := DomainEvent.create_ok_iff.1 hevent
  have hjsonb := isJsonbMapping_read digits 1 payload hadmissible.parts
  have hversion := henvelope.version
  have hattempts : IsInteger ((0 : Nat) : Int) := by decide
  have hbudget : IsInteger ((5 : Nat) : Int) := by decide
  unfold OutboxRepository.add at hadd
  dsimp only at hadd
  split at hadd
  case isTrue => cases hadd
  case isFalse hkey =>
    split at hadd
    case isTrue => cases hadd
    case isFalse =>
      cases hadd
      refine ⟨_, rfl, fun h => ⟨h.aggregateVersion.2, ?_⟩, ?_⟩
      · have hpayload := h.payload
        rw [DomainEvent.payloadDict, thawMapping_read] at hpayload
        exact hjsonb.1 hpayload
      · rintro ⟨hle, hparts⟩
        exact {
          idempotencyKey := .of_isIdempotencyKey (by simpa using hkey)
          eventType := .of_validateType henvelope.eventType
          aggregateType := .of_validateType henvelope.aggregateType
          aggregateVersion := ⟨by dsimp only; omega, hle⟩
          payload := by
            rw [DomainEvent.payloadDict, thawMapping_read]
            exact hjsonb.2 hparts
          status := OutboxStatus.isVarchar_value _
          attempts := hattempts
          lastErrorCode := by simp
          deliveryFingerprint := by simp
          deliveryReceipts := by simp
          retryBudget := hbudget
          aggregate_version_positive := by dsimp only; omega
          retry_budget_positive := Nat.succ_pos 4
          lease_pair_valid := rfl }

/-- The row of a requested challenge is stored. -/
theorem event_storable_iff_requested : ∃ db' row,
    OutboxRepository.add {} requested none none 9 = .ok db' ∧ db'.messages = [row] ∧
      row.Storable 4300 := by
  have hevent : DomainEvent.create 1 "email_challenge_requested" "email_challenge" 2 1 0
      [("sizes", .list [.int 1]), ("challenge_id", .str (ofString "2"))] = .ok requested :=
    DomainEvent.create_ok_iff.2 ⟨⟨by decide, by decide, by decide⟩, ⟨by decide, by decide⟩, rfl⟩
  have hadd : ∃ db', OutboxRepository.add {} requested none none 9 = .ok db' := ⟨_, rfl⟩
  obtain ⟨db', hadd⟩ := hadd
  obtain ⟨row, hrow, hiff⟩ := event_storable_iff 4300 hevent hadd
  exact ⟨db', row, hadd, hrow, hiff.2 ⟨by decide, by decide⟩⟩

/-- A note that is U+0000. -/
def noted : DomainEvent :=
  { eventId := 1, eventType := "order_noted", aggregateType := "order", aggregateId := 2
    aggregateVersion := 1, occurredAt := 0, payload := [("note", .str [0])] }

/-- An event with U+0000 in its payload is admitted and staged, and `JSONB` does not hold it. -/
theorem noted_not_storable : ∃ db' row,
    DomainEvent.create 1 "order_noted" "order" 2 1 0 [("note", .str [0])] = .ok noted ∧
      OutboxRepository.add {} noted none none 9 = .ok db' ∧ db'.messages = [row] ∧
      ¬ row.Storable 4300 := by
  refine ⟨_, _, DomainEvent.create_ok_iff.2
    ⟨⟨by decide, by decide, by decide⟩, ⟨by decide, by decide⟩, rfl⟩, rfl, rfl, fun h => ?_⟩
  have hnote : isJsonText [0] = true := h.payload.2.1
  exact absurd hnote (by decide)

end

end Ekumidayomi
