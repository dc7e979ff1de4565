import Ekumidayomi.Outbox.Repository

/-!
# Payloads of events, admitted and stored

`_freeze_value` walks a payload with one budget and two depth conventions. What it admits is said
here without the walk: `mappingParts` lists the keys and the values of a payload, each value with
its depth, and a payload is `Admissible` when every part is and there are at most 500 values. The
freezing of a payload succeeds exactly then (`freezeMapping_ok_iff`) and only reads lists as tuples,
so that a stored event, thawed to lists, is frozen to what it was.
-/

namespace Ekumidayomi

/-! ## The parts of a payload -/

/-- A key of a mapping, or a value at its depth. -/
inductive Part
  | key (name : String)
  | value (depth : Nat) (v : EventValue)

def Part.isValue : Part → Bool
  | .key _ => false
  | .value _ _ => true

mutual

/-- The parts of a value: itself and what is in it. -/
def EventValue.parts (depth : Nat) : EventValue → List Part
  | .list items => .value depth (.list items) :: itemParts (depth + 1) items
  | .tuple items => .value depth (.tuple items) :: itemParts (depth + 1) items
  | .mapping items => .value depth (.mapping items) :: mappingParts (depth + 1) items
  | v => [.value depth v]

def itemParts (depth : Nat) : List EventValue → List Part
  | [] => []
  | item :: items => item.parts depth ++ itemParts depth items

def mappingParts (depth : Nat) : List (String × EventValue) → List Part
  | [] => []
  | (key, item) :: items => .key key :: item.parts depth ++ mappingParts depth items

end

/-- `math.isfinite`. -/
def PyFloat.isFinite : PyFloat → Bool
  | .finite _ _ => true
  | _ => false

/-- A string is not too long, a number is finite, and nothing is of another type. -/
def EventValue.Plain : EventValue → Prop
  | .str s => s.length ≤ maxPayloadStringLength
  | .float x => x.isFinite = true
  | .other => False
  | _ => True

/-- What is asked of a part of a payload. -/
def Part.Admissible : Part → Prop
  | .key name => name.length ≤ 100 ∧ isSnakeCase name = true ∧
      ∀ segment ∈ name.toList.splitOn '_', String.ofList segment ∉ sensitiveKeyParts
  | .value depth v => depth ≤ maxPayloadDepth ∧ v.Plain

instance (v : EventValue) : Decidable v.Plain :=
  match v with
  | .str s => inferInstanceAs (Decidable (s.length ≤ maxPayloadStringLength))
  | .float x => inferInstanceAs (Decidable (x.isFinite = true))
  | .other => .isFalse id
  | .none | .bool _ | .int _ | .list _ | .tuple _ | .mapping _ => .isTrue trivial

instance (part : Part) : Decidable part.Admissible :=
  match part with
  | .key name => inferInstanceAs (Decidable (name.length ≤ 100 ∧ isSnakeCase name = true ∧
      ∀ segment ∈ name.toList.splitOn '_', String.ofList segment ∉ sensitiveKeyParts))
  | .value depth v => inferInstanceAs (Decidable (depth ≤ maxPayloadDepth ∧ v.Plain))

/-- What is asked of a payload. -/
structure Admissible (payload : List (String × EventValue)) : Prop where
  parts : ∀ part ∈ mappingParts 1 payload, part.Admissible
  count : (mappingParts 1 payload).countP (·.isValue) ≤ maxPayloadValues

mutual

/-- The value with every list and tuple read as `sequence` of its items. -/
def EventValue.read (sequence : List EventValue → EventValue) : EventValue → EventValue
  | .list items => sequence (readItems sequence items)
  | .tuple items => sequence (readItems sequence items)
  | .mapping items => .mapping (readMapping sequence items)
  | v => v

def readItems (sequence : List EventValue → EventValue) : List EventValue → List EventValue
  | [] => []
  | item :: items => item.read sequence :: readItems sequence items

def readMapping (sequence : List EventValue → EventValue) :
    List (String × EventValue) → List (String × EventValue)
  | [] => []
  | (key, item) :: items => (key, item.read sequence) :: readMapping sequence items

end

/-! ## What freezing admits -/

theorem chargeValue_ok_iff {depth budget rest : Nat} :
    chargeValue depth budget = .ok rest ↔ depth ≤ maxPayloadDepth ∧ budget = rest + 1 := by
  unfold chargeValue
  split
  case isTrue h => simp [Nat.not_le.2 h]
  case isFalse h =>
    cases budget with
    | zero => simp
    | succ budget => simp [Nat.not_lt.1 h]

theorem validatePayloadKey_ok_iff {key k : String} :
    validatePayloadKey key = .ok k ↔ (Part.key key).Admissible ∧ k = key := by
  unfold validatePayloadKey
  rw [Part.Admissible]
  split
  case isTrue h =>
    simp only [reduceCtorEq, false_iff, not_and]
    rintro ⟨hlen, hsnake, -⟩
    simp [hsnake, Nat.not_lt.2 hlen] at h
  case isFalse h =>
    simp only [Bool.or_eq_true, decide_eq_true_eq, Bool.not_eq_eq_eq_not, Bool.not_true, not_or,
      Nat.not_lt, Bool.not_eq_false] at h
    split
    case isTrue hs =>
      obtain ⟨segment, hmem, hsensitive⟩ := List.any_eq_true.1 hs
      simp only [reduceCtorEq, false_iff, not_and]
      rintro ⟨-, -, hall⟩
      exact absurd (List.contains_iff_mem.1 hsensitive) (hall segment hmem)
    case isFalse hs =>
      have hall : ∀ segment ∈ key.toList.splitOn '_',
        String.ofList segment ∉ sensitiveKeyParts := by
        intro segment hmem hsensitive
        exact hs (List.any_eq_true.2 ⟨segment, hmem, List.contains_iff_mem.2 hsensitive⟩)
      rw [Except.ok.injEq]
      exact ⟨fun hk => ⟨⟨h.1, h.2, hall⟩, hk.symm⟩, fun hk => hk.2.symm⟩

/-- A value without items takes one of the budget. -/
theorem charge_leaf_iff {v w : EventValue} {depth budget rest : Nat} :
    (chargeValue depth budget >>= fun r => .ok (v, r)) = .ok (w, rest) ↔
      depth ≤ maxPayloadDepth ∧ budget = rest + 1 ∧ w = v := by
  rw [bind_ok_iff]
  constructor
  · rintro ⟨r, hcharge, heq⟩
    cases heq
    obtain ⟨hdepth, hbudget⟩ := chargeValue_ok_iff.1 hcharge
    exact ⟨hdepth, hbudget, rfl⟩
  · rintro ⟨hdepth, hbudget, rfl⟩
    exact ⟨rest, chargeValue_ok_iff.2 ⟨hdepth, hbudget⟩, rfl⟩

/-- A value with items takes one of the budget, and its items the rest. -/
theorem charge_node_iff {α : Type} {freeze : Nat → Except EventError (α × Nat)}
    {make : α → EventValue} {w : EventValue} {depth budget rest : Nat} :
    (chargeValue depth budget >>= fun r => freeze r >>= fun x => .ok (make x.1, x.2)) =
      .ok (w, rest) ↔ depth ≤ maxPayloadDepth ∧ ∃ r frozen, budget = r + 1 ∧
        freeze r = .ok (frozen, rest) ∧ w = make frozen := by
  simp only [bind_ok_iff, chargeValue_ok_iff]
  constructor
  · rintro ⟨r, ⟨hdepth, hbudget⟩, ⟨frozen, rest'⟩, hfreeze, heq⟩
    cases heq
    exact ⟨hdepth, r, frozen, hbudget, hfreeze, rfl⟩
  · rintro ⟨hdepth, r, frozen, hbudget, hfreeze, rfl⟩
    exact ⟨r, ⟨hdepth, hbudget⟩, (frozen, rest), hfreeze, rfl⟩

section
variable {v w : EventValue} {depth budget rest : Nat}

/-- A value without items is its only part. -/
theorem leaf_parts_iff (hparts : v.parts depth = [.value depth v]) (hread : v.read .tuple = v) :
    ((depth ≤ maxPayloadDepth ∧ budget = rest + 1 ∧ w = v) ∧ v.Plain) ↔
      (∀ part ∈ v.parts depth, part.Admissible) ∧
      budget = rest + (v.parts depth).countP (·.isValue) ∧ w = v.read .tuple := by
  rw [hparts, hread, List.countP_cons_of_pos rfl, List.countP_nil, List.forall_mem_singleton,
    Part.Admissible, Nat.zero_add]
  tauto

/-- A value with items is a part, and its items have the others. -/
theorem node_parts_iff {parts : List Part} {α : Type} {frozen : α} (make : α → EventValue)
    (hparts : v.parts depth = .value depth v :: parts) (hread : v.read .tuple = make frozen)
    (hplain : v.Plain) :
    (depth ≤ maxPayloadDepth ∧ ∃ r x, budget = r + 1 ∧ ((∀ part ∈ parts, part.Admissible) ∧
      r = rest + parts.countP (·.isValue) ∧ x = frozen) ∧ w = make x) ↔
      (∀ part ∈ v.parts depth, part.Admissible) ∧
      budget = rest + (v.parts depth).countP (·.isValue) ∧ w = v.read .tuple := by
  rw [hparts, hread, List.countP_cons_of_pos rfl, List.forall_mem_cons, Part.Admissible]
  constructor
  · rintro ⟨hdepth, r, x, hbudget, ⟨hall, hr, rfl⟩, rfl⟩
    exact ⟨⟨⟨hdepth, hplain⟩, hall⟩, by omega, rfl⟩
  · rintro ⟨⟨⟨hdepth, -⟩, hall⟩, hbudget, rfl⟩
    exact ⟨hdepth, _, _, by omega, ⟨hall, rfl, rfl⟩, rfl⟩

end

mutual

/-- A value is frozen when its parts are admissible and within the budget. -/
theorem freezeValue_ok_iff (v w : EventValue) (depth budget rest : Nat) :
    freezeValue depth budget v = .ok (w, rest) ↔ (∀ part ∈ v.parts depth, part.Admissible) ∧
      budget = rest + (v.parts depth).countP (·.isValue) ∧ w = v.read .tuple := by
  cases v with
  | none | bool | int =>
    rw [freezeValue]
    refine Iff.trans ?_ (leaf_parts_iff rfl rfl)
    exact charge_leaf_iff.trans ⟨fun h => ⟨h, trivial⟩, fun h => h.1⟩
  | float x =>
    rw [freezeValue]
    refine Iff.trans ?_ (leaf_parts_iff rfl rfl)
    cases x with
    | finite m e => exact charge_leaf_iff.trans ⟨fun h => ⟨h, rfl⟩, fun h => h.1⟩
    | infinite | nan =>
      simp [bind_ok_iff, EventValue.Plain, PyFloat.isFinite, throw, throwThe, MonadExceptOf.throw]
  | str text =>
    rw [freezeValue]
    refine Iff.trans ?_ (leaf_parts_iff rfl rfl)
    by_cases hlen : text.length ≤ maxPayloadStringLength
    · simp only [gt_iff_lt, Nat.not_lt.2 hlen, if_false]
      exact charge_leaf_iff.trans ⟨fun h => ⟨h, hlen⟩, fun h => h.1⟩
    · simp [bind_ok_iff, EventValue.Plain, Nat.not_le.1 hlen, hlen, throw, throwThe,
        MonadExceptOf.throw]
  | list items | tuple items =>
    rw [freezeValue]
    refine Iff.trans (charge_node_iff.trans ?_) (node_parts_iff .tuple rfl rfl trivial)
    simp only [freezeItems_ok_iff]
  | mapping items =>
    rw [freezeValue]
    refine Iff.trans (charge_node_iff.trans ?_) (node_parts_iff .mapping rfl rfl trivial)
    simp only [freezeMapping_ok_iff]
  | other =>
    rw [freezeValue]
    refine Iff.trans ?_ (leaf_parts_iff rfl rfl)
    simp [bind_ok_iff, EventValue.Plain, throw, throwThe, MonadExceptOf.throw]

theorem freezeItems_ok_iff (items frozen : List EventValue) (depth budget rest : Nat) :
    freezeItems depth budget items = .ok (frozen, rest) ↔
      (∀ part ∈ itemParts depth items, part.Admissible) ∧
      budget = rest + (itemParts depth items).countP (·.isValue) ∧
      frozen = readItems .tuple items := by
  cases items with
  | nil =>
    rw [freezeItems, itemParts, readItems]
    simp [pure, Except.pure, eq_comm, and_comm]
  | cons item items =>
    rw [freezeItems, itemParts, readItems, List.forall_mem_append, List.countP_append]
    constructor
    · intro h
      obtain ⟨⟨w, r⟩, hitem, h⟩ := bind_ok_iff.1 h
      obtain ⟨⟨ws, r'⟩, hitems, h⟩ := bind_ok_iff.1 h
      cases h
      obtain ⟨hall, hbudget, rfl⟩ := (freezeValue_ok_iff ..).1 hitem
      obtain ⟨hall', hbudget', rfl⟩ := (freezeItems_ok_iff ..).1 hitems
      exact ⟨⟨hall, hall'⟩, by omega, rfl⟩
    · rintro ⟨⟨hall, hall'⟩, hbudget, rfl⟩
      have hitem := (freezeValue_ok_iff item _ depth budget
        (rest + (itemParts depth items).countP (·.isValue))).2 ⟨hall, by omega, rfl⟩
      exact bind_ok_iff.2 ⟨_, hitem, bind_ok_iff.2
        ⟨_, (freezeItems_ok_iff items _ depth _ rest).2 ⟨hall', rfl, rfl⟩, rfl⟩⟩

theorem freezeMapping_ok_iff (items frozen : List (String × EventValue)) (depth budget rest : Nat) :
    freezeMapping depth budget items = .ok (frozen, rest) ↔
      (∀ part ∈ mappingParts depth items, part.Admissible) ∧
      budget = rest + (mappingParts depth items).countP (·.isValue) ∧
      frozen = readMapping .tuple items := by
  match items with
  | [] =>
    rw [freezeMapping, mappingParts, readMapping]
    simp [pure, Except.pure, eq_comm, and_comm]
  | (key, item) :: items =>
    rw [freezeMapping, mappingParts, readMapping, List.cons_append, List.forall_mem_cons,
      List.countP_cons_of_neg (by simp [Part.isValue]), List.forall_mem_append, List.countP_append]
    constructor
    · intro h
      obtain ⟨k, hkey, h⟩ := bind_ok_iff.1 h
      obtain ⟨⟨w, r⟩, hitem, h⟩ := bind_ok_iff.1 h
      obtain ⟨⟨ws, r'⟩, hitems, h⟩ := bind_ok_iff.1 h
      cases h
      obtain ⟨hkey, rfl⟩ := validatePayloadKey_ok_iff.1 hkey
      obtain ⟨hall, hbudget, rfl⟩ := (freezeValue_ok_iff ..).1 hitem
      obtain ⟨hall', hbudget', rfl⟩ := (freezeMapping_ok_iff ..).1 hitems
      exact ⟨⟨hkey, hall, hall'⟩, by omega, rfl⟩
    · rintro ⟨⟨hkey, hall, hall'⟩, hbudget, rfl⟩
      have hitem := (freezeValue_ok_iff item _ depth budget
        (rest + (mappingParts depth items).countP (·.isValue))).2 ⟨hall, by omega, rfl⟩
      exact bind_ok_iff.2 ⟨key, validatePayloadKey_ok_iff.2 ⟨hkey, rfl⟩, bind_ok_iff.2
        ⟨_, hitem, bind_ok_iff.2
          ⟨_, (freezeMapping_ok_iff items _ depth _ rest).2 ⟨hall', rfl, rfl⟩, rfl⟩⟩⟩

end

/-- A payload is frozen exactly when it is admissible. -/
theorem freezeMapping_payload {payload frozen : List (String × EventValue)} :
    (∃ rest, freezeMapping 1 maxPayloadValues payload = .ok (frozen, rest)) ↔
      Admissible payload ∧ frozen = readMapping .tuple payload := by
  simp only [freezeMapping_ok_iff]
  constructor
  · rintro ⟨rest, hall, hbudget, rfl⟩
    exact ⟨⟨hall, by omega⟩, rfl⟩
  · rintro ⟨hadmissible, rfl⟩
    have hcount := hadmissible.count
    exact ⟨_, hadmissible.parts, (Nat.sub_add_cancel hcount).symm, rfl⟩

/-! ## Lists and tuples -/

mutual

/-- A frozen value is thawed to lists. -/
theorem thawValue_read : ∀ v : EventValue, thawValue (v.read .tuple) = v.read .list
  | .none | .bool _ | .int _ | .float _ | .str _ | .other => rfl
  | .list items => by rw [EventValue.read, thawValue, thawItems_read, EventValue.read]
  | .tuple items => by rw [EventValue.read, thawValue, thawItems_read, EventValue.read]
  | .mapping items => by rw [EventValue.read, thawValue, thawMapping_read, EventValue.read]

theorem thawItems_read : ∀ items : List EventValue,
    thawItems (readItems .tuple items) = readItems .list items
  | [] => rfl
  | item :: items => by
    rw [readItems, thawItems, thawValue_read item, thawItems_read items, readItems]

theorem thawMapping_read : ∀ items : List (String × EventValue),
    thawMapping (readMapping .tuple items) = readMapping .list items
  | [] => rfl
  | (key, item) :: items => by
    rw [readMapping, thawMapping, thawValue_read item, thawMapping_read items, readMapping]

end

mutual

/-- Freezing does not tell lists and tuples apart. -/
theorem freezeValue_read (depth budget : Nat) : ∀ v : EventValue,
    freezeValue depth budget (v.read .list) = freezeValue depth budget v
  | .none | .bool _ | .int _ | .float _ | .str _ | .other => rfl
  | .list items => by simp only [EventValue.read, freezeValue, freezeItems_read]
  | .tuple items => by simp only [EventValue.read, freezeValue, freezeItems_read]
  | .mapping items => by simp only [EventValue.read, freezeValue, freezeMapping_read]

theorem freezeItems_read (depth budget : Nat) : ∀ items : List EventValue,
    freezeItems depth budget (readItems .list items) = freezeItems depth budget items
  | [] => rfl
  | item :: items => by
    simp only [readItems, freezeItems, freezeValue_read depth budget item,
      freezeItems_read depth _ items]

theorem freezeMapping_read (depth budget : Nat) : ∀ items : List (String × EventValue),
    freezeMapping depth budget (readMapping .list items) = freezeMapping depth budget items
  | [] => rfl
  | (key, item) :: items => by
    simp only [readMapping, freezeMapping, freezeValue_read depth budget item,
      freezeMapping_read depth _ items]

end

/-! ## The order of keys -/

mutual

/-- The values differ in the order of keys only. -/
inductive Reordered : EventValue → EventValue → Prop
  | refl (v : EventValue) : Reordered v v
  | list {items items' : List EventValue} : ReorderedItems items items' →
      Reordered (.list items) (.list items')
  | tuple {items items' : List EventValue} : ReorderedItems items items' →
      Reordered (.tuple items) (.tuple items')
  | mapping {items items' : List (String × EventValue)} : ReorderedMapping items items' →
      Reordered (.mapping items) (.mapping items')

inductive ReorderedItems : List EventValue → List EventValue → Prop
  | nil : ReorderedItems [] []
  | cons {v v' : EventValue} {items items' : List EventValue} : Reordered v v' →
      ReorderedItems items items' → ReorderedItems (v :: items) (v' :: items')

inductive ReorderedMapping : List (String × EventValue) → List (String × EventValue) → Prop
  | nil : ReorderedMapping [] []
  | cons {key : String} {v v' : EventValue} {items items' : List (String × EventValue)} :
      Reordered v v' → ReorderedMapping items items' →
      ReorderedMapping ((key, v) :: items) ((key, v') :: items')
  | swap {a b : String × EventValue} {items : List (String × EventValue)} :
      ReorderedMapping (a :: b :: items) (b :: a :: items)
  | trans {items items' items'' : List (String × EventValue)} : ReorderedMapping items items' →
      ReorderedMapping items' items'' → ReorderedMapping items items''

end

/-- As many values, and what is asked of one is asked of the other. -/
def PartsAgree (parts parts' : List Part) : Prop :=
  ((∀ part ∈ parts, part.Admissible) ↔ ∀ part ∈ parts', part.Admissible) ∧
    parts.countP (·.isValue) = parts'.countP (·.isValue)

theorem PartsAgree.append {a a' b b' : List Part} (h : PartsAgree a a') (h' : PartsAgree b b') :
    PartsAgree (a ++ b) (a' ++ b') := by
  rw [PartsAgree, List.forall_mem_append, List.forall_mem_append, h.1, h'.1, List.countP_append,
    List.countP_append, h.2, h'.2]
  exact ⟨Iff.rfl, rfl⟩

theorem PartsAgree.of_perm {a a' : List Part} (h : a.Perm a') : PartsAgree a a' :=
  ⟨⟨fun hall part hmem => hall part (h.mem_iff.2 hmem),
    fun hall part hmem => hall part (h.mem_iff.1 hmem)⟩, h.countP_eq _⟩

/-- What is asked of a value with items is asked of its depth. -/
theorem PartsAgree.node {a a' : List Part} {depth : Nat} {v v' : EventValue} (hv : v.Plain)
    (hv' : v'.Plain) (h : PartsAgree a a') :
    PartsAgree (.value depth v :: a) (.value depth v' :: a') := by
  rw [PartsAgree, List.forall_mem_cons, List.forall_mem_cons, h.1, List.countP_cons_of_pos rfl,
    List.countP_cons_of_pos rfl, h.2]
  exact ⟨and_congr_left fun _ => ⟨fun hd => ⟨hd.1, hv'⟩, fun hd => ⟨hd.1, hv⟩⟩, rfl⟩

theorem PartsAgree.trans {a b c : List Part} (h : PartsAgree a b) (h' : PartsAgree b c) :
    PartsAgree a c :=
  ⟨h.1.trans h'.1, h.2.trans h'.2⟩

mutual

theorem Reordered.parts (depth : Nat) : ∀ {v v' : EventValue}, Reordered v v' →
    PartsAgree (v.parts depth) (v'.parts depth)
  | _, _, .refl _ => .of_perm (.refl _)
  | _, _, .list h => (h.parts (depth + 1)).node trivial trivial
  | _, _, .tuple h => (h.parts (depth + 1)).node trivial trivial
  | _, _, .mapping h => (h.parts (depth + 1)).node trivial trivial

theorem ReorderedItems.parts (depth : Nat) : ∀ {items items' : List EventValue},
    ReorderedItems items items' → PartsAgree (itemParts depth items) (itemParts depth items')
  | _, _, .nil => .of_perm (.refl _)
  | _, _, .cons h hs => (h.parts depth).append (hs.parts depth)

theorem ReorderedMapping.parts (depth : Nat) : ∀ {items items' : List (String × EventValue)},
    ReorderedMapping items items' → PartsAgree (mappingParts depth items)
      (mappingParts depth items')
  | _, _, .nil => .of_perm (.refl _)
  | _, _, .cons h hs =>
    ((PartsAgree.of_perm (.refl [_])).append (h.parts depth)).append (hs.parts depth)
  | _, _, .swap => by
    simp only [mappingParts, ← List.append_assoc]
    exact .of_perm (.append_right _ List.perm_append_comm)
  | _, _, .trans h h' => (h.parts depth).trans (h'.parts depth)

end

theorem ReorderedMapping.admissible {payload payload' : List (String × EventValue)}
    (h : ReorderedMapping payload payload') : Admissible payload ↔ Admissible payload' := by
  obtain ⟨hparts, hcount⟩ := h.parts 1
  exact ⟨fun ha => ⟨hparts.1 ha.parts, hcount ▸ ha.count⟩,
    fun ha => ⟨hparts.2 ha.parts, hcount ▸ ha.count⟩⟩

/-! ## Events -/

section
variable {eventId aggregateId : UUID} {eventType aggregateType : String} {aggregateVersion : Int}
  {occurredAt : Time} {payload payload' : List (String × EventValue)} {event : DomainEvent}

/-- The checks of `__post_init__` on everything but the payload. -/
structure Envelope (eventType aggregateType : String) (aggregateVersion : Int) : Prop where
  eventType : validateType "event_type" eventType = .ok ()
  aggregateType : validateType "aggregate_type" aggregateType = .ok ()
  version : 1 ≤ aggregateVersion

/-- An event is created from an envelope and an admissible payload. -/
theorem DomainEvent.create_ok_iff :
    DomainEvent.create eventId eventType aggregateType aggregateId aggregateVersion occurredAt
      payload = .ok event ↔
    Envelope eventType aggregateType aggregateVersion ∧ Admissible payload ∧
      event = ⟨eventId, eventType, aggregateType, aggregateId, aggregateVersion, occurredAt,
        readMapping .tuple payload⟩ := by
  rw [DomainEvent.create]
  constructor
  · intro h
    obtain ⟨⟨⟩, htype, h⟩ := bind_ok_iff.1 h
    obtain ⟨⟨⟩, haggregate, h⟩ := bind_ok_iff.1 h
    by_cases hversion : aggregateVersion < 1
    · rw [if_pos hversion] at h
      cases h
    · rw [if_neg hversion] at h
      obtain ⟨⟨frozen, rest⟩, hfreeze, h⟩ := bind_ok_iff.1 h
      cases h
      obtain ⟨hadmissible, rfl⟩ := freezeMapping_payload.1 ⟨rest, hfreeze⟩
      exact ⟨⟨htype, haggregate, Int.not_lt.1 hversion⟩, hadmissible, rfl⟩
  · rintro ⟨henvelope, hadmissible, rfl⟩
    obtain ⟨rest, hfreeze⟩ := freezeMapping_payload.2 ⟨hadmissible, rfl⟩
    rw [henvelope.eventType, henvelope.aggregateType, hfreeze,
      if_neg (Int.not_lt.2 henvelope.version)]
    rfl

/-- `DomainEvent` accepts the payload. -/
def Accepts (eventId : UUID) (eventType aggregateType : String) (aggregateId : UUID)
    (aggregateVersion : Int) (occurredAt : Time) (payload : List (String × EventValue)) : Prop :=
  ∃ event, DomainEvent.create eventId eventType aggregateType aggregateId aggregateVersion
    occurredAt payload = .ok event

/-- In a valid envelope a payload is accepted exactly when it is admissible, whatever the order of
its keys, and `payload_dict` gives it back with tuples read as lists. -/
theorem payload_accepted_iff (henvelope : Envelope eventType aggregateType aggregateVersion) :
    (∀ payload, Accepts eventId eventType aggregateType aggregateId aggregateVersion occurredAt
      payload ↔ Admissible payload) ∧
    (∀ payload payload', ReorderedMapping payload payload' →
      (Accepts eventId eventType aggregateType aggregateId aggregateVersion occurredAt payload ↔
        Accepts eventId eventType aggregateType aggregateId aggregateVersion occurredAt payload')) ∧
    ∀ payload event, DomainEvent.create eventId eventType aggregateType aggregateId aggregateVersion
      occurredAt payload = .ok event → event.payloadDict = readMapping .list payload := by
  have haccepts : ∀ payload, Accepts eventId eventType aggregateType aggregateId aggregateVersion
      occurredAt payload ↔ Admissible payload := by
    intro payload
    simp only [Accepts, DomainEvent.create_ok_iff]
    exact ⟨fun ⟨_, _, hadmissible, _⟩ => hadmissible, fun h => ⟨_, henvelope, h, rfl⟩⟩
  refine ⟨haccepts, fun payload payload' hreordered => ?_, fun payload event h => ?_⟩
  · rw [haccepts, haccepts]
    exact hreordered.admissible
  · obtain ⟨-, -, rfl⟩ := DomainEvent.create_ok_iff.1 h
    exact thawMapping_read payload

/-- The payload of a requested challenge, with its keys in either order. -/
theorem payload_accepted_requested :
    Accepts 1 "email_challenge_requested" "email_challenge" 2 1 0
      [("sizes", .tuple [.int 1]), ("challenge_id", .str (Unicode.ofString "2"))] ∧
    Accepts 1 "email_challenge_requested" "email_challenge" 2 1 0
      [("challenge_id", .str (Unicode.ofString "2")), ("sizes", .tuple [.int 1])] := by
  obtain ⟨haccepts, hreordered, -⟩ := @payload_accepted_iff 1 2 "email_challenge_requested"
    "email_challenge" 1 0 ⟨by decide, by decide, by decide⟩
  have hadmissible :
      Admissible [("sizes", .tuple [.int 1]), ("challenge_id", .str (Unicode.ofString "2"))] :=
    ⟨by decide, by decide⟩
  exact ⟨(haccepts _).2 hadmissible, (hreordered _ _ .swap).1 ((haccepts _).2 hadmissible)⟩

/-! ## Stored events -/

/-- The columns of a row that hold its event. -/
structure EventColumns where
  eventId : UUID
  eventType : String
  aggregateType : String
  aggregateId : UUID
  aggregateVersion : Int
  occurredAt : Time
  payload : List (String × EventValue)

def OutboxMessage.eventColumns (row : OutboxMessage) : EventColumns :=
  ⟨row.eventId, row.eventType, row.aggregateType, row.aggregateId, row.aggregateVersion,
    row.occurredAt, row.payload⟩

/-- The row that `OutboxRepository.add` stages. -/
theorem OutboxRepository.add_row {db db' : Outbox} {key : Option String}
    {availableAt : Option Time} {id : UUID}
    (h : OutboxRepository.add db event key availableAt id = .ok db') : ∃ row,
      db'.messages = db.messages ++ [row] ∧ row.eventColumns = ⟨event.eventId, event.eventType,
        event.aggregateType, event.aggregateId, event.aggregateVersion, event.occurredAt,
        event.payloadDict⟩ := by
  unfold OutboxRepository.add at h
  dsimp only at h
  split at h
  · cases h
  · split at h
    · cases h
    · cases h
      exact ⟨_, rfl, rfl⟩

/-- Thawed and frozen again, the payload of an event is what it was. -/
theorem DomainEvent.create_payloadDict
    (h : DomainEvent.create eventId eventType aggregateType aggregateId aggregateVersion occurredAt
      payload = .ok event) :
    DomainEvent.create event.eventId event.eventType event.aggregateType event.aggregateId
      event.aggregateVersion event.occurredAt event.payloadDict = .ok event := by
  obtain ⟨henvelope, -, rfl⟩ := DomainEvent.create_ok_iff.1 h
  rw [DomainEvent.payloadDict, thawMapping_read]
  rw [DomainEvent.create] at h ⊢
  simpa only [freezeMapping_read] using h

/-- A staged event is read back from its row, and stages the same columns again. -/
theorem staged_event_round_trip {db db' : Outbox} {key : Option String} {availableAt : Option Time}
    {id : UUID}
    (hevent : DomainEvent.create eventId eventType aggregateType aggregateId aggregateVersion
      occurredAt payload = .ok event)
    (hadd : OutboxRepository.add db event key availableAt id = .ok db') :
    ∃ row, db'.messages = db.messages ++ [row] ∧ row.toEvent = .ok event ∧
      ∀ again, row.toEvent = .ok again → ∀ db₂ db₂' key₂ availableAt₂ id₂,
        OutboxRepository.add db₂ again key₂ availableAt₂ id₂ = .ok db₂' →
        ∃ row₂, db₂'.messages = db₂.messages ++ [row₂] ∧ row₂.eventColumns = row.eventColumns := by
  obtain ⟨row, hrow, hcolumns⟩ := OutboxRepository.add_row hadd
  have hback : row.toEvent = .ok event := by
    have hcreate := DomainEvent.create_payloadDict hevent
    rw [OutboxMessage.eventColumns, EventColumns.mk.injEq] at hcolumns
    obtain ⟨h1, h2, h3, h4, h5, h6, h7⟩ := hcolumns
    rw [OutboxMessage.toEvent, h1, h2, h3, h4, h5, h6, h7]
    exact hcreate
  refine ⟨row, hrow, hback, fun again hagain db₂ db₂' key₂ availableAt₂ id₂ hadd₂ => ?_⟩
  rw [hback] at hagain
  cases hagain
  obtain ⟨row₂, hrow₂, hcolumns₂⟩ := OutboxRepository.add_row hadd₂
  exact ⟨row₂, hrow₂, hcolumns₂.trans hcolumns.symm⟩

/-- A requested challenge, with a list that is frozen to a tuple. -/
def requested : DomainEvent :=
  { eventId := 1, eventType := "email_challenge_requested", aggregateType := "email_challenge"
    aggregateId := 2, aggregateVersion := 1, occurredAt := 0
    payload := [("sizes", .tuple [.int 1]), ("challenge_id", .str (Unicode.ofString "2"))] }

/-- It is read back from the row that stages it. -/
theorem staged_event_round_trip_requested : ∃ db' row,
    OutboxRepository.add {} requested none none 9 = .ok db' ∧ db'.messages = [row] ∧
      row.toEvent = .ok requested := by
  have hevent : DomainEvent.create 1 "email_challenge_requested" "email_challenge" 2 1 0
      [("sizes", .list [.int 1]), ("challenge_id", .str (Unicode.ofString "2"))] = .ok requested :=
    DomainEvent.create_ok_iff.2
      ⟨⟨by decide, by decide, by decide⟩, ⟨by decide, by decide⟩, rfl⟩
  have hadd : ∃ db', OutboxRepository.add {} requested none none 9 = .ok db' := ⟨_, rfl⟩
  obtain ⟨db', hadd⟩ := hadd
  obtain ⟨row, hrow, hback, -⟩ := staged_event_round_trip hevent hadd
  exact ⟨db', row, hadd, hrow, hback⟩

end

end Ekumidayomi
