import Ekumidayomi.Audit.Service

/-!
# What sanitizing shows and what it returns

The sanitizer walks the metadata with one budget and one depth. What it may look at is said by
`visible`, which empties every value under a key that is not allowed or is sensitive: the walk has
one result on a value and on what is visible of it (`sanitizeValue_visible`). What it returns is
said without the walk: `parts` lists the entries and the items inside a value, each with its depth,
and a value is `Sanitized` when its parts are. The walk ends with such values, charging one of the
budget to each part (`sanitizeValue_ok`), and leaves them as they are (`sanitizeValue_toObject`).
-/

namespace Ekumidayomi.Audit

/-! ## What the sanitizer may look at -/

section
variable (allowedKeys : Finset String)

/-- A key that is not allowed or is sensitive: its value must not be shown. -/
def AuditKey.hidden : AuditKey → Bool
  | .str key => decide (key ∉ allowedKeys) || isSensitiveKey key
  | .other => true

mutual

/-- The value with `None` under every hidden key; the keys and their order stay. -/
def AuditObject.visible : AuditObject → AuditObject
  | .mapping items => .mapping (visibleEntries items)
  | .list items => .list (visibleItems items)
  | .tuple items => .tuple (visibleItems items)
  | v => v

def visibleItems : List AuditObject → List AuditObject
  | [] => []
  | item :: items => item.visible :: visibleItems items

def visibleEntries : List (AuditKey × AuditObject) → List (AuditKey × AuditObject)
  | [] => []
  | (key, item) :: items =>
    (key, if key.hidden allowedKeys then .none else item.visible) :: visibleEntries items

end

variable {allowedKeys}

theorem length_visibleItems (items : List AuditObject) :
    (visibleItems allowedKeys items).length = items.length := by
  induction items with
  | nil => rfl
  | cons item items ih => rw [visibleItems, List.length_cons, ih, List.length_cons]

theorem length_visibleEntries (items : List (AuditKey × AuditObject)) :
    (visibleEntries allowedKeys items).length = items.length := by
  induction items with
  | nil => rfl
  | cons entry items ih => rw [visibleEntries, List.length_cons, ih, List.length_cons]

mutual

/-- A value is sanitized as what is visible of it, with the same errors. -/
theorem sanitizeValue_visible (v : AuditObject) (depth budget : Nat) :
    sanitizeValue allowedKeys depth budget (v.visible allowedKeys) =
      sanitizeValue allowedKeys depth budget v := by
  cases v with
  | none | bool | int | float | str | uuid | datetime | other => rfl
  | mapping items =>
    rw [AuditObject.visible, sanitizeValue, sanitizeValue, length_visibleEntries]
    simp only [sanitizeEntries_visible items]
  | list items | tuple items =>
    rw [AuditObject.visible, sanitizeValue, sanitizeValue, length_visibleItems]
    simp only [sanitizeItems_visible items]

theorem sanitizeItems_visible (items : List AuditObject) (depth budget : Nat) :
    sanitizeItems allowedKeys depth budget (visibleItems allowedKeys items) =
      sanitizeItems allowedKeys depth budget items := by
  cases items with
  | nil => rfl
  | cons item items =>
    rw [visibleItems, sanitizeItems, sanitizeItems]
    simp only [sanitizeValue_visible item, sanitizeItems_visible items]

theorem sanitizeEntries_visible (items : List (AuditKey × AuditObject)) (depth budget : Nat) :
    sanitizeEntries allowedKeys depth budget (visibleEntries allowedKeys items) =
      sanitizeEntries allowedKeys depth budget items := by
  match items with
  | [] => rfl
  | (.other, item) :: items =>
    rw [visibleEntries, sanitizeEntries, sanitizeEntries]
  | (.str key, item) :: items =>
    rw [visibleEntries, sanitizeEntries, sanitizeEntries]
    simp only [sanitizeEntries_visible items]
    by_cases hkey : key ∈ allowedKeys
    · cases hs : isSensitiveKey key with
      | true => simp only [hkey, if_true]
      | false =>
        have hshown : (AuditKey.str key).hidden allowedKeys = false := by
          simp [AuditKey.hidden, hkey, hs]
        simp only [hkey, hshown, Bool.false_eq_true, if_false, if_true, sanitizeValue_visible item]
    · simp only [hkey, if_false]

end

end

/-! ## The parts of a returned value -/

/-- An item of a list or an entry of a mapping, at its depth. -/
inductive AuditPart
  | item (depth : Nat) (value : AuditValue)
  | entry (depth : Nat) (key : String) (value : AuditValue)

def AuditPart.depth : AuditPart → Nat
  | .item depth _ => depth
  | .entry depth _ _ => depth

def AuditPart.value : AuditPart → AuditValue
  | .item _ value => value
  | .entry _ _ value => value

mutual

/-- The parts inside a value that is at `depth`: one for each value that it contains. -/
def AuditValue.parts (depth : Nat) : AuditValue → List AuditPart
  | .list items => itemParts (depth + 1) items
  | .mapping items => entryParts (depth + 1) items
  | _ => []

def itemParts (depth : Nat) : List AuditValue → List AuditPart
  | [] => []
  | item :: items => .item depth item :: (item.parts depth ++ itemParts depth items)

def entryParts (depth : Nat) : List (String × AuditValue) → List AuditPart
  | [] => []
  | (key, item) :: items => .entry depth key item :: (item.parts depth ++ entryParts depth items)

end

/-- A string, a list or a mapping is not too long. -/
def AuditValue.Bounded : AuditValue → Prop
  | .str s => s.toList.length ≤ maxStringLength
  | .list items => items.length ≤ maxListItems
  | .mapping items => items.length ≤ maxMappingFields
  | _ => True

def AuditValue.isContainer : AuditValue → Bool
  | .list _ | .mapping _ => true
  | _ => false

section
variable (allowedKeys : Finset String)

/-- A part as the sanitizer makes it. The marker under a sensitive key is put there without a look
at the depth. -/
def AuditPart.Sanitized : AuditPart → Prop
  | .item depth value => depth ≤ maxMetadataDepth ∧ value.Bounded
  | .entry depth key value => key ∈ allowedKeys ∧
      if isSensitiveKey key then value = .str redactedValue
      else depth ≤ maxMetadataDepth ∧ value.Bounded

/-- A value as the sanitizer makes it at `depth`. -/
structure AuditValue.Sanitized (depth : Nat) (value : AuditValue) : Prop where
  within : depth ≤ maxMetadataDepth
  bounded : value.Bounded
  parts : ∀ part ∈ value.parts depth, part.Sanitized allowedKeys

end

/-! ## The walk ends with sanitized values -/

section
variable {allowedKeys : Finset String} {depth budget rest : Nat} {v w : AuditValue}

/-- A limit that was kept. -/
theorem limit_bind {α : Type} {n limit : Nat} {e : AuditError} {next : Except AuditError α}
    {a : α} : ((if n > limit then .error e else .ok ()) >>= fun _ : Unit => next) = .ok a ↔
      n ≤ limit ∧ next = .ok a := by
  split
  case isTrue h => simp [bind, Except.bind, Nat.not_le.2 h]
  case isFalse h => simp [bind, Except.bind, Nat.not_lt.1 h]

theorem validateDepth_bind {α : Type} {next : Except AuditError α} {a : α} :
    (validateDepth depth >>= fun _ => next) = .ok a ↔ depth ≤ maxMetadataDepth ∧ next = .ok a :=
  limit_bind

theorem validateItems_bind {α : Type} {items : Nat} {next : Except AuditError α} {a : α} :
    (validateItems items >>= fun _ => next) = .ok a ↔ items ≤ maxListItems ∧ next = .ok a :=
  limit_bind

theorem consumeBudget_ok_iff : consumeBudget budget = .ok rest ↔ budget = rest + 1 := by
  cases budget with
  | zero => simp [consumeBudget]
  | succ budget => simp [consumeBudget]

theorem validateMapping_bind {α : Type} {fields : Nat} {next : Except AuditError α} {a : α} :
    (validateMapping depth fields >>= fun _ => next) = .ok a ↔
      depth ≤ maxMetadataDepth ∧ fields ≤ maxMappingFields ∧ next = .ok a := by
  rw [validateMapping, bind_assoc, validateDepth_bind]
  exact and_congr_right fun _ => limit_bind

/-- A value without parts takes nothing of the budget. -/
theorem sanitized_leaf (hdepth : depth ≤ maxMetadataDepth) (hbounded : w.Bounded)
    (hparts : w.parts depth = []) :
    w.Sanitized allowedKeys depth ∧ budget = budget + (w.parts depth).length := by
  rw [hparts]
  refine ⟨⟨hdepth, hbounded, ?_⟩, rfl⟩
  rw [hparts]
  exact fun part hpart => absurd hpart List.not_mem_nil

theorem length_decimals (w n : Nat) : (decimals w n).length = w := by
  induction w generalizing n with
  | zero => rfl
  | succ w ih => rw [decimals, List.length_append, ih, List.length_singleton]

/-- The text of an instant is short. -/
theorem serializeUtc_bounded {instant : Option Time} {s : String}
    (h : serializeUtc instant = .ok s) : (AuditValue.str s).Bounded := by
  cases instant with
  | none => cases h
  | some t =>
    rw [serializeUtc] at h
    split at h
    · cases h
    cases h
    rw [AuditValue.Bounded, String.toList_ofList, isoformatZ]
    simp only [List.length_append, List.length_cons, length_decimals, List.length_nil]
    split
    · decide
    · simp only [List.length_cons, length_decimals]
      decide

mutual

/-- A value that the walk returns is sanitized, and each of its parts took one of the budget. -/
theorem sanitizeValue_ok (v : AuditObject) {depth budget rest : Nat} {w : AuditValue}
    (h : sanitizeValue allowedKeys depth budget v = .ok (w, rest)) :
    w.Sanitized allowedKeys depth ∧ budget = rest + (w.parts depth).length := by
  cases v with
  | none | bool | int =>
    rw [sanitizeValue, validateDepth_bind] at h
    obtain ⟨hdepth, h⟩ := h
    cases h
    exact sanitized_leaf hdepth trivial rfl
  | float x =>
    obtain ⟨hdepth, h⟩ := validateDepth_bind.1 h
    cases x with
    | finite m e =>
      cases h
      exact sanitized_leaf hdepth trivial rfl
    | infinite | nan => cases h
  | str s =>
    rw [sanitizeValue, validateDepth_bind] at h
    obtain ⟨hdepth, h⟩ := h
    cases h
    refine sanitized_leaf hdepth ?_ rfl
    rw [AuditValue.Bounded, String.toList_ofList]
    exact List.length_take_le _ _
  | uuid u =>
    rw [sanitizeValue, validateDepth_bind] at h
    obtain ⟨hdepth, h⟩ := h
    cases h
    refine sanitized_leaf hdepth ?_ rfl
    rw [AuditValue.Bounded, uuidStr, String.toList_ofList, length_uuidChars]
    decide
  | datetime instant =>
    rw [sanitizeValue, validateDepth_bind] at h
    obtain ⟨hdepth, h⟩ := h
    obtain ⟨s, hs, h⟩ := bind_ok_iff.1 h
    cases h
    exact sanitized_leaf hdepth (serializeUtc_bounded hs) rfl
  | mapping items =>
    rw [sanitizeValue, validateDepth_bind, validateMapping_bind] at h
    obtain ⟨hdepth, -, hfields, h⟩ := h
    obtain ⟨⟨entries, rest'⟩, hentries, h⟩ := bind_ok_iff.1 h
    cases h
    obtain ⟨hparts, hlen, hbudget⟩ := sanitizeEntries_ok items hentries
    exact ⟨⟨hdepth, Nat.le_trans hlen hfields, hparts⟩, hbudget⟩
  | list items | tuple items =>
    rw [sanitizeValue, validateDepth_bind, validateItems_bind] at h
    obtain ⟨hdepth, hfields, h⟩ := h
    obtain ⟨⟨output, rest'⟩, hitems, h⟩ := bind_ok_iff.1 h
    cases h
    obtain ⟨hparts, hlen, hbudget⟩ := sanitizeItems_ok items hitems
    exact ⟨⟨hdepth, Nat.le_trans hlen hfields, hparts⟩, hbudget⟩
  | other =>
    rw [sanitizeValue, validateDepth_bind] at h
    cases h.2

theorem sanitizeItems_ok (items : List AuditObject) {depth budget rest : Nat}
    {output : List AuditValue}
    (h : sanitizeItems allowedKeys depth budget items = .ok (output, rest)) :
    (∀ part ∈ itemParts (depth + 1) output, part.Sanitized allowedKeys) ∧
      output.length ≤ items.length ∧
      budget = rest + (itemParts (depth + 1) output).length := by
  cases items with
  | nil =>
    cases h
    exact ⟨fun part hpart => absurd hpart List.not_mem_nil, Nat.le_refl _, rfl⟩
  | cons item items =>
    rw [sanitizeItems] at h
    obtain ⟨r, hr, h⟩ := bind_ok_iff.1 h
    obtain ⟨⟨value, r'⟩, hvalue, h⟩ := bind_ok_iff.1 h
    obtain ⟨⟨values, r''⟩, hvalues, h⟩ := bind_ok_iff.1 h
    cases h
    obtain ⟨hitem, hbudget⟩ := sanitizeValue_ok item hvalue
    obtain ⟨hparts, hlen, hbudget'⟩ := sanitizeItems_ok items hvalues
    rw [consumeBudget_ok_iff] at hr
    rw [itemParts, List.forall_mem_cons, List.forall_mem_append]
    refine ⟨⟨⟨hitem.within, hitem.bounded⟩, hitem.parts, hparts⟩, Nat.succ_le_succ hlen, ?_⟩
    rw [List.length_cons, List.length_append]
    omega

theorem sanitizeEntries_ok (items : List (AuditKey × AuditObject)) {depth budget rest : Nat}
    {output : List (String × AuditValue)}
    (h : sanitizeEntries allowedKeys depth budget items = .ok (output, rest)) :
    (∀ part ∈ entryParts (depth + 1) output, part.Sanitized allowedKeys) ∧
      output.length ≤ items.length ∧
      budget = rest + (entryParts (depth + 1) output).length := by
  match items with
  | [] =>
    cases h
    exact ⟨fun part hpart => absurd hpart List.not_mem_nil, Nat.le_refl _, rfl⟩
  | (.other, item) :: items => cases h
  | (.str key, item) :: items =>
    rw [sanitizeEntries] at h
    by_cases hkey : key ∈ allowedKeys
    · rw [if_pos hkey] at h
      obtain ⟨r, hr, h⟩ := bind_ok_iff.1 h
      rw [consumeBudget_ok_iff] at hr
      cases hs : isSensitiveKey key with
      | true =>
        rw [if_pos hs] at h
        obtain ⟨⟨entries, r'⟩, hentries, h⟩ := bind_ok_iff.1 h
        cases h
        obtain ⟨hparts, hlen, hbudget⟩ := sanitizeEntries_ok items hentries
        have hnone : (AuditValue.str redactedValue).parts (depth + 1) = [] := rfl
        rw [entryParts, hnone, List.nil_append, List.forall_mem_cons]
        refine ⟨⟨⟨hkey, ?_⟩, hparts⟩, Nat.succ_le_succ hlen, ?_⟩
        · rw [if_pos hs]
        · rw [List.length_cons]
          omega
      | false =>
        rw [if_neg (by simp [hs])] at h
        obtain ⟨⟨value, r'⟩, hvalue, h⟩ := bind_ok_iff.1 h
        obtain ⟨⟨entries, r''⟩, hentries, h⟩ := bind_ok_iff.1 h
        cases h
        obtain ⟨hitem, hbudget⟩ := sanitizeValue_ok item hvalue
        obtain ⟨hparts, hlen, hbudget'⟩ := sanitizeEntries_ok items hentries
        rw [entryParts, List.forall_mem_cons, List.forall_mem_append]
        refine ⟨⟨⟨hkey, ?_⟩, hitem.parts, hparts⟩, Nat.succ_le_succ hlen, ?_⟩
        · rw [if_neg (by simp [hs])]
          exact ⟨hitem.within, hitem.bounded⟩
        · rw [List.length_cons, List.length_append]
          omega
    · rw [if_neg hkey] at h
      obtain ⟨hparts, hlen, hbudget⟩ := sanitizeEntries_ok items h
      exact ⟨hparts, Nat.le_succ_of_le hlen, hbudget⟩

end

end

/-! ## Sanitized values are left as they are -/

mutual

/-- A returned value, given to the sanitizer again. -/
def AuditValue.toObject : AuditValue → AuditObject
  | .none => .none
  | .bool b => .bool b
  | .int i => .int i
  | .float m e => .float (.finite m e)
  | .str s => .str s
  | .list items => .list (toObjects items)
  | .mapping items => .mapping (toEntries items)

def toObjects : List AuditValue → List AuditObject
  | [] => []
  | item :: items => item.toObject :: toObjects items

def toEntries : List (String × AuditValue) → List (AuditKey × AuditObject)
  | [] => []
  | (key, item) :: items => (.str key, item.toObject) :: toEntries items

end

theorem length_toObjects (items : List AuditValue) : (toObjects items).length = items.length := by
  induction items with
  | nil => rfl
  | cons item items ih => rw [toObjects, List.length_cons, ih, List.length_cons]

theorem length_toEntries (items : List (String × AuditValue)) :
    (toEntries items).length = items.length := by
  induction items with
  | nil => rfl
  | cons entry items ih => rw [toEntries, List.length_cons, ih, List.length_cons]

section
variable {allowedKeys : Finset String}

mutual

/-- A sanitized value is returned as it is, for one of the budget to each part. -/
theorem sanitizeValue_toObject (w : AuditValue) {depth : Nat} (rest : Nat)
    (h : w.Sanitized allowedKeys depth) :
    sanitizeValue allowedKeys depth (rest + (w.parts depth).length) w.toObject = .ok (w, rest) := by
  have hdepth := h.within
  cases w with
  | none | bool | int | float =>
    rw [AuditValue.toObject, sanitizeValue]
    exact validateDepth_bind.2 ⟨hdepth, rfl⟩
  | str s =>
    have hshort : s.toList.take maxStringLength = s.toList := List.take_of_length_le h.bounded
    rw [AuditValue.toObject, sanitizeValue, hshort, String.ofList_toList]
    exact validateDepth_bind.2 ⟨hdepth, rfl⟩
  | list items =>
    rw [AuditValue.toObject, sanitizeValue, validateDepth_bind, validateItems_bind, length_toObjects]
    refine ⟨hdepth, h.bounded, ?_⟩
    exact bind_ok_iff.2 ⟨_, sanitizeItems_toObjects items rest h.parts, rfl⟩
  | mapping items =>
    rw [AuditValue.toObject, sanitizeValue, validateDepth_bind, validateMapping_bind,
      length_toEntries]
    refine ⟨hdepth, hdepth, h.bounded, ?_⟩
    exact bind_ok_iff.2 ⟨_, sanitizeEntries_toEntries items rest h.parts, rfl⟩

theorem sanitizeItems_toObjects (items : List AuditValue) {depth : Nat} (rest : Nat)
    (h : ∀ part ∈ itemParts (depth + 1) items, part.Sanitized allowedKeys) :
    sanitizeItems allowedKeys depth (rest + (itemParts (depth + 1) items).length)
      (toObjects items) = .ok (items, rest) := by
  cases items with
  | nil => rfl
  | cons item items =>
    rw [itemParts, List.forall_mem_cons, List.forall_mem_append] at h
    obtain ⟨⟨hdepth, hbounded⟩, hparts, hitems⟩ := h
    rw [toObjects, sanitizeItems, itemParts, List.length_cons, List.length_append]
    rw [Nat.add_comm (item.parts (depth + 1)).length, ← Nat.add_assoc, ← Nat.add_assoc]
    refine bind_ok_iff.2 ⟨_, consumeBudget_ok_iff.2 rfl, ?_⟩
    exact bind_ok_iff.2 ⟨_, sanitizeValue_toObject item _ ⟨hdepth, hbounded, hparts⟩,
      bind_ok_iff.2 ⟨_, sanitizeItems_toObjects items rest hitems, rfl⟩⟩

theorem sanitizeEntries_toEntries (items : List (String × AuditValue)) {depth : Nat} (rest : Nat)
    (h : ∀ part ∈ entryParts (depth + 1) items, part.Sanitized allowedKeys) :
    sanitizeEntries allowedKeys depth (rest + (entryParts (depth + 1) items).length)
      (toEntries items) = .ok (items, rest) := by
  match items with
  | [] => rfl
  | (key, item) :: items =>
    rw [entryParts, List.forall_mem_cons, List.forall_mem_append] at h
    obtain ⟨⟨hkey, hvalue⟩, hparts, hitems⟩ := h
    rw [toEntries, sanitizeEntries, entryParts, List.length_cons, List.length_append, if_pos hkey]
    rw [Nat.add_comm (item.parts (depth + 1)).length, ← Nat.add_assoc, ← Nat.add_assoc]
    refine bind_ok_iff.2 ⟨_, consumeBudget_ok_iff.2 rfl, ?_⟩
    have hrest := sanitizeEntries_toEntries items rest hitems
    by_cases hs : isSensitiveKey key = true
    · rw [if_pos hs] at hvalue ⊢
      subst hvalue
      exact bind_ok_iff.2 ⟨_, hrest, rfl⟩
    · rw [if_neg hs] at hvalue ⊢
      exact bind_ok_iff.2 ⟨_, sanitizeValue_toObject item _ ⟨hvalue.1, hvalue.2, hparts⟩,
        bind_ok_iff.2 ⟨_, hrest, rfl⟩⟩

end

end

/-! ## The metadata of a record -/

section
variable {floatRepr : Int → Int → String} {allowedKeys : Finset String} {metadata : AuditObject}
  {sanitized : List (String × AuditValue)}

/-- What a successful call has checked. -/
theorem sanitizeAuditMetadata_ok
    (h : sanitizeAuditMetadata floatRepr metadata allowedKeys = .ok sanitized) :
    validateAllowedKeys allowedKeys = .ok () ∧
      (AuditValue.mapping sanitized).Sanitized allowedKeys 0 ∧
      ((AuditValue.mapping sanitized).parts 0).length ≤ maxTotalValues ∧
      ∃ text, (AuditValue.mapping sanitized).dumps floatRepr = .ok text ∧
        (encode (String.ofList text)).length ≤ maxMetadataBytes := by
  cases metadata with
  | mapping items =>
    rw [sanitizeAuditMetadata] at h
    obtain ⟨⟨⟩, hkeys, h⟩ := bind_ok_iff.1 h
    obtain ⟨⟨output, rest⟩, hwalk, h⟩ := bind_ok_iff.1 h
    obtain ⟨text, htext, h⟩ := bind_ok_iff.1 h
    dsimp only at h
    split at h
    · cases h
    rename_i hbytes
    cases h
    rw [sanitizeMapping, validateMapping_bind] at hwalk
    obtain ⟨hdepth, hfields, hwalk⟩ := hwalk
    obtain ⟨hparts, hlen, hbudget⟩ := sanitizeEntries_ok items hwalk
    refine ⟨hkeys, ⟨hdepth, Nat.le_trans hlen hfields, hparts⟩, ?_, text, htext,
      Nat.not_lt.1 hbytes⟩
    rw [AuditValue.parts]
    omega
  | _ => cases h

/-- What a part of the returned metadata is. -/
theorem AuditPart.Sanitized.bounded {part : AuditPart} (h : part.Sanitized allowedKeys) :
    part.value.Bounded := by
  cases part with
  | item depth value => exact h.2
  | entry depth key value =>
    obtain ⟨-, h⟩ := h
    split at h
    · rw [AuditPart.value, h, AuditValue.Bounded]
      decide
    · exact h.2

/-- Only a marker can be deeper than the limit. -/
theorem AuditPart.Sanitized.depth_le {part : AuditPart} (h : part.Sanitized allowedKeys) :
    part.depth ≤ maxMetadataDepth ∨ part.value = .str redactedValue := by
  cases part with
  | item depth value => exact .inl h.1
  | entry depth key value =>
    obtain ⟨-, h⟩ := h
    split at h
    · exact .inr h
    · exact .inl h.1

theorem isSafeName_length {key : String} (h : isSafeName key = true) : key.toList.length ≤ 100 := by
  unfold isSafeName at h
  split at h
  · cases h
  rename_i first rest heq
  simp only [Bool.and_eq_true, decide_eq_true_eq] at h
  rw [heq, List.length_cons]
  omega

/-- The allowed keys are safe names. -/
theorem validateAllowedKeys_ok (h : validateAllowedKeys allowedKeys = .ok ()) :
    ∀ key ∈ allowedKeys, isSafeName key = true := by
  intro key hkey
  unfold validateAllowedKeys at h
  split at h
  · cases h
  split at h
  · cases h
  rename_i hsafe
  rw [← Bool.not_eq_false]
  exact fun hfalse => hsafe ⟨key, hkey, hfalse⟩

variable (floatRepr allowedKeys)

/-- Sanitizing does not look at a value under a hidden key, and shows none: metadata with the same
visible part have one result, and a returned key is allowed and, when sensitive, has the marker. -/
theorem sanitize_hides :
    (∀ metadata metadata' : AuditObject,
      metadata.visible allowedKeys = metadata'.visible allowedKeys →
      sanitizeAuditMetadata floatRepr metadata allowedKeys =
        sanitizeAuditMetadata floatRepr metadata' allowedKeys) ∧
    ∀ metadata sanitized, sanitizeAuditMetadata floatRepr metadata allowedKeys = .ok sanitized →
      ∀ depth key value, .entry depth key value ∈ (AuditValue.mapping sanitized).parts 0 →
        key ∈ allowedKeys ∧ (isSensitiveKey key = true → value = .str redactedValue) := by
  constructor
  · -- a call has the result of the call on the visible part
    have hvisible : ∀ metadata : AuditObject,
        sanitizeAuditMetadata floatRepr (metadata.visible allowedKeys) allowedKeys =
          sanitizeAuditMetadata floatRepr metadata allowedKeys := by
      intro metadata
      cases metadata with
      | mapping items =>
        rw [AuditObject.visible, sanitizeAuditMetadata, sanitizeAuditMetadata, sanitizeMapping,
          sanitizeMapping, length_visibleEntries]
        simp only [sanitizeEntries_visible items]
      | _ => rfl
    intro metadata metadata' hsame
    rw [← hvisible metadata, hsame, hvisible metadata']
  · intro metadata sanitized h depth key value hmem
    obtain ⟨-, hsanitized, -, -⟩ := sanitizeAuditMetadata_ok h
    obtain ⟨hkey, hvalue⟩ := hsanitized.parts _ hmem
    exact ⟨hkey, fun hs => by rwa [if_pos hs] at hvalue⟩

/-- Two addresses under a sensitive key, and two values under a key that is not allowed. -/
theorem sanitize_hides_address :
    sanitizeAuditMetadata (fun _ _ => "0.5")
      (.mapping [(.str "details", .mapping [(.str "email", .str "a@x"), (.str "note", .int 1)])])
      {"details", "email"} =
    sanitizeAuditMetadata (fun _ _ => "0.5")
      (.mapping [(.str "details", .mapping [(.str "email", .float .nan), (.str "note", .other)])])
      {"details", "email"} :=
  (sanitize_hides (fun _ _ => "0.5") {"details", "email"}).1 _ _ rfl

/-- The limits on the metadata of a record. The depth of the metadata is 0. -/
structure WithinLimits (sanitized : List (String × AuditValue)) : Prop where
  /-- At most 100 values are in it. -/
  values : ((AuditValue.mapping sanitized).parts 0).length ≤ 100
  /-- A list or a mapping in it is at depth 4 at most. -/
  nesting : ∀ part ∈ (AuditValue.mapping sanitized).parts 0,
    part.value.isContainer = true → part.depth ≤ 4
  /-- So is every other value, but for a marker in a mapping at depth 4. -/
  depth : ∀ part ∈ (AuditValue.mapping sanitized).parts 0,
    part.depth ≤ 4 ∨ part.value = .str redactedValue
  fields : sanitized.length ≤ 50 ∧ ∀ part ∈ (AuditValue.mapping sanitized).parts 0,
    ∀ items, part.value = .mapping items → items.length ≤ 50
  items : ∀ part ∈ (AuditValue.mapping sanitized).parts 0,
    ∀ items, part.value = .list items → items.length ≤ 20
  strings : ∀ part ∈ (AuditValue.mapping sanitized).parts 0,
    ∀ s, part.value = .str s → s.toList.length ≤ 500
  keys : ∀ depth key value, .entry depth key value ∈ (AuditValue.mapping sanitized).parts 0 →
    key.toList.length ≤ 500
  bytes : ∃ text, (AuditValue.mapping sanitized).dumps floatRepr = .ok text ∧
    (encode (String.ofList text)).length ≤ 16384

variable {floatRepr allowedKeys}

/-- Sanitized metadata is sanitized to itself, and it is within the limits. -/
theorem sanitize_idempotent
    (h : sanitizeAuditMetadata floatRepr metadata allowedKeys = .ok sanitized) :
    sanitizeAuditMetadata floatRepr (AuditValue.mapping sanitized).toObject allowedKeys =
      .ok sanitized ∧ WithinLimits floatRepr sanitized := by
  obtain ⟨hkeys, hsanitized, hvalues, text, htext, hbytes⟩ := sanitizeAuditMetadata_ok h
  constructor
  · -- the second walk has enough of the budget
    obtain ⟨rest, hrest⟩ := Nat.le.dest hvalues
    have hwalk : sanitizeMapping allowedKeys 0 maxTotalValues (toEntries sanitized) =
        .ok (sanitized, rest) := by
      rw [sanitizeMapping, validateMapping_bind, length_toEntries, ← hrest, Nat.add_comm]
      exact ⟨hsanitized.within, hsanitized.bounded,
        sanitizeEntries_toEntries sanitized rest hsanitized.parts⟩
    rw [AuditValue.toObject, sanitizeAuditMetadata]
    refine bind_ok_iff.2 ⟨(), hkeys, bind_ok_iff.2 ⟨_, hwalk, bind_ok_iff.2 ⟨text, htext, ?_⟩⟩⟩
    dsimp only
    rw [if_neg (Nat.not_lt.2 hbytes)]
    rfl
  · have hbounded := fun part hpart => (hsanitized.parts part hpart).bounded
    refine ⟨hvalues, ?_, ?_, ⟨hsanitized.bounded, ?_⟩, ?_, ?_, ?_, text, htext, hbytes⟩
    · intro part hpart hcontainer
      refine (hsanitized.parts part hpart).depth_le.resolve_right fun hmarker => ?_
      rw [hmarker] at hcontainer
      cases hcontainer
    · exact fun part hpart => (hsanitized.parts part hpart).depth_le
    · intro part hpart items hvalue
      have hb := hbounded part hpart
      rwa [hvalue] at hb
    · intro part hpart items hvalue
      have hb := hbounded part hpart
      rwa [hvalue] at hb
    · intro part hpart text hvalue
      have hb := hbounded part hpart
      rwa [hvalue] at hb
    · intro depth key value hmem
      have hsafe := validateAllowedKeys_ok hkeys key (hsanitized.parts _ hmem).1
      exact Nat.le_trans (isSafeName_length hsafe) (by decide)

end

/-- An identifier and a pair, sanitized and sanitized again. -/
theorem sanitize_idempotent_pair :
    sanitizeAuditMetadata (fun _ _ => "0.5")
      (AuditValue.mapping [("reason", .list [.none, .str "00000000-0000-0000-0000-000000000007"]),
        ("token", .str "[REDACTED]")]).toObject {"reason", "token"} =
      .ok [("reason", .list [.none, .str "00000000-0000-0000-0000-000000000007"]),
        ("token", .str "[REDACTED]")] :=
  (@sanitize_idempotent (fun _ _ => "0.5") {"reason", "token"}
    (.mapping [(.str "reason", .tuple [.none, .uuid 7]), (.str "token", .other)]) _ rfl).1

end Ekumidayomi.Audit
