import Ekumidayomi.Text
import Mathlib.Data.Finset.Insert
import Mathlib.Data.List.Perm.Basic

/-!
# Query conventions

`parse_sort`, `parse_filters` and `_validate_allowed_fields` of `api/query.py`. Both loops go over
the pieces of their input with an accumulator; `parseEach_eq_ok` and `parseFields_eq_ok` say which
pieces they accept and what they make of them, piece by piece. What is accepted is rendered as it
was written (`query_conventions`).
-/

namespace Ekumidayomi.Api

open Unicode

/-- `_MAX_SORT_FIELDS`. -/
def maxSortFields : Nat := 10

/-- `_MAX_FILTERS`. -/
def maxFilters : Nat := 20

/-- `_MAX_QUERY_VALUE_LENGTH`. -/
def maxQueryValueLength : Nat := 500

/-- `_FIELD_PATTERN`, which is `[a-z][a-z0-9_]{0,63}`, matched in full. -/
def isField : Text → Bool
  | [] => false
  | first :: rest =>
    (toChar first).any isLower && rest.length ≤ 63 &&
      rest.all fun c => (toChar c).any fun char => isLower char || isDigit char || char == '_'

/-- What the parsers raise. -/
inductive QueryError
  | unsafeFields | idRequired | sortTooLong | sortFields | notAllowed (name : Text) | notUnique
  | filters | filterTooLong | filterPair
  deriving DecidableEq

/-- The texts of the errors, given `repr` of a name. -/
def QueryError.text (repr : Text → String) : QueryError → String
  | unsafeFields => "allowed fields must contain safe field names"
  | idRequired => "allowed sort fields must include id"
  | sortTooLong => "sort value is too long"
  | sortFields => "sorting supports at most 10 fields"
  | notAllowed name => "sorting by " ++ repr name ++ " is not allowed"
  | notUnique => "sort fields must be unique"
  | filters => "filtering supports at most 20 fields"
  | filterTooLong => "filter value is too long"
  | filterPair => "filter must use one unique allowed field:value pair"

/-- The field `id`. -/
def idField : Text := ofString "id"

/-- `_validate_allowed_fields`. -/
def validateAllowedFields (allowed : Finset Text) (requireId : Bool) : Except QueryError Unit :=
  if allowed = ∅ ∨ ∃ item ∈ allowed, isField item = false then .error .unsafeFields
  else if requireId ∧ idField ∉ allowed then .error .idRequired
  else .ok ()

/-! ## Filters -/

/-- `str.partition(separator)` for a separator of one character. -/
def partition (separator : CodePoint) : Text → Text × Text × Text
  | [] => ([], [], [])
  | c :: t =>
    if c = separator then ([], [c], t)
    else
      let (front, found, back) := partition separator t
      (c :: front, found, back)

/-- The loop of `parse_filters`. -/
def parseEach (allowed : Finset Text) :
    List Text → List (Text × Text) → Except QueryError (List (Text × Text))
  | [], parsed => .ok parsed
  | raw :: rest, parsed =>
    if maxQueryValueLength < raw.length then .error .filterTooLong
    else
      let (name, separator, value) := partition (ofChar ':') raw
      if separator = [] ∨ value = [] ∨ value ≠ stripText value ∨ isField name = false ∨
          name ∉ allowed ∨ name ∈ parsed.map (·.1) then .error .filterPair
      else parseEach allowed rest (parsed ++ [(name, value)])

/-- `parse_filters`; the dictionary it returns is its items in their order. -/
def parseFilters (values : Option (List Text)) (allowed : Finset Text) :
    Except QueryError (List (Text × Text)) := do
  validateAllowedFields allowed false
  let rawFilters := values.getD []
  if maxFilters < rawFilters.length then .error .filters
  else parseEach allowed rawFilters []

/-- A pair as it is written in a query. -/
def renderFilter (pair : Text × Text) : Text := pair.1 ++ ofChar ':' :: pair.2

/-- The pair that a filter is parsed to. -/
def pairOf (raw : Text) : Text × Text :=
  ((partition (ofChar ':') raw).1, (partition (ofChar ':') raw).2.2)

/-- A filter that is accepted on its own. -/
structure IsFilter (allowed : Finset Text) (raw : Text) : Prop where
  length_le : raw.length ≤ maxQueryValueLength
  rendered : renderFilter (pairOf raw) = raw
  value_ne : (pairOf raw).2 ≠ []
  stripped : (pairOf raw).2 = stripText (pairOf raw).2
  isField : isField (pairOf raw).1 = true
  allowed : (pairOf raw).1 ∈ allowed

section
variable {allowed : Finset Text}

/-- The parts of a text, one behind the other, are the text. -/
theorem partition_append (separator : CodePoint) (t : Text) :
    (partition separator t).1 ++ ((partition separator t).2.1 ++ (partition separator t).2.2) = t ∧
      ((partition separator t).2.1 = [separator] ∨
        (partition separator t).2.1 = [] ∧ (partition separator t).2.2 = []) := by
  induction t with
  | nil => exact ⟨rfl, .inr ⟨rfl, rfl⟩⟩
  | cons c t ih =>
    rw [partition]
    split
    case isTrue h => exact ⟨rfl, .inl (congrArg ([·]) h)⟩
    case isFalse => exact ⟨congrArg (c :: ·) ih.1, ih.2⟩

/-- A text with the separator is rendered as it was, and no other. -/
theorem renderFilter_pairOf (raw : Text) :
    renderFilter (pairOf raw) = raw ↔ (partition (ofChar ':') raw).2.1 ≠ [] := by
  obtain ⟨happend, hfound | ⟨hfound, hback⟩⟩ := partition_append (ofChar ':') raw
  · rw [hfound] at happend ⊢
    exact iff_of_true happend (List.cons_ne_nil _ _)
  · rw [hfound, hback, List.append_nil, List.append_nil] at happend
    refine iff_of_false (fun h => ?_) (not_not.2 hfound)
    have hlength := congrArg List.length h
    rw [renderFilter, pairOf, happend, List.length_append, List.length_cons] at hlength
    omega

theorem isFilter_iff {raw name separator value : Text}
    (h : partition (ofChar ':') raw = (name, separator, value)) : IsFilter allowed raw ↔
      raw.length ≤ maxQueryValueLength ∧ ¬ (separator = [] ∨ value = [] ∨ value ≠ stripText value ∨
        isField name = false ∨ name ∉ allowed) := by
  have hrendered := renderFilter_pairOf raw
  have hpair : pairOf raw = (name, value) := by rw [pairOf, h]
  rw [h, hpair] at hrendered
  simp only [not_or, not_not, ne_eq, Bool.not_eq_false]
  constructor
  · rintro ⟨hlength, hrender, hne, hstrip, hfield, hallowed⟩
    rw [hpair] at hrender hne hstrip hfield hallowed
    exact ⟨hlength, hrendered.1 hrender, hne, hstrip, hfield, hallowed⟩
  · rintro ⟨hlength, hfound, hne, hstrip, hfield, hallowed⟩
    exact ⟨hlength, by rw [hpair]; exact hrendered.2 hfound, by rwa [hpair], by rwa [hpair],
      by rwa [hpair], by rwa [hpair]⟩

/-- The loop accepts filters one by one, with new names. -/
theorem parseEach_eq_ok {raws : List Text} {parsed pairs : List (Text × Text)}
    (hparsed : (parsed.map (·.1)).Nodup) : parseEach allowed raws parsed = .ok pairs ↔
      (∀ raw ∈ raws, IsFilter allowed raw) ∧ ((parsed ++ raws.map pairOf).map (·.1)).Nodup ∧
        pairs = parsed ++ raws.map pairOf := by
  induction raws generalizing parsed with
  | nil => simp [parseEach, hparsed, eq_comm]
  | cons raw raws ih =>
    rcases hp : partition (ofChar ':') raw with ⟨name, separator, value⟩
    have hpair : pairOf raw = (name, value) := by rw [pairOf, hp]
    have hfilter := @isFilter_iff allowed _ _ _ _ hp
    have happend : parsed ++ (raw :: raws).map pairOf =
        (parsed ++ [(name, value)]) ++ raws.map pairOf := by
      rw [List.map_cons, hpair, List.append_assoc, List.singleton_append]
    have hnew : ((parsed ++ [(name, value)]).map (·.1)).Nodup ↔ name ∉ parsed.map (·.1) := by
      rw [List.map_append, List.map_singleton, List.nodup_append_comm, List.singleton_append,
        List.nodup_cons]
      exact and_iff_left hparsed
    rw [parseEach, hp, happend, List.forall_mem_cons, hfilter]
    dsimp only
    split
    case isTrue hlong => simp [Nat.not_le.2 hlong]
    case isFalse hshort =>
      split
      case isTrue hbad =>
        refine iff_of_false (by simp) ?_
        rintro ⟨⟨⟨-, hgood⟩, -⟩, hnodup, -⟩
        rw [List.map_append] at hnodup
        have hnot := hnew.1 (List.nodup_append.1 hnodup).1
        tauto
      case isFalse hgood =>
        simp only [not_or] at hgood
        rw [ih (hnew.2 (by tauto))]
        refine and_congr_left fun _ => ?_
        simp only [not_or]
        have := Nat.not_lt.1 hshort
        tauto

theorem parseFilters_eq_ok {values : Option (List Text)} {pairs : List (Text × Text)} :
    parseFilters values allowed = .ok pairs ↔
      validateAllowedFields allowed false = .ok () ∧ (values.getD []).length ≤ maxFilters ∧
        (∀ raw ∈ values.getD [], IsFilter allowed raw) ∧
        (((values.getD []).map pairOf).map (·.1)).Nodup ∧ pairs = (values.getD []).map pairOf := by
  have hnil : (([] : List (Text × Text)).map (·.1)).Nodup := List.nodup_nil
  rw [parseFilters]
  cases validateAllowedFields allowed false with
  | error e => simp [bind, Except.bind]
  | ok =>
    dsimp only [bind, Except.bind]
    split
    case isTrue hmany => simp [Nat.not_le.2 hmany]
    case isFalse hfew => simp [parseEach_eq_ok hnil, Nat.not_lt.1 hfew]

/-- The same items in another order are the same mapping. -/
theorem lookup_eq_of_perm {pairs pairs' : List (Text × Text)} (h : pairs.Perm pairs')
    (hnodup : (pairs.map (·.1)).Nodup) (name : Text) : pairs.lookup name = pairs'.lookup name := by
  induction h with
  | nil => rfl
  | cons x _ ih =>
    rw [List.lookup_cons, List.lookup_cons, ih (List.nodup_cons.1 hnodup).2]
  | swap x y pairs =>
    have hne : x.1 ≠ y.1 := fun h => (List.nodup_cons.1 hnodup).1 (by simp [h])
    rw [List.lookup_cons, List.lookup_cons, List.lookup_cons, List.lookup_cons]
    cases hx : name == x.1 with
    | false => rfl
    | true =>
      have hy : (name == y.1) = false := by
        rw [eq_of_beq hx]
        exact beq_false_of_ne hne
      rw [hy]
  | trans h _ ih ih' => rw [ih hnodup, ih' ((h.map _).nodup_iff.1 hnodup)]

/-- Accepted filters are rendered as they were written, and their order does not matter. -/
theorem parseFilters_lossless {values : List Text} {pairs : List (Text × Text)}
    (h : parseFilters (some values) allowed = .ok pairs) :
    pairs.map renderFilter = values ∧
    ∀ permuted : List Text, permuted.Perm values →
      ∃ pairs', parseFilters (some permuted) allowed = .ok pairs' ∧ pairs'.Perm pairs ∧
        ∀ name, pairs'.lookup name = pairs.lookup name := by
  obtain ⟨hvalid, hfew, hfilters, hnodup, rfl⟩ := parseFilters_eq_ok.1 h
  rw [Option.getD_some] at *
  refine ⟨?_, fun permuted hperm => ?_⟩
  · rw [List.map_map]
    exact (List.map_congr_left fun raw hraw => (hfilters raw hraw).rendered).trans (List.map_id _)
  · have hpairs := hperm.map pairOf
    have hnodup' := (hpairs.map (·.1)).nodup_iff.2 hnodup
    refine ⟨permuted.map pairOf, parseFilters_eq_ok.2 ⟨hvalid, ?_, ?_, hnodup', rfl⟩, hpairs,
      lookup_eq_of_perm hpairs hnodup'⟩
    · rw [Option.getD_some, hperm.length_eq]
      exact hfew
    · exact fun raw hraw => hfilters raw (hperm.mem_iff.1 hraw)

end

/-! ## Sorting -/

inductive Direction
  | asc | desc
  deriving DecidableEq

/-- `SortField`. -/
structure SortField where
  name : Text
  direction : Direction
  deriving DecidableEq

/-- The tie-breaker. -/
def idAsc : SortField := ⟨idField, .asc⟩

/-- The field that a piece of a sort string names, with `str.removeprefix("-")`. -/
def fieldOf (raw : Text) : SortField :=
  if raw.head? = some (ofChar '-') then ⟨raw.tail, .desc⟩ else ⟨raw, .asc⟩

/-- The loop of `parse_sort`, with the names seen so far. -/
def parseFields (allowed : Finset Text) :
    List Text → List Text → List SortField → Except QueryError (List Text × List SortField)
  | [], seen, fields => .ok (seen, fields)
  | raw :: rest, seen, fields =>
    let field := fieldOf raw
    if isField field.name = false ∨ field.name ∉ allowed then .error (.notAllowed field.name)
    else if field.name ∈ seen then .error .notUnique
    else parseFields allowed rest (field.name :: seen) (fields ++ [field])

/-- `value.split(",") if value else []`. -/
def splitSort (value : Option Text) : List Text :=
  match value with
  | some (c :: t) => (c :: t).splitOn (ofChar ',')
  | _ => []

/-- `parse_sort`. -/
def parseSort (value : Option Text) (allowed : Finset Text) :
    Except QueryError (List SortField) := do
  validateAllowedFields allowed true
  if value.any fun v => maxQueryValueLength < v.length then .error .sortTooLong
  else if maxSortFields < (splitSort value).length then .error .sortFields
  else
    let (seen, fields) ← parseFields allowed (splitSort value) [] []
    return if idField ∉ seen then fields ++ [idAsc] else fields

/-- A field as it is written in a query. -/
def renderField (field : SortField) : Text :=
  (match field.direction with
    | .asc => []
    | .desc => [ofChar '-']) ++ field.name

/-- Fields as they are written in a query. -/
def renderSort (fields : List SortField) : Text :=
  [ofChar ','].intercalate (fields.map renderField)

section
variable {allowed : Finset Text}

theorem renderField_fieldOf (raw : Text) : renderField (fieldOf raw) = raw := by
  unfold fieldOf
  split
  case isTrue h => exact List.cons_head?_tail h
  case isFalse => rfl

theorem renderSort_splitSort (value : Text) :
    renderSort ((splitSort (some value)).map fieldOf) = value := by
  rw [renderSort, List.map_map, show renderField ∘ fieldOf = id from funext renderField_fieldOf,
    List.map_id]
  cases value with
  | nil => rfl
  | cons c t => exact List.intercalate_splitOn _

/-- The loop accepts allowed fields one by one, with new names. -/
theorem parseFields_ok {raws seen seen' : List Text} {fields fields' : List SortField}
    (hseen : seen.Perm (fields.map (·.name))) (hnodup : seen.Nodup)
    (hallowed : ∀ f ∈ fields, f.name ∈ allowed)
    (h : parseFields allowed raws seen fields = .ok (seen', fields')) :
    fields' = fields ++ raws.map fieldOf ∧ seen'.Perm (fields'.map (·.name)) ∧ seen'.Nodup ∧
      ∀ f ∈ fields', f.name ∈ allowed := by
  induction raws generalizing seen fields with
  | nil =>
    cases h
    exact ⟨(List.append_nil _).symm, hseen, hnodup, hallowed⟩
  | cons raw raws ih =>
    rw [parseFields] at h
    split at h
    case isTrue => cases h
    case isFalse hgood =>
      split at h
      case isTrue => cases h
      case isFalse hnew =>
        simp only [not_or, not_not] at hgood
        have hall : ∀ f ∈ fields ++ [fieldOf raw], f.name ∈ allowed := by
          intro f hf
          rcases List.mem_append.1 hf with hf | hf
          · exact hallowed f hf
          · rw [List.mem_singleton.1 hf]
            exact hgood.2
        have hperm : ((fieldOf raw).name :: seen).Perm
            ((fields ++ [fieldOf raw]).map (·.name)) := by
          rw [List.map_append, List.map_singleton]
          exact (hseen.cons _).trans (List.perm_append_singleton _ _).symm
        obtain ⟨rfl, hrest⟩ := ih hperm (List.nodup_cons.2 ⟨hnew, hnodup⟩) hall h
        refine ⟨?_, hrest⟩
        rw [List.map_cons, List.append_assoc, List.singleton_append]

theorem idField_mem_allowed {u : Unit} (h : validateAllowedFields allowed true = .ok u) :
    idField ∈ allowed := by
  unfold validateAllowedFields at h
  split at h
  case isTrue => cases h
  case isFalse =>
    split at h
    case isTrue => cases h
    case isFalse hid => simpa using hid

/-- What an accepted sort string is turned into: its fields, and `id` where it is not among them. -/
theorem parseSort_lossless {value : Text} {fields : List SortField}
    (h : parseSort (some value) allowed = .ok fields) :
    (fields.map (·.name)).Nodup ∧ (∀ f ∈ fields, f.name ∈ allowed) ∧
    (fields.map (·.name)).count idField = 1 ∧
    ∃ written, renderSort written = value ∧
      (fields = written ∧ idField ∈ written.map (·.name) ∨
        fields = written ++ [idAsc] ∧ idField ∉ written.map (·.name)) := by
  rw [parseSort, bind_ok_iff] at h
  obtain ⟨u, hvalid, h⟩ := h
  split at h
  case isTrue => cases h
  split at h
  case isTrue => cases h
  rw [bind_ok_iff] at h
  obtain ⟨⟨seen, written⟩, hloop, h⟩ := h
  obtain ⟨hwritten, hperm, hnodup, hall⟩ :=
    parseFields_ok (show List.Perm [] (List.map _ []) from .refl []) List.nodup_nil (by simp) hloop
  rw [List.nil_append] at hwritten
  have hrender : renderSort written = value := hwritten ▸ renderSort_splitSort value
  have hnames : (written.map (·.name)).Nodup := hperm.nodup_iff.1 hnodup
  obtain rfl := Except.ok.inj h
  split
  case isTrue hid =>
    rw [hperm.mem_iff] at hid
    refine ⟨?_, ?_, ?_, written, hrender, .inr ⟨rfl, hid⟩⟩
    · rw [List.map_append, List.map_singleton, List.nodup_append_comm, List.singleton_append]
      exact List.nodup_cons.2 ⟨hid, hnames⟩
    · intro f hf
      rcases List.mem_append.1 hf with hf | hf
      · exact hall f hf
      · rw [List.mem_singleton.1 hf]
        exact idField_mem_allowed hvalid
    · rw [List.map_append, List.count_append, List.count_eq_zero.2 hid]
      simp [idAsc]
  case isFalse hid =>
    have hid := hperm.mem_iff.1 (not_not.1 hid)
    exact ⟨hnames, hall, List.count_eq_one_of_mem hnames hid, written, hrender, .inl ⟨rfl, hid⟩⟩

end

/-- **Query conventions parse without loss.** Accepted filters are rendered as they were written,
and in any other order they are accepted with an equal mapping. An accepted sort string names
distinct allowed fields, is given `id` exactly once, and is rendered as it was written. -/
theorem query_conventions (allowed : Finset Text) :
    (∀ values pairs, parseFilters (some values) allowed = .ok pairs →
      pairs.map renderFilter = values ∧
      ∀ permuted : List Text, permuted.Perm values →
        ∃ pairs', parseFilters (some permuted) allowed = .ok pairs' ∧ pairs'.Perm pairs ∧
          ∀ name, pairs'.lookup name = pairs.lookup name) ∧
    ∀ value fields, parseSort (some value) allowed = .ok fields →
      (fields.map (·.name)).Nodup ∧ (∀ f ∈ fields, f.name ∈ allowed) ∧
      (fields.map (·.name)).count idField = 1 ∧
      ∃ written, renderSort written = value ∧
        (fields = written ∧ idField ∈ written.map (·.name) ∨
          fields = written ++ [idAsc] ∧ idField ∉ written.map (·.name)) :=
  ⟨fun _ _ => parseFilters_lossless, fun _ _ => parseSort_lossless⟩

/-- A sort string with the tie-breaker left to the parser, and a filter with colons in its value. -/
theorem query_conventions_status :
    ([(ofString "status", ofString "a:b")] : List (Text × Text)).map renderFilter =
      [ofString "status:a:b"] ∧
    ([⟨ofString "status", .desc⟩, idAsc].map SortField.name).Nodup := by
  have hfilters : parseFilters (some [ofString "status:a:b"]) {ofString "status", idField} =
      .ok [(ofString "status", ofString "a:b")] := by decide +kernel
  have hsort : parseSort (some (ofString "-status")) {ofString "status", idField} =
      .ok [⟨ofString "status", .desc⟩, idAsc] := by decide +kernel
  exact ⟨((query_conventions _).1 _ _ hfilters).1, ((query_conventions _).2 _ _ hsort).1⟩

end Ekumidayomi.Api
