import Mathlib.Data.List.Perm.Subperm
import Ekumidayomi.Lib.JsonRoundTrip

/-!
# Which values come back equal

What comes back for a value, `Value.coerced`, is equal to the value exactly when no tuple is in it
and every key of its dictionaries is a string (`coerced_eq_iff`); then it is the value itself.
-/

namespace Python

open Unicode

variable {F : Type} {floats : Floats F} {limits : Limits}

mutual

/-- No tuple is in the value, and the keys of its dictionaries are strings. -/
def Value.isPlain : Value F → Bool
  | .list items => isPlainItems items
  | .tuple _ => false
  | .dict entries => isPlainEntries entries
  | _ => true

def isPlainItems : List (Value F) → Bool
  | [] => true
  | v :: items => v.isPlain && isPlainItems items

def isPlainEntries : List (Key F × Value F) → Bool
  | [] => true
  | (.str _, v) :: entries => v.isPlain && isPlainEntries entries
  | _ :: _ => false

end

/-! ## Members of a dictionary -/

section
variable {α : Type} {d members : List (Text × α)} {e : Text × α}

theorem map_fst_insertKey (d : List (Text × α)) (e : Text × α) :
    (insertKey d e).map (·.1) =
      if d.any (·.1 == e.1) then d.map (·.1) else d.map (·.1) ++ [e.1] := by
  unfold insertKey
  split
  case isTrue =>
    rw [List.map_map]
    refine List.map_congr_left fun e' _ => ?_
    dsimp only [Function.comp_apply]
    split
    case isTrue heq => exact (beq_iff_eq.1 heq).symm
    case isFalse => rfl
  case isFalse =>
    rw [List.map_append]
    rfl

/-- The names of a dictionary differ. -/
theorem nodup_insertKey (h : (d.map (·.1)).Nodup) : ((insertKey d e).map (·.1)).Nodup := by
  rw [map_fst_insertKey]
  split
  case isTrue => exact h
  case isFalse hnew =>
    refine List.nodup_append.2 ⟨h, List.pairwise_singleton _ _, fun a ha b hb hab => hnew ?_⟩
    obtain ⟨e', he', rfl⟩ := List.mem_map.1 ha
    exact List.any_eq_true.2 ⟨e', he', beq_iff_eq.2 (hab.trans (List.mem_singleton.1 hb))⟩

theorem nodup_foldl_insertKey (members : List (Text × α)) (h : (d.map (·.1)).Nodup) :
    ((members.foldl insertKey d).map (·.1)).Nodup := by
  induction members generalizing d with
  | nil => exact h
  | cons e members ih => exact ih (nodup_insertKey h)

/-- Members whose names differ are kept as they are. -/
theorem foldl_insertKey_of_nodup (h : ((d ++ members).map (·.1)).Nodup) :
    members.foldl insertKey d = d ++ members := by
  induction members generalizing d with
  | nil => exact (List.append_nil d).symm
  | cons e members ih =>
    have hnew : d.any (·.1 == e.1) = false := by
      rw [List.map_append, List.map_cons, List.nodup_append] at h
      refine List.any_eq_false.2 fun e' he' heq => ?_
      exact h.2.2 _ (List.mem_map_of_mem he') _ List.mem_cons_self (beq_iff_eq.1 heq)
    have happend : d ++ e :: members = (d ++ [e]) ++ members := by simp
    rw [List.foldl_cons, insertKey, if_neg (by simp [hnew]), happend]
    exact ih (happend ▸ h)

end

/-! ## Lookups -/

theorem Key.eq_str {key : Key F} {s : Text} : key.eq floats (.str s) = true ↔ key = .str s := by
  cases key <;> simp [Key.eq, Key.number]

/-- The keys of a dictionary that are strings. -/
def strings (entries : List (Key F × Value F)) : List Text :=
  entries.filterMap fun e => match e.1 with
    | .str s => some s
    | _ => none

theorem mem_strings {entries : List (Key F × Value F)} {s : Text} :
    s ∈ strings entries ↔ ∃ v, (.str s, v) ∈ entries := by
  constructor
  · intro h
    obtain ⟨⟨key, v⟩, hmem, hkey⟩ := List.mem_filterMap.1 h
    cases key <;> cases hkey
    exact ⟨v, hmem⟩
  · rintro ⟨v, hmem⟩
    exact List.mem_filterMap.2 ⟨_, hmem, rfl⟩

/-- In a dictionary whose string keys differ, a string finds its own entry. -/
theorem lookup_str {entries : List (Key F × Value F)} (h : (strings entries).Nodup) {s : Text}
    {v : Value F} (hmem : (.str s, v) ∈ entries) : lookup floats entries (.str s) = some v := by
  induction entries with
  | nil => cases hmem
  | cons e entries ih =>
    obtain ⟨key, w⟩ := e
    have htail : (strings entries).Nodup := by
      cases key
      case str => exact (List.nodup_cons.1 h).2
      all_goals exact h
    rcases List.mem_cons.1 hmem with heq | htailmem
    · obtain ⟨rfl, rfl⟩ := Prod.mk.inj heq
      simp [lookup, Key.eq_str]
    · have hne : key.eq floats (.str s) = false := by
        refine Bool.not_eq_true _ ▸ fun heq => ?_
        obtain rfl := Key.eq_str.1 heq
        exact (List.nodup_cons.1 h).1 (mem_strings.2 ⟨v, htailmem⟩)
      rw [lookup, List.find?_cons]
      simp only [hne]
      exact ih htail htailmem

theorem lookup_mem {entries : List (Key F × Value F)} {s : Text} {v : Value F}
    (h : lookup floats entries (.str s) = some v) : (.str s, v) ∈ entries := by
  obtain ⟨⟨key, w⟩, hfind, rfl⟩ := Option.map_eq_some_iff.1 h
  have hfound := List.find?_some hfind
  have hkey : key.eq floats (.str s) = true := hfound
  obtain rfl := Key.eq_str.1 hkey
  exact List.mem_of_find?_eq_some hfind

/-- Every entry is compared with what its key finds. -/
theorem eqEntries_iff {entries entries' : List (Key F × Value F)} :
    eqEntries floats entries entries' = true ↔
      ∀ e ∈ entries, ∃ w, lookup floats entries' e.1 = some w ∧ e.2.eq floats w = true := by
  induction entries with
  | nil => simp [eqEntries]
  | cons e entries ih =>
    obtain ⟨key, v⟩ := e
    rw [eqEntries, Bool.and_eq_true, ih, List.forall_mem_cons]
    refine and_congr_left fun _ => ?_
    cases lookup floats entries' key <;> simp

/-! ## Equality -/

theorem map_fst_coercedEntries (entries : List (Key F × Value F)) :
    (coercedEntries floats entries).map (·.1) = entries.map fun e => keyString floats e.1 := by
  induction entries with
  | nil => rfl
  | cons e entries ih => rw [coercedEntries, List.map_cons, ih, List.map_cons]

theorem mem_coercedEntries {entries : List (Key F × Value F)} {key : Key F} {v : Value F}
    (h : (key, v) ∈ entries) :
    (keyString floats key, v.coerced floats) ∈ coercedEntries floats entries := by
  induction entries with
  | nil => cases h
  | cons e entries ih =>
    rcases List.mem_cons.1 h with rfl | h
    · exact List.mem_cons_self
    · exact List.mem_cons_of_mem _ (ih h)

/-- When only string keys are found among the strings that keys stand for, all keys are strings, and
they differ. -/
theorem strings_of_subset {entries : List (Key F × Value F)} {names : List Text}
    (hnames : names.Nodup)
    (hlength : names.length = entries.length) (hsubset : names ⊆ strings entries) :
    (strings entries).Nodup ∧ ∀ e ∈ entries, ∃ s, e.1 = .str s := by
  have hle : (strings entries).length ≤ names.length := by
    rw [hlength]
    exact List.length_filterMap_le _ _
  have hperm := (List.subperm_of_subset hnames hsubset).perm_of_length_le hle
  refine ⟨hperm.nodup_iff.1 hnames, fun e he => ?_⟩
  have hall := List.filterMap_length_eq_length.1 (hperm.length_eq.symm.trans hlength) e he
  obtain ⟨key, v⟩ := e
  cases key with
  | str s => exact ⟨s, rfl⟩
  | _ => cases hall

/-- A dictionary that comes back equal has only strings for keys, and its values come back equal. -/
theorem entries_of_eq {entries : List (Key F × Value F)}
    (h : (dictOf (coercedEntries floats entries)).eq floats (.dict entries) = true) :
    ∀ e ∈ entries, (∃ s, e.1 = .str s) ∧ (e.2.coerced floats).eq floats e.2 = true := by
  obtain ⟨hlength, heq⟩ := Bool.and_eq_true_iff.1 h
  rw [eqEntries_iff] at heq
  generalize hd : (coercedEntries floats entries).foldl insertKey [] = d at hlength heq
  have hnodup : (d.map (·.1)).Nodup := hd ▸ nodup_foldl_insertKey _ List.nodup_nil
  have hsubset : d.map (·.1) ⊆ strings entries := by
    intro s hs
    obtain ⟨⟨_, v⟩, hmem, rfl⟩ := List.mem_map.1 hs
    obtain ⟨w, hlookup, -⟩ := heq _ (List.mem_map_of_mem hmem)
    exact mem_strings.2 ⟨w, lookup_mem hlookup⟩
  obtain ⟨hstrings, hkeys⟩ := strings_of_subset hnodup (by simpa using hlength) hsubset
  -- the keys differ, so that nothing was merged
  have hsame : entries.map (fun e => keyString floats e.1) = strings entries := by
    clear hd hlength heq hsubset hnodup hstrings h
    induction entries with
    | nil => rfl
    | cons e entries ih =>
      obtain ⟨⟨s, hs⟩, htail⟩ := List.forall_mem_cons.1 hkeys
      obtain ⟨key, v⟩ := e
      obtain rfl : key = .str s := hs
      exact congrArg (s :: ·) (ih htail)
  have hkept : d = coercedEntries floats entries := by
    rw [← hd]
    refine foldl_insertKey_of_nodup ?_
    rw [List.nil_append, map_fst_coercedEntries, hsame]
    exact hstrings
  intro e he
  obtain ⟨s, hs⟩ := hkeys e he
  refine ⟨⟨s, hs⟩, ?_⟩
  obtain ⟨key, v⟩ := e
  obtain rfl : key = .str s := hs
  have hmem : (s, v.coerced floats) ∈ d := hkept ▸ mem_coercedEntries he
  obtain ⟨w, hlookup, hw⟩ := heq _ (List.mem_map_of_mem hmem)
  have hfound : lookup floats entries (.str s) = some v := lookup_str hstrings he
  rwa [← Option.some.inj (hfound.symm.trans hlookup)] at hw

mutual

theorem isPlain_of_eq : ∀ v : Value F, (v.coerced floats).eq floats v = true → v.isPlain = true
  | .list items, h => isPlainItems_of_eq items h
  | .tuple items, h => by cases h
  | .dict entries, h => isPlainEntries_of_eq entries (entries_of_eq h)
  | .none, _ | .bool _, _ | .int _, _ | .float _, _ | .str _, _ | .other, _ => rfl

theorem isPlainItems_of_eq : ∀ items : List (Value F),
    eqItems floats (coercedItems floats items) items = true → isPlainItems items = true
  | [], _ => rfl
  | v :: items, h => by
    obtain ⟨hv, hitems⟩ := Bool.and_eq_true_iff.1 h
    exact Bool.and_eq_true_iff.2 ⟨isPlain_of_eq v hv, isPlainItems_of_eq items hitems⟩

theorem isPlainEntries_of_eq : ∀ entries : List (Key F × Value F),
    (∀ e ∈ entries, (∃ s, e.1 = .str s) ∧ (e.2.coerced floats).eq floats e.2 = true) →
    isPlainEntries entries = true
  | [], _ => rfl
  | (key, v) :: entries, h => by
    obtain ⟨⟨⟨s, hs⟩, hv⟩, hentries⟩ := List.forall_mem_cons.1 h
    obtain rfl : key = .str s := hs
    exact Bool.and_eq_true_iff.2 ⟨isPlain_of_eq v hv, isPlainEntries_of_eq entries hentries⟩

end

/-- The string keys of a well-formed dictionary differ. -/
theorem nodup_strings {entries : List (Key F × Value F)}
    (h : (entries.map (·.1)).Pairwise fun k l => k.eq floats l = false) :
    (strings entries).Nodup := by
  induction entries with
  | nil => exact List.nodup_nil
  | cons e entries ih =>
    obtain ⟨key, v⟩ := e
    obtain ⟨hkey, htail⟩ := List.pairwise_cons.1 h
    cases key
    case str s =>
      refine List.nodup_cons.2 ⟨fun hmem => ?_, ih htail⟩
      obtain ⟨w, hw⟩ := mem_strings.1 hmem
      have hne := hkey _ (List.mem_map_of_mem hw)
      rw [Key.eq_str.2 rfl] at hne
      cases hne
    all_goals exact ih htail

/-- In a dictionary of strings the keys stand for themselves. -/
theorem keyStrings_of_isPlain {entries : List (Key F × Value F)}
    (h : isPlainEntries entries = true) :
    entries.map (fun e => keyString floats e.1) = strings entries := by
  induction entries with
  | nil => rfl
  | cons e entries ih =>
    obtain ⟨key, v⟩ := e
    cases key
    case str s => exact congrArg (s :: ·) (ih (Bool.and_eq_true_iff.1 h).2)
    all_goals cases h

mutual

/-- A plain value comes back as it is. -/
theorem coerced_of_isPlain : ∀ v : Value F, v.isPlain = true → v.WellFormed floats →
    v.coerced floats = v
  | .list items, h, hwf => congrArg Value.list (coercedItems_of_isPlain items h hwf)
  | .tuple items, h, _ => by cases h
  | .dict entries, h, hwf => by
    have hnodup : (([] ++ coercedEntries floats entries).map Prod.fst).Nodup := by
      rw [List.nil_append]
      rw [map_fst_coercedEntries, keyStrings_of_isPlain h]
      exact nodup_strings hwf.1
    show dictOf (coercedEntries floats entries) = .dict entries
    rw [dictOf, foldl_insertKey_of_nodup hnodup]
    exact congrArg Value.dict (coercedEntries_of_isPlain entries h hwf.2)
  | .none, _, _ | .bool _, _, _ | .int _, _, _ | .float _, _, _ | .str _, _, _ | .other, _, _ => rfl

theorem coercedItems_of_isPlain : ∀ items : List (Value F), isPlainItems items = true →
    WellFormedItems floats items → coercedItems floats items = items
  | [], _, _ => rfl
  | v :: items, h, hwf => by
    obtain ⟨hv, hitems⟩ := Bool.and_eq_true_iff.1 h
    rw [coercedItems, coerced_of_isPlain v hv hwf.1, coercedItems_of_isPlain items hitems hwf.2]

theorem coercedEntries_of_isPlain : ∀ entries : List (Key F × Value F),
    isPlainEntries entries = true → WellFormedEntries floats entries →
    (coercedEntries floats entries).map (fun e => (Key.str e.1, e.2)) = entries
  | [], _, _ => rfl
  | (.str s, v) :: entries, h, hwf => by
    obtain ⟨hv, hentries⟩ := Bool.and_eq_true_iff.1 h
    rw [coercedEntries, List.map_cons, coerced_of_isPlain v hv hwf.1,
      coercedEntries_of_isPlain entries hentries hwf.2]
    rfl
  | (.none, _) :: _, h, _ | (.bool _, _) :: _, h, _ | (.int _, _) :: _, h, _
  | (.float _, _) :: _, h, _ | (.other, _) :: _, h, _ => by cases h

end

mutual

/-- A plain value that `json.dumps` writes is equal to itself. -/
theorem eq_self_of_dumps : ∀ (v : Value F) {depth : Nat} {text : Text},
    dumps floats limits depth v = .ok text → v.isPlain = true → v.WellFormed floats →
    v.eq floats v = true
  | .none, _, _, _, _, _ => rfl
  | .bool b, _, _, _, _, _ => beq_self_eq_true _
  | .int i, _, _, _, _, _ => beq_self_eq_true _
  | .float x, _, _, h, _, _ => floats.eq_self x (dumpsFloat_ok h).1
  | .str s, _, _, _, _, _ => beq_self_eq_true _
  | .list items, _, _, h, hplain, hwf => by
    obtain ⟨_, -, h⟩ := bind_ok h
    obtain ⟨texts, htexts, -⟩ := bind_ok h
    exact eqItems_self_of_dumps items htexts hplain hwf
  | .tuple items, _, _, _, hplain, _ => by cases hplain
  | .dict entries, _, _, h, hplain, hwf => by
    obtain ⟨_, -, h⟩ := bind_ok h
    obtain ⟨texts, htexts, -⟩ := bind_ok h
    refine Bool.and_eq_true_iff.2 ⟨beq_self_eq_true _, eqEntries_iff.2 fun e he => ?_⟩
    obtain ⟨⟨s, hs⟩, heq⟩ := eqEntries_self_of_dumps entries htexts hplain hwf.2 e he
    obtain ⟨key, v⟩ := e
    obtain rfl : key = .str s := hs
    exact ⟨v, lookup_str (nodup_strings hwf.1) he, heq⟩
  | .other, _, _, h, _, _ => by cases h

theorem eqItems_self_of_dumps : ∀ (items : List (Value F)) {depth : Nat} {texts : List Text},
    dumpsItems floats limits depth items = .ok texts → isPlainItems items = true →
    WellFormedItems floats items → eqItems floats items items = true
  | [], _, _, _, _, _ => rfl
  | v :: items, _, _, h, hplain, hwf => by
    obtain ⟨text, htext, h⟩ := bind_ok h
    obtain ⟨texts, htexts, -⟩ := bind_ok h
    obtain ⟨hv, hitems⟩ := Bool.and_eq_true_iff.1 hplain
    exact Bool.and_eq_true_iff.2 ⟨eq_self_of_dumps v htext hv hwf.1,
      eqItems_self_of_dumps items htexts hitems hwf.2⟩

theorem eqEntries_self_of_dumps : ∀ (entries : List (Key F × Value F)) {depth : Nat}
    {texts : List Text}, dumpsEntries floats limits depth entries = .ok texts →
    isPlainEntries entries = true → WellFormedEntries floats entries →
    ∀ e ∈ entries, (∃ s, e.1 = .str s) ∧ e.2.eq floats e.2 = true
  | [], _, _, _, _, _ => nofun
  | (.str s, v) :: entries, _, _, h, hplain, hwf => by
    obtain ⟨name, -, h⟩ := bind_ok h
    obtain ⟨text, htext, h⟩ := bind_ok h
    obtain ⟨texts, htexts, -⟩ := bind_ok h
    obtain ⟨hv, hentries⟩ := Bool.and_eq_true_iff.1 hplain
    exact List.forall_mem_cons.2 ⟨⟨⟨s, rfl⟩, eq_self_of_dumps v htext hv hwf.1⟩,
      eqEntries_self_of_dumps entries htexts hentries hwf.2⟩
  | (.none, _) :: _, _, _, _, h, _ | (.bool _, _) :: _, _, _, _, h, _
  | (.int _, _) :: _, _, _, _, h, _
  | (.float _, _) :: _, _, _, _, h, _ | (.other, _) :: _, _, _, _, h, _ => by cases h

end

/-- A value that `json.dumps` writes comes back equal exactly when it is plain. -/
theorem coerced_eq_iff {v : Value F} {depth : Nat} {text : Text}
    (h : dumps floats limits depth v = .ok text) (hwf : v.WellFormed floats) :
    (v.coerced floats).eq floats v = true ↔ v.isPlain = true := by
  refine ⟨isPlain_of_eq v, fun hplain => ?_⟩
  rw [coerced_of_isPlain v hplain hwf]
  exact eq_self_of_dumps v h hplain hwf

end Python
