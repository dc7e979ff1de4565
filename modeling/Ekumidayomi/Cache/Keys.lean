import Ekumidayomi.Text
import Ekumidayomi.Lib.Framing
import Ekumidayomi.Lib.Python

/-!
# Cache keys

`cache/keys.py`. A segment holds none of the delimiters of a rendered key, so the delimiters cut the
rendered key into its segments again, and keys are told apart by what they are rendered to
(`cache_keys_apart`). The hash tag of a key is its four segments.
-/

namespace Ekumidayomi.Cache

open Unicode

/-- `_SEGMENT`, which is `[A-Za-z0-9][A-Za-z0-9._-]{0,63}`, matched in full. -/
def isSegment : Text → Bool
  | [] => false
  | first :: rest =>
    (toChar first).any isAlnum && rest.length ≤ 63 &&
      rest.all fun c => (toChar c).any fun char =>
        isAlnum char || char == '.' || char == '_' || char == '-'

/-- `CacheKey`, with the checks of `__post_init__`. -/
@[ext] structure CacheKey where
  environment : Text
  owner : Text
  version : Nat
  scope : Text
  identifier : Text
  version_range : 1 ≤ version ∧ version ≤ 999
  environment_safe : isSegment environment = true
  owner_safe : isSegment owner = true
  scope_safe : isSegment scope = true
  identifier_safe : isSegment identifier = true

/-- The constructor of `CacheKey`; it fails with the text of the error. -/
def CacheKey.create (environment owner : Text) (version : Int) (scope identifier : Text) :
    Except String CacheKey :=
  if hversion : 1 ≤ version ∧ version ≤ 999 then
    if henvironment : isSegment environment = true then
      if howner : isSegment owner = true then
        if hscope : isSegment scope = true then
          if hidentifier : isSegment identifier = true then
            .ok { environment, owner, version := version.toNat, scope, identifier
                  version_range := by omega
                  environment_safe := henvironment
                  owner_safe := howner
                  scope_safe := hscope
                  identifier_safe := hidentifier }
          else .error "unsafe cache key segment: identifier"
        else .error "unsafe cache key segment: scope"
      else .error "unsafe cache key segment: owner"
    else .error "unsafe cache key segment: environment"
  else .error "version must be an integer between 1 and 999"

/-- A key is created from its own fields. -/
theorem CacheKey.create_self (key : CacheKey) :
    CacheKey.create key.environment key.owner key.version key.scope key.identifier = .ok key := by
  have hversion := key.version_range
  rw [create, dif_pos (by omega), dif_pos key.environment_safe, dif_pos key.owner_safe,
    dif_pos key.scope_safe, dif_pos key.identifier_safe]
  rfl

/-- The segments, joined by colons. -/
def CacheKey.slot (key : CacheKey) : Text :=
  key.environment ++ ofChar ':' :: (key.owner ++ ofChar ':' :: (key.scope ++ ofChar ':' ::
    key.identifier))

/-- `render`. -/
def CacheKey.render (key : CacheKey) : Text :=
  ofString "ekumidayomi:" ++ ofChar '{' :: (key.slot ++ ofChar '}' :: (ofString ":v" ++
    Python.natText key.version))

/-- `lock_key`. -/
def CacheKey.lockKey (key : CacheKey) : Text := key.render ++ ofString ":lock"

/-- The hash tag of a Redis Cluster key: the text between the first opening brace and the next
closing one. -/
def hashTag (key : Text) : Option Text :=
  match key.dropWhile (· ≠ ofChar '{') with
  | [] => none
  | _ :: rest => if ofChar '}' ∈ rest then some (rest.takeWhile (· ≠ ofChar '}')) else none

/-! ## Delimiters -/

section
variable {t : Text} {key key' : CacheKey}

/-- A segment holds no delimiter. -/
theorem not_mem_of_isSegment (h : isSegment t = true) {d : Char}
    (hd : d = ':' ∨ d = '{' ∨ d = '}') : ofChar d ∉ t := by
  have hno : (isAlnum d || d == '.' || d == '_' || d == '-') = false := by
    rcases hd with rfl | rfl | rfl <;> decide
  cases t with
  | nil => cases h
  | cons first rest =>
    simp only [isSegment, Bool.and_eq_true, List.all_eq_true] at h
    obtain ⟨⟨hfirst, -⟩, hrest⟩ := h
    intro hmem
    rcases List.mem_cons.1 hmem with rfl | hmem
    · rw [toChar_ofChar, Option.any_some] at hfirst
      simp [hfirst] at hno
    · have hchar := hrest _ hmem
      rw [toChar_ofChar, Option.any_some, hno] at hchar
      cases hchar

/-- The segments are cut apart at the colons. -/
theorem slot_inj (h : key.slot = key'.slot) : key.environment = key'.environment ∧
    key.owner = key'.owner ∧ key.scope = key'.scope ∧ key.identifier = key'.identifier := by
  have hcolon : ∀ {t}, isSegment t = true → ofChar ':' ∉ t :=
    fun ht => not_mem_of_isSegment ht (.inl rfl)
  obtain ⟨henvironment, h⟩ :=
    Framing.separated_inj (hcolon key.environment_safe) (hcolon key'.environment_safe) h
  obtain ⟨howner, h⟩ := Framing.separated_inj (hcolon key.owner_safe) (hcolon key'.owner_safe) h
  exact ⟨henvironment, howner,
    Framing.separated_inj (hcolon key.scope_safe) (hcolon key'.scope_safe) h⟩

/-- No brace is in the segments or the colons between them. -/
theorem not_mem_slot {d : Char} (hd : d = '{' ∨ d = '}') : ofChar d ∉ key.slot := by
  have hsegment : ∀ {t}, isSegment t = true → ofChar d ∉ t :=
    fun ht => not_mem_of_isSegment ht (.inr hd)
  have hcolon : ofChar d ≠ ofChar ':' := by
    rcases hd with rfl | rfl <;> exact fun h => absurd (ofChar_injective h) (by decide)
  simp [CacheKey.slot, hcolon, hsegment key.environment_safe, hsegment key.owner_safe,
    hsegment key.scope_safe, hsegment key.identifier_safe]

/-- A rendered key, whatever stands behind it, is cut into its segments and its version. -/
theorem render_append_inj {u u' : Text} (h : key.render ++ u = key'.render ++ u') :
    key.slot = key'.slot ∧
      Python.natText key.version ++ u = Python.natText key'.version ++ u' := by
  simp only [CacheKey.render, List.append_assoc, List.cons_append] at h
  obtain ⟨hslot, htail⟩ := Framing.separated_inj (not_mem_slot (.inr rfl)) (not_mem_slot (.inr rfl))
    (List.cons.inj (List.append_cancel_left h)).2
  exact ⟨hslot, List.append_cancel_left htail⟩

theorem natText_inj {m n : Nat} (h : Python.natText m = Python.natText n) : m = n :=
  toDigits_inj (List.map_injective_iff.2 ofChar_injective h)

/-- Keys that are rendered alike, before the same suffix, are the same. -/
theorem eq_of_render_append {u : Text} (h : key.render ++ u = key'.render ++ u) : key = key' := by
  obtain ⟨hslot, hversion⟩ := render_append_inj h
  obtain ⟨henvironment, howner, hscope, hidentifier⟩ := slot_inj hslot
  exact CacheKey.ext henvironment howner (natText_inj (List.append_cancel_right hversion)) hscope
    hidentifier

/-- A lock key goes on where the value key of any version ends. -/
theorem lockKey_ne_render : key.lockKey ≠ key'.render := by
  intro h
  have hrender : key.render ++ ofString ":lock" = key'.render ++ [] :=
    h.trans (List.append_nil _).symm
  have hversion := (render_append_inj hrender).2
  have hmem : ofChar ':' ∈ Python.natText key'.version := by
    rw [List.append_nil] at hversion
    rw [← hversion]
    exact List.mem_append_right _ (List.mem_map_of_mem (by decide))
  obtain ⟨c, hc, heq⟩ := List.mem_map.1 hmem
  rw [ofChar_injective heq] at hc
  exact absurd (Nat.isDigit_of_mem_toDigits (by decide) (by decide) hc) (by decide)

/-- The hash tag of what begins with a rendered key is its slot. -/
theorem hashTag_render_append (u : Text) : hashTag (key.render ++ u) = some key.slot := by
  have hname : ∀ c ∈ ofString "ekumidayomi:", decide (c ≠ ofChar '{') = true := by
    intro c hc
    obtain ⟨d, hd, rfl⟩ := List.mem_map.1 hc
    refine decide_eq_true fun heq => ?_
    rw [ofChar_injective heq] at hd
    exact absurd hd (by decide)
  have hfront : (key.render ++ u).dropWhile (· ≠ ofChar '{') =
      ofChar '{' :: (key.slot ++ ofChar '}' :: (ofString ":v" ++
        (Python.natText key.version ++ u))) := by
    simp only [CacheKey.render, List.append_assoc, List.cons_append]
    rw [List.dropWhile_append_of_pos hname]
    exact List.dropWhile_cons_of_neg (by simp)
  have hslot : ∀ c ∈ key.slot, decide (c ≠ ofChar '}') = true := by
    rintro c hc
    refine decide_eq_true ?_
    rintro rfl
    exact not_mem_slot (.inr rfl) hc
  rw [hashTag, hfront]
  dsimp only
  rw [if_pos (List.mem_append_right _ List.mem_cons_self), List.takeWhile_append_of_pos hslot,
    List.takeWhile_cons_of_neg (by simp), List.append_nil]

/-- **Cache keys never collide.** Keys are rendered to different value keys and different lock keys
unless they are the same, no lock key is a value key, and both keys of one have the same hash
tag. -/
theorem cache_keys_apart (key key' : CacheKey) :
    (key.render = key'.render ↔ key = key') ∧ (key.lockKey = key'.lockKey ↔ key = key') ∧
    key.lockKey ≠ key'.render ∧
    hashTag key.render = some key.slot ∧ hashTag key.lockKey = some key.slot := by
  have hself : ∀ key : CacheKey, key.render ++ [] = key.render := fun _ => List.append_nil _
  refine ⟨⟨fun h => ?_, fun h => h ▸ rfl⟩, ⟨eq_of_render_append, fun h => h ▸ rfl⟩,
    lockKey_ne_render, ?_, hashTag_render_append _⟩
  · rw [← hself key, ← hself key'] at h
    exact eq_of_render_append h
  · rw [← hself key]
    exact hashTag_render_append []

end

end Ekumidayomi.Cache
