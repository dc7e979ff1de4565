import Ekumidayomi.Lib.Json

/-!
# What a scan takes

Every scan goes on with a shorter end of its text. So the steps of `scanText` suffice: a scan with
more steps than twice the length of its text does not depend on how many they are
(`scanText_steps`). And what it asks for is bounded by the text, by its digits in a row and by the
brackets and braces that it opens (`scanText_granted`).
-/

namespace Python

open Unicode

variable {F α β : Type} {floats : Floats F} {t rest : Text}

/-! ## What is left is shorter -/

/-- What is left of a text once something is read: an end of it, and shorter. -/
structure Follows (rest t : Text) : Prop where
  suffix : rest <:+ t
  lt : rest.length < t.length

theorem Follows.after {u : Text} (h : Follows rest t) (hsuffix : t <:+ u) : Follows rest u :=
  ⟨h.suffix.trans hsuffix, Nat.lt_of_lt_of_le h.lt hsuffix.length_le⟩

theorem Follows.before {u : Text} (h : Follows rest t) (hsuffix : u <:+ rest) : Follows u t :=
  ⟨hsuffix.trans h.suffix, Nat.lt_of_le_of_lt hsuffix.length_le h.lt⟩

theorem Follows.cons {c : CodePoint} : Follows t (c :: t) :=
  ⟨List.suffix_cons c t, Nat.lt_succ_self _⟩

theorem skipSpace_suffix (t : Text) : skipSpace t <:+ t := List.dropWhile_suffix isSpace

/-- What follows a string, if there is one. -/
def Shortens (x : Option (Text × Text)) (t : Text) : Prop :=
  ∀ s rest, x = some (s, rest) → Follows rest t

theorem Shortens.push {c : Option CodePoint} {x : Option (Text × Text)} {u : Text}
    (h : Shortens x t) (hsuffix : t <:+ u) : Shortens (push c x) u := by
  intro s rest hpush
  obtain ⟨c, -, hpush⟩ := Option.bind_eq_some_iff.1 hpush
  obtain ⟨⟨s', rest'⟩, hx, hpush⟩ := Option.bind_eq_some_iff.1 hpush
  obtain ⟨-, rfl⟩ := Prod.ext_iff.1 (Option.some.inj hpush)
  exact (h s' _ hx).after hsuffix

theorem scanString_shortens (t : Text) : Shortens (scanString t) t := by
  induction t using scanString.induct with
  | case1 => exact nofun
  | case2 t =>
    intro s rest h
    rw [scanString.eq_def] at h
    obtain ⟨-, rfl⟩ := Prod.ext_iff.1 (Option.some.inj h)
    exact .cons
  | case3 =>
    intro s rest h
    cases h
  | case4 w x y z t _ ih ihpair =>
    have halone : ∀ n, Shortens (push (codePoint n) (scanString t)) _ :=
      fun n => ih.push ⟨[ofChar '\\', ofChar 'u', w, x, y, z], rfl⟩
    intro s rest h
    rw [scanString.eq_def] at h
    obtain ⟨n, -, h⟩ := Option.bind_eq_some_iff.1 h
    dsimp only at h
    split at h
    case h_1 =>
      split at h
      case isTrue =>
        obtain ⟨m, -, h⟩ := Option.bind_eq_some_iff.1 h
        split at h
        case isTrue => exact (ihpair.push ⟨[_, _, _, _, _, _, _, _, _, _, _, _], rfl⟩) s rest h
        case isFalse => exact halone n s rest h
      case isFalse => exact halone n s rest h
    case h_2 => exact halone n s rest h
  | case5 t hshort =>
    intro s rest h
    rw [scanString.eq_def] at h
    dsimp only at h
    rw [if_neg (by decide), if_pos rfl, if_pos rfl] at h
    split at h
    · exact (hshort _ _ _ _ _ rfl).elim
    · cases h
  | case6 e t he _ ih =>
    intro s rest h
    rw [scanString.eq_def] at h
    dsimp only at h
    rw [if_neg (by decide), if_pos rfl, if_neg he] at h
    exact ih.push ⟨[ofChar '\\', e], rfl⟩ s rest h
  | case7 c t hquote hbackslash hcontrol =>
    intro s rest h
    rw [scanString.eq_def] at h
    dsimp only at h
    rw [if_neg hquote, if_neg hbackslash, if_pos hcontrol] at h
    cases h
  | case8 c t hquote hbackslash hcontrol ih =>
    intro s rest h
    rw [scanString.eq_def] at h
    dsimp only at h
    rw [if_neg hquote, if_neg hbackslash, if_neg hcontrol] at h
    exact ih.push (List.suffix_cons c t) s rest h

theorem scanSign_suffix {signs : List CodePoint} (t : Text) : (scanSign signs t).2 <:+ t := by
  unfold scanSign
  split
  · exact List.suffix_refl _
  · split
    · exact List.suffix_cons _ _
    · exact List.suffix_refl _

/-- The whole part of a number is all digits, at the beginning of its text. -/
theorem scanWhole_some {whole : Text} (h : scanWhole t = some (whole, rest)) :
    t = whole ++ rest ∧ 0 < whole.length ∧ ∀ c ∈ whole, isDigit c = true := by
  unfold scanWhole at h
  split at h
  case h_1 => cases h
  case h_2 c t =>
    split at h
    case isTrue hzero =>
      obtain ⟨rfl, rfl⟩ := Prod.ext_iff.1 (Option.some.inj h)
      refine ⟨rfl, Nat.one_pos, fun d hd => ?_⟩
      rw [List.mem_singleton.1 hd, hzero]
      decide
    case isFalse =>
      split at h
      case isTrue hdigit =>
        obtain ⟨rfl, rfl⟩ := Prod.ext_iff.1 (Option.some.inj h)
        refine ⟨?_, Nat.succ_pos _, ?_⟩
        · rw [List.cons_append, List.takeWhile_append_dropWhile]
        · rintro d (_ | ⟨_, hd⟩)
          · exact hdigit
          · exact List.all_eq_true.1 List.all_takeWhile d hd
      case isFalse => cases h

theorem scanFraction_suffix (t : Text) : (scanFraction t).2 <:+ t := by
  unfold scanFraction
  split
  case h_1 c d t =>
    split
    · exact (List.dropWhile_suffix isDigit).trans ⟨[c, d], rfl⟩
    · exact List.suffix_refl _
  case h_2 => exact List.suffix_refl _

theorem scanExponent_suffix (t : Text) : (scanExponent t).2 <:+ t := by
  unfold scanExponent
  split
  case h_1 => exact List.suffix_refl _
  case h_2 c t =>
    split
    case isTrue =>
      dsimp only
      split
      · exact List.suffix_refl _
      · exact ((List.dropWhile_suffix isDigit).trans (scanSign_suffix t)).trans
          (List.suffix_cons c t)
    case isFalse => exact List.suffix_refl _

/-- A number leaves a shorter end of its text, and its whole part is digits in a row there. -/
theorem matchNumber_some {sign whole more after : Text}
    (h : matchNumber t = some (sign, whole, more, after)) :
    Follows after t ∧ whole <:+: t ∧ ∀ c ∈ whole, isDigit c = true := by
  obtain ⟨⟨whole', t'⟩, hwhole, h⟩ := Option.bind_eq_some_iff.1 h
  obtain ⟨-, rfl, -, rfl⟩ := by simpa only [Prod.ext_iff] using Option.some.inj h
  obtain ⟨happend, hpos, hdigits⟩ := scanWhole_some hwhole
  have hsign : whole' ++ t' <:+ t := happend ▸ scanSign_suffix t
  have hrest : (scanExponent (scanFraction t').2).2 <:+ t' :=
    (scanExponent_suffix _).trans (scanFraction_suffix t')
  have hfollows : Follows t' (whole' ++ t') :=
    ⟨List.suffix_append _ _, by rw [List.length_append]; omega⟩
  refine ⟨(hfollows.before hrest).after hsign, ?_, hdigits⟩
  exact (List.prefix_append _ _).isInfix.trans hsign.isInfix

/-- What a scan leaves is a shorter end of a text. -/
def Leaves (x : Scan (α × Text)) (t : Text) : Prop :=
  ∀ a rest, x.result = some (a, rest) → Follows rest t

theorem Leaves.none (t : Text) : Leaves (.of none : Scan (α × Text)) t := nofun

theorem Leaves.pure {a : α} (h : Follows rest t) : Leaves (pure (a, rest)) t := by
  intro a' rest' heq
  obtain ⟨-, rfl⟩ := Prod.ext_iff.1 (Option.some.inj heq)
  exact h

theorem Leaves.bind {x : Scan α} {f : α → Scan (β × Text)}
    (hf : ∀ a, x.result = some a → Leaves (f a) t) : Leaves (x >>= f) t := by
  obtain ⟨demands, result⟩ := x
  cases result with
  | none => exact nofun
  | some a => exact fun b rest heq => hf a rfl b rest heq

theorem scanNumber_leaves (t : Text) : Leaves (scanNumber floats t) t := by
  refine .bind fun a ha => ?_
  obtain ⟨sign, whole, more, after⟩ := a
  have hafter := (matchNumber_some ha).1
  dsimp only
  split
  · exact .bind fun _ _ => .pure hafter
  · exact .pure hafter

theorem scanAtom_leaves (t : Text) : Leaves (scanAtom floats t) t := by
  unfold scanAtom
  split
  case h_1 name v h =>
    have hmem := List.mem_of_find?_eq_some h
    have hprefix : name.length ≤ t.length := by
      have := List.find?_some h
      exact (List.isPrefixOf_iff_prefix.1 this).length_le
    have hpos : 0 < name.length := by
      simp only [constants, List.mem_cons, List.not_mem_nil, or_false, Prod.mk.injEq] at hmem
      rcases hmem with ⟨rfl, -⟩ | ⟨rfl, -⟩ | ⟨rfl, -⟩ | ⟨rfl, -⟩ | ⟨rfl, -⟩ | ⟨rfl, -⟩ <;> decide
    refine .pure ⟨List.drop_suffix _ _, ?_⟩
    rw [List.length_drop]
    omega
  case h_2 => exact scanNumber_leaves t

theorem follows_of_skipSpace {c : CodePoint} {u : Text} (h : skipSpace t = c :: u) : Follows u t :=
  Follows.cons.after (h ▸ skipSpace_suffix t)

/-- What a scan leaves is a shorter end of its text. -/
structure Shrinks (floats : Floats F) (n : Nat) : Prop where
  once : ∀ depth t, Leaves (scanOnce floats n depth t) t
  items : ∀ depth t, Leaves (scanItems floats n depth t) t
  members : ∀ depth t, Leaves (scanMembers floats n depth t) t

theorem leaves_once {n : Nat} (h : Shrinks floats n) (depth : Nat) (t : Text) :
    Leaves (scanOnce floats (n + 1) depth t) t := by
  rw [scanOnce.eq_def]
  dsimp only
  split
  · exact .none _
  case h_2 c rest =>
    have hspace : Follows (skipSpace rest) (c :: rest) :=
      Follows.cons.before (skipSpace_suffix rest)
    split
    case isTrue =>
      refine .bind fun a ha => ?_
      exact .pure ((scanString_shortens rest a.1 a.2 ha).after (List.suffix_cons c rest))
    split
    case isTrue =>
      refine .bind fun _ _ => ?_
      split
      · exact .pure (hspace.before (List.tail_suffix _))
      · exact .bind fun a ha => .pure ((h.items _ _ a.1 a.2 ha).after hspace.suffix)
    split
    case isTrue =>
      refine .bind fun _ _ => ?_
      split
      · exact .pure (hspace.before (List.tail_suffix _))
      · exact .bind fun a ha => .pure ((h.members _ _ a.1 a.2 ha).after hspace.suffix)
    case isFalse => exact scanAtom_leaves _

theorem leaves_items {n : Nat} (h : Shrinks floats n) (depth : Nat) (t : Text) :
    Leaves (scanItems floats (n + 1) depth t) t := by
  rw [scanItems.eq_def]
  refine .bind fun a ha => ?_
  obtain ⟨v, rest⟩ := a
  have hrest := h.once _ _ v rest ha
  dsimp only
  split
  · exact .none _
  case h_2 c u hu =>
    have hfollows := (follows_of_skipSpace hu).after hrest.suffix
    split
    · exact .pure hfollows
    split
    · refine .bind fun a ha => .pure ?_
      exact (h.items _ _ a.1 a.2 ha).after ((skipSpace_suffix u).trans hfollows.suffix)
    · exact .none _

theorem leaves_members {n : Nat} (h : Shrinks floats n) (depth : Nat) (t : Text) :
    Leaves (scanMembers floats (n + 1) depth t) t := by
  rw [scanMembers.eq_def]
  dsimp only
  split
  · exact .none _
  case h_2 q rest =>
    split
    case isFalse => exact .none _
    refine .bind fun a ha => ?_
    obtain ⟨key, u⟩ := a
    have hu := (scanString_shortens rest key u ha).after (List.suffix_cons q rest)
    dsimp only
    split
    · exact .none _
    case h_2 c u' hu' =>
      have hfollows := (follows_of_skipSpace hu').after hu.suffix
      split
      case isFalse => exact .none _
      refine .bind fun a ha => ?_
      obtain ⟨v, w⟩ := a
      have hw := (h.once _ _ v w ha).after ((skipSpace_suffix u').trans hfollows.suffix)
      dsimp only
      split
      · exact .none _
      case h_2 c w' hw' =>
        have hfollows' := (follows_of_skipSpace hw').after hw.suffix
        split
        · exact .pure hfollows'
        split
        · refine .bind fun a ha => .pure ?_
          exact (h.members _ _ a.1 a.2 ha).after ((skipSpace_suffix w').trans hfollows'.suffix)
        · exact .none _

theorem shrinks (floats : Floats F) (n : Nat) : Shrinks floats n := by
  induction n with
  | zero => exact ⟨fun _ _ => .none _, fun _ _ => .none _, fun _ _ => .none _⟩
  | succ n ih => exact ⟨leaves_once ih, leaves_items ih, leaves_members ih⟩

/-! ## One more step changes nothing -/

theorem bind_congr_result {x y : Scan α} {f g : α → Scan β} (hx : x = y)
    (hf : ∀ a, x.result = some a → f a = g a) : x >>= f = y >>= g := by
  subst hx
  obtain ⟨demands, result⟩ := x
  cases result with
  | none => rfl
  | some a =>
    show (⟨_, _⟩ : Scan β) = ⟨_, _⟩
    rw [hf a rfl]

/-- A scan with enough steps does not need another. -/
structure Settled (floats : Floats F) (n : Nat) : Prop where
  once : ∀ depth t, 2 * t.length < n → scanOnce floats n depth t = scanOnce floats (n + 1) depth t
  items : ∀ depth t, 2 * t.length + 1 < n →
    scanItems floats n depth t = scanItems floats (n + 1) depth t
  members : ∀ depth t, 2 * t.length + 1 < n →
    scanMembers floats n depth t = scanMembers floats (n + 1) depth t

theorem settled_once {n : Nat} (h : Settled floats n) (depth : Nat) (t : Text)
    (ht : 2 * t.length < n + 1) :
    scanOnce floats (n + 1) depth t = scanOnce floats (n + 2) depth t := by
  rw [scanOnce.eq_def, scanOnce.eq_def floats (n + 2)]
  dsimp only
  cases t with
  | nil => rfl
  | cons c rest =>
    have hspace := (skipSpace_suffix rest).length_le
    rw [List.length_cons] at ht
    dsimp only
    rw [h.items _ (skipSpace rest) (by omega), h.members _ (skipSpace rest) (by omega)]

theorem settled_items {n : Nat} (h : Settled floats n) (depth : Nat) (t : Text)
    (ht : 2 * t.length + 1 < n + 1) :
    scanItems floats (n + 1) depth t = scanItems floats (n + 2) depth t := by
  rw [scanItems.eq_def, scanItems.eq_def floats (n + 2)]
  refine bind_congr_result (h.once _ _ (by omega)) fun a ha => ?_
  obtain ⟨v, rest⟩ := a
  have hrest := ((shrinks floats n).once _ _ v rest ha).lt
  dsimp only
  cases hu : skipSpace rest with
  | nil => rfl
  | cons c u =>
    have hlt := (follows_of_skipSpace hu).lt
    have hle := (skipSpace_suffix u).length_le
    dsimp only
    rw [h.items _ (skipSpace u) (by omega)]

theorem settled_members {n : Nat} (h : Settled floats n) (depth : Nat) (t : Text)
    (ht : 2 * t.length + 1 < n + 1) :
    scanMembers floats (n + 1) depth t = scanMembers floats (n + 2) depth t := by
  rw [scanMembers.eq_def, scanMembers.eq_def floats (n + 2)]
  dsimp only
  cases t with
  | nil => rfl
  | cons q rest =>
    rw [List.length_cons] at ht
    dsimp only
    split
    case isFalse => rfl
    refine bind_congr_result rfl fun a ha => ?_
    obtain ⟨key, u⟩ := a
    have hu := (scanString_shortens rest key u ha).lt
    dsimp only
    cases hu' : skipSpace u with
    | nil => rfl
    | cons c u' =>
      have hlt := (follows_of_skipSpace hu').lt
      have hle := (skipSpace_suffix u').length_le
      dsimp only
      split
      case isFalse => rfl
      refine bind_congr_result (h.once _ _ (by omega)) fun a ha => ?_
      obtain ⟨v, w⟩ := a
      have hw := ((shrinks floats n).once _ _ v w ha).lt
      dsimp only
      cases hw' : skipSpace w with
      | nil => rfl
      | cons c w' =>
        have hlt' := (follows_of_skipSpace hw').lt
        have hle' := (skipSpace_suffix w').length_le
        dsimp only
        rw [h.members _ (skipSpace w') (by omega)]

theorem settled (floats : Floats F) (n : Nat) : Settled floats n := by
  induction n with
  | zero => exact ⟨nofun, nofun, nofun⟩
  | succ n ih => exact ⟨settled_once ih, settled_items ih, settled_members ih⟩

/-- The steps that `scanText` takes are as good as any greater number. -/
theorem scanOnce_steps {n depth : Nat} (h : 2 * t.length < n) (m : Nat) :
    scanOnce floats (n + m) depth t = scanOnce floats n depth t := by
  induction m with
  | zero => rfl
  | succ m ih => rw [← ih, ← Nat.add_assoc, (settled floats (n + m)).once depth t (by omega)]

/-- `scanText` does not depend on its steps. -/
theorem scanText_steps (t : Text) (m : Nat) : scanText floats t = (do
    let (v, rest) ← scanOnce floats (2 * t.length + 1 + m) 0 (skipSpace t)
    if (skipSpace rest).isEmpty then return v else .of none) := by
  have hle := (skipSpace_suffix t).length_le
  rw [scanText, scanOnce_steps (by omega) m]

/-! ## What is asked for -/

/-- A bracket or a brace that opens a container. -/
def opens (c : CodePoint) : Bool := c = ofChar '[' || c = ofChar '{'

/-- A text that cannot ask for too much inside of `depth` containers: no more digits in a row than
are granted, and no more brackets and braces opened. -/
structure Within (limits : Limits) (depth : Nat) (t : Text) : Prop where
  digits : ∀ run, run <:+: t → (∀ c ∈ run, isDigit c = true) → run.length ≤ limits.digits
  nesting : depth + t.countP opens ≤ limits.nesting

/-- A scan whose demands are all granted. -/
def Granted (limits : Limits) (x : Scan α) : Prop :=
  ∀ demand ∈ x.demands, limits.allows demand = true

section
variable {limits : Limits} {depth : Nat}

theorem Within.suffix (h : Within limits depth t) (hsuffix : rest <:+ t) :
    Within limits depth rest where
  digits run hrun := h.digits run (hrun.trans hsuffix.isInfix)
  nesting := by
    have hle := hsuffix.sublist.countP_le (p := opens)
    have hnesting := h.nesting
    omega

/-- One container deeper, past the bracket. -/
theorem Within.deeper {c : CodePoint} (h : Within limits depth (c :: t)) (hc : opens c = true) :
    depth + 1 ≤ limits.nesting ∧ Within limits (depth + 1) t := by
  have hnesting := h.nesting
  rw [List.countP_cons_of_pos hc] at hnesting
  exact ⟨by omega, (h.suffix (List.suffix_cons c t)).digits, by omega⟩

theorem Granted.of (x : Option α) : Granted limits (Scan.of x) := nofun

theorem Granted.pure (a : α) : Granted limits (pure a : Scan α) := nofun

theorem Granted.ask {demand : Demand} (h : limits.allows demand = true) :
    Granted limits (Scan.ask demand) :=
  fun _ hmem => List.mem_singleton.1 hmem ▸ h

theorem Granted.bind {x : Scan α} {f : α → Scan β} (hx : Granted limits x)
    (hf : ∀ a, x.result = some a → Granted limits (f a)) : Granted limits (x >>= f) := by
  obtain ⟨demands, result⟩ := x
  cases result with
  | none => exact hx
  | some a =>
    intro demand hmem
    rcases List.mem_append.1 hmem with hmem | hmem
    · exact hx demand hmem
    · exact hf a rfl demand hmem

theorem scanNumber_granted (h : Within limits depth t) : Granted limits (scanNumber floats t) := by
  refine .bind (.of _) fun a ha => ?_
  obtain ⟨sign, whole, more, after⟩ := a
  obtain ⟨-, hinfix, hdigits⟩ := matchNumber_some ha
  dsimp only
  split
  · refine .bind (.ask ?_) fun _ _ => .pure _
    exact decide_eq_true (h.digits whole hinfix hdigits)
  · exact .pure _

theorem scanAtom_granted (h : Within limits depth t) : Granted limits (scanAtom floats t) := by
  unfold scanAtom
  split
  · exact .pure _
  · exact scanNumber_granted h

/-- What a scan of such a text asks for is granted. -/
structure Modest (floats : Floats F) (limits : Limits) (n : Nat) : Prop where
  once : ∀ depth t, Within limits depth t → Granted limits (scanOnce floats n depth t)
  items : ∀ depth t, Within limits depth t → Granted limits (scanItems floats n depth t)
  members : ∀ depth t, Within limits depth t → Granted limits (scanMembers floats n depth t)

theorem granted_once {n : Nat} (h : Modest floats limits n) (depth : Nat) (t : Text)
    (ht : Within limits depth t) : Granted limits (scanOnce floats (n + 1) depth t) := by
  rw [scanOnce.eq_def]
  dsimp only
  split
  · exact .of _
  case h_2 c rest =>
    split
    case isTrue => exact .bind (.of _) fun _ _ => .pure _
    split
    case isTrue hc =>
      obtain ⟨hdepth, hrest⟩ := ht.deeper (by rw [hc]; decide)
      refine .bind (.ask (decide_eq_true hdepth)) fun _ _ => ?_
      split
      · exact .pure _
      · exact .bind (h.items _ _ (hrest.suffix (skipSpace_suffix rest))) fun _ _ => .pure _
    split
    case isTrue hc =>
      obtain ⟨hdepth, hrest⟩ := ht.deeper (by rw [hc]; decide)
      refine .bind (.ask (decide_eq_true hdepth)) fun _ _ => ?_
      split
      · exact .pure _
      · exact .bind (h.members _ _ (hrest.suffix (skipSpace_suffix rest))) fun _ _ => .pure _
    case isFalse => exact scanAtom_granted ht

theorem granted_items {n : Nat} (h : Modest floats limits n) (depth : Nat) (t : Text)
    (ht : Within limits depth t) : Granted limits (scanItems floats (n + 1) depth t) := by
  rw [scanItems.eq_def]
  refine .bind (h.once _ _ ht) fun a ha => ?_
  obtain ⟨v, rest⟩ := a
  have hrest := (shrinks floats n).once _ _ v rest ha
  dsimp only
  split
  · exact .of _
  case h_2 c u hu =>
    have hfollows := (follows_of_skipSpace hu).after hrest.suffix
    split
    · exact .pure _
    split
    · refine .bind (h.items _ _ (ht.suffix ?_)) fun _ _ => .pure _
      exact (skipSpace_suffix u).trans hfollows.suffix
    · exact .of _

theorem granted_members {n : Nat} (h : Modest floats limits n) (depth : Nat) (t : Text)
    (ht : Within limits depth t) : Granted limits (scanMembers floats (n + 1) depth t) := by
  rw [scanMembers.eq_def]
  dsimp only
  split
  · exact .of _
  case h_2 q rest =>
    split
    case isFalse => exact .of _
    refine .bind (.of _) fun a ha => ?_
    obtain ⟨key, u⟩ := a
    have hu := (scanString_shortens rest key u ha).after (List.suffix_cons q rest)
    dsimp only
    split
    · exact .of _
    case h_2 c u' hu' =>
      have hafter := (skipSpace_suffix u').trans ((follows_of_skipSpace hu').after hu.suffix).suffix
      split
      case isFalse => exact .of _
      refine .bind (h.once _ _ (ht.suffix hafter)) fun a ha => ?_
      obtain ⟨v, w⟩ := a
      have hw := ((shrinks floats n).once _ _ v w ha).after hafter
      dsimp only
      split
      · exact .of _
      case h_2 c w' hw' =>
        have hfollows := (follows_of_skipSpace hw').after hw.suffix
        split
        · exact .pure _
        split
        · refine .bind (h.members _ _ (ht.suffix ?_)) fun _ _ => .pure _
          exact (skipSpace_suffix w').trans hfollows.suffix
        · exact .of _

theorem modest (floats : Floats F) (limits : Limits) (n : Nat) : Modest floats limits n := by
  induction n with
  | zero => exact ⟨fun _ _ _ => .of _, fun _ _ _ => .of _, fun _ _ _ => .of _⟩
  | succ n ih => exact ⟨granted_once ih, granted_items ih, granted_members ih⟩

/-- A text with no more digits in a row and no more containers opened than are granted does not ask
for more. -/
theorem scanText_granted (h : Within limits 0 t) : Granted limits (scanText floats t) := by
  refine .bind ((modest floats limits _).once 0 _ (h.suffix (skipSpace_suffix t))) fun a _ => ?_
  dsimp only
  split
  · exact .pure _
  · exact .of _

end

end Python
