import Ekumidayomi.Cache.Client
import Ekumidayomi.Cache.Codec
import Ekumidayomi.Lib.JsonSteps

/-!
# Outages and corrupt entries

What a call of the client comes to under every pattern of answers. `Code.Always` says it of a
program: a postcondition on what has been asked and on the result, whatever is answered within the
bounds of `allowed`; a lock command may be answered in any way. The answers of Redis are those of
the entries that it holds, read by the client and the codec (`JsonCacheCodec.readStored`).
-/

namespace Ekumidayomi.Cache

open Unicode Python

/-! ## Every pattern of answers -/

section
variable {V α β : Type}

/-- After `asked`, whatever is answered, the program ends as `post` says. -/
def Code.Always (allowed : (q : Query V) → Answer V q → Prop)
    (post : List (Query V) → Except CacheError α → Prop) : List (Query V) → Code V α → Prop
  | asked, .done result => post asked result
  | asked, .ask q next => ∀ a, allowed q a → (next a).Always allowed post (asked ++ [q])
  | asked, .redis _ next => ∀ r, r ≠ .error .cancelled → (next r).Always allowed post asked

variable {allowed : (q : Query V) → Answer V q → Prop} {asked : List (Query V)}
  {post post' : List (Query V) → Except CacheError α → Prop} {x : Code V α}

theorem Code.Always.mono (h : x.Always allowed post asked)
    (himp : ∀ asked result, post asked result → post' asked result) :
    x.Always allowed post' asked := by
  induction x generalizing asked with
  | done result => exact himp _ _ h
  | ask q next ih => exact fun a ha => ih a (h a ha)
  | redis c next ih => exact fun r hr => ih r (h r hr)

theorem Code.Always.andThen {f : Except CacheError α → Code V β}
    {post : List (Query V) → Except CacheError β → Prop}
    (h : x.Always allowed (fun asked result => (f result).Always allowed post asked) asked) :
    (x.andThen f).Always allowed post asked := by
  induction x generalizing asked with
  | done result => exact h
  | ask q next ih => exact fun a ha => ih a (h a ha)
  | redis c next ih => exact fun r hr => ih r (h r hr)

/-- A program that always returns goes on. -/
theorem Code.Always.bind {good : α → Prop} {f : α → Code V β}
    {post : List (Query V) → Except CacheError β → Prop}
    (h : x.Always allowed (fun _ result => ∃ a, result = .ok a ∧ good a) asked)
    (hf : ∀ a, good a → ∀ asked, (f a).Always allowed post asked) :
    (x >>= f).Always allowed post asked := by
  refine Code.Always.andThen (h.mono ?_)
  rintro asked _ ⟨a, rfl, ha⟩
  exact hf a ha asked

/-- An operation that may fail open returns, unless it was cancelled. -/
theorem failed_always {e : RedisFailure} {value : α} (he : e ≠ .cancelled)
    (h : post asked (.ok value)) : (failed true value e : Code V α).Always allowed post asked := by
  cases e with
  | cancelled => exact absurd rfl he
  | watchError | unavailable => exact h

theorem ne_cancelled {β : Type} {e : RedisFailure}
    (h : (.error e : Except RedisFailure β) ≠ .error .cancelled) : e ≠ .cancelled :=
  fun heq => h (congrArg _ heq)

/-! ## A call that fails open -/

/-- Answers under which the loader returns `loaded` and can be stored, and of which none is raised
or is a value but a `good` one. -/
structure Answers (allowed : (q : Query V) → Answer V q → Prop) (loaded : V) (good : V → Prop) :
    Prop where
  read : ∀ a, allowed .read a → (∃ e, e ≠ .cancelled ∧ a = .error e) ∨ a = .ok .missing ∨
    a = .ok .corrupt ∨ a = .ok (.value none) ∨ ∃ v, a = .ok (.value (some v)) ∧ good v
  deleteCorrupt : ∀ a, allowed .deleteCorrupt a → a ≠ .error .cancelled
  write : ∀ a, allowed (.write loaded) a → ∃ r, r ≠ .error .cancelled ∧ a = some r
  load : ∀ a, allowed .load a → a = some loaded
  sleep : ∀ a, allowed .sleep a → a = true

variable {loaded : V} {good : V → Prop}

theorem deleteCorrupt_always (hdelete : ∀ a, allowed .deleteCorrupt a → a ≠ .error .cancelled) :
    (deleteCorrupt : Code V Unit).Always allowed
      (fun asked' result => asked' = asked ++ [.deleteCorrupt] ∧ ∃ u, result = .ok u ∧ True)
      asked := by
  intro a ha
  match a, hdelete a ha with
  | .ok _, _ => exact ⟨rfl, (), rfl, trivial⟩
  | .error e, he => exact failed_always (ne_cancelled he) ⟨rfl, (), rfl, trivial⟩

theorem Answers.load_always (h : Answers allowed loaded good) :
    (Cache.load : Code V V).Always allowed (fun _ result => ∃ v, result = .ok v ∧ v = loaded)
      asked := by
  intro a ha
  obtain rfl := h.load a ha
  exact ⟨loaded, rfl, rfl⟩

theorem Answers.set_always (h : Answers allowed loaded good) :
    (set true loaded : Code V Bool).Always allowed (fun _ result => ∃ b, result = .ok b ∧ True)
      asked := by
  intro a ha
  obtain ⟨r, hr, rfl⟩ := h.write a ha
  match r, hr with
  | .ok _, _ => exact ⟨true, rfl, trivial⟩
  | .error e, he => exact failed_always (ne_cancelled he) ⟨false, rfl, trivial⟩

theorem Answers.read_always (h : Answers allowed loaded good) :
    (Cache.read true : Code V (Bool × Option V)).Always allowed
      (fun _ result => ∃ p, result = .ok p ∧ ∀ v ∈ p.2, good v) asked := by
  intro a ha
  obtain ⟨e, he, rfl⟩ | rfl | rfl | rfl | ⟨v, rfl, hv⟩ := h.read a ha
  · exact failed_always he ⟨_, rfl, nofun⟩
  · exact ⟨_, rfl, nofun⟩
  · exact Code.Always.bind ((deleteCorrupt_always h.deleteCorrupt).mono fun _ _ => And.right)
      fun _ _ _ => ⟨_, rfl, nofun⟩
  · exact ⟨_, rfl, nofun⟩
  · exact ⟨_, rfl, fun w hw => Option.some.inj hw ▸ hv⟩

theorem acquireLock_always {token : String} :
    (acquireLock true token : Code V (Option Bool)).Always allowed
      (fun _ result => ∃ b, result = .ok b ∧ True) asked := by
  intro r hr
  match r, hr with
  | .ok true, _ | .ok false, _ => exact ⟨_, rfl, trivial⟩
  | .error e, he => exact failed_always (ne_cancelled he) ⟨_, rfl, trivial⟩

theorem releaseFailed_always {e : RedisFailure} (he : e ≠ .cancelled) :
    (releaseFailed true e : Code V Bool).Always allowed (fun _ result => ∃ b, result = .ok b ∧ True)
      asked := by
  cases e with
  | cancelled => exact absurd rfl he
  | watchError | unavailable => exact ⟨false, rfl, trivial⟩

theorem releaseLock_always {token : String} :
    (releaseLock true token : Code V Bool).Always allowed
      (fun _ result => ∃ b, result = .ok b ∧ True) asked := by
  intro r hr
  match r, hr with
  | .error e, he => exact releaseFailed_always (ne_cancelled he)
  | .ok watched, _ =>
    intro r hr
    match r, hr with
    | .error e, he => exact releaseFailed_always (ne_cancelled he)
    | .ok current, _ =>
      dsimp only
      split
      all_goals
        intro r hr
        match r, hr with
        | .error e, he => exact releaseFailed_always (ne_cancelled he)
        | .ok _, _ => exact ⟨_, rfl, trivial⟩

/-- What a call returns: the loaded value, or a good one. -/
def Returns (loaded : V) (good : V → Prop) (_ : List (Query V)) (result : Except CacheError V) :
    Prop :=
  ∃ v, result = .ok v ∧ (v = loaded ∨ good v)

theorem Answers.loadOnly_always (h : Answers allowed loaded good) :
    (Cache.load : Code V V).Always allowed (Returns loaded good) asked :=
  h.load_always.mono fun _ _ ⟨v, hresult, hv⟩ => ⟨v, hresult, .inl hv⟩

/-- The value is loaded, and returned once it has been stored. -/
theorem Answers.loadAndSet_always (h : Answers allowed loaded good) :
    (do
      let value ← Cache.load
      discard (set true value)
      return value : Code V V).Always allowed (Returns loaded good) asked := by
  refine Code.Always.bind h.load_always ?_
  rintro value rfl asked
  have hset : (discard (set true value) : Code V Unit).Always allowed
      (fun _ result => ∃ u, result = .ok u ∧ True) asked :=
    Code.Always.bind h.set_always fun _ _ _ => ⟨(), rfl, trivial⟩
  exact Code.Always.bind hset fun _ _ _ => ⟨value, rfl, .inl rfl⟩

theorem Answers.underLock_always (h : Answers allowed loaded good) {token : String} :
    (underLock true token : Code V V).Always allowed (Returns loaded good) asked := by
  refine Code.Always.andThen (h.loadAndSet_always.mono ?_)
  intro asked result hresult
  refine Code.Always.andThen (releaseLock_always.mono ?_)
  rintro _ _ ⟨b, rfl, -⟩
  exact hresult

theorem Answers.poll_always (h : Answers allowed loaded good) (polls : Nat) :
    (poll true polls : Code V V).Always allowed (Returns loaded good) asked := by
  induction polls generalizing asked with
  | zero => exact h.loadAndSet_always
  | succ polls ih =>
    intro a ha
    obtain rfl := h.sleep a ha
    refine Code.Always.bind h.read_always ?_
    rintro ⟨available, cached⟩ hgood asked
    match available, cached with
    | _, some v => exact ⟨v, rfl, .inr (hgood v rfl)⟩
    | true, none => exact ih
    | false, none => exact h.loadOnly_always

theorem Answers.getOrLoad_always (h : Answers allowed loaded good) {args : Args} {token : String}
    (hvalid : args.validate = .ok ()) (hopen : args.failOpen = true) :
    (getOrLoad args token : Code V V).Always allowed (Returns loaded good) asked := by
  unfold getOrLoad
  rw [hvalid, hopen]
  change Code.Always allowed _ asked (Cache.read true >>= _)
  refine Code.Always.bind h.read_always ?_
  rintro ⟨available, cached⟩ hgood asked
  match available, cached with
  | _, some v => exact ⟨v, rfl, .inr (hgood v rfl)⟩
  | false, none => exact h.loadOnly_always
  | true, none =>
    refine Code.Always.bind acquireLock_always fun acquired _ asked => ?_
    match acquired with
    | none => exact h.loadOnly_always
    | some true => exact h.underLock_always
    | some false => exact h.poll_always args.polls

end

/-! ## Corrupt entries -/

section
variable {F : Type} {floats : Floats F} {limits : Limits} {codec : JsonCacheCodec}
  {encoded : Encoded}

/-- What `_read` makes of a decoded entry. -/
def cachedOf : Except DecodeError (Value F) → Cached (Value F)
  | .ok .none => .value none
  | .ok v => .value (some v)
  | .error (.cacheDecodeError _) => .corrupt
  | .error _ => .unreadable

/-- What `_read` comes to for stored bytes. It handles neither the `UnicodeDecodeError` of the client
nor what the codec lets through. -/
def JsonCacheCodec.readStored (floats : Floats F) (limits : Limits) (codec : JsonCacheCodec)
    (decodeResponses : Bool) (stored : Bytes) : Cached (Value F) :=
  match fetched decodeResponses stored with
  | some encoded => cachedOf (codec.decode floats limits encoded)
  | none => .unreadable

/-- Nothing in an entry is beyond what the interpreter grants: as far as its text is JSON, no
integer has too many digits and no container is too deep. An entry that is too long or no text is
not scanned. It is enough that the text has no more digits in a row and opens no more containers
(`JsonCacheCodec.bounded_of_within`). -/
def JsonCacheCodec.Bounded (floats : Floats F) (limits : Limits) (codec : JsonCacheCodec)
    (encoded : Encoded) : Prop :=
  ∀ raw text, encoded.raw = .ok raw → raw.length ≤ codec.maxBytes → decodeBytes raw = some text →
    ∀ demand ∈ (scanText floats text).demands, limits.allows demand = true

/-- The text of an entry bounds what is asked for. -/
theorem JsonCacheCodec.bounded_of_within
    (h : ∀ raw text, encoded.raw = .ok raw → decodeBytes raw = some text → Within limits 0 text) :
    codec.Bounded floats limits encoded :=
  fun raw text hraw _ htext => scanText_granted (h raw text hraw htext)

/-- The stored bytes get to the codec, and nothing in them is beyond what the interpreter grants. -/
def JsonCacheCodec.Readable (floats : Floats F) (limits : Limits) (codec : JsonCacheCodec)
    (decodeResponses : Bool) (stored : Bytes) : Prop :=
  (decodeResponses = true → (decodeUtf8 false stored).isSome = true) ∧
    codec.Bounded floats limits (.bytes stored)

/-- A value that is not null, or a `CacheDecodeError`. -/
def Decodes (decoded : Except DecodeError (Value F)) : Prop :=
  (∃ v, v ≠ .none ∧ decoded = .ok v) ∨ ∃ message, decoded = .error (.cacheDecodeError message)

/-- The checks of an envelope let only a value through that is not null. -/
theorem JsonCacheCodec.unwrap_decodes (envelope : Value F) :
    Decodes (codec.unwrap floats envelope) := by
  unfold JsonCacheCodec.unwrap
  split
  case h_2 => exact .inr ⟨_, rfl⟩
  case h_1 entries =>
    split
    case isTrue => exact .inr ⟨_, rfl⟩
    case isFalse =>
      split
      case h_2 => exact .inr ⟨_, rfl⟩
      case h_1 =>
        split
        case isTrue => exact .inr ⟨_, rfl⟩
        case isFalse =>
          split
          case h_1 => exact .inr ⟨_, rfl⟩
          case h_2 value hne => exact .inl ⟨_, hne, rfl⟩

theorem Encoded.raw_error {e : DecodeError} (h : encoded.raw = .error e) :
    ∃ message, e = .cacheDecodeError message := by
  unfold Encoded.raw at h
  split at h
  case h_1 =>
    split at h
    · cases h
    · exact ⟨_, (Except.error.inj h).symm⟩
  case h_2 => cases h
  case h_3 => exact ⟨_, (Except.error.inj h).symm⟩

/-- An entry whose bytes are within the limit is what its bytes are loaded to, once unwrapped. -/
theorem JsonCacheCodec.decode_loads {raw : Bytes} (hraw : encoded.raw = .ok raw)
    (hle : raw.length ≤ codec.maxBytes) :
    codec.decode floats limits encoded = match loads floats limits raw with
      | .error .unicodeDecodeError | .error .jsonDecodeError =>
        .error (.cacheDecodeError "cache value is corrupt")
      | .error .valueError => .error .valueError
      | .error .recursionError => .error .recursionError
      | .ok envelope => codec.unwrap floats envelope := by
  rw [decode, hraw]
  show (if raw.length > codec.maxBytes then _ else _) = _
  rw [if_neg (Nat.not_lt.2 hle)]
  rfl

/-- An entry that has no bytes, or too many, is found corrupt. -/
theorem JsonCacheCodec.decodes_of_unread
    (h : ∀ raw, encoded.raw = .ok raw → codec.maxBytes < raw.length) :
    Decodes (codec.decode floats limits encoded) := by
  refine .inr ?_
  rw [decode]
  cases hraw : encoded.raw with
  | error e =>
    obtain ⟨message, rfl⟩ := Encoded.raw_error hraw
    exact ⟨message, rfl⟩
  | ok raw =>
    show ∃ message, (if raw.length > codec.maxBytes then _ else _) = _
    rw [if_pos (h raw hraw)]
    exact ⟨_, rfl⟩

/-- An entry is decoded or found corrupt exactly when nothing in it is beyond what is granted. -/
theorem JsonCacheCodec.decodes_iff :
    Decodes (codec.decode floats limits encoded) ↔ codec.Bounded floats limits encoded := by
  by_cases hread : ∃ raw, encoded.raw = .ok raw ∧ raw.length ≤ codec.maxBytes
  case neg =>
    refine iff_of_true (decodes_of_unread fun raw hraw => ?_) fun raw _ hraw hle => ?_
    · exact Nat.not_le.1 fun hle => hread ⟨raw, hraw, hle⟩
    · exact absurd ⟨raw, hraw, hle⟩ hread
  obtain ⟨raw, hraw, hle⟩ := hread
  rw [decode_loads hraw hle]
  cases htext : decodeBytes raw with
  | none =>
    have hloads : loads floats limits raw = .error .unicodeDecodeError := by rw [loads, htext]
    rw [hloads]
    refine iff_of_true (.inr ⟨_, rfl⟩) fun raw' _ hraw' _ htext' => ?_
    obtain rfl := Except.ok.inj (hraw.symm.trans hraw')
    cases htext.symm.trans htext'
  | some text =>
    have hloads : loads floats limits raw = (scanText floats text).run limits := by
      rw [loads, htext]
    rw [hloads]
    constructor
    · intro h raw' text' hraw' _ htext' demand hmem
      obtain rfl := Except.ok.inj (hraw.symm.trans hraw')
      obtain rfl := Option.some.inj (htext.symm.trans htext')
      cases hallows : limits.allows demand with
      | true => rfl
      | false =>
        rcases Scan.run_refused hmem hallows with hrun | hrun <;> rw [hrun] at h <;>
          rcases h with ⟨v, -, h⟩ | ⟨message, h⟩ <;> cases h
    · intro h
      rcases Scan.run_granted (h raw text hraw hle htext) with ⟨v, hrun⟩ | hrun <;> rw [hrun]
      · exact unwrap_decodes v
      · exact .inr ⟨_, rfl⟩

/-- The answers while this is what is read under the key. -/
def found (cached : Cached (Value F)) : (q : Query (Value F)) → Answer (Value F) q → Prop
  | .read, a => a = .ok cached
  | .deleteCorrupt, a => a ≠ .error .cancelled
  | _, _ => True

/-- What `get` comes to: the value, or nothing once the entry has been asked to be deleted. -/
def ValueOrMiss (cached : Cached (Value F)) (asked : List (Query (Value F)))
    (result : Except CacheError (Option (Value F))) : Prop :=
  (∃ v, cached = .value (some v) ∧ result = .ok (some v)) ∨
    cached = .corrupt ∧ result = .ok none ∧ .deleteCorrupt ∈ asked

/-- `get` returns the value or nothing exactly when a value is read, or what is corrupt. -/
theorem get_always_iff {cached : Cached (Value F)} :
    (∀ failOpen, (get failOpen).Always (found cached) (ValueOrMiss cached) []) ↔
      (∃ v, cached = .value (some v)) ∨ cached = .corrupt := by
  constructor
  · intro h
    have hget := h true _ rfl
    match cached with
    | .value (some v) => exact .inl ⟨v, rfl⟩
    | .corrupt => exact .inr rfl
    | .missing | .unreadable | .value none =>
      rcases hget with ⟨_, hvalue, -⟩ | ⟨hcorrupt, -⟩
      · cases hvalue
      · cases hcorrupt
  · rintro (⟨v, rfl⟩ | rfl) failOpen _ rfl
    · exact .inl ⟨v, rfl, rfl⟩
    · refine Code.Always.andThen (Code.Always.andThen
        ((deleteCorrupt_always fun _ ha => ha).mono ?_))
      rintro _ _ ⟨rfl, _, rfl, -⟩
      exact .inr ⟨rfl, rfl, List.mem_append_right _ List.mem_cons_self⟩

theorem cachedOf_value {v : Value F} (h : v ≠ .none) : cachedOf (.ok v) = .value (some v) := by
  cases v <;> first | rfl | exact absurd rfl h

/-- What is decoded is not null. -/
theorem JsonCacheCodec.decode_ne_none {encoded : Encoded} :
    codec.decode floats limits encoded ≠ .ok .none := by
  have hnot : ∀ {decoded : Except DecodeError (Value F)}, Decodes decoded → decoded ≠ .ok .none := by
    rintro decoded (⟨v, hne, rfl⟩ | ⟨message, rfl⟩) hnone
    · exact hne (Except.ok.inj hnone)
    · cases hnone
  by_cases hread : ∃ raw, encoded.raw = .ok raw ∧ raw.length ≤ codec.maxBytes
  case neg =>
    refine hnot (decodes_of_unread fun raw hraw => ?_)
    exact Nat.not_le.1 fun hle => hread ⟨raw, hraw, hle⟩
  obtain ⟨raw, hraw, hle⟩ := hread
  rw [decode_loads hraw hle]
  cases loads floats limits raw with
  | ok envelope => exact hnot (unwrap_decodes envelope)
  | error e => cases e <;> nofun

/-- What is decoded is read as a value, and what is found corrupt as such. -/
theorem cachedOf_iff {decoded : Except DecodeError (Value F)} :
    (∃ v, cachedOf decoded = .value (some v)) ∨ cachedOf decoded = .corrupt ↔ Decodes decoded := by
  constructor
  · intro h
    match decoded with
    | .error (.cacheDecodeError message) => exact .inr ⟨message, rfl⟩
    | .error .valueError | .error .recursionError => rcases h with ⟨v, h⟩ | h <;> cases h
    | .ok v =>
      refine .inl ⟨v, ?_, rfl⟩
      rintro rfl
      rcases h with ⟨v, h⟩ | h <;> cases h
  · rintro (⟨v, hne, rfl⟩ | ⟨message, rfl⟩)
    · exact .inl ⟨v, cachedOf_value hne⟩
    · exact .inr rfl

/-- What is read is a value or corrupt exactly when the stored bytes get to the codec, and nothing in
them is beyond what is granted. -/
theorem JsonCacheCodec.readStored_iff {decodeResponses : Bool} {stored : Bytes} :
    (∃ v, codec.readStored floats limits decodeResponses stored = .value (some v)) ∨
      codec.readStored floats limits decodeResponses stored = .corrupt ↔
    codec.Readable floats limits decodeResponses stored := by
  have hsome : (decodeResponses = true → (decodeUtf8 false stored).isSome = true) ↔
      (fetched decodeResponses stored).isSome = true := by
    cases decodeResponses <;> simp [fetched]
  rw [Readable, hsome, ← decodes_iff, readStored]
  cases hfetched : fetched decodeResponses stored with
  | none => simp
  | some encoded =>
    dsimp only
    rw [decode_fetched hfetched, cachedOf_iff, Option.isSome_some, eq_self, true_and]

/-- What is read of stored bytes is a value, corrupt or raised. -/
theorem JsonCacheCodec.readStored_cases (decodeResponses : Bool) (stored : Bytes) :
    (∃ v, codec.readStored floats limits decodeResponses stored = .value (some v)) ∨
      codec.readStored floats limits decodeResponses stored = .corrupt ∨
      codec.readStored floats limits decodeResponses stored = .unreadable := by
  unfold readStored
  cases fetched decodeResponses stored with
  | none => exact .inr (.inr rfl)
  | some encoded =>
    dsimp only
    cases hdecode : codec.decode floats limits encoded with
    | ok v => exact .inl ⟨v, cachedOf_value fun hnone => decode_ne_none (hnone ▸ hdecode)⟩
    | error e =>
      cases e with
      | cacheDecodeError message => exact .inr (.inl rfl)
      | valueError | recursionError => exact .inr (.inr rfl)

/-- **A corrupt entry is a miss, unless it is not read at all or asks for too much.** An entry is
decoded to a value that is not null or found corrupt exactly when nothing in it is beyond what the
interpreter grants; and `get` returns the value under the key, or nothing having deleted the entry,
exactly when the stored bytes also are UTF-8 or the client does not decode them. -/
theorem corruption_is_miss_iff :
    (∀ encoded, Decodes (codec.decode floats limits encoded) ↔
      codec.Bounded floats limits encoded) ∧
    ∀ decodeResponses stored,
      (∀ failOpen, (get failOpen).Always
        (found (codec.readStored floats limits decodeResponses stored))
        (ValueOrMiss (codec.readStored floats limits decodeResponses stored)) []) ↔
      codec.Readable floats limits decodeResponses stored := by
  refine ⟨fun _ => JsonCacheCodec.decodes_iff, fun decodeResponses stored => ?_⟩
  rw [get_always_iff, JsonCacheCodec.readStored_iff]

end

namespace OutcomesFixture

/-- A number of one digit more than so many, all of them `9`. -/
def nines (n : Nat) : Numeral :=
  .ofWhole (List.replicate (n + 1) (ofChar '9')) <| by
    refine .inr ⟨⟨List.cons_ne_nil _ _, fun c hc => ?_⟩, ?_⟩
    · rw [List.eq_of_mem_replicate hc]
      decide
    · rw [List.replicate_succ, List.head?_cons]
      decide

theorem nines_text (n : Nat) : (nines n).text = List.replicate (n + 1) (ofChar '9') := by
  simp [Numeral.text, nines, Numeral.ofWhole]

/-- An `int` of so many digits is asked for. -/
theorem demands_nines {F : Type} (floats : Floats F) (n : Nat) :
    (scanText floats (nines n).text).demands = [.digits (n + 1)] := by
  have hspace : skipSpace (nines n).text = (nines n).text := by
    rw [nines_text, List.replicate_succ]
    rfl
  have hscan : scanOnce floats (2 * (nines n).text.length + 1) 0 (nines n).text =
      scanNumber floats (nines n).text := by
    rw [← List.append_nil (nines n).text]
    exact scanOnce_numeral (nines n) []
  have hmatch : matchNumber (nines n).text = some ([], (nines n).whole, [], []) := by
    have happend := matchNumber_append (nines n) EndsNumber.nil
    rw [List.append_nil] at happend
    exact happend
  have hnumber : scanNumber floats (nines n).text =
      ⟨[.digits (nines n).whole.length], some (.int (intOf (nines n).whole), [])⟩ := by
    rw [scanNumber, hmatch]
    rfl
  have hlength : (nines n).whole.length = n + 1 := List.length_replicate
  rw [scanText, hspace, hscan, hnumber, hlength]
  rfl

theorem encodeUtf8_nines (n : Nat) :
    encodeUtf8 (nines n).text = some (List.replicate (n + 1) 0x39) := by
  have hno : ((nines n).text.any fun c => isSurrogate c.val) = false := by
    rw [nines_text, List.any_eq_false]
    intro c hc
    rw [List.eq_of_mem_replicate hc]
    decide
  have hbytes : (nines n).text.flatMap utf8Bytes = List.replicate (n + 1) 0x39 := by
    rw [nines_text, List.flatMap_replicate]
    exact List.flatten_replicate_singleton
  rw [encodeUtf8, hno, hbytes]
  rfl

/-- A number of 4301 digits asks for too much. -/
theorem not_bounded_nines : ¬ JsonCacheCodec.Bounded wholeFloats CodecFixture.limits {}
    (.bytes (List.replicate 4301 0x39)) := by
  intro hbounded
  have hlength : (List.replicate 4301 (0x39 : UInt8)).length ≤ 262144 := by
    rw [List.length_replicate]
    decide
  have htext : decodeBytes (List.replicate 4301 0x39) = some (nines 4300).text := by
    have hutf8 := encodeUtf8_nines 4300
    rw [nines_text, List.replicate_succ, List.replicate_succ] at hutf8 ⊢
    exact decodeBytes_encodeUtf8 (by decide) (by decide) hutf8
  have hallows := hbounded _ _ rfl hlength htext (.digits 4301)
    (by rw [demands_nines]; exact List.mem_singleton_self _)
  exact absurd hallows (by decide)

end OutcomesFixture

open OutcomesFixture in
/-- A number of 4301 digits is a `ValueError`, which `decode` and `get` let through. So does `get` the
`UnicodeDecodeError` of a byte that is no UTF-8. -/
theorem corruption_raises :
    ¬ Decodes (JsonCacheCodec.decode wholeFloats CodecFixture.limits {}
      (.bytes (List.replicate 4301 0x39))) ∧
    ∀ stored ∈ [List.replicate 4301 0x39, [0xff]], ¬ ∀ failOpen, (get failOpen).Always
      (found (JsonCacheCodec.readStored wholeFloats CodecFixture.limits {} true stored))
      (ValueOrMiss (JsonCacheCodec.readStored wholeFloats CodecFixture.limits {} true stored)) [] := by
  refine ⟨fun hdecodes => not_bounded_nines (JsonCacheCodec.decodes_iff.1 hdecodes), ?_⟩
  intro stored hmem hget
  obtain ⟨hutf8, hbounded⟩ := JsonCacheCodec.readStored_iff.1 (get_always_iff.1 hget)
  rcases List.mem_pair.1 hmem with rfl | rfl
  · exact not_bounded_nines hbounded
  · exact absurd (hutf8 rfl) (by decide)

/-! ## Transparency -/

section
variable {F : Type} {floats : Floats F} {limits : Limits} {codec : JsonCacheCodec}
  {decodeResponses : Bool} {loaded : Value F} {stored : Set (Value F)} {garbage : Set Bytes}

/-- What may be found under the key: what a previous call stored, or a corrupt entry. -/
inductive Entry (floats : Floats F) (limits : Limits) (codec : JsonCacheCodec)
    (stored : Set (Value F)) (garbage : Set Bytes) : Bytes → Prop
  | set {u : Value F} {bytes : Bytes} : u ∈ stored → codec.encode floats limits u = .ok bytes →
      Entry floats limits codec stored garbage bytes
  | garbage {bytes : Bytes} : bytes ∈ garbage → Entry floats limits codec stored garbage bytes

/-- The answers to a call whose loader returns `loaded`: any operation of Redis may fail or time
out, and a read may hit an entry or miss. -/
def answers (floats : Floats F) (limits : Limits) (codec : JsonCacheCodec) (decodeResponses : Bool)
    (loaded : Value F) (stored : Set (Value F)) (garbage : Set Bytes) :
    (q : Query (Value F)) → Answer (Value F) q → Prop
  | .read, a => (∃ e, e ≠ .cancelled ∧ a = .error e) ∨ a = .ok .missing ∨
      ∃ bytes, Entry floats limits codec stored garbage bytes ∧
        a = .ok (codec.readStored floats limits decodeResponses bytes)
  | .deleteCorrupt, a => a ≠ .error .cancelled
  | .write value, a =>
    match codec.encode floats limits value with
    | .ok _ => ∃ r, r ≠ .error .cancelled ∧ a = some r
    | .error _ => a = none
  | .load, a => a = some loaded
  | .sleep, a => a = true

/-- The value that the loader returns, or one equal to a value that was stored. -/
def IsAuthentic (floats : Floats F) (loaded : Value F) (stored : Set (Value F))
    (v : Value F) : Prop :=
  v = loaded ∨ ∃ u ∈ stored, v.eq floats u = true

/-- What was stored comes back equal when it holds no tuple and its keys are strings. -/
theorem isAuthentic_of_isPlain {u : Value F} {bytes : Bytes} (hu : u ∈ stored)
    (hbytes : codec.encode floats limits u = .ok bytes) (hwf : u.WellFormed floats)
    (hplain : u.isPlain = true) : IsAuthentic floats loaded stored (u.coerced floats) := by
  obtain ⟨-, -, text, htext, -⟩ := JsonCacheCodec.encode_ok hbytes
  obtain ⟨-, t, ht⟩ := JsonCacheCodec.dumps_envelope htext
  exact .inr ⟨u, hu, (coerced_eq_iff ht hwf).2 hplain⟩

/-- An entry that a call stored is read as what comes back for its value. -/
theorem readStored_encode {u : Value F} {bytes : Bytes}
    (h : codec.encode floats limits u = .ok bytes) :
    codec.readStored floats limits decodeResponses bytes = .value (some (u.coerced floats)) := by
  obtain ⟨hdecode, text, htext, -⟩ := JsonCacheCodec.decode_encode h
  have hfetched : ∃ encoded, fetched decodeResponses bytes = some encoded := by
    cases decodeResponses with
    | false => exact ⟨_, rfl⟩
    | true => exact ⟨.text text, by rw [fetched, htext]; rfl⟩
  obtain ⟨encoded, hfetched⟩ := hfetched
  rw [JsonCacheCodec.readStored, hfetched]
  dsimp only
  rw [JsonCacheCodec.decode_fetched hfetched, hdecode]
  exact cachedOf_value fun hnone => (JsonCacheCodec.encode_ok h).1 (coerced_eq_none hnone)

/-- The answers are such that the call returns when all that was stored comes back as it was, and
what is corrupt can be read. -/
theorem answers_of {bytes : Bytes} (hloaded : codec.encode floats limits loaded = .ok bytes)
    (hstored : ∀ u ∈ stored, IsAuthentic floats loaded stored (u.coerced floats))
    (hgarbage : ∀ b ∈ garbage, ∀ v,
      codec.readStored floats limits decodeResponses b ≠ .value (some v))
    (hreadable : ∀ b ∈ garbage, codec.Readable floats limits decodeResponses b) :
    Answers (answers floats limits codec decodeResponses loaded stored garbage) loaded
      (IsAuthentic floats loaded stored) where
  read := by
    rintro a (herror | hmissing | ⟨bytes, hentry, rfl⟩)
    · exact .inl herror
    · exact .inr (.inl hmissing)
    · cases hentry with
      | set hu hbytes =>
        rw [readStored_encode hbytes]
        exact .inr (.inr (.inr (.inr ⟨_, rfl, hstored _ hu⟩)))
      | garbage hb =>
        rcases JsonCacheCodec.readStored_iff.2 (hreadable _ hb) with ⟨v, hv⟩ | hcorrupt
        · exact absurd hv (hgarbage _ hb v)
        · rw [hcorrupt]
          exact .inr (.inr (.inl rfl))
  deleteCorrupt := fun _ ha => ha
  write := by
    intro a ha
    simp only [answers, hloaded] at ha
    exact ha
  load := fun _ ha => ha
  sleep := fun _ ha => ha

/-- A call that fails open returns what the loader returns, or what is equal to a value that was
stored, under every pattern of answers, exactly when the loader's value can be stored, all that was
stored comes back so, and what is corrupt is UTF-8 where the client decodes it and asks for nothing
beyond what the interpreter grants. -/
theorem get_or_load_transparent_iff {args : Args} {token : String}
    (hvalid : args.validate = .ok ()) (hopen : args.failOpen = true)
    (hencoded : ∀ u ∈ stored, ∃ bytes, codec.encode floats limits u = .ok bytes)
    (hgarbage : ∀ b ∈ garbage, ∀ v,
      codec.readStored floats limits decodeResponses b ≠ .value (some v)) :
    (getOrLoad args token).Always
      (answers floats limits codec decodeResponses loaded stored garbage)
      (fun _ result => ∃ v, result = .ok v ∧ IsAuthentic floats loaded stored v) [] ↔
    (∃ bytes, codec.encode floats limits loaded = .ok bytes) ∧
      (∀ u ∈ stored, IsAuthentic floats loaded stored (u.coerced floats)) ∧
      ∀ b ∈ garbage, codec.Readable floats limits decodeResponses b := by
  constructor
  · intro h
    unfold getOrLoad at h
    rw [hvalid, hopen] at h
    refine ⟨?_, fun u hu => ?_, fun b hb => ?_⟩
    · cases hloaded : codec.encode floats limits loaded with
      | ok bytes => exact ⟨bytes, rfl⟩
      | error e =>
        -- the holder of the lock stores what it has loaded
        have hwrite : answers floats limits codec decodeResponses loaded stored garbage
            (.write loaded) none := by
          simp only [answers, hloaded]
          rfl
        obtain ⟨v, hv, -⟩ := h (.ok .missing) (.inr (.inl rfl)) (.ok true) nofun (some loaded) rfl
          none hwrite (.error .unavailable) nofun
        cases hv
    · obtain ⟨bytes, hbytes⟩ := hencoded u hu
      have hhit := h _ (.inr (.inr ⟨_, .set hu hbytes, rfl⟩))
      rw [readStored_encode hbytes] at hhit
      obtain ⟨v, hv, hauthentic⟩ := hhit
      obtain rfl := Except.ok.inj hv
      exact hauthentic
    · refine JsonCacheCodec.readStored_iff.1 (.inr ?_)
      have hhit := h _ (.inr (.inr ⟨_, .garbage hb, rfl⟩))
      rcases JsonCacheCodec.readStored_cases decodeResponses b with ⟨v, hv⟩ | hcorrupt | hraised
      · exact absurd hv (hgarbage b hb v)
      · exact hcorrupt
      · rw [hraised] at hhit
        obtain ⟨v, hv, -⟩ := hhit
        cases hv
  · rintro ⟨⟨bytes, hloaded⟩, hstored, hreadable⟩
    refine ((answers_of hloaded hstored hgarbage hreadable).getOrLoad_always hvalid hopen).mono ?_
    rintro _ _ ⟨v, rfl, rfl | hv⟩
    · exact ⟨_, rfl, .inl rfl⟩
    · exact ⟨_, rfl, hv⟩

end

namespace OutcomesFixture

/-- A call that fails open, with the lease and the wait that are the defaults. -/
def args : Args where
  failOpen := true
  callable := true
  ttlSeconds := 60
  leaseMs := 5000
  waitMs := 2000
  polls := 80

/-- `float("inf")`. -/
def unbounded : Value Whole := .float (.infinity false)

end OutcomesFixture

open CodecFixture OutcomesFixture in
/-- A product is returned, beside an entry that is empty and one that is cut off. -/
theorem get_or_load_transparent_iff_product :
    args.validate = .ok () ∧
    (getOrLoad args "token").Always
      (answers wholeFloats limits {} true product {product} {[], [0x7b, 0x22]})
      (fun _ result => ∃ v, result = .ok v ∧ IsAuthentic wholeFloats product {product} v) [] := by
  have hok : ∃ bytes, JsonCacheCodec.encode wholeFloats limits {} product = .ok bytes := ⟨_, rfl⟩
  have hcorrupt : ∀ b ∈ ({[], [0x7b, 0x22]} : Set Bytes),
      JsonCacheCodec.readStored wholeFloats limits {} true b = .corrupt := by
    rintro b (rfl | rfl) <;> rfl
  have hwf : product.WellFormed wholeFloats := ⟨List.pairwise_singleton _ _, trivial, trivial⟩
  refine ⟨rfl, (get_or_load_transparent_iff rfl rfl ?_ ?_).2 ⟨hok, ?_, ?_⟩⟩
  · rintro _ rfl
    exact hok
  · intro b hb v
    rw [hcorrupt b hb]
    nofun
  · rintro _ rfl
    obtain ⟨bytes, hbytes⟩ := hok
    exact isAuthentic_of_isPlain rfl hbytes hwf rfl
  · rintro b (rfl | rfl) <;> refine ⟨fun _ => rfl, JsonCacheCodec.bounded_of_within ?_⟩ <;>
      rintro _ text ⟨⟩ htext <;> obtain rfl := Option.some.inj htext
    all_goals exact ⟨fun run hrun _ => Nat.le_trans hrun.length_le (by decide), by decide⟩

open CodecFixture OutcomesFixture in
/-- A loader that returns `float("inf")`: the holder of the lock raises what `encode` does. And for
any value, a byte under the key that is no UTF-8 makes the read raise. -/
theorem unbounded_raises :
    (¬ (getOrLoad args "token").Always (answers wholeFloats limits {} true unbounded ∅ ∅)
      (fun _ result => ∃ v, result = .ok v ∧ IsAuthentic wholeFloats unbounded ∅ v) []) ∧
    ¬ (getOrLoad args "token").Always (answers wholeFloats limits {} true product ∅ {[0xff]})
      (fun _ result => ∃ v, result = .ok v ∧ IsAuthentic wholeFloats product ∅ v) [] := by
  constructor
  · intro h
    obtain ⟨v, hv, -⟩ := h (.ok .missing) (.inr (.inl rfl)) (.ok true) nofun (some unbounded) rfl
      none rfl (.error .unavailable) nofun
    cases hv
  · intro h
    obtain ⟨v, hv, -⟩ := h _ (.inr (.inr ⟨_, .garbage rfl, rfl⟩))
    cases hv

end Ekumidayomi.Cache
