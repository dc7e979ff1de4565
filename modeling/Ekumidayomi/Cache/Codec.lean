import Ekumidayomi.Types
import Ekumidayomi.Lib.JsonCoercion

/-!
# The cache codec

`cache/codec.py`: a value is stored inside of an envelope with the version of its schema. `floats`
are the texts of floating-point numbers and `limits` what the interpreter grants to `json`.
-/

namespace Ekumidayomi.Cache

open Unicode Python

/-- `JsonCacheCodec`, with the checks of `__post_init__`. -/
structure JsonCacheCodec where
  schemaVersion : Nat := 1
  maxBytes : Nat := 262144
  schemaVersion_range : 1 ≤ schemaVersion ∧ schemaVersion ≤ 999 := by decide
  maxBytes_range : 1 ≤ maxBytes ∧ maxBytes ≤ 1048576 := by decide

/-- What `encode` raises. -/
inductive EncodeError
  | valueError (message : String)
  | recursionError
  deriving DecidableEq, Repr

/-- What `decode` raises: a `CacheDecodeError`, or what it lets through of `json.loads`. -/
inductive DecodeError
  | cacheDecodeError (message : String)
  | valueError
  | recursionError
  deriving DecidableEq, Repr

/-- What is found under a key: a `str`, `bytes`, or something else. -/
inductive Encoded
  | text (t : Text)
  | bytes (b : Bytes)
  | other

section
variable {F : Type} (floats : Floats F) (limits : Limits) (codec : JsonCacheCodec)

/-- `{"schema_version": self.schema_version, "value": value}`. -/
def JsonCacheCodec.envelope (value : Value F) : Value F :=
  .dict [(.str (ofString "schema_version"), .int codec.schemaVersion),
    (.str (ofString "value"), value)]

/-- `encode`. -/
def JsonCacheCodec.encode (value : Value F) : Except EncodeError Bytes :=
  match value with
  | .none => .error (.valueError "cache value must not be null")
  | value =>
    match dumps floats limits 0 (codec.envelope value) with
    | .error .recursionError => .error .recursionError
    | .error _ => .error (.valueError "cache value must be JSON-safe")
    | .ok text =>
      match encodeUtf8 text with
      | none => .error (.valueError "cache value must be JSON-safe")
      | some encoded =>
        if encoded.length > codec.maxBytes then
          .error (.valueError "cache value exceeds the byte limit")
        else .ok encoded

/-- The bytes that `decode` reads. -/
def Encoded.raw : Encoded → Except DecodeError Bytes
  | .text t =>
    match encodeUtf8 t with
    | some raw => .ok raw
    | none => .error (.cacheDecodeError "cache value is corrupt")
  | .bytes raw => .ok raw
  | .other => .error (.cacheDecodeError "cache value has an unsupported representation")

/-- `set(envelope) == {"schema_version", "value"}`. -/
def isEnvelope (entries : List (Key F × Value F)) : Bool :=
  (entries.all fun e => e.1.eq floats (.str (ofString "schema_version")) ||
    e.1.eq floats (.str (ofString "value"))) &&
  (lookup floats entries (.str (ofString "schema_version"))).isSome &&
  (lookup floats entries (.str (ofString "value"))).isSome

/-- The checks of a decoded envelope. -/
def JsonCacheCodec.unwrap (envelope : Value F) : Except DecodeError (Value F) :=
  match envelope with
  | .dict entries =>
    if !isEnvelope floats entries then .error (.cacheDecodeError "cache envelope is invalid")
    else
      match lookup floats entries (.str (ofString "schema_version")),
        lookup floats entries (.str (ofString "value")) with
      | some version, some value =>
        if !version.eq floats (.int codec.schemaVersion) then
          .error (.cacheDecodeError "cache schema version is unsupported")
        else match value with
          | .none => .error (.cacheDecodeError "cache value must not be null")
          | value => .ok value
      | _, _ => .error (.cacheDecodeError "cache envelope is invalid")
  | _ => .error (.cacheDecodeError "cache envelope is invalid")

/-- `decode`. -/
def JsonCacheCodec.decode (encoded : Encoded) : Except DecodeError (Value F) := do
  let raw ← encoded.raw
  if raw.length > codec.maxBytes then
    throw (.cacheDecodeError "cache value exceeds the byte limit")
  match loads floats limits raw with
  | .error .unicodeDecodeError | .error .jsonDecodeError =>
    throw (.cacheDecodeError "cache value is corrupt")
  | .error .valueError => throw .valueError
  | .error .recursionError => throw .recursionError
  | .ok envelope => codec.unwrap floats envelope

/-- What `GET` gives for stored bytes: themselves, or their text when the client was made with
`decode_responses`, as that of `core/redis.py` is. Then bytes that are no UTF-8 make the client raise
`UnicodeDecodeError`, which is the `none`. -/
def fetched (decodeResponses : Bool) (stored : Bytes) : Option Encoded :=
  if decodeResponses then (decodeUtf8 false stored).map .text else some (.bytes stored)

end

/-! ## What is encoded -/

section
variable {F : Type} {floats : Floats F} {limits : Limits} {codec : JsonCacheCodec}
  {value : Value F} {bytes : Bytes}

/-- A value that is encoded: its envelope has a text, and the text has bytes within the limit. -/
theorem JsonCacheCodec.encode_ok (h : codec.encode floats limits value = .ok bytes) :
    value ≠ .none ∧ bytes.length ≤ codec.maxBytes ∧
      ∃ text, dumps floats limits 0 (codec.envelope value) = .ok text ∧
        encodeUtf8 text = some bytes := by
  unfold JsonCacheCodec.encode at h
  split at h
  · cases h
  case h_2 hne =>
    split at h
    · cases h
    · cases h
    case h_3 text htext =>
      split at h
      · cases h
      case h_2 encoded hencoded =>
        split at h
        case isTrue => cases h
        case isFalse hle =>
          obtain rfl := Except.ok.inj h
          exact ⟨hne, Nat.not_lt.1 hle, text, htext, hencoded⟩

/-- The text of an envelope begins with a brace and a quote. -/
theorem JsonCacheCodec.dumps_envelope {text : Text}
    (h : dumps floats limits 0 (codec.envelope value) = .ok text) :
    (∃ t, text = ofChar '{' :: ofChar '"' :: t) ∧
      ∃ t, dumps floats limits 1 value = .ok t := by
  obtain ⟨_, -, h⟩ := bind_ok h
  obtain ⟨texts, htexts, h⟩ := bind_ok h
  obtain ⟨name, -, htexts⟩ := bind_ok htexts
  obtain ⟨version, -, htexts⟩ := bind_ok htexts
  obtain ⟨rest, hrest, htexts⟩ := bind_ok htexts
  obtain ⟨name', -, hrest⟩ := bind_ok hrest
  obtain ⟨t, ht, hrest⟩ := bind_ok hrest
  obtain rfl := Except.ok.inj hrest
  obtain rfl := Except.ok.inj htexts
  obtain rfl := Except.ok.inj h
  exact ⟨⟨_, rfl⟩, t, ht⟩

/-- What comes back for an envelope is the envelope of what comes back. -/
theorem JsonCacheCodec.coerced_envelope (value : Value F) :
    (codec.envelope value).coerced floats = codec.envelope (value.coerced floats) := rfl

theorem coerced_eq_none (h : value.coerced floats = .none) : value = .none := by
  cases value <;> first | rfl | cases h

/-- An envelope with a value in it is unwrapped. -/
theorem JsonCacheCodec.unwrap_envelope (hne : value ≠ .none) :
    codec.unwrap floats (codec.envelope value) = .ok value := by
  have hversion : (Value.int (codec.schemaVersion : Int) : Value F).eq floats
      (.int codec.schemaVersion) = true := beq_self_eq_true _
  show (if !((Value.int (codec.schemaVersion : Int) : Value F).eq floats
      (.int codec.schemaVersion)) then _ else _) = _
  rw [hversion]
  cases value <;> first | rfl | exact absurd rfl hne

/-- What is encoded is decoded, from its bytes and from its text, to what comes back for it. -/
theorem JsonCacheCodec.decode_encode (h : codec.encode floats limits value = .ok bytes) :
    codec.decode floats limits (.bytes bytes) = .ok (value.coerced floats) ∧
      ∃ text, decodeUtf8 false bytes = some text ∧
        codec.decode floats limits (.text text) = .ok (value.coerced floats) := by
  obtain ⟨hne, hle, text, htext, hbytes⟩ := encode_ok h
  obtain ⟨⟨t, rfl⟩, -⟩ := dumps_envelope htext
  have hloads : loads floats limits bytes = .ok ((codec.envelope value).coerced floats) :=
    loads_dumps (by decide) (by decide) htext hbytes
  have hdecode : codec.decode floats limits (.bytes bytes) = .ok (value.coerced floats) := by
    show (if bytes.length > codec.maxBytes then _ else _) = _
    rw [if_neg (Nat.not_lt.2 hle), hloads, coerced_envelope]
    exact unwrap_envelope fun hnone => hne (coerced_eq_none hnone)
  refine ⟨hdecode, _, decodeUtf8_encodeUtf8 hbytes, ?_⟩
  rw [← hdecode]
  simp only [decode, Encoded.raw, hbytes]

/-- What a client gets for stored bytes is decoded as they are. -/
theorem JsonCacheCodec.decode_fetched {decodeResponses : Bool} {stored : Bytes} {encoded : Encoded}
    (h : fetched decodeResponses stored = some encoded) :
    codec.decode floats limits encoded = codec.decode floats limits (.bytes stored) := by
  cases decodeResponses with
  | false => rw [← Option.some.inj h]
  | true =>
    obtain ⟨text, htext, rfl⟩ := Option.map_eq_some_iff.1 h
    simp only [decode, Encoded.raw, encodeUtf8_decodeUtf8 htext]

/-- A stored value comes back equal, from its bytes and from its text, exactly when it holds no
tuple and its dictionaries have only strings for keys. -/
theorem JsonCacheCodec.round_trip_iff (hwf : value.WellFormed floats)
    (h : codec.encode floats limits value = .ok bytes) :
    (∃ w text, decodeUtf8 false bytes = some text ∧
      codec.decode floats limits (.bytes bytes) = .ok w ∧
      codec.decode floats limits (.text text) = .ok w ∧ w.eq floats value = true) ↔
    value.isPlain = true := by
  obtain ⟨hdecode, text, hutf8, htext⟩ := decode_encode h
  obtain ⟨-, -, envelope, henvelope, -⟩ := encode_ok h
  obtain ⟨-, t, ht⟩ := dumps_envelope henvelope
  rw [← coerced_eq_iff ht hwf]
  constructor
  · rintro ⟨w, -, -, hw, -, heq⟩
    obtain rfl := Except.ok.inj (hdecode.symm.trans hw)
    exact heq
  · exact fun heq => ⟨_, text, hutf8, hdecode, htext, heq⟩

end

namespace CodecFixture

/-- `{"name": "Àdìrẹ"}`. -/
def product : Value Whole := .dict [(.str (ofString "name"), .str (ofString "Àdìrẹ"))]

/-- `{1: "a"}`. -/
def numbered : Value Whole := .dict [(.int 1, .str (ofString "a"))]

def limits : Limits := { nesting := 1000 }

/-- `encode` on the default codec. -/
def encoded (value : Value Whole) : Except EncodeError Bytes :=
  JsonCacheCodec.encode wholeFloats limits {} value

end CodecFixture

open CodecFixture in
/-- A product's name is stored and comes back. -/
theorem round_trip_iff_product : ∃ bytes, encoded product = .ok bytes ∧
    ∃ w text, decodeUtf8 false bytes = some text ∧
      JsonCacheCodec.decode wholeFloats limits {} (.bytes bytes) = .ok w ∧
      JsonCacheCodec.decode wholeFloats limits {} (.text text) = .ok w ∧
      w.eq wholeFloats product = true := by
  have hok : ∃ bytes, encoded product = .ok bytes := ⟨_, rfl⟩
  obtain ⟨bytes, hbytes⟩ := hok
  have hwf : product.WellFormed wholeFloats := ⟨List.pairwise_singleton _ _, trivial, trivial⟩
  exact ⟨bytes, hbytes, (JsonCacheCodec.round_trip_iff hwf hbytes).2 rfl⟩

open CodecFixture in
/-- A dictionary with a number for a key is stored, and its key comes back as a string. -/
theorem numbered_differs : ∃ bytes, encoded numbered = .ok bytes ∧
    ¬ ∃ w text, decodeUtf8 false bytes = some text ∧
      JsonCacheCodec.decode wholeFloats limits {} (.bytes bytes) = .ok w ∧
      JsonCacheCodec.decode wholeFloats limits {} (.text text) = .ok w ∧
      w.eq wholeFloats numbered = true := by
  have hok : ∃ bytes, encoded numbered = .ok bytes := ⟨_, rfl⟩
  obtain ⟨bytes, hbytes⟩ := hok
  refine ⟨bytes, hbytes, ?_⟩
  rintro ⟨w, text, -, hw, -, heq⟩
  have hcoerced := (JsonCacheCodec.decode_encode hbytes).1
  obtain rfl := Except.ok.inj (hcoerced.symm.trans hw)
  revert heq
  decide

end Ekumidayomi.Cache
