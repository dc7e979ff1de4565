import Ekumidayomi.Text
import Ekumidayomi.Lib.Percent

/-!
# The values of the object storage

`storage/types.py`. A key is a relative path that no segment takes upwards, an upload declares its
type, its length and its digest, and a signed access is an HTTPS address with an end. `quote` writes
a key as the path of an address: the path has the segments of the key (`splitOn_quote`) and is read
back as it (`unquote_quote`).
-/

namespace Ekumidayomi.Storage

open Unicode

inductive StorageError
  | unsafeKey
  | extension
  | contentType
  | sizeBytes
  | sha256
  | insecure
  | exceeds
  | mismatch
  | missing (key : Text)
  | expiry
  | encoding
  deriving DecidableEq

/-- The text of the `ValueError`; a missing object is a `FileNotFoundError` with its key, and a key
with a surrogate a `UnicodeEncodeError`. -/
def StorageError.text : StorageError → Option String
  | .unsafeKey => some "object key is unsafe"
  | .extension => some "file extension is not supported"
  | .contentType => some "content type is unsupported"
  | .sizeBytes => some "size_bytes must be between 1 and 10485760"
  | .sha256 => some "sha256 must be lowercase hexadecimal"
  | .insecure => some "signed access must use HTTPS"
  | .exceeds => some "uploaded object exceeds declared size"
  | .mismatch => some "uploaded object does not match declared metadata"
  | .expiry => some "signed access expiry must be between 1 second and 15 minutes"
  | .missing _ | .encoding => none

def slash : CodePoint := ofChar '/'

/-- The segment that names the directory above. -/
def parent : Text := ofString ".."

/-- `ObjectKey.__post_init__` refuses the text. -/
def unsafeKey (value : Text) : Bool :=
  value.isEmpty || value.length > 255 || value.head? == some slash || value.contains (ofChar '\\') ||
    (value.splitOn slash).contains parent || value.any (·.val < 32)

structure ObjectKey where
  value : Text
  accepted : unsafeKey value = false
  deriving DecidableEq

def ObjectKey.create (value : Text) : Except StorageError ObjectKey :=
  if h : unsafeKey value = false then .ok ⟨value, h⟩ else .error .unsafeKey

def extensions : List String := ["avif", "jpg", "png", "webp"]

/-- `f"products/{product_id}/{object_id}.{extension}"`. -/
def imagePath (productId objectId : UUID) (extension : String) : Text :=
  ofString "products" ++ slash :: (ofString (uuidStr productId) ++
    slash :: ofString (uuidStr objectId ++ "." ++ extension))

/-- `ObjectKey.product_image`. -/
def ObjectKey.productImage (productId objectId : UUID) (extension : String) :
    Except StorageError ObjectKey :=
  if extensions.contains extension then
    ObjectKey.create (imagePath productId objectId extension)
  else .error .extension

/-- `_MIME_TYPES`. -/
def mimeTypes : List String := ["image/avif", "image/jpeg", "image/png", "image/webp"]

structure UploadMetadata where
  contentType : String
  sizeBytes : Int
  sha256 : String
  content_type_listed : mimeTypes.contains contentType = true
  size_bytes_range : 1 ≤ sizeBytes ∧ sizeBytes ≤ 10485760
  sha256_hex : isHex64 sha256 = true
  deriving DecidableEq

def UploadMetadata.create (contentType : String) (sizeBytes : Int) (sha256 : String) :
    Except StorageError UploadMetadata :=
  if hcontentType : mimeTypes.contains contentType = true then
    if hsize : 1 ≤ sizeBytes ∧ sizeBytes ≤ 10485760 then
      if hsha256 : isHex64 sha256 = true then
        .ok ⟨contentType, sizeBytes, sha256, hcontentType, hsize, hsha256⟩
      else .error .sha256
    else .error .sizeBytes
  else .error .contentType

structure StoredObject where
  key : ObjectKey
  metadata : UploadMetadata
  storedAt : Time
  deriving DecidableEq

structure SignedAccess where
  url : String
  expiresAt : Time
  https : "https://".toList.isPrefixOf url.toList = true
  deriving DecidableEq

def SignedAccess.create (url : String) (expiresAt : Time) : Except StorageError SignedAccess :=
  if h : "https://".toList.isPrefixOf url.toList = true then .ok ⟨url, expiresAt, h⟩
  else .error .insecure

/-! ## The path of an address -/

/-- The bytes that `urllib.parse.quote` leaves as they are: letters, digits, `_.-~`, and `/`. -/
def isUrlSafe (b : UInt8) : Bool :=
  let n := b.toNat
  (0x41 ≤ n && n ≤ 0x5a) || (0x61 ≤ n && n ≤ 0x7a) || (0x30 ≤ n && n ≤ 0x39) || n == 0x5f ||
    n == 0x2e || n == 0x2d || n == 0x7e || n == 0x2f

/-- `urllib.parse.quote`; a surrogate is a `UnicodeEncodeError`. -/
def quote (text : Text) : Option (List Char) := (encodeUtf8 text).map (Percent.encode isUrlSafe)

/-- The text that a path stands for. -/
def unquote (path : List Char) : Option Text := decodeUtf8 false (Percent.decode path)

theorem isUrlSafe_plain : Percent.Plain isUrlSafe where
  ascii b h := by
    simp only [isUrlSafe, Bool.or_eq_true, Bool.and_eq_true, decide_eq_true_eq, beq_iff_eq] at h
    omega
  percent := by decide

/-- A quoted text is read back. -/
theorem unquote_quote {text : Text} {path : List Char} (h : quote text = some path) :
    unquote path = some text := by
  obtain ⟨bytes, hbytes, rfl⟩ := Option.map_eq_some_iff.1 h
  rw [unquote, Percent.decode_encode isUrlSafe_plain, decodeUtf8_encodeUtf8 hbytes]

/-- What a character of a text becomes. -/
def quoteChar (c : CodePoint) : List Char := Percent.encode isUrlSafe (utf8Bytes c)

theorem quote_eq {text : Text} {path : List Char} (h : quote text = some path) :
    path = text.flatMap quoteChar := by
  obtain ⟨bytes, hbytes, rfl⟩ := Option.map_eq_some_iff.1 h
  unfold encodeUtf8 at hbytes
  split at hbytes
  case isTrue => cases hbytes
  case isFalse =>
    obtain rfl := Option.some.inj hbytes
    rw [Percent.encode, List.flatMap_assoc]
    rfl

/-- A part of a text that can be quoted can be quoted. -/
theorem quote_part {text part : Text} {path : List Char} (h : quote text = some path)
    (hpart : part ∈ text.splitOn slash) : quote part = some (part.flatMap quoteChar) := by
  obtain ⟨bytes, hbytes, -⟩ := Option.map_eq_some_iff.1 h
  unfold encodeUtf8 at hbytes
  split at hbytes
  case isTrue => cases hbytes
  case isFalse hno =>
    have hpartno : part.any (fun c => isSurrogate c.val) ≠ true := by
      intro hany
      obtain ⟨c, hc, hsurrogate⟩ := List.any_eq_true.1 hany
      exact hno (List.any_eq_true.2 ⟨c, Percent.mem_of_mem_splitOn hpart hc, hsurrogate⟩)
    rw [quote, encodeUtf8, if_neg hpartno, Option.map_some, Percent.encode, List.flatMap_assoc]
    rfl

/-- Only a slash is written with a slash. -/
theorem slash_not_mem_quoteChar {c : CodePoint} (hc : c ≠ slash) : '/' ∉ quoteChar c := by
  intro hmem
  obtain ⟨b, hb, -, heq⟩ | heq | ⟨n, hn, heq⟩ := Percent.mem_encode hmem
  · have hbval : b.toNat = 0x2f := by
      rw [← Percent.toNat_ofNat b, ← heq]
      rfl
    have hcval : c.val ≠ 0x2f := fun h => hc (Fin.ext h)
    have hlt := c.isLt
    unfold utf8Bytes at hb
    dsimp only at hb
    (repeat' split at hb) <;>
      simp only [List.mem_cons, List.not_mem_nil, or_false] at hb <;>
      rcases hb with rfl | rfl | rfl | rfl <;>
      simp only [UInt8.toNat_ofNat'] at hbval <;> omega
  · cases heq
  · have key : ∀ n < 16, '/' ≠ Percent.hexDigit n := by decide
    exact key n hn heq

/-- A path has the segments of its key. -/
theorem splitOn_quote {text : Text} {path : List Char} (h : quote text = some path) :
    path.splitOn '/' = (text.splitOn slash).map (·.flatMap quoteChar) := by
  rw [quote_eq h]
  have hslash : quoteChar slash = ['/'] := by decide
  exact Percent.flatMap_splitOn hslash (fun _ => slash_not_mem_quoteChar) text

/-- A path goes upwards only where its key does. -/
theorem parent_of_quote {text : Text} {path : List Char} (h : quote text = some path)
    (hparent : "..".toList ∈ path.splitOn '/') : parent ∈ text.splitOn slash := by
  rw [splitOn_quote h] at hparent
  obtain ⟨part, hpart, heq⟩ := List.mem_map.1 hparent
  have hquote := quote_part h hpart
  rw [heq] at hquote
  have hread := unquote_quote hquote
  have hdots : unquote "..".toList = some parent := by decide
  rw [hdots] at hread
  rwa [Option.some.inj hread]

/-- The characters of a path: what `quote` leaves as it is, and the start of an escape. -/
def isPathChar (c : Char) : Bool := (c.toNat < 0x80 && isUrlSafe (.ofNat c.toNat)) || c == '%'

theorem isPathChar_of_mem_quote {text : Text} {path : List Char} (h : quote text = some path)
    {c : Char} (hc : c ∈ path) : isPathChar c = true := by
  obtain ⟨bytes, -, rfl⟩ := Option.map_eq_some_iff.1 h
  obtain ⟨b, -, hsafe, rfl⟩ | rfl | ⟨n, hn, rfl⟩ := Percent.mem_encode hc
  · have hlt := isUrlSafe_plain.ascii b hsafe
    rw [isPathChar, Percent.toNat_ofNat, UInt8.ofNat_toNat, hsafe]
    simp [hlt]
  · rfl
  · have key : ∀ n < 16, isPathChar (Percent.hexDigit n) = true := by decide
    exact key n hn

/-! ## Product images -/

theorem mem_uuidChars {u : UUID} {c : Char} (h : c ∈ uuidChars u) :
    c = '-' ∨ c ∈ Hex.digits 32 u.toNat := by
  simp only [uuidChars, List.mem_append, List.mem_cons] at h
  obtain h | h | h | h | h | h | h | h | h := h
  · exact .inr (List.mem_of_mem_take h)
  · exact .inl h
  · exact .inr (List.mem_of_mem_drop (List.mem_of_mem_take h))
  · exact .inl h
  · exact .inr (List.mem_of_mem_drop (List.mem_of_mem_take h))
  · exact .inl h
  · exact .inr (List.mem_of_mem_drop (List.mem_of_mem_take h))
  · exact .inl h
  · exact .inr (List.mem_of_mem_drop h)

/-- The characters of a product image's name between its slashes. -/
def isNameChar (c : CodePoint) : Bool := (toChar c).any fun c => isAlnum c || c == '-' || c == '.'

theorem printable_of_isNameChar {c : CodePoint} (h : isNameChar c = true) : ¬ c.val < 32 := by
  rw [isNameChar] at h
  obtain ⟨char, hchar, hname⟩ := (Option.any_eq_true _ _).1 h
  rw [← ofChar_of_toChar hchar, ofChar_val]
  intro hlt
  have key : ∀ n < 32, (isAlnum (.ofNat n) || .ofNat n == '-' || .ofNat n == '.') = false := by decide
  have hno := key char.toNat hlt
  rw [Char.ofNat_toNat, hname] at hno
  cases hno

theorem isNameChar_uuidStr {u : UUID} {c : CodePoint} (h : c ∈ ofString (uuidStr u)) :
    isNameChar c = true := by
  rw [uuidStr, ofString, String.toList_ofList] at h
  obtain ⟨char, hchar, rfl⟩ := List.mem_map.1 h
  rw [isNameChar, toChar_ofChar]
  obtain rfl | hdigit := mem_uuidChars hchar
  · decide
  · obtain ⟨n, hn, rfl⟩ := List.mem_map.1 (Hex.mem_digits hdigit)
    have key : ∀ n < 16, (some (Nat.digitChar n)).any
        (fun c => isAlnum c || c == '-' || c == '.') = true := by decide
    exact key n (List.mem_range.1 hn)

theorem isNameChar_extension {extension : String} (h : extensions.contains extension = true)
    {c : CodePoint} (hc : c ∈ ofString extension) : isNameChar c = true := by
  have key : extensions.all (fun e => e.toList.all isAlnum) = true := by decide
  obtain ⟨char, hchar, rfl⟩ := List.mem_map.1 hc
  have hchars := List.all_eq_true.1 key extension (List.contains_iff_mem.1 h)
  rw [isNameChar, toChar_ofChar, Option.any_some, List.all_eq_true.1 hchars char hchar]
  rfl

theorem not_mem_of_isNameChar {text : Text} (h : ∀ c ∈ text, isNameChar c = true) {c : CodePoint}
    (hc : isNameChar c = false) : c ∉ text := by
  intro hmem
  rw [h c hmem] at hc
  cases hc

@[simp] theorem ofString_append (s t : String) : ofString (s ++ t) = ofString s ++ ofString t := by
  simp [ofString]

theorem isNameChar_stem {objectId : UUID} {extension : String}
    (h : extensions.contains extension = true) {c : CodePoint}
    (hc : c ∈ ofString (uuidStr objectId ++ "." ++ extension)) : isNameChar c = true := by
  rw [ofString_append, ofString_append, List.append_assoc, List.mem_append, List.mem_append] at hc
  obtain hc | hc | hc := hc
  · exact isNameChar_uuidStr hc
  · obtain rfl := List.mem_singleton.1 hc
    rw [isNameChar, toChar_ofChar]
    rfl
  · exact isNameChar_extension h hc

/-- The name of a product image has three segments. -/
theorem splitOn_imagePath {productId objectId : UUID} {extension : String}
    (h : extensions.contains extension = true) :
    (imagePath productId objectId extension).splitOn slash =
      [ofString "products", ofString (uuidStr productId),
        ofString (uuidStr objectId ++ "." ++ extension)] := by
  have hslash : isNameChar slash = false := by decide
  have hproducts : slash ∉ ofString "products" := by
    intro hmem
    obtain ⟨c, hc, heq⟩ := List.mem_map.1 hmem
    rw [ofChar_injective heq] at hc
    revert hc
    decide
  rw [imagePath, List.splitOn_append_cons_self_of_not_mem hproducts,
    List.splitOn_append_cons_self_of_not_mem
      (not_mem_of_isNameChar (fun _ => isNameChar_uuidStr) hslash),
    List.splitOn_eq_singleton (not_mem_of_isNameChar (fun _ => isNameChar_stem h) hslash)]

theorem length_ofString_uuidStr (u : UUID) : (ofString (uuidStr u)).length = 36 := by
  rw [ofString, uuidStr, String.toList_ofList, List.length_map, length_uuidChars]

/-- A product image's name is a key. -/
theorem unsafeKey_imagePath {productId objectId : UUID} {extension : String}
    (h : extensions.contains extension = true) :
    unsafeKey (imagePath productId objectId extension) = false := by
  have hextension : ∀ e ∈ extensions, (ofString e).length ≤ 4 := by decide
  have hlength := hextension extension (List.contains_iff_mem.1 h)
  have hchars : ∀ c ∈ imagePath productId objectId extension, isNameChar c = true ∨ c = slash := by
    intro c hc
    rw [imagePath, List.mem_append, List.mem_cons, List.mem_append, List.mem_cons] at hc
    obtain hc | rfl | hc | rfl | hc := hc
    · have key : "products".toList.all isAlnum = true := by decide
      obtain ⟨char, hchar, rfl⟩ := List.mem_map.1 hc
      rw [isNameChar, toChar_ofChar, Option.any_some, List.all_eq_true.1 key char hchar]
      exact .inl rfl
    · exact .inr rfl
    · exact .inl (isNameChar_uuidStr hc)
    · exact .inr rfl
    · exact .inl (isNameChar_stem h hc)
  have hback : ofChar '\\' ∉ imagePath productId objectId extension := by
    intro hmem
    obtain hname | hslash := hchars _ hmem
    · exact absurd hname (by decide)
    · exact absurd hslash (by decide)
  have hparent : parent ∉ (imagePath productId objectId extension).splitOn slash := by
    rw [splitOn_imagePath h]
    intro hmem
    simp only [List.mem_cons, List.not_mem_nil, or_false] at hmem
    have hlen : parent.length = 2 := rfl
    obtain heq | heq | heq := hmem
    · exact absurd heq (by decide)
    · rw [heq, length_ofString_uuidStr] at hlen
      omega
    · rw [heq, ofString_append, ofString_append, List.length_append, List.length_append,
        length_ofString_uuidStr] at hlen
      omega
  have hcontrol : ∀ c ∈ imagePath productId objectId extension, ¬ c.val < 32 := by
    intro c hc
    obtain hname | rfl := hchars c hc
    · exact printable_of_isNameChar hname
    · decide
  have hfirst : (imagePath productId objectId extension).head? = some (ofChar 'p') := rfl
  have hempty : (imagePath productId objectId extension).isEmpty = false := rfl
  have hlong : ¬ (imagePath productId objectId extension).length > 255 := by
    simp only [imagePath, ofString_append, List.length_append, List.length_cons,
      length_ofString_uuidStr]
    have hproducts : (ofString "products").length = 8 := by decide
    have hdot : (ofString ".").length = 1 := by decide
    omega
  simp only [unsafeKey, hempty, hfirst, Bool.false_or, Bool.or_eq_false_iff, decide_eq_false_iff_not,
    List.contains_eq_mem, List.any_eq_false, decide_eq_true_eq]
  exact ⟨⟨⟨⟨hlong, by decide⟩, hback⟩, hparent⟩, hcontrol⟩

theorem productImage_ok {productId objectId : UUID} {extension : String}
    (h : extensions.contains extension = true) :
    ObjectKey.productImage productId objectId extension =
      .ok ⟨imagePath productId objectId extension, unsafeKey_imagePath h⟩ := by
  rw [ObjectKey.productImage, if_pos h, ObjectKey.create, dif_pos (unsafeKey_imagePath h)]

theorem productImage_eq_ok {productId objectId : UUID} {extension : String} {key : ObjectKey}
    (h : ObjectKey.productImage productId objectId extension = .ok key) :
    extensions.contains extension = true ∧ key.value = imagePath productId objectId extension := by
  by_cases hextension : extensions.contains extension = true
  · rw [productImage_ok hextension] at h
    obtain rfl := Except.ok.inj h
    exact ⟨hextension, rfl⟩
  · rw [ObjectKey.productImage, if_neg hextension] at h
    cases h

theorem ofString_uuidStr_inj {u v : UUID} (h : ofString (uuidStr u) = ofString (uuidStr v)) :
    u = v := by
  rw [ofString, ofString, uuidStr, uuidStr, String.toList_ofList, String.toList_ofList] at h
  exact uuidChars_inj (List.map_injective_iff.2 ofChar_injective h)

/-- Names of product images with one text are of one image. -/
theorem imagePath_inj {productId objectId productId' objectId' : UUID} {extension extension' : String}
    (h : extensions.contains extension = true) (h' : extensions.contains extension' = true)
    (heq : imagePath productId objectId extension = imagePath productId' objectId' extension') :
    productId = productId' ∧ objectId = objectId' ∧ extension = extension' := by
  have hsplit := congrArg (List.splitOn slash) heq
  rw [splitOn_imagePath h, splitOn_imagePath h'] at hsplit
  simp only [List.cons.injEq, true_and, and_true, ofString_append, List.append_assoc] at hsplit
  obtain ⟨hproduct, hstem⟩ := hsplit
  obtain ⟨hobject, hrest⟩ := List.append_inj hstem (by simp only [length_ofString_uuidStr])
  have hextension : ofString extension = ofString extension' := List.append_cancel_left hrest
  have htext := asString_ofString extension
  rw [hextension, asString_ofString] at htext
  exact ⟨ofString_uuidStr_inj hproduct, ofString_uuidStr_inj hobject, (Option.some.inj htext).symm⟩

end Ekumidayomi.Storage
