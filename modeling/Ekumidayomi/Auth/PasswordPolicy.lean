import Ekumidayomi.Auth.SessionCache

/-!
# Breach screening

`HibpBreachChecker` of `auth/password_policy.py`. What the transport gives is an argument: nothing,
or a status and the chunks of a body, which may break off. `sha1` is SHA-1. The checker answers on
the rows of a complete body only, and refuses every other (`is_breached_iff`); how the body is cut
into chunks plays no part.
-/

namespace Ekumidayomi

open Transact

/-! ## Rows -/

/-- The characters `[0-9A-F]`. -/
def isUpperHex (c : Char) : Bool := isDigit c || ('A' ≤ c && c ≤ 'F')

/-- What `_RANGE_ROW` matches: `([0-9A-F]{35}):([0-9]{1,12})`. -/
structure RangeRow where
  suffix : List Char
  digits : List Char
  suffix_length : suffix.length = 35
  suffix_hex : suffix.all isUpperHex = true
  digits_length : 1 ≤ digits.length ∧ digits.length ≤ 12
  digits_decimal : digits.all isDigit = true

namespace RangeRow

/-- The line of the row. -/
def text (row : RangeRow) : List Char := row.suffix ++ ':' :: row.digits

/-- `int(count)`. -/
def count (row : RangeRow) : Nat := Nat.ofDigitChars 10 row.digits 0

/-- `_RANGE_ROW.fullmatch`. -/
def fullmatch (line : List Char) : Option RangeRow :=
  match line.drop 35 with
  | ':' :: digits =>
    if h : ((line.take 35).length = 35 ∧ (line.take 35).all isUpperHex = true) ∧
        (1 ≤ digits.length ∧ digits.length ≤ 12) ∧ digits.all isDigit = true then
      some ⟨line.take 35, digits, h.1.1, h.1.2, h.2.1, h.2.2⟩
    else none
  | _ => none

/-- A line matches exactly when it is the line of a row. -/
theorem fullmatch_iff {line : List Char} {row : RangeRow} :
    fullmatch line = some row ↔ line = row.text := by
  constructor
  · intro h
    unfold fullmatch at h
    split at h
    case h_2 => cases h
    case h_1 digits hdrop =>
      split at h
      case isFalse => cases h
      case isTrue =>
        cases h
        rw [text, ← hdrop, List.take_append_drop]
  · rintro rfl
    have hdrop : row.text.drop 35 = ':' :: row.digits := by
      rw [text, List.drop_left' row.suffix_length]
    have htake : row.text.take 35 = row.suffix := by
      rw [text, List.take_left' row.suffix_length]
    have hmatches : ((row.text.take 35).length = 35 ∧ (row.text.take 35).all isUpperHex = true) ∧
        (1 ≤ row.digits.length ∧ row.digits.length ≤ 12) ∧ row.digits.all isDigit = true := by
      rw [htake]
      exact ⟨⟨row.suffix_length, row.suffix_hex⟩, row.digits_length, row.digits_decimal⟩
    unfold fullmatch
    rw [hdrop]
    split
    case h_2 hno => exact absurd rfl (hno row.digits)
    case h_1 digits heq =>
      cases heq
      rw [dif_pos hmatches]
      simp only [htake]

end RangeRow

/-! ## Lines -/

/-- The characters that end a line. -/
def isLineBreak (c : Char) : Bool :=
  [0x0a, 0x0b, 0x0c, 0x0d, 0x1c, 0x1d, 0x1e, 0x85, 0x2028, 0x2029].contains c.toNat

/-- `str.splitlines()`. -/
def splitlines : List Char → List (List Char)
  | [] => []
  | '\r' :: '\n' :: text => [] :: splitlines text
  | c :: text =>
    if isLineBreak c then [] :: splitlines text
    else match splitlines text with
      | [] => [[c]]
      | line :: lines => (c :: line) :: lines

example : splitlines "ab\r\n\rc\n".toList = [['a', 'b'], [], ['c']] := by decide

/-- `bytes.decode("ascii")`; `none` when it raises. -/
def decodeAscii (body : Bytes) : Option (List Char) :=
  if body.all (· < 128) then some (body.map fun b => Char.ofNat b.toNat) else none

/-! ## The checker -/

/-- `_MAX_RANGE_BYTES`. -/
def maxRangeBytes : Nat := 131072

/-- What is raised on the way, and handled by the checker. -/
inductive RangeError
  | transport | status | limit | encoding | empty | row | duplicate
  deriving DecidableEq, Repr

/-- The text of a `ValueError`; those of the transport and of the codec are theirs. -/
def RangeError.text : RangeError → Option String
  | transport | encoding => none
  | status => some "unexpected range status"
  | limit => some "range response exceeds limit"
  | empty => some "empty range response"
  | row => some "invalid range response"
  | duplicate => some "duplicate range suffix"

/-- What the transport gives: no response, or a status and the chunks of a body. A body that is not
complete ends in an error of the transport. -/
inductive RangeReply
  | failed
  | response (statusCode : Nat) (chunks : List Bytes) (complete : Bool)

/-- The loop over the chunks. -/
def readBody (complete : Bool) : List Bytes → Bytes → Except RangeError Bytes
  | [], body => if complete then .ok body else .error .transport
  | chunk :: chunks, body =>
    if (body ++ chunk).length > maxRangeBytes then .error .limit
    else readBody complete chunks (body ++ chunk)

/-- The loop over the rows, with what it has found and seen. -/
def scanRows (target : List Char) :
    List (List Char) → Bool → List (List Char) → Except RangeError Bool
  | [], found, _ => .ok found
  | line :: lines, found, seen =>
    match RangeRow.fullmatch line with
    | none => .error .row
    | some row =>
      if row.suffix ∈ seen then .error .duplicate
      else scanRows target lines (found || (row.suffix = target && 0 < row.count))
        (row.suffix :: seen)

section
variable (sha1 : Bytes → Bytes)

/-- `hexdigest().upper()` of the password. -/
def passwordDigest (password : String) : List Char :=
  (hexdigest (sha1 (encode password))).toList.map Char.toUpper

/-- The body of `is_breached`, up to its handler. -/
def rangeLookup (reply : RangeReply) (password : String) : Except RangeError Bool :=
  match reply with
  | .failed => .error .transport
  | .response statusCode chunks complete =>
    if statusCode ≠ 200 then .error .status
    else do
      let body ← readBody complete chunks []
      match decodeAscii body with
      | none => .error .encoding
      | some text =>
        if splitlines text = [] then .error .empty
        else scanRows ((passwordDigest sha1 password).drop 5) (splitlines text) false []

/-- `is_breached`; `none` when it raises `PasswordCheckUnavailableError`. -/
def isBreached (reply : RangeReply) (password : String) : Option Bool :=
  (rangeLookup sha1 reply password).toOption

end

/-! ## What is accepted -/

/-- The body is short, in ASCII, and its lines are those of the rows: at least one, and no suffix
twice. -/
structure RangeBody (body : Bytes) (rows : List RangeRow) : Prop where
  short : body.length ≤ maxRangeBytes
  lines : ∃ text, decodeAscii body = some text ∧ splitlines text = rows.map RangeRow.text
  nonempty : rows ≠ []
  distinct : (rows.map RangeRow.suffix).Nodup

/-- The row of the suffix has a positive count. -/
def Lists (rows : List RangeRow) (suffix : List Char) : Prop :=
  ∃ row ∈ rows, row.suffix = suffix ∧ 0 < row.count

instance (rows : List RangeRow) (suffix : List Char) : Decidable (Lists rows suffix) :=
  inferInstanceAs (Decidable (∃ row ∈ rows, _))

section
variable {body : Bytes} {chunks : List Bytes} {complete : Bool} {lines : List (List Char)}
  {found result : Bool} {seen : List (List Char)} {target : List Char}

/-- A complete body within the limit is read whole, however it is cut. -/
theorem readBody_iff {whole : Bytes} (hbody : body.length ≤ maxRangeBytes) :
    readBody complete chunks body = .ok whole ↔
      complete = true ∧ whole = body ++ chunks.flatten ∧ whole.length ≤ maxRangeBytes := by
  induction chunks generalizing body with
  | nil =>
    cases complete <;> simp [readBody, eq_comm]
    rintro rfl
    exact hbody
  | cons chunk chunks ih =>
    rw [readBody, List.flatten_cons, ← List.append_assoc]
    by_cases hlong : (body ++ chunk).length > maxRangeBytes
    · rw [if_pos hlong]
      constructor
      · rintro ⟨⟩
      · rintro ⟨-, rfl, hwhole⟩
        rw [List.length_append] at hwhole
        omega
    · rw [if_neg hlong]
      exact ih (Nat.not_lt.1 hlong)

/-- The loop goes through lines of rows without a suffix twice, and finds what they list. -/
theorem scanRows_iff : scanRows target lines found seen = .ok result ↔
    ∃ rows, lines = rows.map RangeRow.text ∧ (rows.map RangeRow.suffix).Nodup ∧
      (∀ row ∈ rows, row.suffix ∉ seen) ∧ result = (found || decide (Lists rows target)) := by
  induction lines generalizing found seen with
  | nil =>
    have hnone : Lists [] target ↔ False := by simp [Lists]
    simp only [scanRows, Except.ok.injEq, List.nil_eq, List.map_eq_nil_iff, exists_eq_left,
      List.map_nil, List.nodup_nil, List.not_mem_nil, hnone]
    simp [eq_comm]
  | cons line lines ih =>
    have hcons : ∀ (row : RangeRow) (rows : List RangeRow), (Lists (row :: rows) target ↔
        row.suffix = target ∧ 0 < row.count ∨ Lists rows target) := by
      intro row rows
      simp [Lists]
    rw [scanRows]
    constructor
    · intro h
      split at h
      case h_1 => cases h
      case h_2 row hmatch =>
        obtain rfl := RangeRow.fullmatch_iff.1 hmatch
        split at h
        case isTrue => cases h
        case isFalse hseen =>
          obtain ⟨rows, rfl, hdistinct, hnew, rfl⟩ := ih.1 h
          refine ⟨row :: rows, rfl, ?_, ?_, ?_⟩
          · refine List.nodup_cons.2 ⟨fun hmem => ?_, hdistinct⟩
            obtain ⟨other, hother, hsame⟩ := List.mem_map.1 hmem
            exact hnew other hother (hsame ▸ List.mem_cons_self)
          · refine List.forall_mem_cons.2 ⟨hseen, fun other hother hmem => ?_⟩
            exact hnew other hother (List.mem_cons_of_mem _ hmem)
          · rw [decide_eq_decide.2 (hcons row rows), Bool.decide_or, Bool.decide_and, Bool.or_assoc]
    · rintro ⟨rows, hlines, hdistinct, hnew, rfl⟩
      cases rows with
      | nil => cases hlines
      | cons row rows =>
        obtain ⟨rfl, rfl⟩ := List.cons.inj hlines
        rw [RangeRow.fullmatch_iff.2 rfl]
        dsimp only
        obtain ⟨hseen, hnew⟩ := List.forall_mem_cons.1 hnew
        rw [List.map_cons, List.nodup_cons] at hdistinct
        rw [if_neg hseen]
        refine ih.2 ⟨rows, rfl, hdistinct.2, fun other hother hmem => ?_, ?_⟩
        · rcases List.mem_cons.1 hmem with hsame | hmem
          · exact hdistinct.1 (hsame ▸ List.mem_map_of_mem hother)
          · exact hnew other hother hmem
        · rw [decide_eq_decide.2 (hcons row rows), Bool.decide_or, Bool.decide_and, Bool.or_assoc]

/-- The suffix that is looked up. -/
def passwordSuffix (sha1 : Bytes → Bytes) (password : String) : List Char :=
  (passwordDigest sha1 password).drop 5

/-- The lookup answers on the rows of a complete body that was returned with status 200. -/
theorem rangeLookup_iff {sha1 : Bytes → Bytes} {reply : RangeReply} {password : String} :
    rangeLookup sha1 reply password = .ok result ↔ ∃ chunks rows,
      reply = .response 200 chunks true ∧ RangeBody chunks.flatten rows ∧
        result = decide (Lists rows (passwordSuffix sha1 password)) := by
  constructor
  · intro h
    cases reply with
    | failed => cases h
    | response statusCode chunks complete =>
      simp only [rangeLookup] at h
      split at h
      case isTrue => cases h
      case isFalse hstatus =>
        obtain ⟨whole, hread, h⟩ := bind_ok_iff.1 h
        obtain ⟨rfl, rfl, hshort⟩ := (readBody_iff (Nat.zero_le _)).1 hread
        split at h
        case h_1 => cases h
        case h_2 text htext =>
          split at h
          case isTrue => cases h
          case isFalse hempty =>
            obtain ⟨rows, hrows, hdistinct, -, rfl⟩ := scanRows_iff.1 h
            have hnonempty : rows ≠ [] := by
              rintro rfl
              exact hempty hrows
            exact ⟨chunks, rows, by rw [Decidable.not_not.1 hstatus],
              ⟨hshort, ⟨text, htext, hrows⟩, hnonempty, hdistinct⟩, rfl⟩
  · rintro ⟨chunks, rows, rfl, hbody, rfl⟩
    obtain ⟨text, htext, hrows⟩ := hbody.lines
    have hread : readBody true chunks [] = .ok chunks.flatten :=
      (readBody_iff (Nat.zero_le _)).2 ⟨rfl, rfl, hbody.short⟩
    have hlines : splitlines text ≠ [] := by
      rw [hrows]
      exact fun hnil => hbody.nonempty (List.map_eq_nil_iff.1 hnil)
    simp only [rangeLookup]
    rw [if_neg (not_not.2 rfl)]
    refine bind_ok_iff.2 ⟨_, hread, ?_⟩
    rw [htext]
    dsimp only
    rw [if_neg hlines]
    exact scanRows_iff.2 ⟨rows, hrows, hbody.distinct, by simp, rfl⟩

end

/-- A new password is accepted only when the checker has answered that it is not breached. -/
theorem breached_of_validated {sv : Services} {breached : Option Bool} {password : String}
    {o : Oracle (schema sv)} {h h' : Here (schema sv)}
    (haccept : (validateNewPassword sv breached password).alone o h = (.ok (), h')) :
    breached = some false := by
  unfold validateNewPassword at haccept
  dsimp only at haccept
  split at haccept
  · cases haccept
  split at haccept
  · cases haccept
  match breached with
  | none => cases haccept
  | some true => cases haccept
  | some false => rfl

/-- **Breach screening decides exactly by the complete response.** On a body that was returned with
status 200, in any chunks, the checker answers when the body is short, in ASCII and made of the
lines of rows without a suffix twice, and then it answers whether the row of the password's suffix
has a positive count; on every other body it is unavailable. So a new password is accepted only
after such a complete response in which it is not listed. -/
theorem is_breached_iff (sha1 : Bytes → Bytes) (password : String) :
    (∀ chunks : List Bytes,
      (∀ rows, RangeBody chunks.flatten rows →
        isBreached sha1 (.response 200 chunks true) password =
          some (decide (Lists rows (passwordSuffix sha1 password)))) ∧
      ((¬ ∃ rows, RangeBody chunks.flatten rows) →
        isBreached sha1 (.response 200 chunks true) password = none)) ∧
    ∀ (sv : Services) (reply : RangeReply) (o : Oracle (schema sv)) (h h' : Here (schema sv)),
      (validateNewPassword sv (isBreached sha1 reply password) password).alone o h = (.ok (), h') →
      ∃ chunks rows, reply = .response 200 chunks true ∧ RangeBody chunks.flatten rows ∧
        ¬ Lists rows (passwordSuffix sha1 password) := by
  refine ⟨fun chunks => ⟨fun rows hbody => ?_, fun hno => ?_⟩, fun sv reply o h h' haccept => ?_⟩
  · rw [isBreached, rangeLookup_iff.2 ⟨chunks, rows, rfl, hbody, rfl⟩]
    rfl
  · rw [isBreached]
    cases hlookup : rangeLookup sha1 (.response 200 chunks true) password with
    | error e => rfl
    | ok result =>
      obtain ⟨_, rows, hreply, hbody, -⟩ := rangeLookup_iff.1 hlookup
      cases hreply
      exact absurd ⟨rows, hbody⟩ hno
  · have hsafe := breached_of_validated haccept
    rw [isBreached] at hsafe
    cases hlookup : rangeLookup sha1 reply password with
    | error e =>
      rw [hlookup] at hsafe
      cases hsafe
    | ok result =>
      rw [hlookup] at hsafe
      obtain ⟨chunks, rows, hreply, hbody, hresult⟩ := rangeLookup_iff.1 hlookup
      obtain rfl : result = false := Option.some.inj hsafe
      exact ⟨chunks, rows, hreply, hbody, of_decide_eq_false hresult.symm⟩

end Ekumidayomi
