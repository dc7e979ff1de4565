import Mathlib.Data.Option.Basic
import Ekumidayomi.Text
import Ekumidayomi.Lib.Framing
import Ekumidayomi.Outbox.Model

/-!
# Email submissions and the Resend adapter

`email/schemas.py`, `email/ports.py` and `email/resend.py`. Code outside the repository is a
parameter: `emailStr` is the validation of an address, which may rewrite it, `casefold` is
`str.casefold`, `hmac` is HMAC-SHA256 and `loads` is `json.loads` on the bytes of a response.
`ResendEmailSender.send` is a function of the replies of the provider, one for each request it
posts: while it waits for a reply there is none yet.
-/

namespace Ekumidayomi

/-- `OutgoingEmail`. -/
structure OutgoingEmail where
  deliveryId : UUID
  recipients : List String
  subject : String
  textBody : String
  htmlBody : Option String := none
  deriving DecidableEq, Repr

/-- `ResendSettings`; the key that signs requests and the time limit change no request. -/
structure ResendSettings where
  sender : String
  fingerprintKey : String
  deriving DecidableEq, Repr

/-- `EmailRequest`. -/
structure EmailRequest where
  key : String
  body : Bytes
  deriving DecidableEq, Repr

/-- `EmailSubmission`. -/
structure EmailSubmission where
  requests : List EmailRequest
  fingerprint : String
  deriving DecidableEq, Repr

/-- A length in a range that a field allows. -/
def lengthIn (low high : Nat) (s : String) : Bool := low ≤ s.toList.length && s.toList.length ≤ high

/-- The checks of `OutgoingEmail`, on addresses that `emailStr` accepts and rewrites; `none` when
validation fails. -/
def OutgoingEmail.validate (emailStr : String → Option String) (casefold : String → String)
    (message : OutgoingEmail) : Option OutgoingEmail := do
  guard (1 ≤ message.recipients.length && message.recipients.length ≤ 100)
  let recipients ← message.recipients.mapM emailStr
  guard (recipients.map casefold).Nodup
  guard (lengthIn 1 200 message.subject &&
    !(strip isSpace message.subject.toList).isEmpty &&
    message.subject.toList.all fun c => c ≠ '\r' && c ≠ '\n' && c.toNat ≠ 0)
  guard (lengthIn 1 131072 message.textBody)
  guard (message.htmlBody.all (lengthIn 0 262144))
  return { message with recipients }

/-- Validation rewrites the addresses and nothing else. -/
theorem OutgoingEmail.of_validate {emailStr : String → Option String} {casefold : String → String}
    {message snapshot : OutgoingEmail} (h : message.validate emailStr casefold = some snapshot) :
    ∃ recipients, snapshot = { message with recipients } := by
  simp only [OutgoingEmail.validate, Option.bind_eq_bind, Option.bind_eq_some_iff] at h
  obtain ⟨-, -, recipients, -, -, -, -, -, -, -, -, -, hsnapshot⟩ := h
  cases hsnapshot
  exact ⟨recipients, rfl⟩

/-! ## `prepare` -/

/-- The body of one request: `json.dumps` with sorted keys and without blanks, encoded. -/
def emailBody (sender recipient subject text : String) (html : Option String) : Bytes :=
  encode (String.ofList ("\x7b\"from\":".toList ++ jsonString sender ++
    html.elim [] (fun h => ",\"html\":".toList ++ jsonString h) ++
    ",\"subject\":".toList ++ jsonString subject ++ ",\"text\":".toList ++ jsonString text ++
    ",\"to\":[".toList ++ jsonString recipient ++ "]\x7d".toList))

/-- The characters of the key `f"email/{delivery_id}/{index}"`. -/
def requestKeyChars (deliveryId : UUID) (index : Nat) : List Char :=
  "email/".toList ++ uuidChars deliveryId ++ '/' :: Nat.toDigits 10 index

/-- The requests of a message, one for each recipient. -/
def emailRequests (settings : ResendSettings) (message : OutgoingEmail) : List EmailRequest :=
  message.recipients.mapIdx fun index address =>
    { key := String.ofList (requestKeyChars message.deliveryId index)
      body := emailBody settings.sender address message.subject message.textBody message.htmlBody }

/-- The bytes that are fingerprinted: every body behind its length in eight bytes; `none` when a
length does not fit. -/
def canonical (requests : List EmailRequest) : Option Bytes :=
  if requests.all fun item => item.body.length < 256 ^ 8 then
    some ((requests.map (·.body)).flatMap (Framing.frame 8))
  else none

/-- Bodies that fit are framed. -/
theorem canonical_eq_some {requests : List EmailRequest}
    (h : ∀ q ∈ requests, q.body.length < 256 ^ 8) :
    canonical requests = some ((requests.map (·.body)).flatMap (Framing.frame 8)) := by
  rw [canonical, if_pos]
  simpa using h

/-- A body is not much longer than the texts in it. -/
theorem length_emailBody_le (sender recipient subject text : String) :
    (emailBody sender recipient subject text none).length ≤ 24 * (sender.toList.length +
      recipient.toList.length + subject.toList.length + text.toList.length) + 256 := by
  refine Nat.le_trans (length_encode_le _) ?_
  have h1 := length_jsonString_le sender
  have h2 := length_jsonString_le recipient
  have h3 := length_jsonString_le subject
  have h4 := length_jsonString_le text
  simp only [String.toList_ofList, List.length_append, Option.elim_none, List.length_nil]
  have h5 : "\x7b\"from\":".toList.length = 8 := by decide
  have h6 : ",\"subject\":".toList.length = 11 := by decide
  have h7 : ",\"text\":".toList.length = 8 := by decide
  have h8 : ",\"to\":[".toList.length = 7 := by decide
  have h9 : "]\x7d".toList.length = 2 := by decide
  omega

/-- A plain message of a few texts fits. -/
theorem length_body_lt {settings : ResendSettings} {message : OutgoingEmail}
    (hplain : message.htmlBody = none)
    (hshort : ∀ address ∈ message.recipients, settings.sender.toList.length +
      address.toList.length + message.subject.toList.length + message.textBody.toList.length ≤
        1000) :
    ∀ q ∈ emailRequests settings message, q.body.length < 256 ^ 8 := by
  intro q hq
  obtain ⟨i, hi, rfl⟩ := List.mem_mapIdx.1 hq
  have hle := length_emailBody_le settings.sender message.recipients[i] message.subject
    message.textBody
  have := hshort _ (List.getElem_mem hi)
  simp only [hplain]
  omega

/-- `ResendEmailSender.prepare`; `none` when it raises. -/
def ResendEmailSender.prepare (emailStr : String → Option String) (casefold : String → String)
    (hmac : Bytes → Bytes → Bytes) (settings : ResendSettings) (message : OutgoingEmail) :
    Option EmailSubmission := do
  let snapshot ← message.validate emailStr casefold
  let requests := emailRequests settings snapshot
  let bytes ← canonical requests
  return { requests, fingerprint := hexdigest (hmac (encode settings.fingerprintKey) bytes) }

theorem ResendEmailSender.prepare_eq {emailStr : String → Option String}
    {casefold : String → String} {hmac : Bytes → Bytes → Bytes} {settings : ResendSettings}
    {message snapshot : OutgoingEmail} {bytes : Bytes}
    (hvalid : message.validate emailStr casefold = some snapshot)
    (hbytes : canonical (emailRequests settings snapshot) = some bytes) :
    ResendEmailSender.prepare emailStr casefold hmac settings message =
      some ⟨emailRequests settings snapshot,
        hexdigest (hmac (encode settings.fingerprintKey) bytes)⟩ := by
  simp only [ResendEmailSender.prepare, hvalid, hbytes, Option.bind_eq_bind, Option.bind_some]
  rfl

/-! ## `send` -/

/-- A document of the provider. -/
inductive Json
  | null
  | bool (value : Bool)
  | int (value : Int)
  | float
  | str (value : String)
  | list (items : List Json)
  | mapping (items : List (String × Json))

/-- What `json.loads` does: it returns a document, raises an error that the adapter takes for an
empty document, or raises something else. -/
inductive Loaded
  | document (value : Json)
  | invalid
  | raised

/-- What the HTTP client gives for one request: a connection that never came up, another transport
error, another exception, or a response. A response is read in chunks, and its body either ends or
breaks off in a transport error. -/
inductive Reply
  | connection
  | transport
  | raised
  | response (status : Nat) (chunks : List Bytes) (ended : Bool) (retryAfter : String)

/-- `str(UUID(str(value)))`. The text of anything but a string or an integer is no identifier. -/
def providerId : Option Json → Option String
  | some (.str s) => (parseUUID s).map uuidStr
  | some (.int n) => (parseUUID (toString n)).map uuidStr
  | _ => none

/-- `document.get(key)` on what `loads` returned; what is no mapping counts as an empty one. -/
def Loaded.get (loaded : Loaded) (key : String) : Option Json :=
  match loaded with
  | .document (.mapping items) => (items.find? (·.1 = key)).map (·.2)
  | _ => none

/-- The value is one of the texts. -/
def isOneOf (names : List String) : Option Json → Bool
  | some (.str s) => names.contains s
  | _ => false

/-- The delay of a `Retry-After` header. -/
def retryDelay (raw : String) : Nat :=
  if isDecimal raw && raw.toList.length < 8 then min (decimalInt raw) 3600 else 60

theorem retryDelay_le (raw : String) : retryDelay raw ≤ 3600 := by
  unfold retryDelay
  split
  · exact Nat.min_le_right _ _
  · decide

/-- What one reply leads to: a receipt and the next recipient, an outcome, or an exception. -/
inductive Answer
  | receipt (providerId : String)
  | outcome (result : DeliveryOutcome)
  | raised

/-- The answer to a complete response. -/
def answerDocument (receipts : Dict) (status : Nat) (retryAfter : String) (loaded : Loaded) :
    Answer :=
  if status = 200 || status = 201 then
    match providerId (loaded.get "id") with
    | some id => .receipt id
    | none => .outcome { kind := .uncertain, code := "provider_response_invalid", receipts }
  else
    let name := loaded.get "name"
    if status = 401 || status = 403 ||
        isOneOf ["daily_quota_exceeded", "monthly_quota_exceeded"] name then
      .outcome { kind := .blocked, code := "provider_configuration", receipts }
    else if isOneOf ["invalid_idempotent_request"] name then
      .outcome { kind := .blocked, code := "provider_key_conflict", receipts }
    else if status = 429 || (status = 409 && isOneOf ["concurrent_idempotent_requests"] name) then
      .outcome { kind := .retry, code := "provider_busy", retryAfter := retryDelay retryAfter,
                 receipts, retryAfter_le := retryDelay_le retryAfter }
    else if 500 ≤ status || status = 408 then
      .outcome { kind := .uncertain, code := "provider_unavailable", receipts }
    else .outcome { kind := .permanent, code := "provider_request_rejected", receipts }

/-- The answer to a reply. -/
def answer (loads : Bytes → Loaded) (receipts : Dict) : Reply → Answer
  | .connection => .outcome { kind := .retry, code := "provider_connection", receipts }
  | .transport => .outcome { kind := .uncertain, code := "provider_result_unknown", receipts }
  | .raised => .raised
  | .response status chunks ended retryAfter =>
    if 16384 < chunks.flatten.length then
      .outcome { kind := .uncertain, code := "provider_response_invalid", receipts }
    else if !ended then
      .outcome { kind := .uncertain, code := "provider_result_unknown", receipts }
    else match loads chunks.flatten with
      | .raised => .raised
      | loaded => answerDocument receipts status retryAfter loaded

/-- Where a call of `send` stands. -/
inductive Sending
  | waiting
  | returned (result : DeliveryOutcome)
  | raised

/-- The loop of `send` from the recipient `index` on: the requests it posts, and where it stands
after the replies. -/
def sendFrom (loads : Bytes → Loaded) (index : Nat) :
    List EmailRequest → Dict → List Reply → List EmailRequest × Sending
  | [], receipts, _ =>
    ([], .returned { kind := .accepted, code := "provider_accepted", receipts })
  | request :: requests, receipts, replies =>
    if receipts.contains (toString index) then sendFrom loads (index + 1) requests receipts replies
    else match replies with
      | [] => ([request], .waiting)
      | reply :: replies =>
        match answer loads receipts reply with
        | .raised => ([request], .raised)
        | .outcome result => ([request], .returned result)
        | .receipt id =>
          let (posts, state) := sendFrom loads (index + 1) requests
            (receipts.insert (toString index) id) replies
          (request :: posts, state)

/-- `ResendEmailSender.send`. -/
def ResendEmailSender.send (loads : Bytes → Loaded) (submission : EmailSubmission)
    (completed : Dict) (replies : List Reply) : List EmailRequest × Sending :=
  sendFrom loads 0 submission.requests completed replies

end Ekumidayomi
