import Ekumidayomi.Auth.EmailHandler
import Ekumidayomi.Outbox.Provenance

/-!
# Idempotency keys of challenge emails

A request key names the event and the recipient's index (`requestKeyChars_inj`); the fingerprint on
the row of the event fixes the list of bodies, because the fingerprinted bytes frame every body
(`canonical_inj`) and HMAC does not collide. So requests with one key have one body, whatever the
settings of the processes that posted them.
-/

namespace Ekumidayomi

/-- A key names one delivery and one recipient. -/
theorem requestKeyChars_inj {u v : UUID} {i j : Nat}
    (h : requestKeyChars u i = requestKeyChars v j) : u = v ∧ i = j := by
  unfold requestKeyChars at h
  obtain ⟨hfront, hindex⟩ := List.append_inj h (by simp)
  have huuid := List.append_cancel_left hfront
  exact ⟨uuidChars_inj huuid, toDigits_inj (List.cons.inj hindex).2⟩

/-- The requests that `send` posts are requests of the submission. -/
theorem mem_sendFrom {loads : Bytes → Loaded} {index : Nat} {requests : List EmailRequest}
    {receipts : Dict} {replies : List Reply} {q : EmailRequest}
    (h : q ∈ (sendFrom loads index requests receipts replies).1) : q ∈ requests := by
  fun_induction sendFrom loads index requests receipts replies with
  | case1 => cases h
  | case2 _ _ _ _ _ _ ih => exact List.mem_cons_of_mem _ (ih h)
  | case3 | case4 | case5 => exact List.mem_singleton.1 h ▸ List.mem_cons_self
  | case6 index request requests receipts _ reply replies id _ posts state heq ih =>
    rcases List.mem_cons.1 h with rfl | h
    · exact List.mem_cons_self
    · refine List.mem_cons_of_mem _ (ih ?_)
      rw [heq]
      exact h

/-- Equal fingerprinted bytes frame equal bodies. -/
theorem canonical_inj {requests requests' : List EmailRequest} {bytes : Bytes}
    (h : canonical requests = some bytes) (h' : canonical requests' = some bytes) :
    requests.map (·.body) = requests'.map (·.body) := by
  have key : ∀ {requests : List EmailRequest}, canonical requests = some bytes →
      (∀ a ∈ requests.map (·.body), a.length < 256 ^ 8) ∧
        (requests.map (·.body)).flatMap (Framing.frame 8) = bytes := by
    intro requests h
    unfold canonical at h
    split at h
    · rename_i hall
      refine ⟨?_, Option.some.inj h⟩
      simpa using hall
    · cases h
  obtain ⟨hlen, hb⟩ := key h
  obtain ⟨hlen', hb'⟩ := key h'
  exact Framing.frames_inj (by decide) hlen hlen' (hb.trans hb'.symm)

section
variable (emailStr : String → Option String) (casefold : String → String)
  (hmac : Bytes → Bytes → Bytes) (loads : Bytes → Loaded) (signed : Bytes → Bytes → Prop)

/-- The handler of challenge emails with the Resend adapter. Each call of `prepare` may find other
settings, another sender and another state of the challenge table; what it fingerprints is `signed`
with its key. -/
def AuthChallengeEmailHandler.handler : ExternalOutboxHandler EmailSubmission EmailRequest where
  prepare event result := ∃ settings resend challenge now,
    prepare emailStr casefold hmac settings resend challenge now event = some result ∧
    ∀ d, result = .prepared d → ∀ bytes, canonical d.payload.requests = some bytes →
      signed (encode resend.fingerprintKey) bytes
  submits d completed posts :=
    ∃ replies, (ResendEmailSender.send loads d.payload completed replies).1 = posts
  returns d completed posts result :=
    ∃ replies, ResendEmailSender.send loads d.payload completed replies = (posts, .returned result)

variable {emailStr casefold hmac loads signed}

/-- A validated message keeps its delivery. -/
theorem OutgoingEmail.validate_deliveryId {message snapshot : OutgoingEmail}
    (h : message.validate emailStr casefold = some snapshot) :
    snapshot.deliveryId = message.deliveryId := by
  simp only [OutgoingEmail.validate, Option.bind_eq_bind, Option.bind_eq_some_iff] at h
  obtain ⟨-, -, recipients, -, -, -, -, -, -, -, -, -, h⟩ := h
  obtain rfl := Option.some.inj h
  rfl

/-- What `ResendEmailSender.prepare` returns. -/
theorem ResendEmailSender.prepare_eq_some {settings : ResendSettings} {message : OutgoingEmail}
    {submission : EmailSubmission}
    (h : ResendEmailSender.prepare emailStr casefold hmac settings message = some submission) :
    ∃ snapshot bytes, snapshot.deliveryId = message.deliveryId ∧
      submission.requests = emailRequests settings snapshot ∧
      canonical submission.requests = some bytes ∧
      submission.fingerprint = hexdigest (hmac (encode settings.fingerprintKey) bytes) := by
  simp only [ResendEmailSender.prepare, Option.bind_eq_bind, Option.bind_eq_some_iff] at h
  obtain ⟨snapshot, hs, bytes, hb, h⟩ := h
  obtain rfl := Option.some.inj h
  exact ⟨snapshot, bytes, OutgoingEmail.validate_deliveryId hs, rfl, hb, rfl⟩

/-- What `AuthChallengeEmailHandler.prepare` returns when it prepares a delivery. -/
theorem AuthChallengeEmailHandler.prepare_eq_some {settings : AuthSettings}
    {resend : ResendSettings} {challenge : UUID → Option EmailChallenge} {now : Time}
    {event : DomainEvent} {d : PreparedDelivery EmailSubmission}
    (h : prepare emailStr casefold hmac settings resend challenge now event = some (.prepared d)) :
    ∃ outgoing, outgoing.deliveryId = event.eventId ∧
      ResendEmailSender.prepare emailStr casefold hmac resend outgoing = some d.payload ∧
      d.fingerprint = d.payload.fingerprint := by
  unfold prepare at h
  split at h
  · cases h
  split at h
  · cases h
  split at h
  · cases h
  split at h
  · cases h
  split at h
  · cases h
  simp only [Option.bind_eq_bind, Option.bind_eq_some_iff] at h
  obtain ⟨outgoing, hbuild, submission, hprep, h⟩ := h
  cases Option.some.inj h
  refine ⟨outgoing, ?_, hprep, rfl⟩
  simp only [buildEmail, Option.bind_eq_bind, Option.bind_eq_some_iff] at hbuild
  obtain ⟨purpose, -, code, -, hval⟩ := hbuild
  exact OutgoingEmail.validate_deliveryId hval

/-- A prepared delivery carries the fingerprint of its bodies under some key, and its requests are
keyed by the event. -/
theorem AuthChallengeEmailHandler.prepared {event : DomainEvent}
    {d : PreparedDelivery EmailSubmission}
    (h : (handler emailStr casefold hmac loads signed).prepare event (.prepared d)) :
    ∃ key bytes, canonical d.payload.requests = some bytes ∧ signed key bytes ∧
      d.fingerprint = hexdigest (hmac key bytes) ∧
      ∀ (i : Nat) (q : EmailRequest), d.payload.requests[i]? = some q →
        q.key = String.ofList (requestKeyChars event.eventId i) := by
  obtain ⟨settings, resend, challenge, now, hprep, hsigned⟩ := h
  obtain ⟨outgoing, hid, hsend, hfp⟩ := AuthChallengeEmailHandler.prepare_eq_some hprep
  obtain ⟨snapshot, bytes, hsid, hreq, hb, hf⟩ := ResendEmailSender.prepare_eq_some hsend
  refine ⟨encode resend.fingerprintKey, bytes, hb, hsigned d rfl bytes hb, hfp.trans hf, ?_⟩
  intro i q hq
  rw [hreq, emailRequests, List.getElem?_mapIdx, Option.map_eq_some_iff] at hq
  obtain ⟨address, -, rfl⟩ := hq
  rw [hsid, hid]

/-- A posted request is one of those prepared for the event of its call, under the key of its
place. -/
theorem AuthChallengeEmailHandler.submitted {call : Delivery EmailSubmission} {q : EmailRequest}
    (hprep : Prepares (fun _ => handler emailStr casefold hmac loads signed) call.claim
      call.prepared)
    (hsub : Submits (fun _ => handler emailStr casefold hmac loads signed) call q) :
    ∃ (event : DomainEvent) (i : Nat) (key bytes : Bytes), call.claim.event = some event ∧
      call.prepared.payload.requests[i]? = some q ∧
      q.key = String.ofList (requestKeyChars event.eventId i) ∧ signed key bytes ∧
      canonical call.prepared.payload.requests = some bytes ∧
      call.prepared.fingerprint = hexdigest (hmac key bytes) := by
  obtain ⟨event, he, hprep⟩ := hprep
  obtain ⟨event', posts, he', ⟨replies, rfl⟩, hq⟩ := hsub
  obtain rfl := Option.some.inj (he.symm.trans he')
  obtain ⟨key, bytes, hb, hsigned, hf, hkeys⟩ := AuthChallengeEmailHandler.prepared hprep
  obtain ⟨i, hi⟩ := List.mem_iff_getElem?.1 (mem_sendFrom hq)
  exact ⟨event, i, key, bytes, he, hi, hkeys i q hi, hsigned, hb, hf⟩

/-- **Idempotency keys are never reused for other content.** In every run of workers that use the
handler of challenge emails and the Resend adapter, whatever the settings at each attempt, any two
requests posted with the same key have the same body. HMAC is assumed not to collide on what the run
fingerprints, and event identifiers to be unique in the table at the start. -/
theorem idempotency_keys {w₀ w : World EmailSubmission EmailRequest}
    {tr : List (Act EmailSubmission)}
    (hinj : ∀ k m k' m', signed k m → signed k' m' → hmac k m = hmac k' m' → k = k' ∧ m = m')
    (h₀ : w₀.Initial) (hu : w₀.repo.UniqueEvents)
    (run : Lts.Run (World.Step fun _ =>
      AuthChallengeEmailHandler.handler emailStr casefold hmac loads signed) w₀ tr w) :
    ∀ q q', .posted q ∈ w.record → .posted q' ∈ w.record → q.key = q'.key → q.body = q'.body := by
  have hw := run.invariant (fun hw h => h.traced hw) (h₀.traced hu)
  intro q q' hq hq' hkey
  obtain ⟨call, hc, hsub⟩ := hw.posted hq
  obtain ⟨call', hc', hsub'⟩ := hw.posted hq'
  obtain ⟨event, i, key, bytes, he, hi, hqk, hs, hb, hf⟩ :=
    AuthChallengeEmailHandler.submitted (hw.delivered hc).2 hsub
  obtain ⟨event', i', key', bytes', he', hi', hqk', hs', hb', hf'⟩ :=
    AuthChallengeEmailHandler.submitted (hw.delivered hc').2 hsub'
  -- one key names one event and one place in the submission
  obtain ⟨hevent, rfl⟩ : event.eventId = event'.eventId ∧ i = i' := by
    rw [hqk, hqk'] at hkey
    exact requestKeyChars_inj (String.ofList_injective hkey)
  -- one event is bound to one fingerprint, so to one list of bodies
  have hfp := hw.fingerprint_eq hc hc' he he' hevent
  rw [hf, hf'] at hfp
  obtain ⟨-, rfl⟩ := hinj _ _ _ _ hs hs' (hexdigest_inj hfp)
  have hbodies := congrArg (·[i]?) (canonical_inj hb hb')
  simpa [hi, hi'] using hbodies

end

/-! ## One message, posted by two processes -/

namespace Fixture

/-- The challenge of the message. -/
def challenge : EmailChallenge :=
  { id := 9, email := "ada@example.com", purpose := "registration", keyVersion := "v1"
    codeHash := "", createdAt := 0, expiresAt := seconds 600 }

/-- The keys of the settings. -/
def challengeKeys : Dict := [("v1", "kkkkkkkkkkkkkkkkkkkkkkkkkkkkkkkk")]

/-- Settings with one key. -/
def authSettings : AuthSettings :=
  { (default : AuthSettings) with
    challengeKeys
    active_configured := by decide
    keys_long := by decide }

def resendSettings : ResendSettings :=
  { sender := "shop@example.com", fingerprintKey := "ffffffffffffffffffffffffffffffff" }

/-- The digest of the text that the code of the challenge is derived from. -/
def codeBytes : Bytes :=
  [0x74, 0xc2, 0x18, 0x22, 0x80, 0x6c, 0xa7, 0xc5, 0x70, 0x9a, 0x3d, 0x8b, 0x2f, 0x93, 0xea, 0x27,
    0x7d, 0xc7, 0x9b, 0xf9, 0xd7, 0x68, 0xf7, 0xc2, 0x8b, 0xd0, 0x20, 0x36, 0x92, 0x58, 0xd2, 0x81]

/-- The digest of the fingerprinted bytes of the message. -/
def fingerprintBytes : Bytes :=
  [0xa6, 0x7f, 0x20, 0x74, 0x6f, 0x38, 0x6f, 0xa0, 0xa9, 0xc6, 0x8c, 0x1c, 0x4f, 0xfc, 0x4e, 0x9c,
    0x99, 0x7b, 0xcf, 0x00, 0x48, 0x0b, 0x97, 0xe4, 0x90, 0x9d, 0xe6, 0xaf, 0x36, 0x71, 0x07, 0x01]

/-- HMAC-SHA256 on the two texts that are signed here, each under its own key. -/
def hmac (key _message : Bytes) : Bytes :=
  if key = encode "kkkkkkkkkkkkkkkkkkkkkkkkkkkkkkkk" then codeBytes else fingerprintBytes

/-- What the handler prepares for the message. -/
def mail : Option (Preparation EmailSubmission) :=
  AuthChallengeEmailHandler.prepare some (fun s => s) hmac authSettings resendSettings
    (fun id => if id = 9 then some challenge else none) 0 event

/-- The message it sends. -/
def outgoing : OutgoingEmail :=
  { deliveryId := 7
    recipients := ["ada@example.com"]
    subject := challengeSubject .registration
    textBody := "Your registration code is 770305.\nIt expires shortly. If you did not request it, ignore this message." }

/-- The one request of it. -/
def mailRequest : EmailRequest :=
  { key := String.ofList (requestKeyChars 7 0)
    body := emailBody resendSettings.sender "ada@example.com" outgoing.subject outgoing.textBody
      none }

theorem emailRequests_outgoing : emailRequests resendSettings outgoing = [mailRequest] := by
  simp only [emailRequests, outgoing, List.mapIdx_cons, List.mapIdx_nil, mailRequest]

theorem buildEmail_challenge :
    buildEmail some (fun s => s) hmac authSettings challenge 7 = some outgoing := by
  decide +kernel

theorem validate_outgoing : outgoing.validate some (fun s => s) = some outgoing := by
  decide +kernel

theorem challengeOf_event : challengeOf event = some 9 := by
  decide +kernel

/-- What is signed in the run: the bytes of the message under the one key. -/
def mailSigned (key bytes : Bytes) : Prop :=
  key = encode resendSettings.fingerprintKey ∧
    ∃ d, mail = some (.prepared d) ∧ canonical d.payload.requests = some bytes

/-- The handler, with addresses that are accepted as they are and responses that are no JSON. -/
def mailHandler : ExternalOutboxHandler EmailSubmission EmailRequest :=
  AuthChallengeEmailHandler.handler some (fun s => s) hmac (fun _ => .invalid) mailSigned

/-- The message bound by attempts at the given instants, the newest first. -/
def mailRow : List (Time × UUID) → OutboxMessage
  | [] => message
  | (now, token) :: earlier => ((mailRow earlier).lease now default token).bound (seconds 600)
      (hexdigest fingerprintBytes)

/-- The outbox after these attempts. -/
def mailRepo (attempts : List (Time × UUID)) (heartbeatAt clock : Time) (issued : List Lease) :
    Repo :=
  { db := { messages := [mailRow attempts], controls := [control heartbeatAt] }, clock, issued }

/-- The second claim, with the deadline of the first bind. -/
def reclaim : Claim := { claim 2 2 with deadline := seconds 600 }

theorem short_outgoing : ∀ address ∈ outgoing.recipients, resendSettings.sender.toList.length +
    address.toList.length + outgoing.subject.toList.length + outgoing.textBody.toList.length ≤
      1000 := by
  decide +kernel

/-- It is a delivery to one recipient under the fingerprint. -/
theorem mail_prepared : mail =
    some (.prepared ⟨⟨[mailRequest], hexdigest fingerprintBytes⟩, hexdigest fingerprintBytes,
      seconds 600⟩) := by
  have hkey : ∀ bytes, hmac (encode resendSettings.fingerprintKey) bytes = fingerprintBytes :=
    fun bytes => if_neg (by decide)
  have hsub : ResendEmailSender.prepare some (fun s => s) hmac resendSettings outgoing =
      some ⟨[mailRequest], hexdigest fingerprintBytes⟩ := by
    rw [ResendEmailSender.prepare_eq validate_outgoing
      (canonical_eq_some (length_body_lt rfl short_outgoing)), emailRequests_outgoing, hkey]
  exact AuthChallengeEmailHandler.prepare_eq challengeOf_event (if_pos rfl) (by decide)
    (by decide) (by decide) buildEmail_challenge hsub

theorem bind_mail : LeasedOutboxRepository.bind claimedRepo.db "auth_email" (claim 1 1)
    (hexdigest fingerprintBytes) (seconds 600) 0 0 = .ok ((mailRepo [(0, 1)] 0 0 []).db, true) := by
  have hhex : isHex64 (hexdigest fingerprintBytes) = true := by decide
  unfold LeasedOutboxRepository.bind
  rw [hhex]
  rfl

/-- The outbox when the second process has claimed the message. -/
def reclaimedDb : Outbox :=
  { messages := [(mailRow [(0, 1)]).lease (seconds 200) default 2]
    controls := [control (seconds 200)] }

theorem reclaim_mail : LeasedOutboxRepository.claim (mailRepo [(0, 1)] 0 0 []).db "auth_email"
    [challengeEmailEvent] {} { now := seconds 200, token := 2 } =
      .ok (reclaimedDb, some reclaim) := rfl

theorem rebind_mail : LeasedOutboxRepository.bind reclaimedDb "auth_email" reclaim
    (hexdigest fingerprintBytes) (seconds 600) (seconds 200) (seconds 200) =
      .ok ((mailRepo [(seconds 200, 2), (0, 1)] (seconds 200) 0 []).db, true) := by
  have hhex : isHex64 (hexdigest fingerprintBytes) = true := by decide
  unfold LeasedOutboxRepository.bind
  rw [hhex]
  rfl

theorem repo_uniqueEvents : repo.UniqueEvents := by
  intro id id' row row' hrow hrow' _
  have hone : ∀ {id row}, repo.db.message id = some row → id = 1 := by
    intro id row h
    have hmem := Table.mem_of_find h
    rw [← Table.key_of_find h, List.mem_singleton.1 hmem]
    rfl
  rw [hone hrow, hone hrow']

/-- The first process dies after its POST. The second posts the same request under the same key. -/
theorem idempotency_keys_reposted : ∃ (w : World EmailSubmission EmailRequest)
    (q : EmailRequest) (first second : Delivery EmailSubmission),
      w.record = [.posted q, .delivered second, .posted q, .delivered first] ∧
      ∀ q', .posted q' ∈ w.record → q.key = q'.key → q.body = q'.body := by
  obtain ⟨q, hmail⟩ : ∃ q, mail = some (.prepared ⟨⟨[q], hexdigest fingerprintBytes⟩,
      hexdigest fingerprintBytes, seconds 600⟩) := ⟨mailRequest, mail_prepared⟩
  let d : PreparedDelivery EmailSubmission :=
    ⟨⟨[q], hexdigest fingerprintBytes⟩, hexdigest fingerprintBytes, seconds 600⟩
  have hprep : mailHandler.prepare event (.prepared d) :=
    ⟨authSettings, resendSettings, _, 0, hmail, fun d' hd bytes hb => ⟨rfl, d', hd ▸ hmail, hb⟩⟩
  have hsub : mailHandler.submits d [] ([] ++ [q]) := ⟨[], rfl⟩
  let bound1 := mailRepo [(0, 1)] 0 0 [⟨claim 1 1, seconds 120⟩]
  let bound2 := mailRepo [(seconds 200, 2), (0, 1)] (seconds 200) (seconds 200)
    [⟨reclaim, seconds 320⟩, ⟨claim 1 1, seconds 120⟩]
  let first : Delivery EmailSubmission := ⟨claim 1 1, d, 0⟩
  let second : Delivery EmailSubmission := ⟨reclaim, d, seconds 200⟩
  obtain ⟨tr, run⟩ : ∃ tr, Lts.Run (OpenStep fun _ => mailHandler) (world {} repo .idle []) tr
      (world {} bound1 (.delivering (claim 1 1) d 0 []) [.delivered first]) :=
    attempt 1 (by decide) rfl claim_repo hprep bind_mail
      (show (0 : Int) < min (seconds 600) (seconds 3600) by decide)
  have h1 : World.Step (fun _ => mailHandler)
      (world {} bound1 (.delivering (claim 1 1) d 0 []) [.delivered first]) (.work 0 none)
      (world {} bound1 (.delivering (claim 1 1) d 0 [q]) [.posted q, .delivered first]) :=
    world_step (.post rfl rfl hsub)
  let restarted : Time → World EmailSubmission EmailRequest := fun clock =>
    world {} { bound1 with clock } .idle [.posted q, .delivered first]
  have h2 : World.Step (fun _ => mailHandler)
      (world {} bound1 (.delivering (claim 1 1) d 0 [q]) [.posted q, .delivered first])
      (.work 0 none) (restarted 0) := world_step .start
  have h3 : World.Step (fun _ => mailHandler) (restarted 0) (.outside (.tick (seconds 200)))
      (restarted (seconds 200)) :=
    .outside rfl (.tick (show (0 : Int) ≤ seconds 200 by decide))
  obtain ⟨tr', run'⟩ : ∃ tr, Lts.Run (OpenStep fun _ => mailHandler) (restarted (seconds 200)) tr
      (world {} bound2 (.delivering reclaim d (seconds 200) [])
        [.delivered second, .posted q, .delivered first]) :=
    attempt 2 (by decide) rfl reclaim_mail hprep rebind_mail
      (show seconds 200 < min (seconds 600) (seconds 600) by decide)
  have h4 : World.Step (fun _ => mailHandler)
      (world {} bound2 (.delivering reclaim d (seconds 200) [])
        [.delivered second, .posted q, .delivered first]) (.work 0 none)
      (world {} bound2 (.delivering reclaim d (seconds 200) [q])
        [.posted q, .delivered second, .posted q, .delivered first]) :=
    world_step (.post rfl rfl hsub)
  have hrun := (((((run.weaken fun h => h.1.1).snoc h1).snoc h2).snoc h3).append
    (run'.weaken fun h => h.1.1)).snoc h4
  -- only one text is signed, so HMAC does not collide
  have hinj : ∀ k m k' m', mailSigned k m → mailSigned k' m' → hmac k m = hmac k' m' →
      k = k' ∧ m = m' := by
    rintro k m k' m' ⟨hk, e, he, hm⟩ ⟨hk', e', he', hm'⟩ -
    obtain rfl : e = e' := by
      rw [he] at he'
      cases he'
      rfl
    exact ⟨hk.trans hk'.symm, Option.some.inj (hm.symm.trans hm')⟩
  exact ⟨_, q, first, second, rfl, fun q' hq' =>
    idempotency_keys hinj world_initial repo_uniqueEvents hrun q q' List.mem_cons_self hq'⟩

end Fixture

end Ekumidayomi
