import Ekumidayomi.Auth.Idempotency
import Ekumidayomi.Email.Sending

/-!
# Receipts and the content they are for

The receipts on a row are recorded by the index of the recipient. Every one of them came from a
`deliver` call that posted the request with that index (`Receipted`), and calls for one message are
bound to one fingerprint, which fixes the bodies in their order. So the receipts that a later
attempt is handed are for bodies that it would post under the same indices
(`fingerprints_fix_bodies`).
-/

namespace Ekumidayomi

/-! ## Receipts of a call of `send` -/

section
variable {d e : Dict} {key k v : String}

theorem Dict.contains_insert (h : (d.insert k v).contains key = true) :
    d.contains key = true ∨ key = k := by
  unfold Dict.insert at h
  split at h
  case isTrue =>
    rw [Dict.contains, List.any_map, List.any_eq_true] at h
    obtain ⟨entry, hmem, hkey⟩ := h
    rw [Function.comp_apply] at hkey
    split at hkey
    case isTrue => exact .inr (eq_of_beq hkey).symm
    case isFalse => exact .inl (List.any_eq_true.2 ⟨entry, hmem, hkey⟩)
  case isFalse =>
    rw [Dict.contains_append, Bool.or_eq_true] at h
    refine h.imp_right fun h => ?_
    have hkey : (k == key) = true := by simpa [Dict.contains] using h
    exact (eq_of_beq hkey).symm

/-- A merged dictionary has the keys of both. -/
theorem Dict.contains_merge (h : (d.merge e).contains key = true) :
    d.contains key = true ∨ e.contains key = true := by
  unfold Dict.merge at h
  induction e generalizing d with
  | nil => exact .inl h
  | cons entry e ih =>
    rw [List.foldl_cons] at h
    rw [show Dict.contains (entry :: e) key = (entry.1 == key || Dict.contains e key) from rfl,
      Bool.or_eq_true]
    rcases ih h with h | h
    · rcases Dict.contains_insert h with h | rfl
      · exact .inl h
      · exact .inr (.inl (beq_self_eq_true _))
    · exact .inr (.inr h)

end

section
variable {loads : Bytes → Loaded} {receipts : Dict} {reply : Reply} {result : DeliveryOutcome}

theorem answerDocument_outcome {status : Nat} {retryAfter : String} {loaded : Loaded}
    (h : answerDocument receipts status retryAfter loaded = .outcome result) :
    result.receipts = receipts := by
  cases hstatus : (status = 200 || status = 201 : Bool) with
  | true =>
    rw [answerDocument, if_pos hstatus] at h
    split at h
    · cases h
    · cases h
      rfl
  | false =>
    obtain ⟨result', hresult, hreceipts, -⟩ := answerDocument_other hstatus
    obtain rfl := Answer.outcome.inj (hresult.symm.trans h)
    exact hreceipts

/-- What ends a call leaves the receipts as they are. -/
theorem answer_outcome (h : answer loads receipts reply = .outcome result) :
    result.receipts = receipts := by
  cases reply with
  | connection | transport =>
    cases h
    rfl
  | raised => cases h
  | response =>
    rw [answer] at h
    split at h
    · cases h
      rfl
    split at h
    · cases h
      rfl
    split at h
    · cases h
    · exact answerDocument_outcome h

/-- A receipt that a call returns was there before, or is that of a request it posted. -/
theorem sendFrom_receipts {index : Nat} {requests : List EmailRequest} {replies : List Reply}
    {posts : List EmailRequest} {key : String}
    (h : sendFrom loads index requests receipts replies = (posts, .returned result))
    (hkey : result.receipts.contains key = true) : receipts.contains key = true ∨
      ∃ i q, key = toString (index + i) ∧ requests[i]? = some q ∧ q ∈ posts := by
  fun_induction sendFrom loads index requests receipts replies generalizing posts with
  | case1 =>
    cases h
    exact .inl hkey
  | case2 index request requests receipts replies hdone ih =>
    refine (ih h).imp_right ?_
    rintro ⟨i, q, rfl, hq, hmem⟩
    exact ⟨i + 1, q, by rw [Nat.add_assoc, Nat.add_comm 1], hq, hmem⟩
  | case3 => cases h
  | case4 => cases h
  | case5 _ _ _ _ _ _ _ _ hanswer =>
    cases h
    rw [answer_outcome hanswer] at hkey
    exact .inl hkey
  | case6 index request requests receipts _ reply replies id _ posts' state heq ih =>
    obtain ⟨rfl, rfl⟩ := Prod.mk.inj h
    rcases ih heq with hkey | ⟨i, q, rfl, hq, hmem⟩
    · rcases Dict.contains_insert hkey with hkey | rfl
      · exact .inl hkey
      · exact .inr ⟨0, request, rfl, rfl, List.mem_cons_self⟩
    · exact .inr ⟨i + 1, q, by rw [Nat.add_assoc, Nat.add_comm 1], hq, List.mem_cons_of_mem _ hmem⟩

end

/-! ## Receipts of a row -/

/-- What a transaction does to the receipts of a row: nothing, or it is the `finish` that adds those
of its result. -/
theorem RowMove.receipts {P : Type} {db : Outbox} {l : Txn P} {row row' : OutboxMessage}
    (h : RowMove db l row row') : row'.deliveryReceipts = row.deliveryReceipts ∨
      ∃ group c result delay calledAt ownedAt now,
        l = .finish group c result delay calledAt ownedAt now true ∧ owns c ownedAt row = true ∧
        row'.deliveryReceipts = row.deliveryReceipts.merge result.receipts := by
  cases h with
  | claim h =>
    cases h with
    | swept | tooOld | leased => exact .inl rfl
  | finished howns => exact .inr ⟨_, _, _, _, _, _, _, rfl, howns, rfl⟩
  | contentChanged | bindExpired | bound | replayed | batchClaimed | published | failed
  | released => exact .inl rfl

/-- A row after a step was there before, or it is a new one without receipts. -/
theorem Repo.Step.receipts_inv {P : Type} {s s' : Repo} {l : Txn P} (h : Step s l s')
    (hk : s.db.Keyed) {id : UUID} {row' : OutboxMessage}
    (hrow' : s'.db.message id = some row') :
    (∃ row, s.db.message id = some row ∧ (row' = row ∨ RowMove s.db l row row')) ∨
      row'.deliveryReceipts = [] := by
  rcases h.message_inv hk hrow' with hold | ⟨-, -, -, -, -, -, hnone, -, -, _, _, _, rfl⟩
  · exact .inl hold
  · cases h with
    | add h =>
      refine .inr ?_
      unfold OutboxRepository.add at h
      simp only at h
      split at h
      · cases h
      split at h
      · cases h
      cases h
      rw [Outbox.message, Table.find_append,
        show Table.find (·.id) s.db.messages id = none from hnone, Option.none_or] at hrow'
      split at hrow'
      · cases hrow'
        rfl
      · cases hrow'

/-! ## Handlers that send through the adapter -/

section
variable (emailStr : String → Option String) (casefold : String → String)
  (hmac : Bytes → Bytes → Bytes) (loads : Bytes → Loaded) (signed : Bytes → Bytes → Prop)

/-- The handler sends its messages with `ResendEmailSender`. Each call of `prepare` may find another
message and other settings; what it fingerprints is `signed` with its key. -/
structure ExternalOutboxHandler.Resends
    (handler : ExternalOutboxHandler EmailSubmission EmailRequest) : Prop where
  refused : ∀ {event result}, handler.prepare event (.outcome result) → result.receipts = []
  prepared : ∀ {event d}, handler.prepare event (.prepared d) → ∃ settings message,
    ResendEmailSender.prepare emailStr casefold hmac settings message = some d.payload ∧
      d.fingerprint = d.payload.fingerprint ∧
      ∀ bytes, canonical d.payload.requests = some bytes →
        signed (encode settings.fingerprintKey) bytes
  returned : ∀ {d completed posts result}, handler.returns d completed posts result →
    ∃ replies, ResendEmailSender.send loads d.payload completed replies = (posts, .returned result)

variable {emailStr casefold hmac loads signed}

/-- An outcome of `AuthChallengeEmailHandler.prepare` carries no receipts. -/
theorem AuthChallengeEmailHandler.prepare_outcome {settings : AuthSettings}
    {resend : ResendSettings} {challenge : UUID → Option EmailChallenge} {now : Time}
    {event : DomainEvent} {result : DeliveryOutcome}
    (h : prepare emailStr casefold hmac settings resend challenge now event =
      some (.outcome result)) : result.receipts = [] := by
  unfold prepare at h
  split at h
  · cases h
    rfl
  split at h
  · cases h
    rfl
  split at h
  · cases h
    rfl
  split at h
  · cases h
    rfl
  split at h
  · cases h
    rfl
  simp only [Option.bind_eq_bind, Option.bind_eq_some_iff] at h
  obtain ⟨outgoing, -, submission, -, h⟩ := h
  cases Option.some.inj h

/-- Challenge emails are sent so. -/
theorem AuthChallengeEmailHandler.resends :
    (handler emailStr casefold hmac loads signed).Resends emailStr casefold hmac loads signed where
  refused := fun ⟨_, _, _, _, h, _⟩ => prepare_outcome h
  prepared := fun ⟨_, resend, _, _, h, hsigned⟩ => by
    obtain ⟨outgoing, -, hsend, hfp⟩ := prepare_eq_some h
    exact ⟨resend, outgoing, hsend, hfp, hsigned _ rfl⟩
  returned h := h

/-- Submissions with one fingerprint have the same bodies in the same order. -/
theorem ResendEmailSender.bodies_eq {settings settings' : ResendSettings}
    {message message' : OutgoingEmail} {submission submission' : EmailSubmission}
    (hinj : ∀ k m k' m', signed k m → signed k' m' → hmac k m = hmac k' m' → k = k' ∧ m = m')
    (h : prepare emailStr casefold hmac settings message = some submission)
    (h' : prepare emailStr casefold hmac settings' message' = some submission')
    (hs : ∀ bytes, canonical submission.requests = some bytes →
      signed (encode settings.fingerprintKey) bytes)
    (hs' : ∀ bytes, canonical submission'.requests = some bytes →
      signed (encode settings'.fingerprintKey) bytes)
    (hfp : submission.fingerprint = submission'.fingerprint) :
    submission.requests.map (·.body) = submission'.requests.map (·.body) := by
  obtain ⟨snapshot, bytes, -, -, hb, hf⟩ := prepare_eq_some h
  obtain ⟨snapshot', bytes', -, -, hb', hf'⟩ := prepare_eq_some h'
  rw [hf, hf'] at hfp
  obtain ⟨-, rfl⟩ := hinj _ _ _ _ (hs _ hb) (hs' _ hb') (hexdigest_inj hfp)
  exact canonical_inj hb hb'

variable {handlers : String → ExternalOutboxHandler EmailSubmission EmailRequest} {s s' : Repo}
  {worker worker' : LeasedOutboxWorker EmailSubmission EmailRequest}
  {l : Option (Txn EmailSubmission)} {entries : List (Entry EmailSubmission EmailRequest)}
  {c : Claim}

/-- A worker finishes with what it had, with no receipts, or with what `send` returned. -/
theorem WorkerStep.finalizing (h : WorkerStep handlers s worker l entries s' worker')
    (hh : ∀ t, (handlers t).Resends emailStr casefold hmac loads signed)
    {result : DeliveryOutcome} {openedAt : Time}
    (hp : worker'.phase = .finalizing c result openedAt) : result.receipts = [] ∨
      ∃ d startedAt posts replies, worker.phase = .delivering c d startedAt posts ∧
        ResendEmailSender.send loads d.payload c.receipts replies = (posts, .returned result) := by
  cases h with
  | @claim _ _ _ _ claimed => cases claimed <;> cases hp
  | @bind _ _ _ _ _ _ _ allowed => cases allowed <;> cases hp
  | @move worker phase h =>
    generalize worker.phase = old at h ⊢
    cases h with
    | refused he hprep =>
      cases hp
      exact .inl ((hh _).refused hprep)
    | returned he hret =>
      cases hp
      obtain ⟨replies, hsend⟩ := (hh _).returned hret
      exact .inr ⟨_, _, _, replies, rfl, hsend⟩
    | invalidEvent | preparationTimeout | noLongerEligible | submissionTimeout | handlerFailure =>
      cases hp
      exact .inl rfl
    | _ => cases hp
  | deliver | post => cases hp
  | start | finish => cases hp

/-- What a running `deliver` has posted it posted before, or it has just been recorded. -/
theorem WorkerStep.posts (h : WorkerStep handlers s worker l entries s' worker')
    {d : PreparedDelivery EmailSubmission} {startedAt : Time} {posts : List EmailRequest}
    (hp : worker'.phase = .delivering c d startedAt posts) {q : EmailRequest} (hq : q ∈ posts) :
    (∃ posts', worker.phase = .delivering c d startedAt posts' ∧ q ∈ posts') ∨
      .posted q ∈ entries := by
  cases h with
  | @claim _ _ _ _ claimed => cases claimed <;> cases hp
  | @bind _ _ _ _ _ _ _ allowed => cases allowed <;> cases hp
  | @move worker phase h =>
    generalize worker.phase = old at h
    cases h <;> cases hp
  | deliver =>
    cases hp
    cases hq
  | post hp' =>
    cases hp
    rcases List.mem_append.1 hq with hq | hq
    · exact .inl ⟨_, hp', hq⟩
    · exact .inr (List.mem_singleton.2 (List.mem_singleton.1 hq ▸ rfl))
  | start | finish => cases hp

end

/-! ## Receipts in a run -/

namespace World

variable {emailStr : String → Option String} {casefold : String → String}
  {hmac : Bytes → Bytes → Bytes} {loads : Bytes → Loaded} {signed : Bytes → Bytes → Prop}
  {handlers : String → ExternalOutboxHandler EmailSubmission EmailRequest}
  {w w' : World EmailSubmission EmailRequest} {a : Act EmailSubmission} {id : UUID}

/-- The request was posted, and it has the index in a `deliver` call for the message. -/
def PostedAt (w : World EmailSubmission EmailRequest) (id : UUID) (i : Nat) (q : EmailRequest) :
    Prop :=
  .posted q ∈ w.record ∧ ∃ call, w.Delivered call ∧ call.claim.messageId = id ∧
    call.prepared.payload.requests[i]? = some q

/-- A request was posted whose index is the key. -/
def Earned (w : World EmailSubmission EmailRequest) (id : UUID) (key : String) : Prop :=
  ∃ (i : Nat) (q : EmailRequest), key = toString i ∧ w.PostedAt id i q

/-- Every receipt was earned for the message. -/
def Receipted (w : World EmailSubmission EmailRequest) (id : UUID) (receipts : Dict) : Prop :=
  ∀ key, receipts.contains key = true → w.Earned id key

/-- The invariant of the receipts: wherever they are, they were earned. -/
structure Accounted (handlers : String → ExternalOutboxHandler EmailSubmission EmailRequest)
    (w : World EmailSubmission EmailRequest) : Prop where
  traced : w.Traced handlers
  rows : ∀ {id row}, w.repo.db.message id = some row → w.Receipted id row.deliveryReceipts
  held : ∀ {i c}, w.Holds i c → w.Receipted c.messageId c.receipts
  posts : ∀ {i c d startedAt posts},
    (w.workers i).phase = .delivering c d startedAt posts → ∀ q ∈ posts, .posted q ∈ w.record
  results : ∀ {i c result openedAt},
    (w.workers i).phase = .finalizing c result openedAt → w.Receipted c.messageId result.receipts
  delivered : ∀ {call}, w.Delivered call →
    w.Receipted call.claim.messageId call.claim.receipts

theorem receipted_nil : w.Receipted id [] := fun _ h => by cases h

theorem Initial.accounted (h : w.Initial) (hu : w.repo.UniqueEvents)
    (hempty : ∀ row ∈ w.repo.db.messages, row.deliveryReceipts = []) : w.Accounted handlers where
  traced := h.traced hu
  rows {id row} hrow := by
    rw [hempty row (Table.mem_of_find hrow)]
    exact receipted_nil
  held hc := by
    rw [Holds, h.idle] at hc
    cases hc
  posts hp := by
    rw [h.idle] at hp
    cases hp
  results hp := by
    rw [h.idle] at hp
    cases hp
  delivered hc := by
    rw [Delivered, h.record] at hc
    cases hc

theorem Step.record_mono (h : Step handlers w a w') {entry : Entry EmailSubmission EmailRequest}
    (he : entry ∈ w.record) : entry ∈ w'.record := by
  cases h with
  | outside => exact he
  | work => exact List.mem_append_right _ he

theorem Step.receipted (h : Step handlers w a w') {receipts : Dict}
    (hr : w.Receipted id receipts) : w'.Receipted id receipts := by
  intro key hkey
  obtain ⟨i, q, rfl, hposted, call, hc, hid, hq⟩ := hr key hkey
  exact ⟨i, q, rfl, h.record_mono hposted, call, h.record_mono hc, hid, hq⟩

/-- What `send` returns in a call that is on record was earned. -/
theorem Accounted.sent (hw : w.Accounted handlers) {i : Nat} {c : Claim}
    {d : PreparedDelivery EmailSubmission} {startedAt : Time} {posts : List EmailRequest}
    {replies : List Reply} {result : DeliveryOutcome}
    (hp : (w.workers i).phase = .delivering c d startedAt posts)
    (hsend : ResendEmailSender.send loads d.payload c.receipts replies = (posts, .returned result)) :
    w.Receipted c.messageId result.receipts := by
  intro key hkey
  rcases sendFrom_receipts hsend hkey with hold | ⟨j, q, rfl, hq, hmem⟩
  · exact hw.held (i := i) (by rw [Holds, hp]; rfl) _ hold
  · exact ⟨j, q, by rw [Nat.zero_add], hw.posts hp q hmem, _, hw.traced.delivering hp, rfl, hq⟩

theorem Step.accounted (h : Step handlers w a w')
    (hh : ∀ t, (handlers t).Resends emailStr casefold hmac loads signed)
    (hw : w.Accounted handlers) : w'.Accounted handlers where
  traced := h.traced hw.traced
  rows {id row'} hrow' := by
    rcases h.txn with he | ⟨l, hl, hcommit⟩
    · rw [he] at hrow'
      exact h.receipted (hw.rows hrow')
    rcases hl.receipts_inv hw.traced.printed.leased.fenced.keyed hrow' with
      ⟨row, hrow, rfl | hm⟩ | hnew
    · exact h.receipted (hw.rows hrow)
    · rcases hm.receipts with he | ⟨_, c, result, _, _, _, _, rfl, howns, he⟩
      · rw [he]
        exact h.receipted (hw.rows hrow)
      -- the result is that of the worker that calls `finish`, and its claim is for this row
      · obtain ⟨k, -, hcall⟩ : ∃ k, a = .work k _ ∧ (w.workers k).Calls _ :=
          hcommit.resolve_left fun ⟨_, hout⟩ => by cases hout
        have hid : id = c.messageId := (Table.key_of_find hrow).symm.trans (owns_iff.1 howns).1
        intro key hkey
        rw [he] at hkey
        rcases Dict.contains_merge hkey with hkey | hkey
        · exact h.receipted (hw.rows hrow) key hkey
        · exact h.receipted (hid ▸ hw.results hcall) key hkey
    · rw [hnew]
      exact receipted_nil
  held {i c} hc := by
    rcases h.holds hc with hc | ⟨reads, -, hcl⟩
    · exact h.receipted (hw.held hc)
    · obtain ⟨-, -, row, hrow, he, -⟩ := hcl.claimed hw.traced.printed.leased.fenced.keyed
      have hreceipts : c.receipts = row.deliveryReceipts := by rw [he]; rfl
      rw [hreceipts]
      exact h.receipted (hw.rows hrow)
  posts {i c d startedAt posts} hp q hq := by
    cases h with
    | outside => exact hw.posts hp q hq
    | @work k l entries s worker h =>
      by_cases hk : i = k
      · subst hk
        simp only [Function.update_self] at hp
        rcases h.posts hp hq with ⟨posts', hp', hq'⟩ | hnew
        · exact List.mem_append_right _ (hw.posts hp' q hq')
        · exact List.mem_append_left _ hnew
      · simp only [Function.update_of_ne hk] at hp
        exact List.mem_append_right _ (hw.posts hp q hq)
  results {i c result openedAt} hp := by
    refine h.receipted ?_
    cases h with
    | outside => exact hw.results hp
    | @work k l entries s worker h =>
      by_cases hk : i = k
      · subst hk
        simp only [Function.update_self] at hp
        rcases h.finalizing hh hp with he | ⟨d, startedAt, posts, replies, hp', hsend⟩
        · rw [he]
          exact receipted_nil
        · exact hw.sent hp' hsend
      · simp only [Function.update_of_ne hk] at hp
        exact hw.results hp
  delivered {call} hc := by
    rcases h.delivered hc with hc | ⟨⟨i, openedAt, hp⟩, -⟩
    · exact h.receipted (hw.delivered hc)
    · exact h.receipted (hw.held (i := i) (by rw [Holds, hp]; rfl))

/-- Calls for one message carry one fingerprint, the one on its row. -/
theorem Printed.fingerprint_eq (hw : w.Printed) {call call' : Delivery EmailSubmission}
    (hc : w.Delivered call) (hc' : w.Delivered call')
    (hid : call.claim.messageId = call'.claim.messageId) :
    call.prepared.fingerprint = call'.prepared.fingerprint := by
  obtain ⟨-, row, hrow, hf⟩ := hw.delivered hc
  obtain ⟨-, row', hrow', hf'⟩ := hw.delivered hc'
  rw [hid, hrow'] at hrow
  obtain rfl := Option.some.inj hrow
  exact Option.some.inj (hf.symm.trans hf')

/-- All calls for one message submit the same bodies. -/
theorem Traced.bodies_eq (hw : w.Traced handlers)
    (hh : ∀ t, (handlers t).Resends emailStr casefold hmac loads signed)
    (hinj : ∀ k m k' m', signed k m → signed k' m' → hmac k m = hmac k' m' → k = k' ∧ m = m')
    {call call' : Delivery EmailSubmission} (hc : w.Delivered call) (hc' : w.Delivered call')
    (hid : call.claim.messageId = call'.claim.messageId) :
    call.prepared.payload.requests.map (·.body) = call'.prepared.payload.requests.map (·.body) := by
  have hfp := hw.printed.fingerprint_eq hc hc' hid
  obtain ⟨-, event, -, hprep⟩ := hw.delivered hc
  obtain ⟨-, event', -, hprep'⟩ := hw.delivered hc'
  obtain ⟨settings, message, hsend, hf, hs⟩ := (hh _).prepared hprep
  obtain ⟨settings', message', hsend', hf', hs'⟩ := (hh _).prepared hprep'
  exact ResendEmailSender.bodies_eq hinj hsend hsend' hs hs' (by rw [← hf, hfp, hf'])

/-- A receipt for the message is for a request of every call for it, with the body that was
posted. -/
theorem Traced.valid (hw : w.Traced handlers)
    (hh : ∀ t, (handlers t).Resends emailStr casefold hmac loads signed)
    (hinj : ∀ k m k' m', signed k m → signed k' m' → hmac k m = hmac k' m' → k = k' ∧ m = m')
    {key : String} (he : w.Earned id key) {call : Delivery EmailSubmission} (hc : w.Delivered call)
    (hid : call.claim.messageId = id) : ∃ (i : Nat) (q q' : EmailRequest), key = toString i ∧
      call.prepared.payload.requests[i]? = some q ∧ w.PostedAt id i q' ∧ q'.body = q.body := by
  obtain ⟨i, q', rfl, hposted, call', hc', hid', hq'⟩ := he
  have hbodies := congrArg (·[i]?) (hw.bodies_eq hh hinj hc hc' (hid.trans hid'.symm))
  simp only [List.getElem?_map, hq', Option.map_some] at hbodies
  obtain ⟨q, hq, hbody⟩ := Option.map_eq_some_iff.1 hbodies
  exact ⟨i, q, q', rfl, hq, ⟨hposted, call', hc', hid', hq'⟩, hbody.symm⟩

end World

section
variable {emailStr : String → Option String} {casefold : String → String}
  {hmac : Bytes → Bytes → Bytes} {loads : Bytes → Loaded} {signed : Bytes → Bytes → Prop}

/-- **An unchanged fingerprint means unchanged bodies.** The fingerprinted bytes of two lists of
bodies are equal only if the lists are. So submissions with one fingerprint have one list of bodies,
and in every run of workers whose handlers send through the adapter, all calls for one message
submit the same bodies, and each receipt that a call is handed, or that is on the row, is for a
request of the call that was posted with the same body under the same index. HMAC is assumed not to
collide on what is fingerprinted. -/
theorem fingerprints_fix_bodies
    {handlers : String → ExternalOutboxHandler EmailSubmission EmailRequest}
    (hh : ∀ t, (handlers t).Resends emailStr casefold hmac loads signed)
    (hinj : ∀ k m k' m', signed k m → signed k' m' → hmac k m = hmac k' m' → k = k' ∧ m = m') :
    (∀ requests requests' : List EmailRequest, (∀ q ∈ requests, q.body.length < 2 ^ 64) →
      (∀ q ∈ requests', q.body.length < 2 ^ 64) →
      (canonical requests = canonical requests' ↔
        requests.map (·.body) = requests'.map (·.body))) ∧
    (∀ settings settings' message message' submission submission',
      ResendEmailSender.prepare emailStr casefold hmac settings message = some submission →
      ResendEmailSender.prepare emailStr casefold hmac settings' message' = some submission' →
      (∀ bytes, canonical submission.requests = some bytes →
        signed (encode settings.fingerprintKey) bytes) →
      (∀ bytes, canonical submission'.requests = some bytes →
        signed (encode settings'.fingerprintKey) bytes) →
      submission.fingerprint = submission'.fingerprint →
      submission.requests.map (·.body) = submission'.requests.map (·.body)) ∧
    ∀ (w₀ w : World EmailSubmission EmailRequest) (tr : List (Act EmailSubmission)),
      w₀.Initial → w₀.repo.UniqueEvents →
      (∀ row ∈ w₀.repo.db.messages, row.deliveryReceipts = []) →
      Lts.Run (World.Step handlers) w₀ tr w →
      (∀ call call', w.Delivered call → w.Delivered call' →
        call.claim.messageId = call'.claim.messageId →
        call.prepared.payload.requests.map (·.body) =
          call'.prepared.payload.requests.map (·.body)) ∧
      ∀ call key, w.Delivered call → (call.claim.receipts.contains key = true ∨
        ∃ row, w.repo.db.message call.claim.messageId = some row ∧
          row.deliveryReceipts.contains key = true) →
        ∃ (i : Nat) (q q' : EmailRequest), key = toString i ∧
          call.prepared.payload.requests[i]? = some q ∧
          w.PostedAt call.claim.messageId i q' ∧ q'.body = q.body := by
  refine ⟨fun requests requests' hshort hshort' => ?_, ?_, ?_⟩
  · have hbytes := canonical_eq_some fun q hq => lt_of_lt_of_eq (hshort q hq) (by decide)
    have hbytes' := canonical_eq_some fun q hq => lt_of_lt_of_eq (hshort' q hq) (by decide)
    refine ⟨fun h => canonical_inj hbytes (h ▸ hbytes), fun h => ?_⟩
    rw [hbytes, hbytes', h]
  · intro settings settings' message message' submission submission' h h' hs hs'
    exact ResendEmailSender.bodies_eq hinj h h' hs hs'
  · intro w₀ w tr h₀ hu hempty run
    have hw := run.invariant (fun hw h => h.accounted hh hw) (h₀.accounted hu hempty)
    refine ⟨fun call call' hc hc' => hw.traced.bodies_eq hh hinj hc hc', ?_⟩
    rintro call key hc (hkey | ⟨row, hrow, hkey⟩)
    · exact hw.traced.valid hh hinj (hw.delivered hc key hkey) hc rfl
    · exact hw.traced.valid hh hinj (hw.rows hrow key hkey) hc rfl

end

/-! ## A message to two recipients, sent in two attempts -/

namespace Fixture

/-- A message to two recipients. -/
def notice : OutgoingEmail :=
  { deliveryId := 7
    recipients := ["ada@example.com", "bob@example.com"]
    subject := "Weekly report"
    textBody := "Nothing to report." }

/-- The digest of the fingerprinted bytes of the message. -/
def noticeBytes : Bytes :=
  [0x4b, 0x60, 0x56, 0x47, 0x57, 0x02, 0x44, 0x03, 0xa3, 0xfe, 0x63, 0x5b, 0x7d, 0x40, 0xb1, 0xdc,
    0x6c, 0xc5, 0x84, 0xf4, 0x10, 0x69, 0x60, 0xfa, 0x73, 0xf8, 0x1a, 0xd2, 0x2a, 0x58, 0x33, 0x06]

/-- What is signed in the run: the bytes of the message under the one key. -/
def noticeSigned (key bytes : Bytes) : Prop :=
  key = encode resendSettings.fingerprintKey ∧
    canonical (emailRequests resendSettings notice) = some bytes

/-- A provider that accepts every request. -/
def accepts : Bytes → Loaded := fun _ => .document (.mapping [("id", .str (uuidStr 5))])

/-- The delivery of requests under the fingerprint of the message. -/
def noticeDelivery (requests : List EmailRequest) : PreparedDelivery EmailSubmission :=
  ⟨⟨requests, hexdigest noticeBytes⟩, hexdigest noticeBytes, seconds 600⟩

/-- A handler that prepares the message for every event. -/
def noticeHandler : ExternalOutboxHandler EmailSubmission EmailRequest where
  prepare _ result := result = .prepared (noticeDelivery (emailRequests resendSettings notice))
  submits d completed posts :=
    ∃ replies, (ResendEmailSender.send accepts d.payload completed replies).1 = posts
  returns d completed posts result :=
    ∃ replies,
      ResendEmailSender.send accepts d.payload completed replies = (posts, .returned result)

theorem short_notice : ∀ address ∈ notice.recipients, resendSettings.sender.toList.length +
    address.toList.length + notice.subject.toList.length + notice.textBody.toList.length ≤
      1000 := by
  decide +kernel

theorem validate_notice : notice.validate some (fun s => s) = some notice := by
  decide +kernel

theorem noticeHandler_resends :
    noticeHandler.Resends some (fun s => s) (fun _ _ => noticeBytes) accepts noticeSigned where
  refused h := by cases h
  prepared h := by
    cases h
    refine ⟨resendSettings, notice, ?_, rfl, fun bytes hb => ⟨rfl, hb⟩⟩
    exact ResendEmailSender.prepare_eq validate_notice
      (canonical_eq_some (length_body_lt rfl short_notice))
  returned h := h

/-- The receipt for the first recipient. -/
def receipt : Dict := [("0", uuidStr 5)]

theorem connection_safe : isSafeName "provider_connection" = true := by
  decide

/-- The first request got its receipt, the second no connection. -/
def noConnection : DeliveryOutcome :=
  { kind := .retry, code := "provider_connection", receipts := receipt
    code_safe := connection_safe }

/-- A reply that gives a receipt. -/
def accepted : Reply := .response 200 [] true ""

/-- The row after the first attempt. -/
def noticeRow : OutboxMessage :=
  ((message.lease 0 default 1).bound (seconds 600) (hexdigest noticeBytes)).finished (claim 1 1)
    noConnection (seconds 1) 0

/-- The outbox when the first attempt has bound the message. -/
def noticeRepo : Repo :=
  { db :=
      { messages := [(message.lease 0 default 1).bound (seconds 600) (hexdigest noticeBytes)]
        controls := [control 0] }
    clock := 0, issued := [⟨claim 1 1, seconds 120⟩] }

/-- The claim of the second attempt: it is handed the receipt. -/
def retryClaim : Claim := { claim 2 2 with deadline := seconds 600, receipts := receipt }

/-- The outbox when the second attempt has bound the message. -/
def retryRepo : Repo :=
  { db :=
      { messages :=
          [(noticeRow.lease (seconds 200) default 2).bound (seconds 600) (hexdigest noticeBytes)]
        controls := [control (seconds 200)] }
    clock := seconds 200, issued := [⟨retryClaim, seconds 320⟩, ⟨claim 1 1, seconds 120⟩] }

/-- The outbox when the second attempt has claimed the message. -/
def retryDb : Outbox :=
  { messages := [noticeRow.lease (seconds 200) default 2], controls := [control (seconds 200)] }

theorem bind_notice : LeasedOutboxRepository.bind claimedRepo.db "auth_email" (claim 1 1)
    (hexdigest noticeBytes) (seconds 600) 0 0 = .ok (noticeRepo.db, true) := by
  have hhex : isHex64 (hexdigest noticeBytes) = true := by decide
  unfold LeasedOutboxRepository.bind
  rw [hhex]
  rfl

theorem finish_notice : LeasedOutboxRepository.finish noticeRepo.db "auth_email" (claim 1 1)
    noConnection (seconds 1) 0 0 = ({ noticeRepo.db with messages := [noticeRow] }, true) := rfl

theorem reclaim_notice : LeasedOutboxRepository.claim
    { noticeRepo.db with messages := [noticeRow] } "auth_email" [challengeEmailEvent] {}
      { now := seconds 200, token := 2 } = .ok (retryDb, some retryClaim) := rfl

theorem rebind_notice : LeasedOutboxRepository.bind retryDb "auth_email" retryClaim
    (hexdigest noticeBytes) (seconds 600) (seconds 200) (seconds 200) =
      .ok (retryRepo.db, true) := by
  have hhex : isHex64 (hexdigest noticeBytes) = true := by decide
  unfold LeasedOutboxRepository.bind
  rw [hhex]
  rfl

/-- The second recipient is tried again: the call is handed the receipt of the first, whose request
has the body that was posted. -/
theorem fingerprints_fix_bodies_retried :
    ∃ (w : World EmailSubmission EmailRequest) (second : Delivery EmailSubmission),
      w.Delivered second ∧ second.claim.receipts = receipt ∧
      ∃ (i : Nat) (q q' : EmailRequest), "0" = toString i ∧
        second.prepared.payload.requests[i]? = some q ∧ w.PostedAt 1 i q' ∧ q'.body = q.body := by
  obtain ⟨q, q', hrequests⟩ : ∃ q q', emailRequests resendSettings notice = [q, q'] :=
    ⟨_, _, by simp only [emailRequests, notice, List.mapIdx_cons, List.mapIdx_nil]; rfl⟩
  let d := noticeDelivery [q, q']
  have hprep : noticeHandler.prepare event (.prepared d) := by
    show Preparation.prepared (noticeDelivery [q, q']) = _
    rw [← hrequests]
  have hsub : noticeHandler.submits d [] ([] ++ [q]) := ⟨[], rfl⟩
  have hsub' : noticeHandler.submits d [] ([q] ++ [q']) := ⟨[accepted], rfl⟩
  have hret : noticeHandler.returns d [] [q, q'] noConnection :=
    ⟨[accepted, .connection], rfl⟩
  let first : Delivery EmailSubmission := ⟨claim 1 1, d, 0⟩
  let second : Delivery EmailSubmission := ⟨retryClaim, d, seconds 200⟩
  obtain ⟨tr, run⟩ : ∃ tr, Lts.Run (OpenStep fun _ => noticeHandler) (world {} repo .idle []) tr
      (world {} noticeRepo (.delivering (claim 1 1) d 0 []) [.delivered first]) :=
    attempt 1 (by decide) rfl claim_repo hprep bind_notice
      (show (0 : Int) < min (seconds 600) (seconds 3600) by decide)
  have h1 : World.Step (fun _ => noticeHandler)
      (world {} noticeRepo (.delivering (claim 1 1) d 0 []) [.delivered first]) (.work 0 none)
      (world {} noticeRepo (.delivering (claim 1 1) d 0 [q]) [.posted q, .delivered first]) :=
    world_step (.post rfl rfl hsub)
  have h2 : World.Step (fun _ => noticeHandler)
      (world {} noticeRepo (.delivering (claim 1 1) d 0 [q]) [.posted q, .delivered first])
      (.work 0 none)
      (world {} noticeRepo (.delivering (claim 1 1) d 0 [q, q'])
        [.posted q', .posted q, .delivered first]) :=
    world_step (.post rfl rfl hsub')
  have h3 : World.Step (fun _ => noticeHandler)
      (world {} noticeRepo (.delivering (claim 1 1) d 0 [q, q'])
        [.posted q', .posted q, .delivered first]) (.work 0 none)
      (world {} noticeRepo (.finalizing (claim 1 1) noConnection 0)
        [.posted q', .posted q, .delivered first]) :=
    world_step (.move (.returned rfl hret))
  let finished : Time → World EmailSubmission EmailRequest := fun clock =>
    world {} { noticeRepo with db := { noticeRepo.db with messages := [noticeRow] }, clock } .idle
      [.applied 1 .retry, .posted q', .posted q, .delivered first]
  have hfinish : Repo.Step (P := EmailSubmission) noticeRepo
      (.finish "auth_email" (claim 1 1) noConnection (seconds 1) 0 0 0 true)
      { noticeRepo with db := { noticeRepo.db with messages := [noticeRow] } } :=
    .finish ⟨_, List.mem_cons_self, rfl⟩ (le_refl _) (le_refl _) (le_refl _) finish_notice
  have h4 : World.Step (fun _ => noticeHandler)
      (world {} noticeRepo (.finalizing (claim 1 1) noConnection 0)
        [.posted q', .posted q, .delivered first])
      (.work 0 (some (.finish "auth_email" (claim 1 1) noConnection (seconds 1) 0 0 0 true)))
      (finished 0) :=
    world_step (.finish rfl (show nextDelay 1 noConnection {} 0 = some (seconds 1) by decide) hfinish)
  have h5 : World.Step (fun _ => noticeHandler) (finished 0) (.outside (.tick (seconds 200)))
      (finished (seconds 200)) :=
    .outside rfl (.tick (show (0 : Int) ≤ seconds 200 by decide))
  obtain ⟨tr', run'⟩ : ∃ tr, Lts.Run (OpenStep fun _ => noticeHandler) (finished (seconds 200)) tr
      (world {} retryRepo (.delivering retryClaim d (seconds 200) [])
        [.delivered second, .applied 1 .retry, .posted q', .posted q, .delivered first]) :=
    attempt 2 (by decide) rfl reclaim_notice hprep rebind_notice
      (show seconds 200 < min (seconds 600) (seconds 600) by decide)
  have hrun := ((((((run.weaken fun h => h.1.1).snoc h1).snoc h2).snoc h3).snoc h4).snoc h5).append
    (run'.weaken fun h => h.1.1)
  -- one text is signed under one key
  have hinj : ∀ k m k' m', noticeSigned k m → noticeSigned k' m' → noticeBytes = noticeBytes →
      k = k' ∧ m = m' := by
    rintro k m k' m' ⟨hk, hm⟩ ⟨hk', hm'⟩ -
    exact ⟨hk.trans hk'.symm, Option.some.inj (hm.symm.trans hm')⟩
  have hempty : ∀ row ∈ repo.db.messages, row.deliveryReceipts = [] := by
    intro row hrow
    rw [List.mem_singleton.1 hrow]
    rfl
  obtain ⟨-, hvalid⟩ := (fingerprints_fix_bodies (fun _ => noticeHandler_resends) hinj).2.2 _ _ _
    world_initial repo_uniqueEvents hempty hrun
  exact ⟨_, second, List.mem_cons_self, rfl,
    hvalid second "0" List.mem_cons_self (.inl (show receipt.contains "0" = true by decide))⟩

end Fixture

end Ekumidayomi
