import Ekumidayomi.Email.Resend

/-!
# What a call of `send` does

The loop of `ResendEmailSender.send` posts the requests that have no receipt yet, one after
another, and returns at the first reply that gives none. `Sent` says what a call has posted and what
it returns when the provider has answered: which reply gives a receipt (`receiptOf`) does not depend
on where the loop stands, and every other reply ends the call with the receipts as they are
(`answer_cases`). The induction is over the requests that are left, with the receipts collected so
far.
-/

namespace Ekumidayomi

/-- The receipt that a reply gives: the identifier in a complete response of at most 16384 bytes
with status 200 or 201. -/
def receiptOf (loads : Bytes → Loaded) : Reply → Option String
  | .response status chunks ended _ =>
    if (status = 200 || status = 201) && decide (chunks.flatten.length ≤ 16384) && ended then
      providerId ((loads chunks.flatten).get "id")
    else none
  | _ => none

/-- The receipts that the replies to posted indices give. -/
def receiptsOf (loads : Bytes → Loaded) (posted : List Nat) (replies : List Reply) : Dict :=
  (posted.zip replies).filterMap fun p => (receiptOf loads p.2).map (toString p.1, ·)

/-- A call has posted the requests of the indices `posted`, for the replies it got, and returns
`result`. The requests are those of the indices from `index` on. -/
structure Sent (loads : Bytes → Loaded) (index : Nat) (requests : List EmailRequest)
    (completed : Dict) (replies : List Reply) (posted : List Nat) (posts : List EmailRequest)
    (result : DeliveryOutcome) : Prop where
  posts : posts = posted.filterMap fun i => requests[i - index]?
  increasing : posted.Pairwise (· < ·)
  unfinished : ∀ i ∈ posted, index ≤ i ∧ i < index + requests.length ∧
    completed.contains (toString i) = false
  /-- No index without a receipt is passed over. -/
  none_skipped : ∀ i, index ≤ i → i < index + requests.length →
    completed.contains (toString i) = false → ∀ j ∈ posted, i ≤ j → i ∈ posted
  /-- Whatever is posted before the last request has got its receipt. -/
  stops : ∀ j, j + 1 < posted.length → ∃ reply, replies[j]? = some reply ∧
    (receiptOf loads reply).isSome = true
  /-- The loop does not end while the replies give receipts. -/
  goes_on : (∀ j, j < posted.length → ∃ reply, replies[j]? = some reply ∧
    (receiptOf loads reply).isSome = true) → result.kind = .accepted
  receipts : result.receipts = completed ++ receiptsOf loads posted replies
  accepted : result.kind = .accepted ↔ ∀ i, index ≤ i → i < index + requests.length →
    result.receipts.contains (toString i) = true
  delay : result.retryAfter ≤ 3600

section
variable {loads : Bytes → Loaded} {receipts : Dict} {reply : Reply}

/-- A complete response other than 200 and 201 ends the call. -/
theorem answerDocument_other {status : Nat} {retryAfter : String} {loaded : Loaded}
    (hstatus : (status = 200 || status = 201) = false) :
    ∃ result, answerDocument receipts status retryAfter loaded = .outcome result ∧
      result.receipts = receipts ∧ result.kind ≠ .accepted := by
  rw [answerDocument, if_neg (by simp [hstatus])]
  dsimp only
  repeat' split
  all_goals exact ⟨_, rfl, rfl, by simp⟩

/-- A complete response of at most 16384 bytes is answered by its document. -/
theorem answer_complete (hloads : ∀ data, loads data ≠ .raised) {status : Nat}
    {chunks : List Bytes} {retryAfter : String} (hshort : ¬ 16384 < chunks.flatten.length) :
    answer loads receipts (.response status chunks true retryAfter) =
      answerDocument receipts status retryAfter (loads chunks.flatten) := by
  rw [answer, if_neg hshort, if_neg (by decide)]
  split
  case h_1 hraised => exact absurd hraised (hloads _)
  case h_2 => rfl

/-- A reply gives a receipt, or it ends the call with the receipts as they are. -/
theorem answer_cases (receipts : Dict) (hloads : ∀ data, loads data ≠ .raised)
    (hreply : reply ≠ .raised) :
    (∃ id, receiptOf loads reply = some id ∧ answer loads receipts reply = .receipt id) ∨
    ∃ result, receiptOf loads reply = none ∧ answer loads receipts reply = .outcome result ∧
      result.receipts = receipts ∧ result.kind ≠ .accepted := by
  cases reply with
  | connection | transport => exact .inr ⟨_, rfl, rfl, rfl, by simp⟩
  | raised => exact absurd rfl hreply
  | response status chunks ended retryAfter =>
    by_cases hlong : 16384 < chunks.flatten.length
    · refine .inr ⟨_, ?_, if_pos hlong, rfl, by simp⟩
      rw [receiptOf, decide_eq_false (Nat.not_le.2 hlong), Bool.and_false, Bool.false_and]
      rfl
    · cases ended with
      | false =>
        refine .inr ⟨_, ?_, (if_neg hlong).trans (if_pos rfl), rfl, by simp⟩
        rw [receiptOf, Bool.and_false]
        rfl
      | true =>
        rw [answer_complete hloads hlong, receiptOf, decide_eq_true (Nat.not_lt.1 hlong),
          Bool.and_true, Bool.and_true]
        cases hstatus : (status = 200 || status = 201 : Bool) with
        | false =>
          obtain ⟨result, hresult⟩ := answerDocument_other hstatus
          exact .inr ⟨result, rfl, hresult⟩
        | true =>
          rw [if_pos rfl, answerDocument, if_pos hstatus]
          cases providerId ((loads chunks.flatten).get "id") with
          | none => exact .inr ⟨_, rfl, rfl, rfl, by simp⟩
          | some id => exact .inl ⟨id, rfl, rfl⟩

/-- An index has one text. -/
theorem toString_inj {m n : Nat} (h : toString m = toString n) : m = n :=
  toDigits_inj (String.ofList_injective h)

theorem Dict.insert_new {d : Dict} {key value : String} (h : d.contains key = false) :
    d.insert key value = d ++ [(key, value)] := by
  rw [Dict.insert, h]
  rfl

theorem Dict.contains_append {d e : Dict} {key : String} :
    Dict.contains (d ++ e) key = (d.contains key || e.contains key) := by
  rw [Dict.contains, List.any_append]
  rfl

/-- A receipt for one index is none for another. -/
theorem Dict.contains_receipt {d : Dict} {i index : Nat} {id : String} (hne : i ≠ index) :
    Dict.contains (d ++ [(toString index, id)]) (toString i) = d.contains (toString i) := by
  rw [Dict.contains_append]
  have hother : (toString index == toString i) = false :=
    beq_false_of_ne fun h => hne (toString_inj h).symm
  have hlast : Dict.contains [(toString index, id)] (toString i) = false := by
    rw [Dict.contains, List.any_cons, List.any_nil, Bool.or_false]
    exact hother
  rw [hlast, Bool.or_false]

variable {index : Nat} {request : EmailRequest} {requests : List EmailRequest}
  {replies : List Reply} {posted : List Nat} {posts : List EmailRequest} {result : DeliveryOutcome}

/-- The requests from an index on are those of the index and the others. -/
theorem getElem?_later {i : Nat} (h : index + 1 ≤ i) :
    (request :: requests)[i - index]? = requests[i - (index + 1)]? := by
  rw [show i - index = i - (index + 1) + 1 by omega, List.getElem?_cons_succ]

theorem filterMap_later (h : ∀ i ∈ posted, index + 1 ≤ i) :
    posted.filterMap (fun i => (request :: requests)[i - index]?) =
      posted.filterMap fun i => requests[i - (index + 1)]? :=
  List.filterMap_congr fun i hi => getElem?_later (h i hi)

/-- An index with a receipt is passed over. -/
theorem Sent.skip (h : Sent loads (index + 1) requests receipts replies posted posts result)
    (hdone : receipts.contains (toString index) = true) :
    Sent loads index (request :: requests) receipts replies posted posts result where
  posts := by
    rw [filterMap_later fun i hi => (h.unfinished i hi).1]
    exact h.posts
  increasing := h.increasing
  unfinished := by
    intro i hi
    obtain ⟨hlow, hhigh, hnew⟩ := h.unfinished i hi
    exact ⟨by omega, by rw [List.length_cons]; omega, hnew⟩
  none_skipped := by
    intro i hlow hhigh hnew
    rw [List.length_cons] at hhigh
    have hne : i ≠ index := by
      rintro rfl
      rw [hdone] at hnew
      cases hnew
    exact h.none_skipped i (by omega) (by omega) hnew
  stops := h.stops
  goes_on := h.goes_on
  receipts := h.receipts
  accepted := by
    rw [h.accepted]
    refine ⟨fun hall i hlow hhigh => ?_, fun hall i hlow hhigh => ?_⟩
    · rw [List.length_cons] at hhigh
      by_cases hi : i = index
      · rw [h.receipts, Dict.contains_append, hi, hdone, Bool.true_or]
      · exact hall i (by omega) (by omega)
    · exact hall i (by omega) (by rw [List.length_cons]; omega)
  delay := h.delay

/-- The first reply without a receipt is the last. -/
theorem Sent.last (hnew : receipts.contains (toString index) = false)
    (hreply : receiptOf loads reply = none) (hreceipts : result.receipts = receipts)
    (hkind : result.kind ≠ .accepted) :
    Sent loads index (request :: requests) receipts (reply :: replies) [index] [request]
      result where
  posts := by simp
  increasing := List.pairwise_singleton _ _
  unfinished := List.forall_mem_singleton.2
    ⟨Nat.le_refl _, by rw [List.length_cons]; omega, hnew⟩
  none_skipped := by
    intro i hlow _ _ j hj hle
    rw [List.mem_singleton] at hj ⊢
    omega
  stops := by simp
  goes_on := by
    intro hall
    obtain ⟨_, hfirst, hsome⟩ := hall 0 Nat.one_pos
    cases hfirst
    rw [hreply] at hsome
    cases hsome
  receipts := by simp [hreceipts, receiptsOf, hreply]
  accepted := by
    refine ⟨fun h => absurd h hkind, fun hall => ?_⟩
    have hindex := hall index (Nat.le_refl _) (by rw [List.length_cons]; omega)
    rw [hreceipts, hnew] at hindex
    cases hindex
  delay := result.retryAfter_le

/-- A receipt is kept, and the loop goes on. -/
theorem Sent.next {id : String} (hnew : receipts.contains (toString index) = false)
    (hreply : receiptOf loads reply = some id)
    (h : Sent loads (index + 1) requests (receipts ++ [(toString index, id)]) replies posted posts
      result) :
    Sent loads index (request :: requests) receipts (reply :: replies) (index :: posted)
      (request :: posts) result where
  posts := by
    rw [List.filterMap_cons_some (b := request) (by simp),
      filterMap_later fun i hi => (h.unfinished i hi).1, ← h.posts]
  increasing := List.pairwise_cons.2 ⟨fun i hi => (h.unfinished i hi).1, h.increasing⟩
  unfinished := by
    refine List.forall_mem_cons.2 ⟨⟨Nat.le_refl _, by rw [List.length_cons]; omega, hnew⟩, ?_⟩
    intro i hi
    obtain ⟨hlow, hhigh, hnot⟩ := h.unfinished i hi
    rw [Dict.contains_receipt (by omega)] at hnot
    exact ⟨by omega, by rw [List.length_cons]; omega, hnot⟩
  none_skipped := by
    intro i hlow hhigh hnot j hj hle
    rw [List.length_cons] at hhigh
    rcases Nat.eq_or_lt_of_le hlow with rfl | hlow
    · exact List.mem_cons_self
    · rcases List.mem_cons.1 hj with rfl | hj
      · omega
      · refine List.mem_cons_of_mem _ (h.none_skipped i hlow (by omega) ?_ j hj hle)
        rwa [Dict.contains_receipt (by omega)]
  stops := by
    intro j hj
    cases j with
    | zero => exact ⟨reply, rfl, by rw [hreply]; rfl⟩
    | succ j => exact h.stops j (by simpa using hj)
  goes_on := by
    intro hall
    refine h.goes_on fun j hj => ?_
    exact hall (j + 1) (Nat.succ_lt_succ hj)
  receipts := by
    rw [h.receipts, receiptsOf, receiptsOf, List.zip_cons_cons, List.filterMap_cons_some
      (b := (toString index, id)) (by rw [hreply]; rfl), List.append_assoc]
    rfl
  accepted := by
    rw [h.accepted]
    refine ⟨fun hall i hlow hhigh => ?_, fun hall i hlow hhigh => ?_⟩
    · rw [List.length_cons] at hhigh
      rcases Nat.eq_or_lt_of_le hlow with rfl | hlow
      · rw [h.receipts, Dict.contains_append, Dict.contains_append]
        simp [Dict.contains]
      · exact hall i hlow (by omega)
    · exact hall i (by omega) (by rw [List.length_cons]; omega)
  delay := h.delay

/-- From any index on, the loop returns when it has its replies. -/
theorem sendFrom_sent (hloads : ∀ data, loads data ≠ .raised) (index : Nat)
    (requests : List EmailRequest) (receipts : Dict) (replies : List Reply)
    (hreplies : ∀ reply ∈ replies, reply ≠ .raised) (henough : requests.length ≤ replies.length) :
    ∃ posted posts result, sendFrom loads index requests receipts replies =
      (posts, .returned result) ∧
      Sent loads index requests receipts replies posted posts result := by
  induction requests generalizing index receipts replies with
  | nil =>
    refine ⟨[], [], _, rfl, ?_⟩
    constructor <;> try simp [receiptsOf]
    intro i hlow hhigh
    omega
  | cons request requests ih =>
    rw [List.length_cons] at henough
    cases hdone : receipts.contains (toString index) with
    | true =>
      simp only [sendFrom, hdone, if_true]
      obtain ⟨posted, posts, result, hsend, hsent⟩ :=
        ih (index + 1) receipts replies hreplies (by omega)
      exact ⟨posted, posts, result, hsend, hsent.skip hdone⟩
    | false =>
      simp only [sendFrom, hdone, Bool.false_eq_true, if_false]
      cases replies with
      | nil => simp at henough
      | cons reply replies =>
        rw [List.forall_mem_cons] at hreplies
        dsimp only
        rcases answer_cases receipts hloads hreplies.1 with
          ⟨id, hreceipt, hanswer⟩ | ⟨result, hreceipt, hanswer, hreceipts, hkind⟩
        · obtain ⟨posted, posts, result, hsend, hsent⟩ := ih (index + 1)
            (receipts ++ [(toString index, id)]) replies hreplies.2 (by simpa using henough)
          rw [hanswer]
          dsimp only
          rw [Dict.insert_new hdone, hsend]
          exact ⟨index :: posted, request :: posts, result, rfl, hsent.next hdone hreceipt⟩
        · rw [hanswer]
          exact ⟨[index], [request], result, rfl, .last hdone hreceipt hreceipts hkind⟩

/-- A call of `send` whose requests are answered returns, after it has posted the requests without a
receipt up to the first that yields none. -/
theorem send_sent (hloads : ∀ data, loads data ≠ .raised) (submission : EmailSubmission)
    (completed : Dict) (replies : List Reply) (hreplies : ∀ reply ∈ replies, reply ≠ .raised)
    (henough : submission.requests.length ≤ replies.length) :
    ∃ posted posts result, ResendEmailSender.send loads submission completed replies =
      (posts, .returned result) ∧
      Sent loads 0 submission.requests completed replies posted posts result :=
  sendFrom_sent hloads 0 submission.requests completed replies hreplies henough

/-- `json.loads` on the response of the run below. -/
def loadsOne (data : Bytes) : Loaded :=
  if data = encode "\x7b\"id\":\"00000000-0000-0000-0000-000000000001\"\x7d" then
    .document (.mapping [("id", .str "00000000-0000-0000-0000-000000000001")])
  else .invalid

theorem loadsOne_ne_raised (data : Bytes) : loadsOne data ≠ .raised := by
  unfold loadsOne
  split <;> simp

/-- The second of two recipients is posted to and answered; the first has a receipt from before. -/
theorem send_sent_second :
    ∃ posted posts result, ResendEmailSender.send loadsOne
      ⟨[⟨"email/1/0", []⟩, ⟨"email/1/1", []⟩], ""⟩ [("0", "00000000-0000-0000-0000-000000000002")]
      [.response 201 [encode "\x7b\"id\":\"00000000-0000-0000-0000-000000000001\"\x7d"] true "",
        .transport] = (posts, .returned result) ∧
      Sent loadsOne 0 [⟨"email/1/0", []⟩, ⟨"email/1/1", []⟩]
        [("0", "00000000-0000-0000-0000-000000000002")]
        [.response 201 [encode "\x7b\"id\":\"00000000-0000-0000-0000-000000000001\"\x7d"] true "",
          .transport] posted posts result :=
  send_sent loadsOne_ne_raised _ _ _ (by simp) (by decide)

end

end Ekumidayomi
