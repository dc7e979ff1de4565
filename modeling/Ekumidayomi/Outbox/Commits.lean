import Ekumidayomi.Outbox.Statements

/-!
# What the outbox transactions commit

Every call meets its precondition (`code_meets`): at each commit its rows came from committed ones
by moves of the call, a row that becomes blocked leaves the group paused, and an internal worker
commits either the handler's writes with the published message or the failed message alone
(`Commits`). When `claim` has returned a claim, it has read under the lock of the control row that
the group is not paused (`Notes`).
-/

namespace Ekumidayomi.Workers

open Transact

variable {W P : Type} {group : String} {call : Call W P}

/-- A message becomes blocked. -/
def Blocks (db db' : Tables W) : Prop :=
  ∃ row' ∈ db'.outbox.messages, row'.status = .blocked ∧
    ∀ row, db.outbox.message row'.id = some row → row.status ≠ .blocked

/-- What an internal worker commits: it has claimed a row, and has either published it with all that
the handler wrote, or failed it with none of it. -/
inductive Processed (worker : InternalOutboxWorker W) (reads : ProcessReads)
    (c : Ctx (schema W group)) (row : OutboxMessage) : Prop
  | published {ops : List (Op W)} :
      Ends row.id (worker.handling (row.batchClaim reads.claimedAt)) [] ops true →
      c.buf = .setMessage ((row.batchClaim reads.claimedAt).publish reads.now) ::
        (ops ++ [.setMessage (row.batchClaim reads.claimedAt)]) →
      Processed worker reads c row
  | failed {ops : List (Op W)} (availableAt : Time) :
      Ends row.id (worker.handling (row.batchClaim reads.claimedAt)) [] ops false →
      c.buf = [.setMessage ((row.batchClaim reads.claimedAt).fail handlerFailed.code availableAt),
        .setMessage (row.batchClaim reads.claimedAt)] →
      Processed worker reads c row

/-- The condition of the claim of an internal worker on a row, but for the earlier versions. -/
def InternalOutboxWorker.claims (worker : InternalOutboxWorker W) (reads : ProcessReads)
    (row : OutboxMessage) : Bool :=
  batchClaimable [] worker.settings.maxAttempts reads.claimedAt
    (some (worker.handlers.map (·.1))) row

/-- The row that an internal worker has claimed is committed and was open to a claim. -/
structure Claims (worker : InternalOutboxWorker W) (reads : ProcessReads) (db : Tables W)
    (row : OutboxMessage) : Prop where
  message : db.outbox.message row.id = some row
  claims : worker.claims reads row = true

theorem Claims.status {worker : InternalOutboxWorker W} {reads : ProcessReads} {db : Tables W}
    {row : OutboxMessage} (h : Claims worker reads db row) :
    row.status = .pending ∨ row.status = .failed := by
  have hclaims := h.claims
  simp only [InternalOutboxWorker.claims, batchClaimable, Bool.and_eq_true, Bool.or_eq_true,
    decide_eq_true_eq] at hclaims
  exact hclaims.1.1.1.1.1.1

structure Commits (group : String) (call : Call W P) (c : Ctx (schema W group)) (db : Tables W) :
    Prop where
  kept : Kept group call db (c.view db)
  blocked : Blocks db (c.view db) → Paused group (c.view db)
  processed : ∀ worker reads, call = .processOne worker reads →
    ∃ row, Claims worker reads db row ∧ Processed worker reads c row

/-- Where a claim is returned the group is not paused, which nobody can change meanwhile. -/
def Notes (group : String) : Note → Ctx (schema W group) → Prop
  | .claimed _, c => ∃ r ∈ c.reads, .control group ∈ r.held ∧ ¬ Paused group (r.db : Tables W)

/-- A call answers with a claim only when it has committed it. -/
def Answers (answer : Answer) (c : Ctx (schema W group)) : Prop :=
  ∀ claim, answer = .claim (some claim) → .claimed claim ∈ c.kept

/-- The calls that may block a message, and those that may lease one. -/
def Call.mayBlock : Call W P → Bool
  | .bind _ _ _ | .finish _ _ _ => true
  | _ => false

@[inherit_doc Call.mayBlock]
def Call.mayLease : Call W P → Bool
  | .claim _ _ _ _ => true
  | _ => false

/-! ## Moves of rows -/

section
variable {row row' : OutboxMessage}

theorem truthy_status {f : Option String} {a b : OutboxStatus} (ha : a ≠ .blocked)
    (hb : b ≠ .blocked) : (if truthy f then a else b) ≠ .blocked := by
  split
  · exact ha
  · exact hb

/-- Only `bind` and `finish` block messages. -/
theorem Moves.not_blocked (h : Moves group call row row') (hcall : call.mayBlock = false) :
    row'.status ≠ .blocked := by
  obtain ⟨db, l, hl, hmove⟩ := h
  cases hmove with
  | claim h =>
    cases h with
    | swept | tooOld => exact truthy_status (by decide) (by decide)
    | leased => exact nofun
  | contentChanged | bindExpired | bound | finished =>
    cases call <;> simp [Call.labels, Call.mayBlock] at hl hcall
  | replayed | batchClaimed | published | failed | released => exact nofun

/-- Only `claim` hands out tokens. -/
theorem Moves.token (h : Moves group call row row') (hcall : call.mayLease = false)
    (ht : row'.claimToken.isSome) : row.claimToken.isSome := by
  obtain ⟨db, l, hl, hmove⟩ := h
  cases hmove with
  | claim h => cases call <;> simp [Call.labels, Call.mayLease] at hl hcall
  | contentChanged | bindExpired | finished | replayed => cases ht
  | bound | batchClaimed | published | failed | released => exact ht

variable {db db' : Tables W}

theorem Kept.not_blocks (h : Kept group call db db') (hcall : call.mayBlock = false) :
    ¬ Blocks db db' := by
  rintro ⟨row', hrow', hst, hnew⟩
  obtain ⟨row, horigin, hpath⟩ := h.rows row' hrow'
  rcases hpath.cases_tail with rfl | ⟨last, -, hlast⟩
  · rcases horigin with hold | ⟨-, huntouched⟩
    · exact hnew row' hold hst
    · rw [huntouched.status] at hst
      cases hst
  · exact hlast.not_blocked hcall hst

/-- The tables that a call leaves are valid. -/
theorem Kept.valid (h : Kept group call db db') (hv : Valid group db)
    (hclaim : call.mayLease = true → (db'.outbox.control group).isSome) : Valid group db' where
  keyed := h.keyed
  controlled row' hrow' ht := by
    cases hcall : call.mayLease with
    | true => exact hclaim hcall
    | false =>
      obtain ⟨row, horigin, hpath⟩ := h.rows row' hrow'
      have htoken : row.claimToken.isSome := by
        clear hrow' horigin
        induction hpath with
        | refl => exact ht
        | tail _ hlast ih => exact ih (hlast.token hcall ht)
      rcases horigin with hold | ⟨-, huntouched⟩
      · exact h.control (hv.controlled row (Table.mem_of_find hold) htoken)
      · rw [huntouched.token] at htoken
        cases htoken

/-- A row that is set to a status other than blocked blocks nothing. -/
theorem not_blocks_setMessage (hk : db.outbox.Keyed) (hst : row.status ≠ .blocked) :
    ¬ Blocks db ((Op.setMessage row).apply db) := by
  rintro ⟨row', hrow', hblocked, hnew⟩
  obtain ⟨a, ha, rfl⟩ := Outbox.mem_modify hrow'
  by_cases hid : a.id = row.id
  · rw [if_pos hid] at hblocked
    exact hst hblocked
  · rw [if_neg hid] at hblocked hnew
    exact hnew a (hk.find ha) hblocked

end

/-! ## Calls -/

/-- What a call has to show before it commits. -/
structure Ready (call : Call W P) (c : Ctx (schema W group)) : Prop where
  keeps : Keeps call c
  blocked : c.Relates fun db db' => Blocks db db' → Paused group db'
  control : call.mayLease = true → c.Shows fun db =>
    (Outbox.control (Tables.outbox db) group).isSome

theorem Ready.of_keeps {c : Ctx (schema W group)} (h : Keeps call c)
    (hblock : call.mayBlock = false) (hlease : call.mayLease = false) : Ready call c where
  keeps := h
  blocked := h.mono fun _ _ hk hb => absurd hb (hk.not_blocks hblock)
  control hl := by
    rw [hlease] at hl
    cases hl

/-- The precondition of a call. -/
abbrev Meets (call : Call W P) {α : Type} (Q : α → Ctx (schema W group) → Prop)
    (p : Tx W group α) (c : Ctx (schema W group)) : Prop :=
  wp (Commits group call) (Notes group) Q (fun _ _ => True) p c

/-- The transaction has marked the claim that its call would answer with. -/
def Returns (answer : Answer) (c : Ctx (schema W group)) : Prop :=
  ∀ claim, answer = .claim (some claim) → .claimed claim ∈ c.marks

theorem meets_committing {α : Type} {body : Tx W group α} {answer : α → Answer}
    (h : Meets call (fun a c => Ready call c ∧ Returns (answer a) c) body {})
    (hcall : call.isProcessOne = false) : Meets call Answers (committing body answer) {} := by
  rw [Meets, committing, wp_bind]
  refine wp_mono h (fun a c hc => ⟨fun db hv hs => ?_, fun claim hclaim => ?_⟩) fun _ _ _ => trivial
  · have hk := hc.1.keeps db hv hs
    refine ⟨⟨hk, hc.1.blocked db hv hs, ?_⟩, hk.valid hv fun hl => hc.1.control hl db hv hs⟩
    rintro worker reads rfl
    cases hcall
  · exact List.mem_append_left _ (hc.2 claim hclaim)

/-- A call that answers with no claim. -/
theorem meets_claimless {α : Type} {body : Tx W group α} {answer : α → Answer}
    (h : Meets call (fun _ => Ready call) body {}) (hcall : call.isProcessOne = false)
    (hanswer : ∀ a claim, answer a ≠ .claim (some claim)) :
    Meets call Answers (committing body answer) {} := by
  refine meets_committing
    (wp_mono h (fun a c hc => ⟨hc, fun claim he => ?_⟩) fun _ _ _ => trivial) hcall
  exact absurd he (hanswer a claim)

theorem meets_add {event : DomainEvent} {key : Option String} {availableAt : Option Time}
    (hcall : call = .add event key availableAt) :
    Meets call (fun _ => Ready call) (add event key availableAt : Tx W group Unit) {} := by
  rw [Meets, add, wp_bind, wp_uuid4]
  intro id _
  rw [wp_bind, wp_query]
  intro db t _ _ _
  split
  case h_1 => trivial
  case h_2 row hstage =>
    obtain ⟨hid, huntouched⟩ := stage_eq_ok hstage
    rw [wp_bind, wp_lock, wp_write]
    refine ⟨fun k hk => ?_, fun i hi => ?_, .of_keeps ?_ (hcall ▸ rfl) (hcall ▸ rfl)⟩
    · rw [List.mem_singleton.1 hk]
      exact List.mem_cons_self
    · rw [List.mem_singleton.1 hi, hid]
      exact List.mem_cons_self
    · intro db' hv hs
      have hunused : ¬ Uses db' row.id := hs.2 row.id (hid ▸ List.mem_cons_self)
      exact (Kept.refl hv).insertMessage huntouched hunused hunused

/-! ### Leased claims -/

section
variable {eventTypes : List String} {settings : OutboxWorkerSettings}
  {sweepLocked rowLocked : UUID → Bool} {now : Time} {messages : List OutboxMessage}
  {row : OutboxMessage}

/-- A table from which every row is held is swept of none. -/
theorem sweptTable_locked (messages : List OutboxMessage) (eventTypes : List String)
    (reads : ClaimReads) (h : ∀ id, reads.sweepLocked id = true) :
    sweptTable messages eventTypes reads = messages := by
  have hnone : sweptRows messages eventTypes reads = [] := by
    simp [sweptRows, selectForUpdate, h]
  rw [sweptTable, hnone, modifyRows, Table.update]
  simp

/-- A move of `claim` on the table that its second query reads. -/
theorem moves_claim (messages : List OutboxMessage) (token : UUID) (result : Option Claim)
    {row' : OutboxMessage} (hcall : call = .claim eventTypes settings sweepLocked rowLocked)
    (h : ClaimMove messages eventTypes settings
      { now, sweepLocked := fun _ => true, rowLocked, token } result row row') :
    Moves group call row row' := by
  refine ⟨{ messages },
    .claim group eventTypes settings { now, sweepLocked := fun _ => true, rowLocked, token } result,
    hcall ▸ ⟨_, _, rfl⟩, .claim ?_⟩
  rw [sweptTable_locked messages eventTypes _ fun _ => rfl]
  exact h

/-- There is a control row for the group. -/
abbrev Controlled (c : Ctx (schema W group)) : Prop :=
  c.Shows fun db => (Outbox.control (Tables.outbox db) group).isSome

theorem Controlled.others {c c' : Ctx (schema W group)} {ops : List (Op W)} (h : Controlled c)
    (hc' : c.Adds ops c') (hops : ∀ op ∈ ops, .control group ∉ op.needs) : Controlled c' :=
  Ctx.Relates.others (A := fun control => control.isSome = true) h framed_control hc' hops

theorem Ready.of_claim (hcall : call = .claim eventTypes settings sweepLocked rowLocked)
    {c : Ctx (schema W group)} (h : Keeps call c) (hthere : Controlled c) : Ready call c where
  keeps := h
  blocked := h.mono fun _ _ hk hb => absurd hb (hk.not_blocks (hcall ▸ rfl))
  control _ := hthere

theorem meets_claimUnpaused (hcall : call = .claim eventTypes settings sweepLocked rowLocked)
    {c : Ctx (schema W group)} (hkeeps : Keeps call c) (hthere : Controlled c)
    (hread : ∃ r ∈ c.reads, .control group ∈ r.held ∧ ¬ Paused group (r.db : Tables W)) :
    Meets call (fun a c => Ready call c ∧ Returns (.claim a) c)
      (claimUnpaused eventTypes settings sweepLocked rowLocked now) c := by
  rw [Meets, claimUnpaused, wp_bind]
  refine wp_selectLocked hkeeps fun messages expired c₁ hc₁ hexpired _ hnodup => ?_
  rw [wp_bind]
  refine wp_setMessages (hkeeps.quiet hc₁) hnodup (fun row hrow => ?_) fun c₂ hc₂ hkeeps₂ _ => ?_
  · obtain ⟨hp, hheld, hsees⟩ := hexpired row hrow
    exact ⟨hheld, hsees,
      moves_claim messages 0 none hcall (.swept hp)⟩
  have hthere₂ : Controlled c₂ := by
    refine Controlled.others (hthere.quiet hc₁) hc₂ fun op hop => ?_
    obtain ⟨row, -, rfl⟩ := List.mem_map.1 (List.mem_reverse.1 hop)
    simp [Op.needs]
  rw [wp_bind]
  refine wp_selectLocked hkeeps₂ fun messages found c₃ hc₃ hfound _ _ => ?_
  have hkeeps₃ := hkeeps₂.quiet hc₃
  have hthere₃ : Controlled c₃ := hthere₂.quiet hc₃
  cases found with
  | nil => exact ⟨.of_claim hcall hkeeps₃ hthere₃, fun claim he => by cases he⟩
  | cons row _ =>
    obtain ⟨hp, hheld, hsees⟩ := hfound row List.mem_cons_self
    have hset : ∀ new c', c₃.Adds [] c' → Moves group call row new → wp (Commits group call)
        (Notes group) (fun _ c'' => c'.Le c'' ∧ Keeps call c'' ∧ Controlled c'')
        (fun _ _ => True) (write (.setMessage new)) c' := by
      intro new c' hc' hmove
      refine wp_setMessage (hkeeps₃.quiet hc') (hc'.le.held hheld) (hsees.quiet hc') hmove
        fun c'' hc'' hkeeps'' _ => ⟨hc''.le, hkeeps'', ?_⟩
      exact Controlled.others (hthere₃.quiet hc') hc'' (by simp [Op.needs])
    dsimp only
    split
    case isTrue hdeadline =>
      rw [wp_bind]
      refine wp_mono (hset _ c₃ (.refl c₃) (moves_claim messages 0 none hcall
        (.tooOld hp hdeadline))) (fun _ c' hc' => ?_) fun _ _ _ => trivial
      exact ⟨.of_claim hcall hc'.2.1 hc'.2.2, fun claim he => by cases he⟩
    case isFalse hdeadline =>
      rw [wp_bind, wp_uuid4]
      intro token _
      rw [wp_bind]
      refine wp_mono (hset _ _ (.draw token) (moves_claim messages token _ hcall
        (.leased hp (not_le.1 hdeadline)))) (fun _ c' hc' => ?_) fun _ _ _ => trivial
      rw [wp_bind, Prog.wp_mark]
      obtain ⟨r, hr, hrest⟩ := hread
      refine ⟨⟨r, ?_, hrest⟩, .of_claim hcall hc'.2.1 hc'.2.2, fun claim he => ?_⟩
      · exact hc'.1.reads ((Ctx.le_draw token).reads (hc₃.le.reads (hc₂.le.reads (hc₁.le.reads hr))))
      · cases he
        exact List.mem_cons_self

theorem meets_claim (hcall : call = .claim eventTypes settings sweepLocked rowLocked) :
    Meets call (fun a c => Ready call c ∧ Returns (.claim a) c)
      (claim eventTypes settings sweepLocked rowLocked : Tx W group (Option Claim)) {} := by
  rw [Meets, claim]
  refine Prog.wp_guard (fun _ => trivial) fun _ => ?_
  rw [wp_bind, wp_clockTimestamp]
  intro now _
  rw [wp_bind]
  refine wp_insertControl ((Keeps.initial call).quiet (.time now)) fun ops c₁ _ hkeeps₁ => ?_
  rw [wp_bind]
  refine wp_getControl (fun _ _ _ _ _ _ => trivial) fun control c₂ hc₂ hg hk hread hshows => ?_
  dsimp only
  rw [wp_bind]
  refine wp_setControl (hkeeps₁.quiet hc₂) hk hshows hg (fun _ hp => hp)
    fun c₃ hc₃ hkeeps₃ hnew => ?_
  have hthere : Controlled c₃ := hnew.mono fun _ _ hsome => by rw [hsome]; rfl
  split
  case isTrue => exact ⟨.of_claim hcall hkeeps₃ hthere, nofun⟩
  case isFalse hpaused =>
    refine meets_claimUnpaused hcall hkeeps₃ hthere ?_
    -- a committed pause would show, and the row that shows is not paused
    obtain ⟨r, hr, hheld, hv, hs, hcontrol⟩ := hread
    refine ⟨r, hc₃.le.reads hr, hheld, fun hp => ?_⟩
    obtain ⟨x, hx, hxp⟩ := (hkeeps₁ r.db hv hs).paused (hcall ▸ nofun) hp
    cases hcontrol.symm.trans hx
    exact hpaused hxp

end

/-! ### Leases that are used -/

section
variable {claim : Claim} {row new : OutboxMessage} {ownedAt : Time}

/-- A transaction that has written nothing sees what is committed. -/
theorem Sees.sure {c : Ctx (schema W group)} (h : Sees c row)
    (hc : ({} : Ctx (schema W group)).Adds [] c)
    {db : Tables W} (hv : Valid group db) (hs : c.Sees db) : db.outbox.message row.id =
    some row := by
  have hrow := h db hv hs
  rw [Ctx.view, hc.buf] at hrow
  exact hrow

/-- Whoever owns a row has a control row: the claim came from a transaction that wrote it. -/
theorem controlled_of_owns {c : Ctx (schema W group)} (howns : owns claim ownedAt row = true)
    (h : Sees c row) (hc : ({} : Ctx (schema W group)).Adds [] c) : Controlled c := by
  intro db hv hs
  have hmem := Table.mem_of_find (h.sure hc hv hs)
  have htoken : row.claimToken.isSome := by
    rw [(owns_iff.1 howns).2.1]
    rfl
  rw [Ctx.view, hc.buf]
  exact hv.controlled row hmem htoken

/-- A locked row that is set to a status other than blocked. -/
theorem meets_setUnblocked {c : Ctx (schema W group)} (hkeeps : Keeps call c)
    (hc : ({} : Ctx (schema W group)).Adds [] c) (hlease : call.mayLease = false)
    (hheld : .message row.id ∈ c.held) (hsees : Sees c row) (hmove : Moves group call row new)
    (hst : new.status ≠ .blocked) :
    Meets call (fun _ => Ready call) (write (.setMessage new)) c := by
  refine wp_setMessage hkeeps hheld hsees hmove fun c' hc' hkeeps' _ => ⟨hkeeps', ?_, fun hl => ?_⟩
  · intro db hv hs hblocks
    have hview : c'.view db = Op.apply (.setMessage new) db := by
      rw [Ctx.view, hc'.buf, hc.buf]
      rfl
    rw [hview] at hblocks
    exact absurd hblocks (not_blocks_setMessage hv.keyed hst)
  · rw [hlease] at hl
    cases hl

/-- A locked row that is blocked, with the pause of its group. -/
theorem meets_block {c c₀ : Ctx (schema W group)} {control : Option WorkerControl} {answer : Bool}
    (hkeeps : Keeps call c) (hc : ({} : Ctx (schema W group)).Adds [] c)
    (hlease : call.mayLease = false) (hheld : .message row.id ∈ c.held) (hsees : Sees c row)
    (howns : owns claim ownedAt row = true) (hmove : Moves group call row new) (hc₀ : c₀.Adds [] c)
    (hcontrol : ∀ x, control = some x → x.workerGroup = group ∧ .control group ∈ c₀.held ∧
      c₀.Shows fun db => Outbox.control (Tables.outbox db) group = some x) :
    Meets call (fun _ => Ready call)
      (do write (.setMessage new); pause control; return answer) c := by
  rw [Meets, wp_bind]
  have hthere := controlled_of_owns howns hsees hc
  refine wp_setMessage hkeeps hheld hsees hmove fun c₁ hc₁ hkeeps₁ _ => ?_
  have hops : ∀ op ∈ [Op.setMessage new], .control group ∉ (op : Op W).needs := by simp [Op.needs]
  rw [wp_bind]
  refine wp_pause hkeeps₁ (fun x hx => ?_) (Controlled.others hthere hc₁ hops)
    fun ops c' _ hkeeps' hpaused => ⟨hkeeps', hpaused.mono fun _ _ hp _ => hp, fun hl => ?_⟩
  · obtain ⟨hg, hk, hshows⟩ := hcontrol x hx
    refine ⟨hg, hc₁.le.held (hc₀.le.held hk), ?_⟩
    exact Ctx.Relates.others (A := (· = some x)) (hshows.quiet hc₀) framed_control hc₁ hops
  · rw [hlease] at hl
    cases hl

/-- A call that has written nothing may commit. -/
theorem ready_of_nil {c : Ctx (schema W group)} (hc : ({} : Ctx (schema W group)).Adds [] c)
    (hlease : call.mayLease = false) : Ready call c where
  keeps := (Keeps.initial call).quiet hc
  blocked := by
    intro db hv _ hblocks
    rw [Ctx.view, hc.buf] at hblocks
    obtain ⟨row', hrow', hst, hnew⟩ := hblocks
    exact absurd hst (hnew row' (hv.keyed.find hrow'))
  control hl := by
    rw [hlease] at hl
    cases hl

/-- The control row as `bind` and `finish` have found it. -/
theorem meets_getControl {α : Type} {next : Option WorkerControl → Tx W group α}
    {Q : α → Ctx (schema W group) → Prop}
    (h : ∀ control c, ({} : Ctx (schema W group)).Adds [] c →
      (∀ x, control = some x → x.workerGroup = group ∧ .control group ∈ c.held ∧
        c.Shows fun db => Outbox.control (Tables.outbox db) group = some x) →
      Meets call Q (next control) c) :
    Meets call Q (getControl >>= next) {} := by
  rw [Meets, wp_bind]
  refine wp_getControl (fun c _ hc _ _ _ => h none c hc nofun) fun x c hc hg hk _ hshows => ?_
  refine h (some x) c hc ?_
  rintro x' ⟨⟩
  exact ⟨hg, hk, hshows⟩

theorem meets_bind {fingerprint : String} {expiresAt : Time}
    (hcall : call = .bind claim fingerprint expiresAt) :
    Meets call (fun _ => Ready call) (bind claim fingerprint expiresAt : Tx W group Bool) {} := by
  have hlease : call.mayLease = false := hcall ▸ rfl
  rw [bind]
  refine Prog.wp_guard (fun _ => trivial) fun hhex => ?_
  have hhex : isHex64 fingerprint = true := by simpa using hhex
  refine meets_getControl fun control c₀ hc₀ hcontrol => ?_
  rw [Meets, wp_bind]
  refine wp_owned (fun c' hc' => ready_of_nil (hc₀.trans_nil hc') hlease)
    fun row ownedAt c₁ hc₁ howns hheld hsees => ?_
  dsimp only
  rw [wp_bind, wp_clockTimestamp]
  intro now _
  have hc₂ : c₀.Adds [] (c₁.time now) := hc₁.trans_nil (.time now)
  have hc := hc₀.trans_nil hc₂
  have hkeeps := (Keeps.initial call).quiet hc
  have hsees₂ : Sees (c₁.time now) row := hsees.quiet (.time now)
  have hlabel : ∀ allowed, call.labels group
      (.bind group claim fingerprint expiresAt ownedAt ownedAt now allowed) :=
    fun allowed => hcall ▸ ⟨_, _, _, _, rfl⟩
  split
  case isTrue hchanged =>
    exact meets_block hkeeps hc hlease hheld hsees₂ howns
      ⟨{}, _, hlabel false, .contentChanged howns hchanged⟩ hc₂ hcontrol
  case isFalse hsame =>
    split
    case isTrue hdeadline =>
      rw [wp_bind]
      exact wp_mono (meets_setUnblocked hkeeps hc hlease hheld hsees₂
        ⟨{}, _, hlabel false, .bindExpired howns hdeadline⟩
        (truthy_status (by decide) (by decide))) (fun _ _ hready => hready) fun _ _ _ => trivial
    case isFalse hdeadline =>
      have hall : row.deliveryFingerprint.all (· = fingerprint) = true := by
        cases hf : row.deliveryFingerprint <;> simp_all
      rw [wp_bind]
      refine wp_mono (meets_setUnblocked hkeeps hc hlease hheld hsees₂
        ⟨{}, _, hlabel true, .bound howns hhex hall (not_le.1 hdeadline)⟩ ?_)
        (fun _ _ hready => hready) fun _ _ _ => trivial
      rw [OutboxMessage.bound, (owns_iff.1 howns).2.2.1]
      exact nofun

theorem meets_finish {result : DeliveryOutcome} {delay : Int}
    (hcall : call = .finish claim result delay) :
    Meets call (fun _ => Ready call) (finish claim result delay : Tx W group Bool) {} := by
  have hlease : call.mayLease = false := hcall ▸ rfl
  rw [finish]
  refine meets_getControl fun control c₀ hc₀ hcontrol => ?_
  rw [Meets, wp_bind]
  refine wp_owned (fun c' hc' => ready_of_nil (hc₀.trans_nil hc') hlease)
    fun row ownedAt c₁ hc₁ howns hheld hsees => ?_
  dsimp only
  rw [wp_bind, wp_clockTimestamp]
  intro now _
  have hc₂ : c₀.Adds [] (c₁.time now) := hc₁.trans_nil (.time now)
  have hc := hc₀.trans_nil hc₂
  have hkeeps := (Keeps.initial call).quiet hc
  have hsees₂ : Sees (c₁.time now) row := hsees.quiet (.time now)
  have hmove : Moves group call row (row.finished claim result delay now) :=
    ⟨{}, .finish group claim result delay ownedAt ownedAt now true, hcall ▸ ⟨_, _, _, rfl⟩,
      .finished howns⟩
  split
  case isTrue hblocked =>
    exact meets_block hkeeps hc hlease hheld hsees₂ howns hmove hc₂ hcontrol
  case isFalse hst =>
    rw [wp_bind]
    exact wp_mono (meets_setUnblocked hkeeps hc hlease hheld hsees₂ hmove hst)
      (fun _ _ hready => hready) fun _ _ _ => trivial

end

/-! ### Recovery operations -/

theorem meets_replay {id : UUID} {handlers : List String} {prepare : DomainEvent → Preparation P}
    (hcall : call = .replay id handlers prepare) :
    Meets call (fun _ => Ready call) (replay id handlers prepare : Tx W group Unit) {} := by
  rw [Meets, replay, wp_bind]
  refine wp_getMessage (fun c _ => fun _ _ => trivial) fun row c hc hid hheld hsees => ?_
  rw [wp_bind, wp_clockTimestamp]
  intro now _
  dsimp only
  split
  case h_1 => trivial
  case h_2 hreplay =>
    obtain ⟨row', event, delivery, hrow', -, hst, hdl, hatt, -⟩ := Repo.replay_eq_ok hreplay
    obtain rfl : row = row' := by simpa [Outbox.message, Table.find, hid] using hrow'
    have hc' : ({} : Ctx (schema W group)).Adds [] (c.time now) := hc.trans_nil (.time now)
    refine meets_setUnblocked ((Keeps.initial call).quiet hc') hc' (hcall ▸ rfl) hheld
      (hsees.quiet (.time now)) ⟨{}, .replay id handlers prepare now, hcall ▸ ⟨now, rfl⟩, ?_⟩ ?_
    · exact .replayed hid hst hatt hdl
    · rintro ⟨⟩

theorem meets_resume (hcall : call = .resume) :
    Meets call (fun _ => Ready call) (resume : Tx W group Unit) {} := by
  rw [Meets, resume, wp_bind]
  refine wp_getControl (fun _ _ _ _ _ _ => trivial) fun control c hc hg hk _ hshows => ?_
  dsimp only
  split
  case isFalse => trivial
  case isTrue =>
    refine wp_setControl ((Keeps.initial call).quiet hc) hk hshows hg (fun hne => absurd hcall hne)
      fun c' _ hkeeps' _ => .of_keeps hkeeps' (hcall ▸ rfl) (hcall ▸ rfl)

/-! ### Ordinary claims -/

section
variable {Q : Bool → Ctx (schema W group) → Prop} {c : Ctx (schema W group)} {row : OutboxMessage}

/-- The rows of a batch are claimed as they were found under their locks. -/
theorem meets_claimBatch {maxAttempts limit : Nat} {claimedAt : Time}
    {eventTypes : Option (List String)} {locked : UUID → Bool}
    {Q : List OutboxMessage → Ctx (schema W group) → Prop}
    (hlabel : ∀ rows,
      call.labels group (.claimBatch maxAttempts limit claimedAt eventTypes locked rows))
    (h : ∀ (messages found : List OutboxMessage) c₁ c',
      ({} : Ctx (schema W group)).Adds [] c₁ → found.length ≤ limit →
      (∀ row ∈ found, batchClaimable messages maxAttempts claimedAt eventTypes row = true ∧
        Sees c₁ row) →
      c₁.Adds (found.map fun row => .setMessage (row.batchClaim claimedAt)).reverse c' →
      Keeps call c' → (∀ row ∈ found, .message row.id ∈ c'.held) →
      (∀ row ∈ found, Sees c' (row.batchClaim claimedAt)) →
      Q (found.map (·.batchClaim claimedAt)) c') :
    Meets call Q (claimBatch maxAttempts limit claimedAt eventTypes locked) {} := by
  rw [Meets, claimBatch]
  refine Prog.wp_guard (fun _ => trivial) fun _ => ?_
  refine Prog.wp_guard (fun _ => trivial) fun _ => ?_
  rw [wp_bind]
  refine wp_selectLocked (Keeps.initial call) fun messages found c₁ hc₁ hfound hlen hnodup => ?_
  rw [wp_bind]
  refine wp_setMessages ((Keeps.initial call).quiet hc₁) hnodup (fun row hrow => ?_)
    fun c' hc' hkeeps' hseen => ?_
  · obtain ⟨hp, hheld, hsees⟩ := hfound row hrow
    exact ⟨hheld, hsees, { messages }, _, hlabel [], .batchClaimed hp⟩
  · refine h messages found c₁ c' hc₁ hlen (fun row hrow => ?_) hc' hkeeps'
      (fun row hrow => ?_) hseen
    · exact ⟨(hfound row hrow).1, (hfound row hrow).2.2⟩
    · exact hc'.le.held (hfound row hrow).2.1

theorem meets_markPublished {id : UUID} {publishedAt : Time}
    (hcall : call = .markPublished id publishedAt) :
    Meets call (fun _ => Ready call) (markPublished id publishedAt : Tx W group Bool) {} := by
  have hlease : call.mayLease = false := hcall ▸ rfl
  rw [Meets, markPublished, wp_bind]
  refine wp_getMessage (fun c hc => ready_of_nil hc hlease) fun row c hc hid hheld hsees => ?_
  dsimp only
  split
  case isTrue => exact ready_of_nil hc hlease
  case isFalse =>
    split
    case isTrue => exact ready_of_nil hc hlease
    case isFalse htoken =>
      split
      case isTrue => exact ready_of_nil hc hlease
      case isFalse hst =>
        rw [wp_bind]
        refine wp_mono (meets_setUnblocked ((Keeps.initial call).quiet hc) hc hlease hheld hsees
          ⟨{}, .markPublished id publishedAt true, hcall ▸ rfl, .published hid ?_ ?_⟩ nofun)
          (fun _ _ hready => hready) fun _ _ _ => trivial
        · exact not_not.1 hst
        · simpa using htoken

theorem meets_markFailed {id : UUID} {errorCode : String} {availableAt : Time}
    (hcall : call = .markFailed id errorCode availableAt) :
    Meets call (fun _ => Ready call) (markFailed id errorCode availableAt : Tx W group Bool)
      {} := by
  have hlease : call.mayLease = false := hcall ▸ rfl
  rw [Meets, markFailed]
  refine Prog.wp_guard (fun _ => trivial) fun _ => ?_
  rw [wp_bind]
  refine wp_getMessage (fun c hc => ready_of_nil hc hlease) fun row c hc hid hheld hsees => ?_
  dsimp only
  split
  case isTrue => exact ready_of_nil hc hlease
  case isFalse hst =>
    rw [wp_bind]
    exact wp_mono (meets_setUnblocked ((Keeps.initial call).quiet hc) hc hlease hheld hsees
      ⟨{}, .markFailed id errorCode availableAt true, hcall ▸ rfl, .failed hid (not_not.1 hst)⟩ nofun)
      (fun _ _ hready => hready) fun _ _ _ => trivial

theorem meets_recoverStaleClaims {staleBefore availableAt : Time} {limit : Nat}
    {locked : UUID → Bool}
    (hcall : call = .recoverStaleClaims staleBefore availableAt limit locked) :
    Meets call (fun _ => Ready call)
      (recoverStaleClaims staleBefore availableAt limit locked : Tx W group Nat) {} := by
  rw [Meets, recoverStaleClaims]
  refine Prog.wp_guard (fun _ => trivial) fun _ => ?_
  rw [wp_bind]
  refine wp_selectLocked (Keeps.initial call) fun _ found c₁ hc₁ hfound _ hnodup => ?_
  rw [wp_bind]
  refine wp_setMessages ((Keeps.initial call).quiet hc₁) hnodup (fun row hrow => ?_)
    fun c' _ hkeeps' _ => .of_keeps hkeeps' (hcall ▸ rfl) (hcall ▸ rfl)
  obtain ⟨hp, hheld, hsees⟩ := hfound row hrow
  exact ⟨hheld, hsees, {}, .recoverStaleClaims staleBefore availableAt limit locked, hcall ▸ rfl,
    .released hp⟩

/-! ### Internal workers -/

/-- The message that the worker has claimed is published. -/
theorem meets_publishClaimed {publishedAt : Time} (hkeeps : Keeps call c) (hsees : Sees c row)
    (hlabel : call.labels group (.markPublished row.id publishedAt true))
    (hst : row.status = .processing) (htoken : row.claimToken = none)
    (h : ∀ c', c.Adds [.setMessage (row.publish publishedAt)] c' → Keeps call c' → Q true c') :
    Meets call Q (markPublished row.id publishedAt) c := by
  rw [Meets, markPublished, wp_bind]
  refine wp_getMessage_seen hsees fun c₁ hc₁ hheld => ?_
  dsimp only
  rw [if_neg (by simp [hst]), if_neg (by simp [htoken]), if_neg (by simp [hst]), wp_bind]
  refine wp_setMessage (hkeeps.quiet hc₁) hheld (hsees.quiet hc₁)
    ⟨{}, _, hlabel, .published rfl hst htoken⟩ fun c' hc' hkeeps' _ => ?_
  exact h c' (hc₁.of_nil hc') hkeeps'

/-- The message that the worker has claimed is failed. -/
theorem meets_failClaimed (row : OutboxMessage) (errorCode : String) (availableAt : Time)
    (hkeeps : Keeps call c) (hsees : Sees c row)
    (hlabel : call.labels group (.markFailed row.id errorCode availableAt true))
    (hst : row.status = .processing)
    (h : ∀ c', c.Adds [.setMessage (row.fail errorCode availableAt)] c' → Keeps call c' → Q true c') :
    Meets call Q (markFailed row.id errorCode availableAt) c := by
  rw [Meets, markFailed]
  refine Prog.wp_guard (fun _ => trivial) fun _ => ?_
  rw [wp_bind]
  refine wp_getMessage_seen hsees fun c₁ hc₁ hheld => ?_
  dsimp only
  rw [if_neg (by simp [hst]), wp_bind]
  refine wp_setMessage (hkeeps.quiet hc₁) hheld (hsees.quiet hc₁)
    ⟨{}, _, hlabel, .failed rfl hst⟩ fun c' hc' hkeeps' _ => ?_
  exact h c' (hc₁.of_nil hc') hkeeps'

/-- The commit of an internal worker. -/
theorem meets_processed {worker : InternalOutboxWorker W} {reads : ProcessReads}
    {c₁ : Ctx (schema W group)}
    {messages : List OutboxMessage} (hcall : call = .processOne worker reads)
    (hkeeps : Keeps call c)
    (hc₁ : ({} : Ctx (schema W group)).Adds [] c₁) (hle : c₁.Le c) (hsees : Sees c₁ row)
    (hp : batchClaimable messages worker.settings.maxAttempts reads.claimedAt
      (some (worker.handlers.map (·.1))) row = true)
    (h : Processed worker reads c row) :
    Meets call (fun _ _ => True) (do Prog.save (S := schema W group); return true) c := by
  refine ⟨fun db hv hs => ?_, trivial⟩
  have hk := hkeeps db hv hs
  refine ⟨⟨hk, fun hb => absurd hb (hk.not_blocks (hcall ▸ rfl)), ?_⟩,
    hk.valid hv fun hl => by rw [hcall] at hl; cases hl⟩
  rintro worker' reads' hcall'
  cases hcall.symm.trans hcall'
  refine ⟨row, ⟨hsees.sure hc₁ hv (hle.sees hs), ?_⟩, h⟩
  simp only [batchClaimable, Bool.and_eq_true] at hp
  simp only [InternalOutboxWorker.claims, batchClaimable, earlierUnpublished, List.any_nil,
    Bool.not_false, Bool.and_true, Bool.and_eq_true]
  exact ⟨hp.1.1, hp.2⟩

theorem meets_processOne {worker : InternalOutboxWorker W} {reads : ProcessReads}
    (hcall : call = .processOne worker reads) :
    Meets call (fun _ _ => True) (processOne worker reads : Tx W group Bool) {} := by
  rw [Meets, processOne, wp_bind]
  refine meets_claimBatch (fun rows => hcall ▸ .inl ⟨rows, rfl⟩)
    fun messages found c₁ c₂ hc₁ hlen hfound hc₂ hkeeps₂ _ hseen => ?_
  cases found with
  | nil => trivial
  | cons row rest =>
    obtain rfl : rest = [] := List.eq_nil_of_length_eq_zero (by simpa using hlen)
    obtain ⟨hp, hsees₁⟩ := hfound row List.mem_cons_self
    have hsees₂ := hseen row List.mem_cons_self
    have hbuf : c₂.buf = [.setMessage (row.batchClaim reads.claimedAt)] := by
      rw [hc₂.buf, hc₁.buf]
      rfl
    have htoken : (row.batchClaim reads.claimedAt).claimToken = none := by
      simp only [batchClaimable, Bool.and_eq_true, Option.isNone_iff_eq_none] at hp
      exact hp.1.1.1.1.2
    show wp _ _ _ _ (savepoint (row.batchClaim reads.claimedAt).id _ [] >>= _) c₂
    rw [wp_bind]
    refine wp_savepoint (hcall ▸ rfl) hkeeps₂ hsees₂ hkeeps₂ (List.forall_mem_nil _) ?_ ?_ ?_
    · rw [List.nil_append, hbuf]
      simp [Op.makes]
    · -- the handler returned: its writes stay, and the message is published
      intro ops c₃ hends hc₃ hkeeps₃ hsees₃
      rw [if_pos rfl, wp_bind]
      refine meets_publishClaimed hkeeps₃ hsees₃ (hcall ▸ .inr (.inl ⟨_, rfl⟩)) rfl htoken
        fun c₄ hc₄ hkeeps₄ => ?_
      have hpublished : Processed worker reads c₄ row := by
        refine .published hends ?_
        rw [hc₄.buf, hc₃.buf, hbuf]
        rfl
      exact meets_processed hcall hkeeps₄ hc₁ ((hc₂.le.trans hc₃.le).trans hc₄.le) hsees₁ hp
        hpublished
    · -- the handler raised: its writes are gone, and the message is failed
      intro ops c₃ hends hc₃ hkeeps₃
      have hsees₃ : Sees c₃ (row.batchClaim reads.claimedAt) := hsees₂.quiet hc₃
      rw [if_neg nofun]
      split
      case h_1 => trivial
      case h_2 delay _ =>
        have hlabel : call.labels group (.markFailed (row.batchClaim reads.claimedAt).id
            handlerFailed.code (reads.now + delay) true) := by
          rw [hcall]
          exact .inr (.inr ⟨_, _, rfl⟩)
        rw [wp_bind]
        refine meets_failClaimed (row.batchClaim reads.claimedAt) handlerFailed.code
          (reads.now + delay) hkeeps₃ hsees₃ hlabel rfl fun c₄ hc₄ hkeeps₄ => ?_
        have hfailed : Processed worker reads c₄ row := by
          refine .failed (reads.now + delay) hends ?_
          rw [hc₄.buf, hc₃.buf, hbuf]
          rfl
        exact meets_processed hcall hkeeps₄ hc₁
          ((hc₂.le.trans hc₃.le).trans hc₄.le) hsees₁ hp hfailed

end

/-- Every call meets its precondition. -/
theorem code_meets (group : String) (call : Call W P) :
    Meets call Answers (code group call) {} := by
  cases hcall : call with
  | claim => exact meets_committing (meets_claim rfl) rfl
  | add => exact meets_claimless (meets_add rfl) rfl nofun
  | bind => exact meets_claimless (meets_bind rfl) rfl nofun
  | finish => exact meets_claimless (meets_finish rfl) rfl nofun
  | replay => exact meets_claimless (meets_replay rfl) rfl nofun
  | resume => exact meets_claimless (meets_resume rfl) rfl nofun
  | claimBatch maxAttempts limit claimedAt eventTypes locked =>
    refine meets_claimless (meets_claimBatch (fun rows => ⟨rows, rfl⟩) ?_) rfl nofun
    exact fun _ _ _ _ _ _ _ _ hkeeps _ _ => .of_keeps hkeeps rfl rfl
  | markPublished => exact meets_claimless (meets_markPublished rfl) rfl nofun
  | markFailed => exact meets_claimless (meets_markFailed rfl) rfl nofun
  | recoverStaleClaims => exact meets_claimless (meets_recoverStaleClaims rfl) rfl nofun
  | processOne =>
    rw [Meets, code, wp_bind]
    exact wp_mono (meets_processOne rfl) (fun _ _ _ => nofun) fun _ _ _ => trivial

/-! ## Runs -/

/-- The system with what every call is known to commit, mark and answer. -/
abbrev Good (s : Sys W P group) : Prop :=
  Transact.Good (Commits group) (Notes group) (fun _ => Answers) (fun _ _ _ => True) s

section
variable {s₀ s s' m m' : Sys W P group} {tr : List (Act W P group)} {i : Nat}

theorem good_of_run (h0 : Initial s₀) (hrun : Run s₀ tr s) : Good s :=
  Transact.Good.run (code_meets group) (.initial h0.threads h0.valid h0.drawn) hrun

/-- A commit in a run applies the writes of its thread, which are as `Commits` says. -/
theorem commitsIn_inv (h0 : Initial s₀) (h : CommitsIn s₀ tr s m i m') :
    ∃ t, m.threads[i]? = some t ∧ Commits group t.call t.ctx m.db ∧ m'.db = t.ctx.view m.db := by
  obtain ⟨tr₁, tr₂, rfl, h1, hstep, -⟩ := h
  exact (good_of_run h0 h1).commit hstep

end

/-- The system on given tables, before its first call. -/
def system (db : Tables W) : Sys W P group :=
  { db, clock := 0, drawn := db.outbox.messages.map (·.id) }

theorem system_initial {db : Tables W} (h : Valid group db) :
    Initial (system db : Sys W P group) where
  threads := rfl
  valid := h
  drawn id hid := by
    obtain ⟨row, hrow, rfl⟩ := hid
    exact List.mem_map_of_mem hrow

/-- A number of steps of one thread. -/
def steps (i n : Nat) : List (Act W P group) := List.replicate n (.advance i)

end Ekumidayomi.Workers
