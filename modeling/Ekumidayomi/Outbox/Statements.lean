import Ekumidayomi.Outbox.Transactions

/-!
# What the statements of the outbox transactions do

A row that a transaction has locked is its own until the commit. So each write of a call to a row is
a move of the row that the pure model knows (`Moves`), and what a call has made of the tables so far
is `Kept`: every row came from the committed row by such moves or was staged, the control row of the
group is still there, and only `resume` may have ended a pause. The rules below say how each
statement keeps this, over everything that other transactions commit meanwhile.
-/

namespace Ekumidayomi.Workers

open Transact

variable {W P : Type} {group : String} {call : Call W P}

/-! ## What a call does to rows -/

/-- The transactions of the pure model that a call is made of. -/
def Call.labels (group : String) : Call W P → Txn P → Prop
  | .claim eventTypes settings _ _, l =>
    ∃ reads result, l = .claim group eventTypes settings reads result
  | .bind c fingerprint expiresAt, l =>
    ∃ calledAt ownedAt now allowed, l =
      .bind group c fingerprint expiresAt calledAt ownedAt now allowed
  | .finish c result delay, l =>
    ∃ calledAt ownedAt now, l = .finish group c result delay calledAt ownedAt now true
  | .replay id handlers prepare, l => ∃ now, l = .replay id handlers prepare now
  | .claimBatch maxAttempts limit claimedAt eventTypes locked, l =>
    ∃ rows, l = .claimBatch maxAttempts limit claimedAt eventTypes locked rows
  | .markPublished id publishedAt, l => l = .markPublished id publishedAt true
  | .markFailed id errorCode availableAt, l => l = .markFailed id errorCode availableAt true
  | .recoverStaleClaims staleBefore availableAt limit locked, l =>
    l = .recoverStaleClaims staleBefore availableAt limit locked
  | .processOne worker reads, l =>
    (∃ rows, l = .claimBatch worker.settings.maxAttempts 1 reads.claimedAt
      (some (worker.handlers.map (·.1))) reads.locked rows) ∨
    (∃ id, l = .markPublished id reads.now true) ∨
    ∃ id availableAt, l = .markFailed id handlerFailed.code availableAt true
  | .add _ _ _, _ | .resume, _ => False

/-- A move of a row in a transaction that the call is made of. -/
def Moves (group : String) (call : Call W P) (row row' : OutboxMessage) : Prop :=
  ∃ db l, call.labels group l ∧ RowMove db l row row'

/-- A row that was staged and not yet claimed. -/
structure Untouched (row : OutboxMessage) : Prop where
  status : row.status = .pending
  attempts : row.attempts = 0
  token : row.claimToken = none

/-- What a row was when the call began: the committed row, or one that was staged since. -/
def Origin (db : Outbox) (row : OutboxMessage) : Prop :=
  db.message row.id = some row ∨ db.message row.id = none ∧ Untouched row

/-- Where a row comes from that the call would commit. -/
def Came (group : String) (call : Call W P) (db : Outbox) (row' : OutboxMessage) : Prop :=
  ∃ row, Origin db row ∧ Relation.ReflTransGen (Moves group call) row row'

/-- The group is paused. -/
def Paused (group : String) (db : Tables W) : Prop :=
  ∃ control, db.outbox.control group = some control ∧ control.paused = true

def Call.isProcessOne : Call W P → Bool
  | .processOne _ _ => true
  | _ => false

/-- What a call may have made of the tables. -/
structure Kept (group : String) (call : Call W P) (db db' : Tables W) : Prop where
  keyed : db'.outbox.Keyed
  rows : ∀ row' ∈ db'.outbox.messages, Came group call db.outbox row'
  control : (db.outbox.control group).isSome → (db'.outbox.control group).isSome
  paused : call ≠ .resume → Paused group db → Paused group db'
  applied : call.isProcessOne = false → db'.applied = db.applied

theorem RowMove.id_eq {db : Outbox} {l : Txn P} {row row' : OutboxMessage}
    (h : RowMove db l row row') : row'.id = row.id := by
  cases h with
  | claim h => cases h <;> rfl
  | _ => rfl

theorem Moves.id_eq {row row' : OutboxMessage} (h : Moves group call row row') : row'.id =
    row.id := by
  obtain ⟨_, _, -, hmove⟩ := h
  exact RowMove.id_eq hmove

section
variable {db : Tables W} {row new : OutboxMessage} {id : UUID}

/-! ## Rows after a write -/

theorem message_setMessage : ((Op.setMessage new).apply db).outbox.message id =
    if id = new.id then (db.outbox.message id).map fun _ => new else db.outbox.message id :=
  Table.find_replace

theorem message_insertMessage : ((Op.insertMessage new).apply db).outbox.message id =
    (db.outbox.message id).or (if new.id = id then some new else none) :=
  Table.find_append

theorem control_setControl {control : WorkerControl} {name : String} :
    ((Op.setControl control).apply db).outbox.control name =
      if name = control.workerGroup then (db.outbox.control name).map fun _ => control
      else db.outbox.control name :=
  Table.find_replace

theorem control_insertControl {control : WorkerControl} {name : String} :
    ((Op.insertControl control).apply db).outbox.control name =
      (db.outbox.control name).or (if control.workerGroup = name then some control else none) :=
  Table.find_append

theorem framed_message (id : UUID) :
    (schema W group).Framed (.message id) fun db => Outbox.message (Tables.outbox db) id := by
  intro op db h
  cases op with
  | insertMessage new =>
    have hne : new.id ≠ id := fun he => h (he ▸ List.mem_cons_self)
    exact message_insertMessage.trans (by simp [hne])
  | setMessage new =>
    have hne : id ≠ new.id := fun he => h (he ▸ List.mem_cons_self)
    exact message_setMessage.trans (if_neg hne)
  | insertControl | setControl | handle => rfl

theorem local_message (id : UUID) :
    (schema W group).Local fun db => Outbox.message (Tables.outbox db) id := by
  intro op (db : Tables W) (db' : Tables W) (h : db.outbox.message id = db'.outbox.message id)
  cases op with
  | insertMessage new =>
    exact message_insertMessage.trans (.trans (by rw [h]) message_insertMessage.symm)
  | setMessage new => exact message_setMessage.trans (.trans (by rw [h]) message_setMessage.symm)
  | insertControl | setControl | handle => exact h

theorem framed_control :
    (schema W group).Framed (.control group) fun db => Outbox.control (Tables.outbox db) group := by
  intro op db h
  cases op with
  | insertControl control =>
    have hne : control.workerGroup ≠ group := fun he => h (he ▸ List.mem_cons_self)
    exact control_insertControl.trans (by simp [hne])
  | setControl control =>
    have hne : group ≠ control.workerGroup := fun he => h (he ▸ List.mem_cons_self)
    exact control_setControl.trans (if_neg hne)
  | insertMessage | setMessage | handle => rfl

theorem local_control :
    (schema W group).Local fun db => Outbox.control (Tables.outbox db) group := by
  intro op (db : Tables W) (db' : Tables W)
    (h : db.outbox.control group = db'.outbox.control group)
  cases op with
  | insertControl control =>
    exact control_insertControl.trans (.trans (by rw [h]) control_insertControl.symm)
  | setControl control =>
    exact control_setControl.trans (.trans (by rw [h]) control_setControl.symm)
  | insertMessage | setMessage | handle => exact h

end

/-! ## Writes keep where rows come from -/

section
variable {db db' : Tables W} {row new : OutboxMessage}

theorem Kept.refl (h : Valid group db) : Kept group call db db where
  keyed := h.keyed
  rows row hrow := ⟨row, .inl (h.keyed.find hrow), .refl⟩
  control := id
  paused _ := id
  applied _ := rfl

/-- A locked row is moved. -/
theorem Kept.setMessage (h : Kept group call db db') (hrow : db'.outbox.message new.id = some row)
    (hmove : Moves group call row new) : Kept group call db ((Op.setMessage new).apply db') where
  keyed := Table.Keyed.replace h.keyed
  rows row' hrow' := by
    obtain ⟨a, ha, rfl⟩ := Outbox.mem_modify hrow'
    by_cases hid : a.id = new.id
    · rw [if_pos hid]
      have hfind := h.keyed.find ha
      rw [show Table.find (·.id) db'.outbox.messages a.id = db'.outbox.message a.id from rfl, hid,
        hrow] at hfind
      obtain rfl := Option.some.inj hfind
      obtain ⟨old, hold, hpath⟩ := h.rows _ ha
      exact ⟨old, hold, hpath.tail hmove⟩
    · rw [if_neg hid]
      exact h.rows a ha
  control hs := h.control hs
  paused hne hp := h.paused hne hp
  applied hne := h.applied hne

/-- A row is staged under a key of its own. -/
theorem Kept.insertMessage (h : Kept group call db db') (hnew : Untouched new)
    (hfresh : ¬ Uses db new.id) (hfresh' : ¬ Uses db' new.id) :
    Kept group call db ((Op.insertMessage new).apply db') where
  keyed := Table.Keyed.append h.keyed fun a ha he => hfresh' ⟨a, ha, he⟩
  rows row' hrow' := by
    rcases List.mem_append.1 hrow' with hrow' | hrow'
    · exact h.rows row' hrow'
    · obtain rfl := List.mem_singleton.1 hrow'
      have hnone : db.outbox.message row'.id = none :=
        Table.find_eq_none.2 fun a ha he => hfresh ⟨a, ha, he⟩
      exact ⟨row', .inr ⟨hnone, hnew⟩, .refl⟩
  control hs := h.control hs
  paused hne hp := h.paused hne hp
  applied hne := h.applied hne

/-- The control row of the group is written by whoever has locked it; only `resume` ends a pause. -/
theorem Kept.setControl {control control' : WorkerControl} (h : Kept group call db db')
    (hc : db'.outbox.control group = some control)
    (hp : call ≠ .resume → control.paused = true → control'.paused = true)
    (hg : control'.workerGroup = group) :
    Kept group call db ((Op.setControl control').apply db') := by
  have hnew : ((Op.setControl control').apply db').outbox.control group = some control' := by
    rw [control_setControl, if_pos hg.symm, hc]
    rfl
  refine ⟨h.keyed, h.rows, fun _ => by rw [hnew]; rfl, fun hne hpaused => ?_, h.applied⟩
  obtain ⟨c, hc', hpc⟩ := h.paused hne hpaused
  rw [hc] at hc'
  cases hc'
  exact ⟨control', hnew, hp hne hpc⟩

/-- The control row of the group is inserted when there is none. -/
theorem Kept.insertControl {control : WorkerControl} (h : Kept group call db db')
    (hnone : db'.outbox.control group = none) (hg : control.workerGroup = group) :
    Kept group call db ((Op.insertControl control).apply db') := by
  have hnew : ((Op.insertControl control).apply db').outbox.control group = some control := by
    rw [control_insertControl, hnone, if_pos hg]
    rfl
  refine ⟨h.keyed, h.rows, fun _ => by rw [hnew]; rfl, fun hne hpaused => ?_, h.applied⟩
  obtain ⟨c, hc', -⟩ := h.paused hne hpaused
  rw [hnone] at hc'
  cases hc'

/-- Internal handlers write to other tables. -/
theorem Kept.handle {id : UUID} {w : W} (h : Kept group call db db')
    (hcall : call.isProcessOne = true) : Kept group call db ((Op.handle id w).apply db') where
  keyed := h.keyed
  rows := h.rows
  control := h.control
  paused := h.paused
  applied hne := by
    rw [hcall] at hne
    cases hne

end

/-! ## Rules for the statements -/

section
variable {G : Ctx (schema W group) → Tables W → Prop} {N : Note → Ctx (schema W group) → Prop}
  {E : Error → Ctx (schema W group) → Prop} {c c' : Ctx (schema W group)} {row new : OutboxMessage}

/-- The transaction sees this row under its key. -/
abbrev Sees (c : Ctx (schema W group)) (row : OutboxMessage) : Prop :=
  c.Shows fun db => Outbox.message (Tables.outbox db) row.id = some row

/-- What the call has made of the tables so far. -/
abbrev Keeps (call : Call W P) (c : Ctx (schema W group)) : Prop := c.Relates (Kept group call)

theorem Keeps.initial (call : Call W P) : Keeps call ({} : Ctx (schema W group)) :=
  fun _ hv _ => .refl hv

theorem wp_write {op : Op W} {Q : Unit → Ctx (schema W group) → Prop} :
    wp G N Q E (write op) c ↔ (∀ k ∈ op.needs, k ∈ c.held) ∧ (∀ id ∈ op.makes, id ∈ c.drawn) ∧
      Q () (c.push op) := Iff.rfl

theorem wp_lock {k : Key} {Q : Unit → Ctx (schema W group) → Prop} :
    wp G N Q E (lock k) c ↔ Q () (c.hold k) := Iff.rfl

theorem wp_query {α : Type} {f : Tables W → α} {Q : α → Ctx (schema W group) → Prop} :
    wp G N Q E (query f) c ↔ ∀ (db : Tables W) (t : Time), Valid group db → c.Sees db →
      c.Before t → Q (f (c.view db)) (c.observe db t) := Iff.rfl

theorem wp_clockTimestamp {Q : Time → Ctx (schema W group) → Prop} :
    wp G N Q E clockTimestamp c ↔ ∀ t, c.Before t → Q t (c.time t) := Iff.rfl

theorem wp_uuid4 {Q : UUID → Ctx (schema W group) → Prop} :
    wp G N Q E uuid4 c ↔ ∀ id, id ∉ c.drawn → Q id (c.draw id) := Iff.rfl

/-- A row that was found is locked, and nobody else moves it. -/
theorem wp_getMessage {id : UUID} {Q : Option OutboxMessage → Ctx (schema W group) → Prop}
    (hnone : ∀ c', c.Adds [] c' → Q none c')
    (hsome : ∀ row c', c.Adds [] c' → row.id = id → .message row.id ∈ c'.held → Sees c' row →
      Q (some row) c') :
    wp G N Q E (getMessage id) c := by
  refine Prog.wp_forUpdate (framed_message id) (local_message id)
    (fun c' _ hc' _ _ _ => hnone c' hc') ?_
  intro row c' hc' hk ⟨r, _, _, _, _, hrow⟩ hshows
  obtain rfl : row.id = id := Table.key_of_find hrow
  exact hsome row c' hc' rfl hk hshows

/-- A row that the transaction has seen is found as it has seen it. -/
theorem wp_getMessage_seen {Q : Option OutboxMessage → Ctx (schema W group) → Prop}
    (hrow : Sees c row)
    (h : ∀ c', c.Adds [] c' → .message row.id ∈ c'.held → Q (some row) c') :
    wp G N Q E (getMessage row.id) c := by
  refine Prog.wp_forUpdate (framed_message row.id) (local_message row.id) ?_ ?_
  · intro c' db hc' hv hs hnone
    cases hnone.symm.trans (hrow db hv hs)
  · intro row' c' hc' hk hread _
    obtain ⟨r, -, -, hv, hs, hrow'⟩ := hread
    cases hrow'.symm.trans (hrow r.db hv hs)
    exact h c' hc' hk

/-- The control row, when there is one, is locked. -/
theorem wp_getControl {Q : Option WorkerControl → Ctx (schema W group) → Prop}
    (hnone : ∀ c' (db : Tables W), c.Adds [] c' → Valid group db → c.Sees db →
      Outbox.control (Tables.outbox (c.view db)) group = none → Q none c')
    (hsome : ∀ control c', c.Adds [] c' → control.workerGroup = group → .control group ∈ c'.held →
      c.Reads c' (.control group)
        (fun db => Outbox.control (Tables.outbox db) group = some control) →
      (c'.Shows fun db => Outbox.control (Tables.outbox db) group = some control) →
      Q (some control) c') :
    wp G N Q E getControl c := by
  refine Prog.wp_forUpdate framed_control local_control hnone ?_
  intro control c' hc' hk hread hshows
  obtain ⟨r, -, -, -, -, hc⟩ := id hread
  exact hsome control c' hc' (Table.key_of_find hc) hk hread hshows

/-- A row that the transaction has locked is moved. -/
theorem wp_setMessage {Q : Unit → Ctx (schema W group) → Prop} (hkeeps : Keeps call c)
    (hk : .message row.id ∈ c.held) (hrow : Sees c row) (hmove : Moves group call row new)
    (h : ∀ c', c.Adds [.setMessage new] c' → Keeps call c' → Sees c' new → Q () c') :
    wp G N Q E (write (.setMessage new)) c := by
  have hid := hmove.id_eq
  rw [wp_write]
  refine ⟨fun k hmem => ?_, nofun, h _ (.push _) ?_ ?_⟩
  · rw [List.mem_singleton.1 hmem, hid]
    exact hk
  · refine (hkeeps.and hrow).push fun db db' hboth => ?_
    exact hboth.1.setMessage (hid ▸ hboth.2) hmove
  · refine hrow.push fun db (db' : Tables W) (hold : db'.outbox.message row.id = some row) => ?_
    refine message_setMessage.trans ?_
    rw [if_pos rfl, hid, hold]
    rfl

/-- Writes to other rows leave the row as it is. -/
theorem Sees.others {ops : List (Op W)} (h : Sees c row) (hc' : c.Adds ops c')
    (hops : ∀ op ∈ ops, .message row.id ∉ op.needs) : Sees c' row :=
  Ctx.Relates.others (A := (· = some row)) h (framed_message row.id) hc' hops

/-- Rows that the transaction has locked are moved one after another. -/
theorem wp_setMessages {f : OutboxMessage → OutboxMessage} {found : List OutboxMessage}
    {Q : Unit → Ctx (schema W group) → Prop} (hkeeps : Keeps call c)
    (hnodup : (found.map (·.id)).Nodup)
    (hall : ∀ row ∈ found, .message row.id ∈ c.held ∧ Sees c row ∧ Moves group call row (f row))
    (h : ∀ c', c.Adds (found.map fun row => .setMessage (f row)).reverse c' → Keeps call c' →
      (∀ row ∈ found, Sees c' (f row)) → Q () c') :
    wp G N Q E (setMessages (found.map f)) c := by
  induction found generalizing c with
  | nil => exact h c (.refl c) hkeeps (List.forall_mem_nil _)
  | cons row rest ih =>
    obtain ⟨hk, hrow, hmove⟩ := hall row List.mem_cons_self
    rw [List.map_cons, List.nodup_cons] at hnodup
    rw [List.map_cons, setMessages, wp_bind]
    refine wp_setMessage hkeeps hk hrow hmove fun c₁ hc₁ hkeeps₁ hnew => ?_
    have hne : ∀ a ∈ rest, a.id ≠ row.id := fun a ha he => hnodup.1 (List.mem_map.2 ⟨a, ha, he⟩)
    refine ih hkeeps₁ hnodup.2 (fun a ha => ?_) fun c' hc' hkeeps' hrest => ?_
    · obtain ⟨hka, ha', hmovea⟩ := hall a (List.mem_cons_of_mem _ ha)
      refine ⟨hc₁.le.held hka, ha'.others hc₁ ?_, hmovea⟩
      simpa [Op.needs, hmove.id_eq] using hne a ha
    · refine h c' ?_ hkeeps' (List.forall_mem_cons.2 ⟨hnew.others hc' ?_, hrest⟩)
      · rw [List.map_cons, List.reverse_cons]
        exact hc₁.trans hc'
      · -- the later writes are to other rows
        intro op hop
        obtain ⟨a, ha, rfl⟩ := List.mem_map.1 (List.mem_reverse.1 hop)
        have hida := (hall a (List.mem_cons_of_mem _ ha)).2.2.id_eq
        simpa [Op.needs, hmove.id_eq, hida] using (hne a ha).symm

/-- The candidates that are still as they should be are locked, and nobody else moves them. -/
theorem wp_lockRows {p : OutboxMessage → Bool} {n : Nat} {rows : List OutboxMessage}
    {Q : List OutboxMessage → Ctx (schema W group) → Prop}
    (h : ∀ found c', c.Adds [] c' →
      (∀ row ∈ found, p row = true ∧ .message row.id ∈ c'.held ∧ Sees c' row) →
      found.length ≤ n → (found.map (·.id)).Sublist (rows.map (·.id)) → Q found c') :
    wp G N Q E (lockRows p n rows) c := by
  induction rows generalizing n c Q with
  | nil =>
    cases n <;> exact h [] c (.refl c) (List.forall_mem_nil _) (Nat.zero_le _) (List.nil_sublist _)
  | cons row rest ih =>
    cases n with
    | zero => exact h [] c (.refl c) (List.forall_mem_nil _) (Nat.zero_le _) (List.nil_sublist _)
    | succ n =>
      rw [lockRows, wp_bind, wp_lock, wp_bind]
      refine Prog.wp_query_locked (framed_message row.id) (local_message row.id) List.mem_cons_self
        fun current c₁ hc₁ hread hshows => ?_
      have hadds : c.Adds [] c₁ := (Ctx.Adds.hold _).trans_nil hc₁
      have hskip : wp G N Q E (lockRows p (n + 1) rest) c₁ :=
        ih fun found c' hc' hfound hlen hsub =>
          h found c' (hadds.trans_nil hc') hfound hlen (hsub.cons _)
      cases current with
      | none => exact hskip
      | some current =>
        dsimp only
        split
        case isFalse => exact hskip
        case isTrue hp =>
          obtain ⟨r, -, -, -, -, hr⟩ := hread
          have hid : current.id = row.id := Table.key_of_find hr
          have hheld : .message current.id ∈ c₁.held := hid ▸ hc₁.le.held List.mem_cons_self
          have hsees : Sees c₁ current := by rw [Sees, hid]; exact hshows
          rw [wp_bind]
          refine ih fun found c' hc' hfound hlen hsub => ?_
          refine h (current :: found) c' (hadds.trans_nil hc') (fun a ha => ?_)
            (Nat.succ_le_succ hlen) ?_
          · rcases List.mem_cons.1 ha with rfl | ha
            · exact ⟨hp, hc'.le.held hheld, hsees.quiet hc'⟩
            · exact hfound a ha
          · rw [List.map_cons, List.map_cons, hid]
            exact hsub.cons_cons _

/-- The rows of a query with `SKIP LOCKED` are different rows, locked as they were found. -/
theorem wp_selectLocked {p : List OutboxMessage → OutboxMessage → Bool}
    {le : OutboxMessage → OutboxMessage → Bool} {limit : Nat} {locked : UUID → Bool}
    {Q : List OutboxMessage → Ctx (schema W group) → Prop} (hkeeps : Keeps call c)
    (h : ∀ messages found c', c.Adds [] c' →
      (∀ row ∈ found, p messages row = true ∧ .message row.id ∈ c'.held ∧ Sees c' row) →
      found.length ≤ limit → (found.map (·.id)).Nodup → Q found c') :
    wp G N Q E (selectLocked p le limit locked) c := by
  rw [selectLocked, wp_bind, wp_query]
  intro db t hv hs _
  have hkeyed : Outbox.Keyed (Tables.outbox (c.view db)) := (hkeeps db hv hs).keyed
  refine wp_lockRows fun found c' hc' hfound hlen hsub => ?_
  refine h _ found c' ((Ctx.Adds.observe db t).trans_nil hc') hfound hlen (hsub.nodup ?_)
  rw [((List.perm_insertionSort _ _).map _).nodup_iff]
  exact hkeyed.sublist (List.filter_sublist.map _)

/-- The control row of the group, once locked, is written by nobody else. -/
theorem wp_setControl {control control' : WorkerControl} {Q : Unit → Ctx (schema W group) → Prop}
    (hkeeps : Keeps call c) (hk : .control group ∈ c.held)
    (hc : c.Shows fun db => Outbox.control (Tables.outbox db) group = some control)
    (hg : control'.workerGroup = group)
    (hp : call ≠ .resume → control.paused = true → control'.paused = true)
    (h : ∀ c', c.Adds [.setControl control'] c' → Keeps call c' →
      (c'.Shows fun db => Outbox.control (Tables.outbox db) group = some control') → Q () c') :
    wp G N Q E (write (.setControl control')) c := by
  rw [wp_write]
  refine ⟨fun k hmem => ?_, nofun, h _ (.push _) ?_ ?_⟩
  · rw [List.mem_singleton.1 hmem, hg]
    exact hk
  · exact (hkeeps.and hc).push fun db db' hboth => hboth.1.setControl hboth.2 hp hg
  · refine hc.push fun db (db' : Tables W) (hold : db'.outbox.control group = some control) => ?_
    refine control_setControl.trans ?_
    rw [if_pos hg.symm, hold]
    rfl

/-- After the insert there is a control row for the group. -/
theorem wp_insertControl {now : Time} {Q : Unit → Ctx (schema W group) → Prop}
    (hkeeps : Keeps call c) (h : ∀ ops c', c.Adds ops c' → Keeps call c' → Q () c') :
    wp G N Q E (insertControl now) c := by
  rw [insertControl, wp_bind, wp_query]
  intro db t _ _ _
  have hobs : c.Adds [] (c.observe db t) := Ctx.Adds.observe (c := c) db t
  cases Outbox.control (Tables.outbox (c.view db)) group with
  | some _ => exact h [] _ hobs (hkeeps.quiet hobs)
  | none =>
    dsimp only
    rw [wp_bind, wp_lock, wp_bind]
    refine Prog.wp_query_locked framed_control local_control List.mem_cons_self
      fun found c₁ hc₁ _ hshows => ?_
    have hadds : c.Adds [] c₁ := hobs.trans_nil ((Ctx.Adds.hold _).trans_nil hc₁)
    cases found with
    | some _ => exact h [] c₁ hadds (hkeeps.quiet hadds)
    | none =>
      dsimp only
      rw [wp_write]
      refine ⟨fun k hmem => ?_, nofun, h _ _ (hadds.trans (.push _)) ?_⟩
      · rw [List.mem_singleton.1 hmem]
        exact hc₁.le.held List.mem_cons_self
      · exact ((hkeeps.quiet hadds).and hshows).push fun db db' hboth =>
          hboth.1.insertControl hboth.2 rfl

/-- The row that the claim owns is locked. -/
theorem wp_owned {claim : Claim} {Q : Option OutboxMessage → Ctx (schema W group) → Prop}
    (hnone : ∀ c', c.Adds [] c' → Q none c')
    (hsome : ∀ row ownedAt c', c.Adds [] c' → owns claim ownedAt row = true →
      .message row.id ∈ c'.held → Sees c' row → Q (some row) c') :
    wp G N Q E (owned claim) c := by
  rw [owned, wp_bind, wp_clockTimestamp]
  intro t _
  rw [wp_bind, wp_query]
  intro db t' _ _ _
  have hread : c.Adds [] ((c.time t).observe db t') :=
    (Ctx.Adds.time t).trans (Ctx.Adds.observe (c := c.time t) db t')
  split
  case h_1 => exact hnone _ hread
  case h_2 row _ =>
    rw [wp_bind, wp_lock, wp_bind, wp_clockTimestamp]
    intro ownedAt _
    rw [wp_bind]
    refine Prog.wp_query_locked (framed_message row.id) (local_message row.id) List.mem_cons_self
      fun found c₁ hc₁ hfound hshows => ?_
    have hadds : c.Adds [] c₁ :=
      hread.trans_nil (((Ctx.Adds.hold _).trans (.time ownedAt)).trans_nil hc₁)
    cases found with
    | none => exact hnone c₁ hadds
    | some current =>
      obtain ⟨r, -, -, -, -, hr⟩ := hfound
      have hid : current.id = row.id := Table.key_of_find hr
      show Q (if owns claim ownedAt current then some current else none) c₁
      split
      case isTrue howns =>
        refine hsome current ownedAt c₁ hadds howns (hid ▸ hc₁.le.held List.mem_cons_self) ?_
        rw [Sees, hid]
        exact hshows
      case isFalse => exact hnone c₁ hadds

/-- Whoever pauses leaves the group paused, when it has a control row. -/
theorem wp_pause {control : Option WorkerControl} {Q : Unit → Ctx (schema W group) → Prop}
    (hkeeps : Keeps call c)
    (hsome : ∀ x, control = some x → x.workerGroup = group ∧ .control group ∈ c.held ∧
      c.Shows fun db => Outbox.control (Tables.outbox db) group = some x)
    (hthere : c.Shows fun db => (Outbox.control (Tables.outbox db) group).isSome)
    (h : ∀ ops c', c.Adds ops c' → Keeps call c' → c'.Shows (Paused group) → Q () c') :
    wp G N Q E (pause control) c := by
  -- the write, wherever the row was locked
  have hwrite : ∀ x c₁, c.Adds [] c₁ → x.workerGroup = group → .control group ∈ c₁.held →
      (c₁.Shows fun db => Outbox.control (Tables.outbox db) group = some x) →
      wp G N Q E (write (.setControl { x with paused := true })) c₁ := by
    intro x c₁ hc₁ hg hk hshows
    refine wp_setControl (hkeeps.quiet hc₁) hk hshows hg
      (fun _ _ => rfl) fun c' hc' hkeeps' hnew => ?_
    exact h _ c' (hc₁.trans hc') hkeeps' (hnew.mono fun _ _ hx => ⟨_, hx, rfl⟩)
  cases control with
  | some x =>
    obtain ⟨hg, hk, hshows⟩ := hsome x rfl
    exact hwrite x c (.refl c) hg hk hshows
  | none =>
    rw [pause, wp_bind]
    refine wp_getControl (fun c' db _ hv hs hnone => ?_) fun x c₁ hc₁ hg hk _ hshows => ?_
    · have hsome : (Outbox.control (Tables.outbox (c.view db)) group).isSome = true :=
        hthere db hv hs
      rw [hnone] at hsome
      cases hsome
    · exact hwrite x c₁ hc₁ hg hk hshows

/-! ## Savepoints -/

/-- With which writes, the last one first, a handler of the message `id` may end, and whether it
returns. -/
inductive Ends (id : UUID) : Handling W → List (Op W) → List (Op W) → Bool → Prop
  | done {ops : List (Op W)} : Ends id .done ops ops true
  | raise {ops : List (Op W)} : Ends id .raise ops ops false
  | read {next : Tables W → Handling W} {ops ops' : List (Op W)} {b : Bool} (db : Tables W) :
      Ends id (next db) ops ops' b → Ends id (.read next) ops ops' b
  | write {w : W} {next : Handling W} {ops ops' : List (Op W)} {b : Bool} :
      Ends id next (.handle id w :: ops) ops' b → Ends id (.write w next) ops ops' b
  | stage {event : DomainEvent} {key : Option String} {availableAt : Option Time}
      {next : Handling W} {ops ops' : List (Op W)} {b : Bool} (row : OutboxMessage) :
      Untouched row → row.id ≠ id → Ends id next (.insertMessage row :: ops) ops' b →
      Ends id (.stage event key availableAt next) ops ops' b
  | refused {event : DomainEvent} {key : Option String} {availableAt : Option Time}
      {next : Handling W} {ops : List (Op W)} :
      Ends id (.stage event key availableAt next) ops ops false

theorem stage_eq_ok {outbox : Outbox} {event : DomainEvent} {key : Option String}
    {availableAt : Option Time} {id : UUID} (h : stage outbox event key availableAt id = .ok row) :
    row.id = id ∧ Untouched row := by
  rw [stage] at h
  cases hadd : OutboxRepository.add outbox event key availableAt id with
  | error => rw [hadd] at h; cases h
  | ok => rw [hadd] at h; cases h; exact ⟨rfl, rfl, rfl, rfl⟩

/-- A handler that returns adds its writes, and one that raises adds none. Its message stays as the
worker has left it. -/
theorem wp_savepoint {handling : Handling W} {ops : List (Op W)}
    {Q : Bool → Ctx (schema W group) → Prop} (hcall : call.isProcessOne = true)
    (hkeeps : Keeps call (c.with ops)) (hrow : Sees (c.with ops) row) (hsaved : Keeps call c)
    (hneeds : ∀ op ∈ ops, ∀ k ∈ op.needs, k ∈ c.held)
    (hmakes : ∀ op ∈ ops ++ c.buf, ∀ id ∈ op.makes, id ∈ c.drawn)
    (hdone : ∀ ops' c', Ends row.id handling ops ops' true → c.Adds ops' c' → Keeps call c' →
      Sees c' row → Q true c')
    (hraise : ∀ ops' c', Ends row.id handling ops ops' false → c.Adds [] c' → Keeps call c' →
      Q false c') :
    wp G N Q E (savepoint row.id handling ops) c := by
  induction handling generalizing c ops with
  | done =>
    rw [savepoint, wp_bind]
    refine Prog.wp_putAll (fun op hop => hneeds op (List.mem_reverse.1 hop))
      (fun op hop => hmakes op (List.mem_append_left _ (List.mem_reverse.1 hop))) fun c' hc' => ?_
    rw [List.reverse_reverse] at hc'
    have hview : ∀ {R : Tables W → Tables W → Prop}, (c.with ops).Relates R → c'.Relates R := by
      intro R h db hv hs
      rw [Ctx.view, hc'.buf]
      exact h db hv (hc'.le.sees hs)
    exact hdone ops c' .done hc' (hview hkeeps) (hview hrow)
  | raise => exact hraise ops c .raise (.refl c) hsaved
  | read next ih =>
    intro db t _ _ _
    have hobs : c.Adds [] (c.observe db t) := Ctx.Adds.observe (c := c) db t
    refine ih _ (hkeeps.quiet (.observe db t)) (hrow.quiet (.observe db t)) (hsaved.quiet hobs)
      hneeds hmakes (fun ops' c' hends hc' => ?_) fun ops' c' hends hc' => ?_
    · exact hdone ops' c' (.read _ hends) (hobs.of_nil hc')
    · exact hraise ops' c' (.read _ hends) (hobs.trans_nil hc')
  | write w next ih =>
    refine ih (hkeeps.push fun _ _ h => h.handle hcall)
      (hrow.push fun _ _ h => (framed_message row.id _ _ List.not_mem_nil).trans h) hsaved
      (List.forall_mem_cons.2 ⟨fun k hk => (by cases hk), hneeds⟩)
      (List.forall_mem_cons.2 ⟨fun id hid => (by cases hid), hmakes⟩)
      (fun ops' c' hends => hdone ops' c' (.write hends))
      fun ops' c' hends => hraise ops' c' (.write hends)
  | stage event key availableAt next ih =>
    intro id hid db t hv hs _
    let c₁ : Ctx (schema W group) := (c.draw id).observe db t
    have hobs : c.Adds [] c₁ := (Ctx.Adds.draw id).trans (.observe db t)
    have hobs' : (c.with ops).Adds [] (c₁.with ops) := (Ctx.Adds.draw id).trans (.observe db t)
    dsimp only [savepoint]
    split
    case h_1 => exact hraise ops c₁ .refused hobs (hsaved.quiet hobs)
    case h_2 new hstage =>
      obtain ⟨hnew, huntouched⟩ := stage_eq_ok hstage
      have hdrawn : new.id ∈ c₁.drawn := hnew ▸ List.mem_cons_self
      have hunused : c₁.Sure fun db => ¬ Uses db new.id := Ctx.sure_unused hdrawn
      -- no write of the transaction has made a row with the new key either
      have hunseen : (c₁.with ops).Shows fun db => ¬ Uses db new.id := by
        intro db hv hs huses
        have hmade : Uses db new.id ∨ ∃ op ∈ ops ++ c.buf, new.id ∈ op.makes :=
          (schema W group).uses_applyAll huses
        rcases hmade with huses | ⟨op, hop, hmade⟩
        · exact hunused db hv hs huses
        · exact hid (hnew ▸ hmakes op hop _ hmade)
      have hrow₁ := hrow.quiet hobs'
      have hne : new.id ≠ row.id := by
        intro he
        have hsees : (c₁.with ops).Sees db := Ctx.Sees.observe (c := c.draw id) hs
        have hseen : Outbox.message (Tables.outbox ((c₁.with ops).view db)) row.id = some row :=
          hrow₁ db hv hsees
        exact hunseen db hv hsees ⟨row, Table.mem_of_find hseen, he.symm⟩
      let c₂ := c₁.hold (.message new.id)
      have hadds : c.Adds [] c₂ := hobs.trans_nil (.hold _)
      have hheld : (c₁.with ops).Adds [] (c₂.with ops) := .hold _
      have hpair : (c₁.with ops).Relates fun db db' =>
          Kept group call db db' ∧ ¬ Uses db new.id ∧ ¬ Uses db' new.id :=
        fun db hv hs => ⟨hkeeps.quiet hobs' db hv hs, hunused db hv hs, hunseen db hv hs⟩
      refine ih ((hpair.quiet hheld).push fun db db' h => h.1.insertMessage huntouched h.2.1 h.2.2)
        ((hrow₁.quiet hheld).push fun db db' h => ?_) (hsaved.quiet hadds) ?_ ?_
        (fun ops' c' hends hc' => hdone ops' c' (.stage new huntouched hne hends) (hadds.of_nil hc'))
        fun ops' c' hends hc' => hraise ops' c' (.stage new huntouched hne hends)
          (hadds.trans_nil hc')
      · refine (framed_message row.id _ _ fun hmem => ?_).trans h
        exact hne (Key.message.inj (List.mem_singleton.1 hmem)).symm
      · refine List.forall_mem_cons.2 ⟨fun k hk => ?_, fun op hop k hk => ?_⟩
        · rw [List.mem_singleton.1 hk]
          exact List.mem_cons_self
        · exact List.mem_cons_of_mem _ (hneeds op hop k hk)
      · refine List.forall_mem_cons.2 ⟨fun i hi => ?_, fun op hop i hi => ?_⟩
        · rw [List.mem_singleton.1 hi]
          exact hdrawn
        · exact hadds.le.drawn (hmakes op hop i hi)

end

end Ekumidayomi.Workers
