import Ekumidayomi.Outbox.Commits
import Ekumidayomi.Outbox.Ordering

/-!
# Internal handlers take effect at most once

An internal worker commits once for a message, and its commit either publishes the message together
with everything the handler wrote, or fails it with nothing of that (`internal_commit`). A published
message is moved by nobody, so no later worker can claim it (`internal_handlers_once`).
-/

namespace Ekumidayomi.Workers

open Transact

variable {W P : Type} {group : String}

/-! ## What the writes of a handler do -/

/-- The handler's writes to other tables among the writes of a transaction, the last one first. -/
def handled (ops : List (Op W)) : List (UUID × W) :=
  ops.filterMap fun
    | .handle id w => some (id, w)
    | _ => none

theorem applied_applyAll (ops : List (Op W)) (db : Tables W) :
    Tables.applied ((schema W group).applyAll ops db) = handled ops ++ db.applied := by
  induction ops with
  | nil => rfl
  | cons op ops ih =>
    cases op with
    | handle id w => exact congrArg ((id, w) :: ·) ih
    | insertMessage | setMessage | insertControl | setControl => exact ih

/-- A write of the handler of a message: to another table, or a new message. -/
def Op.byHandler (id : UUID) : Op W → Prop
  | .handle id' _ => id' = id
  | .insertMessage row => row.id ≠ id ∧ Untouched row
  | _ => False

theorem Ends.byHandler {id : UUID} {handling : Handling W} {ops ops' : List (Op W)} {b : Bool}
    (h : Ends id handling ops ops' b) (hops : ∀ op ∈ ops, op.byHandler id) :
    ∀ op ∈ ops', op.byHandler id := by
  induction h with
  | done | raise | refused => exact hops
  | read _ _ ih => exact ih hops
  | write _ ih => exact ih (List.forall_mem_cons.2 ⟨rfl, hops⟩)
  | stage _ hnew hne _ ih => exact ih (List.forall_mem_cons.2 ⟨⟨hne, hnew⟩, hops⟩)

section
variable {id : UUID} {ops : List (Op W)} {db db' : Tables W}

theorem handled_id (h : ∀ op ∈ ops, op.byHandler id) : ∀ x ∈ handled ops, x.1 = id := by
  intro x hx
  obtain ⟨op, hop, hsome⟩ := List.mem_filterMap.1 hx
  cases op with
  | handle id' w =>
    cases hsome
    exact h _ hop
  | insertMessage | setMessage | insertControl | setControl => cases hsome

theorem message_handled (h : ∀ op ∈ ops, op.byHandler id) (db : Tables W) :
    Outbox.message (Tables.outbox ((schema W group).applyAll ops db)) id =
      db.outbox.message id := by
  refine (framed_message id).applyAll (fun op hop hmem => ?_) db
  have hby := h op hop
  cases op with
  | insertMessage row =>
    obtain rfl : id = row.id := by simpa [Op.needs] using hmem
    exact hby.1 rfl
  | handle => cases hmem
  | setMessage | insertControl | setControl => exact hby

/-- The other messages after the writes of a handler: as before, or new. -/
theorem other_handled {row : OutboxMessage} {id' : UUID} (h : ∀ op ∈ ops, op.byHandler id)
    (hrow : Outbox.message (Tables.outbox ((schema W group).applyAll ops db)) id' = some row) :
    db.outbox.message id' = some row ∨ Untouched row := by
  induction ops with
  | nil => exact .inl hrow
  | cons op ops ih =>
    rw [List.forall_mem_cons] at h
    cases op with
    | insertMessage new =>
      have hrow := message_insertMessage.symm.trans hrow
      rcases Option.or_eq_some_iff.1 hrow with hold | ⟨-, hnew⟩
      · exact ih h.2 hold
      · obtain ⟨-, he⟩ := Option.ite_none_right_eq_some.1 hnew
        cases he
        exact .inr h.1.2
    | handle => exact ih h.2 hrow
    | setMessage | insertControl | setControl => exact h.1.elim

theorem controls_handled (h : ∀ op ∈ ops, op.byHandler id) (db : Tables W) :
    (Tables.outbox ((schema W group).applyAll ops db)).controls = db.outbox.controls := by
  induction ops with
  | nil => rfl
  | cons op ops ih =>
    rw [List.forall_mem_cons] at h
    rw [Schema.applyAll_cons, ← ih h.2]
    cases op with
    | insertMessage | handle | setMessage => rfl
    | insertControl | setControl => exact h.1.elim

/-- The tables after the writes of a handler, but for the message that was handled. -/
structure Leaves (group : String) (db db' : Tables W) (ops : List (Op W)) (row' : OutboxMessage) :
    Prop where
  message : db'.outbox.message row'.id = some row'
  others : ∀ id, id ≠ row'.id →
    db'.outbox.message id = Outbox.message (Tables.outbox ((schema W group).applyAll ops db)) id
  controls : db'.outbox.controls = db.outbox.controls
  applied : db'.applied = handled ops ++ db.applied

/-- The worker claims its message, and records the outcome after the writes of the handler. -/
theorem leaves_applyAll {row claimed row' : OutboxMessage} (ops : List (Op W))
    (hrow : db.outbox.message row.id = some row)
    (hclaimed : claimed.id = row.id) (hid : row'.id = row.id)
    (hops : ∀ op ∈ ops, op.byHandler row.id) :
    Leaves group db
      ((schema W group).applyAll (.setMessage row' :: (ops ++ [.setMessage claimed])) db)
      ops row' := by
  have hthere : Outbox.message (Tables.outbox ((schema W group).applyAll [.setMessage claimed] db))
      row.id = some claimed := by
    refine message_setMessage.trans ?_
    rw [if_pos hclaimed.symm]
    exact congrArg (Option.map fun _ => claimed) hrow
  rw [Schema.applyAll_cons, Schema.applyAll_append]
  refine ⟨?_, fun id hne => ?_, ?_, ?_⟩
  · refine message_setMessage.trans ?_
    rw [if_pos rfl, hid, message_handled hops, hthere]
    rfl
  · refine (message_setMessage.trans (if_neg hne)).trans ?_
    refine (local_message id).applyAll ops ?_
    exact message_setMessage.trans (if_neg fun he => hne (he.trans (hclaimed.trans hid.symm)))
  · exact controls_handled hops _
  · exact applied_applyAll ops _

end

/-! ## The commit of an internal worker -/

/-- What an internal worker leaves: the published message with the writes of the handler, or the
failed message alone, which it has written. -/
theorem Processed.leaves {worker : InternalOutboxWorker W} {reads : ProcessReads}
    {c : Ctx (schema W group)} {row : OutboxMessage} {db : Tables W}
    (h : Processed worker reads c row) (hrow : db.outbox.message row.id = some row) :
    (∃ ops, Ends row.id (worker.handling (row.batchClaim reads.claimedAt)) [] ops true ∧
      Leaves group db (c.view db) ops ((row.batchClaim reads.claimedAt).publish reads.now)) ∨
    ∃ ops availableAt, Ends row.id (worker.handling (row.batchClaim reads.claimedAt)) [] ops false ∧
      .setMessage ((row.batchClaim reads.claimedAt).fail handlerFailed.code availableAt) ∈ c.buf ∧
      Leaves group db (c.view db) []
        ((row.batchClaim reads.claimedAt).fail handlerFailed.code availableAt) := by
  cases h with
  | @published ops hends hbuf =>
    refine .inl ⟨ops, hends, ?_⟩
    rw [Ctx.view, hbuf]
    exact leaves_applyAll ops hrow rfl rfl (hends.byHandler (List.forall_mem_nil _))
  | @failed ops availableAt hends hbuf =>
    refine .inr ⟨ops, availableAt, hends, by simp [hbuf], ?_⟩
    rw [Ctx.view, hbuf]
    exact leaves_applyAll [] hrow rfl rfl (List.forall_mem_nil _)

/-- An internal worker commits as the `i`th thread. It has claimed `row`, and the handler has ended
with the writes `ops`; `returned` says whether it returned. -/
def Handles (m : Sys W P group) (i : Nat) (row : OutboxMessage) (ops : List (Op W))
    (returned : Bool) : Prop :=
  ∃ t ∈ m.threads[i]?, ∃ worker reads, t.call = .processOne worker reads ∧
    Claims worker reads m.db row ∧
    Ends row.id (worker.handling (row.batchClaim reads.claimedAt)) [] ops returned

/-- The `i`th thread is that of an internal worker. -/
def Internal (m : Sys W P group) (i : Nat) : Prop :=
  ∃ t ∈ m.threads[i]?, t.call.isProcessOne = true

/-- The commit publishes the message together with the writes of its handler. -/
def Publishes (m : Sys W P group) (i : Nat) (m' : Sys W P group) (row : OutboxMessage)
    (ops : List (Op W)) : Prop :=
  Handles m i row ops true ∧ ∃ row', row'.id = row.id ∧ row'.status = .published ∧
    row'.attempts = row.attempts + 1 ∧ Leaves group m.db m'.db ops row'

/-- The handler has raised, and the commit fails the message and does nothing else. -/
def Fails (m : Sys W P group) (i : Nat) (m' : Sys W P group) (row : OutboxMessage) : Prop :=
  (∃ ops, Handles m i row ops false) ∧ ∃ row', row'.id = row.id ∧ row'.status = .failed ∧
    row'.attempts = row.attempts + 1 ∧ Leaves group m.db m'.db [] row'

section
variable {s₀ s s' m m' n n' : Sys W P group} {tr : List (Act W P group)} {i j : Nat}

/-- An internal worker publishes its message with all that the handler wrote, or fails it with
nothing of that. -/
theorem internal_commit (h0 : Initial s₀) (h : CommitsIn s₀ tr s m i m') (hi : Internal m i) :
    ∃ row, (∃ ops, Publishes m i m' row ops) ∨ Fails m i m' row := by
  obtain ⟨t, ht, hcommits, hdb⟩ := commitsIn_inv h0 h
  obtain ⟨t', ht', hinternal⟩ := hi
  obtain rfl : t' = t := Option.some.inj (ht'.symm.trans ht)
  obtain ⟨worker, reads, hcall⟩ : ∃ worker reads, t'.call = .processOne worker reads := by
    cases hc : t'.call with
    | processOne worker reads => exact ⟨worker, reads, rfl⟩
    | _ => rw [hc] at hinternal; cases hinternal
  obtain ⟨row, hclaims, hprocessed⟩ := hcommits.processed worker reads hcall
  rcases hprocessed.leaves hclaims.message with ⟨ops, hends, hleaves⟩ |
    ⟨ops, availableAt, hends, -, hleaves⟩
  · refine ⟨row, .inl ⟨ops, ⟨t', ht, worker, reads, hcall, hclaims, hends⟩,
      (row.batchClaim reads.claimedAt).publish reads.now, rfl, rfl, rfl, ?_⟩⟩
    rw [hdb]
    exact hleaves
  · refine ⟨row, .inr ⟨⟨ops, t', ht, worker, reads, hcall, hclaims, hends⟩,
      (row.batchClaim reads.claimedAt).fail handlerFailed.code availableAt, rfl, rfl, rfl, ?_⟩⟩
    rw [hdb]
    exact hleaves

/-! ## Published messages -/

/-- No write removes a message. -/
theorem uses_kept {ops : List (Op W)} {db : Tables W} {id : UUID} (h : Uses db id) :
    Uses ((schema W group).applyAll ops db) id := by
  induction ops with
  | nil => exact h
  | cons op ops ih =>
    obtain ⟨row, hrow, hid⟩ := ih
    cases op with
    | insertMessage new => exact ⟨row, List.mem_append_left _ hrow, hid⟩
    | setMessage new =>
      refine ⟨_, List.mem_map_of_mem hrow, ?_⟩
      split
      · next he => exact (of_decide_eq_true he).symm.trans hid
      · exact hid
    | insertControl | setControl | handle => exact ⟨row, hrow, hid⟩

theorem moved_id {call : Call W P} {row row' : OutboxMessage}
    (h : Relation.ReflTransGen (Moves group call) row row') : row'.id = row.id := by
  induction h with
  | refl => rfl
  | tail _ hlast ih => exact hlast.id_eq.trans ih

/-- A published message is moved by nobody. -/
theorem Kept.settled {call : Call W P} {db db' : Tables W} {row : OutboxMessage}
    (h : Kept group call db db') (hrow : db.outbox.message row.id = some row) (hs : row.Settled)
    (hthere : Uses db' row.id) : db'.outbox.message row.id = some row := by
  obtain ⟨row', hrow', hid⟩ := hthere
  obtain ⟨old, horigin, hpath⟩ := h.rows row' hrow'
  have hsame : old.id = row.id := (moved_id hpath).symm.trans hid
  have hold : old = row := by
    rcases horigin with hold | ⟨hnone, -⟩
    · rw [hsame, hrow] at hold
      exact (Option.some.inj hold).symm
    · rw [hsame, hrow] at hnone
      cases hnone
  subst hold
  rcases hpath.cases_head with rfl | ⟨next, hmove, -⟩
  · exact h.keyed.find hrow'
  · obtain ⟨_, _, -, hmove⟩ := hmove
    exact absurd hs hmove.not_settled

/-- A published message stays as it is in every run. -/
theorem Good.settled_step {a : Act W P group} {row : OutboxMessage} (hg : Good s)
    (hstep : Step s a s') (hrow : s.db.outbox.message row.id = some row) (hs : row.Settled) :
    s'.db.outbox.message row.id = some row := by
  by_cases hc : ∃ i, a = .commit i
  · obtain ⟨i, rfl⟩ := hc
    obtain ⟨t, -, hcommits, hdb⟩ := hg.commit hstep
    rw [hdb]
    exact hcommits.kept.settled hrow hs (uses_kept ⟨row, Table.mem_of_find hrow, rfl⟩)
  · rw [hstep.db_eq fun i hi => hc ⟨i, hi⟩]
    exact hrow

theorem Good.settled_run {row : OutboxMessage} (hg : Good s) (hrun : Run s tr s')
    (hrow : s.db.outbox.message row.id = some row) (hs : row.Settled) :
    s'.db.outbox.message row.id = some row := by
  have hboth : Good s' ∧ s'.db.outbox.message row.id = some row := by
    refine hrun.invariant (I := fun s => Good s ∧ s.db.outbox.message row.id = some row) ?_
      ⟨hg, hrow⟩
    rintro s a s' ⟨hg, hrow⟩ hstep
    exact ⟨hg.step (code_meets group) hstep, hg.settled_step hstep hrow hs⟩
  exact hboth.2

/-- A worker that has claimed a message found it open. -/
theorem Handles.not_settled {row row' : OutboxMessage} {ops : List (Op W)} {b : Bool}
    (h : Handles m i row ops b) (hrow : m.db.outbox.message row'.id = some row')
    (hs : row'.Settled) :
    row.id ≠ row'.id := by
  obtain ⟨t, -, worker, reads, -, hclaims, -⟩ := h
  intro hid
  have hmessage := hclaims.message
  rw [hid, hrow] at hmessage
  cases hmessage
  rcases hs with hs | hs <;> rcases hclaims.status with hst | hst <;> rw [hs] at hst <;> cases hst

/-- A message that was published with its handler's writes is never claimed again. -/
theorem Publishes.later {row row' : OutboxMessage} {ops ops' : List (Op W)} {b : Bool}
    (h : Publishes m i m' row ops) (hg : Good m') (hrun : Run m' tr n)
    (h' : Handles n j row' ops' b) :
    row'.id ≠ row.id := by
  obtain ⟨-, new, hid, hst, -, hleaves⟩ := h
  rw [← hid]
  exact h'.not_settled (hg.settled_run hrun hleaves.message (.inl hst)) (.inl hst)

/-! ## The writes of handlers -/

/-- What handlers of the message have written to other tables, the last write first. -/
def Tables.written (db : Tables W) (id : UUID) : List W :=
  (db.applied.filter (·.1 = id)).map (·.2)

theorem Leaves.written {db db' : Tables W} {ops : List (Op W)} {row : OutboxMessage}
    (h : Leaves group db db' ops row) (hops : ∀ x ∈ handled ops, x.1 = row.id) (id : UUID) :
    db'.written id =
      if row.id = id then (handled ops).map (·.2) ++ db.written id else db.written id := by
  rw [Tables.written, h.applied, List.filter_append, List.map_append]
  split
  case isTrue hid =>
    rw [List.filter_eq_self.2 fun x hx => by simpa [hid] using hops x hx]
    rfl
  case isFalse hid =>
    rw [List.filter_eq_nil_iff.2 fun x hx => by simpa [hops x hx] using hid]
    rfl

/-- Only internal workers write for a handler. -/
theorem Good.applied_eq {a : Act W P group} (hg : Good s) (hstep : Step s a s')
    (h : ∀ i, a = .commit i → ¬ Internal s i) : s'.db.applied = s.db.applied := by
  by_cases hc : ∃ i, a = .commit i
  · obtain ⟨i, rfl⟩ := hc
    obtain ⟨t, ht, hcommits, hdb⟩ := hg.commit hstep
    rw [hdb]
    refine hcommits.kept.applied ?_
    cases hinternal : t.call.isProcessOne with
    | false => rfl
    | true => exact absurd ⟨t, ht, hinternal⟩ (h i rfl)
  · rw [hstep.db_eq fun i hi => hc ⟨i, hi⟩]

/-- All that is written for a message is what one handler has written. -/
def WrittenOnce (s₀ : Sys W P group) (tr : List (Act W P group)) (s : Sys W P group) (id : UUID) :
    Prop :=
  s.db.written id = s₀.db.written id ∨
  ∃ m i m' row ops, CommitsIn s₀ tr s m i m' ∧ Publishes m i m' row ops ∧ row.id = id ∧
    s.db.written id = (handled ops).map (·.2) ++ s₀.db.written id

theorem writtenOnce (h0 : Initial s₀) (hrun : Run s₀ tr s) (id : UUID) :
    WrittenOnce s₀ tr s id := by
  induction hrun with
  | nil => exact .inl rfl
  | @snoc s s' tr a hrun hstep ih =>
    have hg := good_of_run h0 hrun
    -- the log of the message stays as it was
    have hsame : s'.db.written id = s.db.written id → WrittenOnce s₀ (tr ++ [a]) s' id := by
      intro heq
      rcases ih with hold | ⟨m, i, m', row, ops, htakes, hpub, hid, hlog⟩
      · exact .inl (heq.trans hold)
      · exact .inr ⟨m, i, m', row, ops, htakes.snoc hstep, hpub, hid, heq.trans hlog⟩
    by_cases hint : ∃ i, a = .commit i ∧ Internal s i
    · obtain ⟨i, rfl, hi⟩ := hint
      obtain ⟨row, ⟨ops, hpub⟩ | ⟨-, row', hid, -, -, hleaves⟩⟩ :=
        internal_commit h0 (.last hrun hstep) hi
      · obtain ⟨⟨t, -, worker, reads, -, -, hends⟩, row', hid, -, -, hleaves⟩ :=
          (show Publishes s i s' row ops from hpub)
        have hops := handled_id (hends.byHandler (List.forall_mem_nil _))
        have hwritten := hleaves.written (hid ▸ hops) id
        by_cases hrow : row'.id = id
        · rw [if_pos hrow] at hwritten
          rcases ih with hold | ⟨m, k, m', first, ops', htakes, hfirst, hfid, -⟩
          · refine .inr ⟨s, i, s', row, ops, .last hrun hstep, hpub, hid ▸ hrow, ?_⟩
            rw [hwritten, hold]
          · -- the message was published before, and cannot have been claimed now
            obtain ⟨tr₁, tr₂, rfl, h1, hk, h2⟩ := htakes
            have hne := hfirst.later (good_of_run h0 (h1.snoc hk)) h2 hpub.1
            exact absurd (hid.symm.trans (hrow.trans hfid.symm)) hne
        · rw [if_neg hrow] at hwritten
          exact hsame hwritten
      · refine hsame ?_
        rw [hleaves.written (List.forall_mem_nil _) id]
        split <;> rfl
    · refine hsame ?_
      rw [Tables.written, hg.applied_eq hstep fun i ha hi => hint ⟨i, ha, hi⟩]
      rfl

/-- **Internal handlers take effect at most once.** In every run from an initial state, over any
interleaving of any number of workers and other calls, with crashes anywhere: the commit of an
internal worker publishes its message with exactly what the handler wrote, or, when the handler
raised, fails it with one more attempt and writes nothing else; nothing but these commits writes for
a handler; a message that was published so is never claimed again; and all that is ever written for
a message is what one handler wrote. -/
theorem internal_handlers_once (h0 : Initial s₀) :
    (∀ {tr s m i m'}, CommitsIn s₀ tr s m i m' → Internal m i →
      ∃ row, (∃ ops, Publishes m i m' row ops) ∨ Fails m i m' row) ∧
    (∀ {tr s m a m'}, Lts.Takes Step s₀ tr s m a m' → m'.db.applied ≠ m.db.applied →
      ∃ i, a = .commit i ∧ Internal m i) ∧
    (∀ {tr m i m' tr' n j row row' ops ops' b}, Run s₀ tr m → Step m (.commit i) m' →
      Publishes m i m' row ops → Run m' tr' n → Handles n j row' ops' b → row'.id ≠ row.id) ∧
    ∀ {tr s} id, Run s₀ tr s → WrittenOnce s₀ tr s id := by
  refine ⟨internal_commit h0, ?_, ?_, fun id hrun => writtenOnce h0 hrun id⟩
  · rintro tr s m a m' ⟨tr₁, tr₂, -, h1, hstep, -⟩ hne
    by_contra hint
    exact hne ((good_of_run h0 h1).applied_eq hstep fun i ha hi => hint ⟨i, ha, hi⟩)
  · intro tr m i m' tr' n j row row' ops ops' b hm hstep hpub hrun hhandles
    exact hpub.later (good_of_run h0 (hm.snoc hstep)) hrun hhandles

end

/-! ## A message is handled -/

/-- A message for an internal handler, and a worker whose handler writes once. -/
def orderPlaced : OutboxMessage := { Fixture.message with eventType := "order_placed" }

@[inherit_doc orderPlaced]
def orderWorker : InternalOutboxWorker Unit where
  handlers := [("order_placed", fun _ => .write () .done)]
  settings := default
  registered := List.cons_ne_nil _ _
  safe := by decide

/-- The system with the message. -/
def placed : Sys Unit Unit "auth_email" := system { outbox := { messages := [orderPlaced] } }

theorem placed_initial : Initial placed := by
  refine system_initial ⟨?_, fun row hrow ht => ?_⟩
  · simp [Outbox.Keyed, Table.Keyed]
  · rw [List.mem_singleton.1 hrow] at ht
    cases ht

/-- The steps of the worker up to its commit. -/
def placedActs : List (Act Unit Unit "auth_email") :=
  .start (.processOne orderWorker
    { claimedAt := 0, now := 0, jitter := 0, locked := fun _ => false }) :: steps 0 9

/-- The system before and after the commit. -/
def handling : Sys Unit Unit "auth_email" :=
  (placed.execAll (code "auth_email") placedActs).getD placed

@[inherit_doc handling]
def handledOnce : Sys Unit Unit "auth_email" :=
  (handling.exec (code "auth_email") (.commit 0)).getD handling

/-- The handler has written once, and the commit published its message. -/
theorem internal_handlers_once_placed :
    handledOnce.db.written 1 = [()] ∧ WrittenOnce placed (placedActs ++ [.commit 0]) handledOnce 1 ∧
      ∃ row, (∃ ops, Publishes handling 0 handledOnce row ops) ∨
        Fails handling 0 handledOnce row := by
  have hrun : Run placed placedActs handling := Sys.run_of_isSome rfl
  have hcommit : Step handling (.commit 0) handledOnce := Sys.step_of_isSome rfl
  obtain ⟨hinternal, -, -, hwritten⟩ := internal_handlers_once placed_initial
  refine ⟨rfl, hwritten 1 (hrun.snoc hcommit), hinternal (.last hrun hcommit) ?_⟩
  exact ⟨_, rfl, rfl⟩

end Ekumidayomi.Workers
