import Mathlib.Data.List.Basic
import Mathlib.Data.List.Induction
import Mathlib.Data.List.Nodup
import Mathlib.Tactic.Common

/-!
# The unit of work

`db/uow.py`: one session, a queue of callbacks and three flags. The session itself is SQLAlchemy's
and answers each call: a commit or a rollback succeeds or fails, and a failure says what it leaves
of the session. Of its state the model keeps the writes that are not committed and whether a
transaction is open, which any statement opens. What a callback does when it runs is an argument of
the commit that runs it.

The state carries a log of what has happened, and a callback is known by the number of its
registration. `Disciplined` says in terms of the log when callbacks run, and that an exit rolls back
and closes. Its induction is over the calls, with one over the callbacks that a commit still has to
run inside (`drain`): these and the queue hold different registrations, none of which has run
(`Uow.Inv`).
-/

namespace Ekumidayomi

variable {ω : Type*}

/-! ## The model -/

/-- An `AsyncSession`: its uncommitted writes, and `in_transaction()`. -/
structure DbSession (ω : Type*) where
  pending : List ω
  inTransaction : Bool
  deriving DecidableEq, Repr

/-- What `session.commit()` does. A commit that raises keeps the writes, drops them, or has been
taken by the database all the same. -/
inductive CommitAnswer
  | ok
  | kept
  | dropped (inTransaction : Bool)
  | taken (inTransaction : Bool)
  deriving DecidableEq, Repr

/-- What `session.rollback()` does. -/
inductive RollbackAnswer
  | ok
  | kept
  | dropped (inTransaction : Bool)
  deriving DecidableEq, Repr

/-- The session after a rollback. -/
def RollbackAnswer.session (s : DbSession ω) : RollbackAnswer → DbSession ω
  | .ok => ⟨[], false⟩
  | .kept => s
  | .dropped inTransaction => ⟨[], inTransaction⟩

inductive UowError
  | runtimeError (message : String)
  | typeError (message : String)
  /-- What the session or a callback raised. -/
  | raised
  deriving DecidableEq, Repr

/-- What has happened to a unit of work: registrations, successful commits of the session, callbacks
that ran, calls of `session.rollback()` and `session.close()`. A close knows the writes it finds. -/
inductive UowEvent (ω : Type*)
  | registered (ticket : Nat)
  | committed
  | ran (ticket : Nat) (raised : Bool)
  | rolledBack (ok : Bool)
  | closed (left : List ω) (ok : Bool)
  deriving DecidableEq, Repr

/-- `SqlAlchemyUnitOfWork`, with the number of registrations, the committed writes and the log. -/
structure Uow (ω : Type*) where
  session : Option (DbSession ω) := none
  callbacks : List Nat := []
  used : Bool := false
  needsRollback : Bool := false
  registered : Nat := 0
  durable : List ω := []
  log : List (UowEvent ω) := []
  deriving DecidableEq, Repr

namespace Uow

def notActive : UowError := .runtimeError "unit of work is not active"

/-- `__aenter__`; the factory may raise. -/
def enter (opens : Bool) (u : Uow ω) : Uow ω × Except UowError Unit :=
  if u.used then (u, .error (.runtimeError "unit of work instances cannot be reused"))
  else if opens then
    ({ u with used := true, session := some ⟨[], false⟩, needsRollback := true }, .ok ())
  else ({ u with used := true }, .error .raised)

/-- A statement on the session with the writes it makes, none for a query. -/
def work (writes : List ω) (u : Uow ω) : Uow ω × Except UowError Unit :=
  match u.session with
  | none => (u, .error notActive)
  | some s => ({ u with session := some ⟨s.pending ++ writes, true⟩ }, .ok ())

/-- `after_commit`. -/
def afterCommit (callable : Bool) (u : Uow ω) : Uow ω × Except UowError Unit :=
  match u.session with
  | none => (u, .error notActive)
  | some _ =>
    if callable then
      ({ u with callbacks := u.callbacks ++ [u.registered], registered := u.registered + 1
                log := u.log ++ [.registered u.registered] }, .ok ())
    else (u, .error (.typeError "post-commit callback must be callable"))

/-- What a callback does with the unit of work. -/
inductive Act (ω : Type*)
  | work (writes : List ω)
  | afterCommit (callable : Bool)
  deriving DecidableEq, Repr

def act (u : Uow ω) : Act ω → Uow ω
  | .work writes => (u.work writes).1
  | .afterCommit callable => (u.afterCommit callable).1

/-- A callback's run: what it does, and whether it raises in the end. -/
structure Behaviour (ω : Type*) where
  acts : List (Act ω)
  raises : Bool
  deriving DecidableEq, Repr

/-- The loop of `commit` over the callbacks that were queued. -/
def drain (behave : Nat → Behaviour ω) : List Nat → Uow ω → Uow ω × Except UowError Unit
  | [], u => (u, .ok ())
  | ticket :: rest, u =>
    let u := (behave ticket).acts.foldl act
      { u with log := u.log ++ [.ran ticket (behave ticket).raises] }
    if (behave ticket).raises then (u, .error .raised) else drain behave rest u

/-- `commit`. -/
def commit (answer : CommitAnswer) (behave : Nat → Behaviour ω) (u : Uow ω) :
    Uow ω × Except UowError Unit :=
  match u.session with
  | none => (u, .error notActive)
  | some s =>
    match answer with
    | .ok =>
      -- the queue is copied and emptied first, so what a callback registers is not run here
      drain behave u.callbacks
        { u with session := some ⟨[], false⟩, durable := u.durable ++ s.pending
                 needsRollback := false, callbacks := [], log := u.log ++ [.committed] }
    | .kept => (u, .error .raised)
    | .dropped inTransaction => ({ u with session := some ⟨[], inTransaction⟩ }, .error .raised)
    | .taken inTransaction =>
      ({ u with session := some ⟨[], inTransaction⟩, durable := u.durable ++ s.pending },
        .error .raised)

/-- `rollback`. -/
def rollback (answer : RollbackAnswer) (u : Uow ω) : Uow ω × Except UowError Unit :=
  match u.session with
  | none => (u, .error notActive)
  | some s =>
    let u := { u with session := some (answer.session s), callbacks := []
                      log := u.log ++ [.rolledBack (answer = .ok)] }
    if answer = .ok then ({ u with needsRollback := false }, .ok ()) else (u, .error .raised)

/-- `__aexit__`. An exception of the rollback or of the close is raised after the session is given
up. -/
def exit (answer : RollbackAnswer) (closes : Bool) (u : Uow ω) : Uow ω × Except UowError Unit :=
  match u.session with
  | none => (u, .error notActive)
  | some s =>
    if u.needsRollback || s.inTransaction then
      ({ u with session := none, callbacks := [], needsRollback := false
                log := u.log ++ [.rolledBack (answer = .ok),
                  .closed (answer.session s).pending closes] },
        if answer = .ok && closes then .ok () else .error .raised)
    else
      ({ u with session := none, callbacks := [], needsRollback := false
                log := u.log ++ [.closed s.pending closes] },
        if closes then .ok () else .error .raised)

/-- The calls that can be made, in any order. -/
inductive Call (ω : Type*)
  | enter (opens : Bool)
  | work (writes : List ω)
  | afterCommit (callable : Bool)
  | commit (answer : CommitAnswer) (behave : Nat → Behaviour ω)
  | rollback (answer : RollbackAnswer)
  | exit (answer : RollbackAnswer) (closes : Bool)

def call (u : Uow ω) : Call ω → Uow ω
  | .enter opens => (u.enter opens).1
  | .work writes => (u.work writes).1
  | .afterCommit callable => (u.afterCommit callable).1
  | .commit answer behave => (u.commit answer behave).1
  | .rollback answer => (u.rollback answer).1
  | .exit answer closes => (u.exit answer closes).1

/-- The unit of work after some calls. -/
def run (calls : List (Call ω)) : Uow ω := calls.foldl call {}

end Uow

/-! ## The log -/

def UowEvent.ranTicket : UowEvent ω → Option Nat
  | .ran ticket _ => some ticket
  | _ => none

/-- The registrations that have run. -/
def ranTickets (log : List (UowEvent ω)) : List Nat := log.filterMap UowEvent.ranTicket

/-- An event later than the callbacks in the queue: it empties it, or adds to it. -/
def queueAfter (queue : List Nat) : UowEvent ω → List Nat
  | .registered ticket => queue ++ [ticket]
  | .ran _ _ => queue
  | .committed | .rolledBack _ | .closed _ _ => []

/-- The registrations, in order, since the last successful commit, rollback or close. -/
def queued (log : List (UowEvent ω)) : List Nat := log.foldl queueAfter []

/-- A commit that is running callbacks registers and runs callbacks, none of which has raised. -/
def UowEvent.inDrain : UowEvent ω → Prop
  | .registered _ => True
  | .ran _ raised => raised = false
  | _ => False

def UowEvent.isClosed : UowEvent ω → Bool
  | .closed _ _ => true
  | _ => false

/-- After `log` a commit has run callbacks it found in the queue, and `rest` is what it has left. -/
def Draining (log : List (UowEvent ω)) (rest : List Nat) : Prop :=
  ∃ start during, log = start ++ .committed :: during ∧ (∀ e ∈ during, e.inDrain) ∧
    queued start = ranTickets during ++ rest

/-- A callback runs in the first successful commit after its registration, with no rollback between,
as the next in the queue that the commit found. -/
def RunsInCommit (log : List (UowEvent ω)) : Prop :=
  ∀ before ticket raised after, log = before ++ .ran ticket raised :: after →
    ∃ rest, Draining before (ticket :: rest)

/-- Nothing comes after a close, and it finds no writes but those that a rollback failed to drop. -/
def ClosedLast (log : List (UowEvent ω)) : Prop :=
  ∀ before left ok after, log = before ++ .closed left ok :: after →
    after = [] ∧ (∀ e ∈ before, e.isClosed = false) ∧
      (left ≠ [] → ∃ earlier, before = earlier ++ [.rolledBack false])

@[simp] theorem ranTickets_append (log log' : List (UowEvent ω)) :
    ranTickets (log ++ log') = ranTickets log ++ ranTickets log' := List.filterMap_append

theorem ranTickets_other {log : List (UowEvent ω)} {e : UowEvent ω} (h : e.ranTicket = none) :
    ranTickets (log ++ [e]) = ranTickets log := by
  rw [ranTickets_append, ranTickets, ranTickets, List.filterMap_cons_none h, List.filterMap_nil,
    List.append_nil]

@[simp] theorem queued_snoc (log : List (UowEvent ω)) (e : UowEvent ω) :
    queued (log ++ [e]) = queueAfter (queued log) e := by
  simp [queued]

/-- An entry of a longer log is one of the log, or the last. -/
theorem snoc_eq_append_cons {α : Type*} {log before after : List α} {e e' : α}
    (h : log ++ [e] = before ++ e' :: after) :
    (after = [] ∧ e' = e ∧ before = log) ∨ ∃ after', after = after' ++ [e] ∧
      log = before ++ e' :: after' := by
  induction after using List.reverseRecOn with
  | nil =>
    obtain ⟨rfl, hlast⟩ := List.append_inj' h rfl
    cases hlast
    exact .inl ⟨rfl, rfl, rfl⟩
  | append_singleton after last _ =>
    rw [← List.cons_append, ← List.append_assoc] at h
    obtain ⟨rfl, hlast⟩ := List.append_inj' h rfl
    cases hlast
    exact .inr ⟨after, rfl, rfl⟩

theorem RunsInCommit.snoc {log : List (UowEvent ω)} {e : UowEvent ω} (h : RunsInCommit log)
    (he : ∀ ticket raised, e = .ran ticket raised → ∃ rest, Draining log (ticket :: rest)) :
    RunsInCommit (log ++ [e]) := by
  intro before ticket raised after hlog
  rcases snoc_eq_append_cons hlog with ⟨-, heq, rfl⟩ | ⟨after', -, hlog⟩
  · exact he ticket raised heq.symm
  · exact h before ticket raised after' hlog

/-- While the session is open, nothing is closed. -/
theorem closedLast_of_open {log : List (UowEvent ω)} (h : ∀ e ∈ log, e.isClosed = false) :
    ClosedLast log := by
  intro before left ok after hlog
  have hclosed := h (.closed left ok) (by rw [hlog]; simp)
  cases hclosed

theorem ClosedLast.close {log : List (UowEvent ω)} {left : List ω} {ok : Bool}
    (h : ∀ e ∈ log, e.isClosed = false)
    (hleft : left ≠ [] → ∃ earlier, log = earlier ++ [.rolledBack false]) :
    ClosedLast (log ++ [.closed left ok]) := by
  intro before left' ok' after hlog
  rcases snoc_eq_append_cons hlog with ⟨rfl, heq, rfl⟩ | ⟨after', -, hlog⟩
  · cases heq
    exact ⟨rfl, h, hleft⟩
  · exact absurd (h (.closed left' ok') (by rw [hlog]; simp)) (by simp [UowEvent.isClosed])

/-- A commit runs the next callback. -/
theorem Draining.ran {log : List (UowEvent ω)} {ticket : Nat} {rest : List Nat}
    (h : Draining log (ticket :: rest)) : Draining (log ++ [.ran ticket false]) rest := by
  obtain ⟨start, during, rfl, hduring, hqueued⟩ := h
  refine ⟨start, during ++ [.ran ticket false], by simp, ?_,
    by simp [hqueued, ranTickets, UowEvent.ranTicket]⟩
  rw [List.forall_mem_append, List.forall_mem_singleton]
  exact ⟨hduring, rfl⟩

/-- A callback registers another. -/
theorem Draining.registered {log : List (UowEvent ω)} {ticket : Nat} {rest : List Nat}
    (h : Draining log rest) : Draining (log ++ [.registered ticket]) rest := by
  obtain ⟨start, during, rfl, hduring, hqueued⟩ := h
  refine ⟨start, during ++ [.registered ticket], by simp, ?_,
    by simp [hqueued, ranTickets, UowEvent.ranTicket]⟩
  rw [List.forall_mem_append, List.forall_mem_singleton]
  exact ⟨hduring, trivial⟩

/-! ## The invariant -/

/-- The callbacks `rest` that a commit has still to run and those in the queue are different
registrations that have not run. -/
structure Waiting (rest callbacks : List Nat) (registered : Nat) (log : List (UowEvent ω)) :
    Prop where
  queue : callbacks = queued log
  nodup : (ranTickets log ++ (rest ++ callbacks)).Nodup
  fresh : ∀ ticket ∈ ranTickets log ++ (rest ++ callbacks), ticket < registered
  in_commit : RunsInCommit log

section
variable {rest callbacks : List Nat} {registered ticket : Nat} {log : List (UowEvent ω)}

/-- Callbacks that a commit gives up do not run. -/
theorem Waiting.discard (h : Waiting rest callbacks registered log) :
    Waiting [] callbacks registered log where
  queue := h.queue
  nodup := h.nodup.sublist (List.Sublist.append_left (List.sublist_append_right rest callbacks) _)
  fresh := by
    intro ticket hticket
    refine h.fresh ticket ?_
    rw [List.mem_append] at hticket ⊢
    exact hticket.imp_right fun hmem => List.mem_append_right _ hmem
  in_commit := h.in_commit

theorem Waiting.register (h : Waiting rest callbacks registered log) :
    Waiting rest (callbacks ++ [registered]) (registered + 1)
      (log ++ [.registered registered]) where
  queue := by rw [queued_snoc, ← h.queue]; rfl
  nodup := by
    have hnew : registered ∉ ranTickets log ++ (rest ++ callbacks) :=
      fun hmem => Nat.lt_irrefl _ (h.fresh _ hmem)
    rw [ranTickets_other rfl, ← List.append_assoc rest, ← List.append_assoc]
    exact List.nodup_append.2 ⟨h.nodup, List.nodup_singleton _, by
      rintro a ha b hb rfl
      rw [List.mem_singleton] at hb
      exact hnew (hb ▸ ha)⟩
  fresh := by
    intro ticket hticket
    rw [ranTickets_other rfl, ← List.append_assoc rest, ← List.append_assoc, List.mem_append,
      List.mem_singleton] at hticket
    rcases hticket with hold | rfl
    · exact Nat.lt_succ_of_lt (h.fresh _ hold)
    · exact Nat.lt_succ_self _
  in_commit := h.in_commit.snoc fun _ _ heq => by cases heq

/-- A commit runs the next callback. -/
theorem Waiting.run {raised : Bool} (h : Waiting (ticket :: rest) callbacks registered log)
    (hdrain : Draining log (ticket :: rest)) :
    Waiting rest callbacks registered (log ++ [.ran ticket raised]) where
  queue := by rw [queued_snoc, ← h.queue]; rfl
  nodup := by
    rw [ranTickets_append, List.append_assoc]
    exact h.nodup
  fresh := by
    rw [ranTickets_append, List.append_assoc]
    exact h.fresh
  in_commit := by
    refine h.in_commit.snoc fun _ _ heq => ?_
    cases heq
    exact ⟨rest, hdrain⟩

/-- The queue is emptied, and a commit may go on to run what was in it. -/
theorem Waiting.clear {e : UowEvent ω} (h : Waiting [] callbacks registered log)
    (hran : e.ranTicket = none) (hqueue : ∀ queue, queueAfter queue e = []) :
    Waiting callbacks [] registered (log ++ [e]) where
  queue := by rw [queued_snoc, hqueue]
  nodup := by
    rw [ranTickets_other hran, List.append_nil]
    exact h.nodup
  fresh := by
    rw [ranTickets_other hran, List.append_nil]
    exact h.fresh
  in_commit := by
    refine h.in_commit.snoc fun _ _ heq => ?_
    rw [heq] at hran
    cases hran

/-- A commit that succeeds has the whole queue to run. -/
theorem Waiting.draining (h : Waiting rest callbacks registered log) :
    Draining (log ++ [.committed]) callbacks :=
  ⟨log, [], rfl, by simp, h.queue.symm⟩

/-- A session with writes is in a transaction, also after a rollback that failed. -/
theorem RollbackAnswer.pending {s : DbSession ω} (answer : RollbackAnswer)
    (h : s.pending ≠ [] → s.inTransaction = true) :
    (answer.session s).pending ≠ [] → (answer.session s).inTransaction = true := by
  cases answer with
  | ok | dropped => exact fun hne => absurd rfl hne
  | kept => exact h

end

namespace Uow

/-- A unit of work with the callbacks `rest` that a commit has still to run. -/
structure Inv (rest : List Nat) (u : Uow ω) : Prop where
  waiting : Waiting rest u.callbacks u.registered u.log
  closed_last : ClosedLast u.log
  used : u.session.isSome = true → u.used = true
  opened : u.session.isSome = true ∨ u.used = false → ∀ e ∈ u.log, e.isClosed = false
  pending : ∀ s, u.session = some s → s.pending ≠ [] → s.inTransaction = true

section
variable {u : Uow ω} {rest : List Nat}

theorem Inv.initial : Inv [] ({} : Uow ω) where
  waiting := ⟨rfl, List.nodup_nil, by simp [ranTickets], by simp [RunsInCommit]⟩
  closed_last := by simp [ClosedLast]
  used := by simp
  opened := by simp
  pending := by simp

theorem Inv.enter {opens : Bool} (h : Inv rest u) : Inv rest (u.enter opens).1 := by
  unfold Uow.enter
  split
  · exact h
  · next hused =>
    have hnew : u.used = false := by simpa using hused
    split
    · refine { h with used := fun _ => rfl, opened := fun _ => h.opened (.inr hnew), pending := ?_ }
      rintro s ⟨⟩ hne
      exact absurd rfl hne
    · exact { h with used := fun _ => rfl, opened := fun _ => h.opened (.inr hnew) }

theorem Inv.work {writes : List ω} (h : Inv rest u) : Inv rest (u.work writes).1 := by
  unfold Uow.work
  split
  · exact h
  · next s hs =>
    have hopen : u.session.isSome = true := by rw [hs]; rfl
    refine { h with used := fun _ => h.used hopen, opened := fun _ => h.opened (.inl hopen)
                    pending := ?_ }
    rintro _ ⟨⟩ _
    rfl

theorem Inv.afterCommit {callable : Bool} (h : Inv rest u) :
    Inv rest (u.afterCommit callable).1 := by
  unfold Uow.afterCommit
  split
  · exact h
  · next s hs =>
    have hclosed : ∀ e ∈ u.log ++ [.registered u.registered], e.isClosed = false := by
      rw [List.forall_mem_append, List.forall_mem_singleton]
      exact ⟨h.opened (.inl (by rw [hs]; rfl)), rfl⟩
    split
    · exact { h with waiting := h.waiting.register, closed_last := closedLast_of_open hclosed
                     opened := fun _ => hclosed }
    · exact h

theorem Inv.act (a : Act ω) (h : Inv rest u) : Inv rest (u.act a) := by
  cases a with
  | work writes => exact h.work
  | afterCommit callable => exact h.afterCommit

/-- A callback does not close the session and leaves what the commit has to run. -/
theorem act_draining (a : Act ω) (hopen : u.session.isSome = true) (h : Draining u.log rest) :
    (u.act a).session.isSome = true ∧ Draining (u.act a).log rest := by
  obtain ⟨s, hs⟩ := Option.isSome_iff_exists.1 hopen
  cases a with
  | work writes =>
    rw [Uow.act, Uow.work, hs]
    exact ⟨rfl, h⟩
  | afterCommit callable =>
    rw [Uow.act, Uow.afterCommit, hs]
    cases callable with
    | true => exact ⟨rfl, h.registered⟩
    | false => exact ⟨hopen, h⟩

theorem Inv.acts (acts : List (Act ω)) (h : Inv rest u) : Inv rest (acts.foldl Uow.act u) := by
  induction acts generalizing u with
  | nil => exact h
  | cons a acts ih => exact ih (h.act a)

theorem acts_draining (acts : List (Act ω)) (hopen : u.session.isSome = true)
    (h : Draining u.log rest) : (acts.foldl Uow.act u).session.isSome = true ∧
      Draining (acts.foldl Uow.act u).log rest := by
  induction acts generalizing u with
  | nil => exact ⟨hopen, h⟩
  | cons a acts ih =>
    obtain ⟨hopen, h⟩ := act_draining a hopen h
    exact ih hopen h

/-- The loop of `commit`: by induction over the callbacks that are left. -/
theorem Inv.drain {behave : Nat → Behaviour ω} (h : Inv rest u)
    (hopen : u.session.isSome = true) (hdrain : Draining u.log rest) :
    Inv [] (Uow.drain behave rest u).1 := by
  induction rest generalizing u with
  | nil => exact h
  | cons ticket rest ih =>
    have hclosed : ∀ e ∈ u.log ++ [.ran ticket (behave ticket).raises], e.isClosed = false := by
      rw [List.forall_mem_append, List.forall_mem_singleton]
      exact ⟨h.opened (.inl hopen), rfl⟩
    have hran : Inv rest { u with log := u.log ++ [.ran ticket (behave ticket).raises] } :=
      { h with waiting := h.waiting.run hdrain, closed_last := closedLast_of_open hclosed
               opened := fun _ => hclosed }
    have hacts := hran.acts (behave ticket).acts
    rw [Uow.drain]
    cases hraises : (behave ticket).raises with
    | true =>
      rw [hraises] at hacts
      exact { hacts with waiting := hacts.waiting.discard }
    | false =>
      rw [hraises] at hacts
      obtain ⟨hopen, hdrain⟩ := acts_draining (behave ticket).acts
        (u := { u with log := u.log ++ [.ran ticket false] }) hopen hdrain.ran
      exact ih hacts hopen hdrain

theorem Inv.commit {answer : CommitAnswer} {behave : Nat → Behaviour ω} (h : Inv [] u) :
    Inv [] (u.commit answer behave).1 := by
  unfold Uow.commit
  split
  · exact h
  · next s hs =>
    have hopen : u.session.isSome = true := by rw [hs]; rfl
    have hclean : ∀ (inTransaction : Bool) (s : DbSession ω),
        some (⟨[], inTransaction⟩ : DbSession ω) = some s → s.pending ≠ [] →
          s.inTransaction = true := by
      rintro _ _ ⟨⟩ hne
      exact absurd rfl hne
    cases answer with
    | ok =>
      have hclosed : ∀ e ∈ u.log ++ [.committed], e.isClosed = false := by
        rw [List.forall_mem_append, List.forall_mem_singleton]
        exact ⟨h.opened (.inl hopen), rfl⟩
      refine Inv.drain ?_ rfl h.waiting.draining
      exact { waiting := h.waiting.clear rfl fun _ => rfl
              closed_last := closedLast_of_open hclosed
              used := fun _ => h.used hopen
              opened := fun _ => hclosed
              pending := hclean false }
    | kept => exact h
    | dropped inTransaction | taken inTransaction =>
      exact { h with used := fun _ => h.used hopen, opened := fun _ => h.opened (.inl hopen)
                     pending := hclean inTransaction }

theorem Inv.rollback {answer : RollbackAnswer} (h : Inv [] u) : Inv [] (u.rollback answer).1 := by
  unfold Uow.rollback
  split
  · exact h
  · next s hs =>
    have hopen : u.session.isSome = true := by rw [hs]; rfl
    have hclosed : ∀ e ∈ u.log ++ [.rolledBack (answer = .ok)], e.isClosed = false := by
      rw [List.forall_mem_append, List.forall_mem_singleton]
      exact ⟨h.opened (.inl hopen), rfl⟩
    have hrolled : Inv [] { u with session := some (answer.session s), callbacks := []
                                   log := u.log ++ [.rolledBack (answer = .ok)] } :=
      { waiting := (h.waiting.clear rfl fun _ => rfl).discard
        closed_last := closedLast_of_open hclosed
        used := fun _ => h.used hopen
        opened := fun _ => hclosed
        pending := by
          rintro _ ⟨⟩
          exact answer.pending (h.pending s hs) }
    split
    · exact { hrolled with }
    · exact hrolled

/-- An exit that rolls back, for any close. -/
theorem exit_rollback {answer : RollbackAnswer} {closes : Bool} {s : DbSession ω}
    (hs : u.session = some s) (hrolls : (u.needsRollback || s.inTransaction) = true) :
    (u.exit answer closes).1 = { u with
      session := none, callbacks := [], needsRollback := false
      log := u.log ++ [.rolledBack (answer = .ok)] ++
        [.closed (answer.session s).pending closes] } := by
  rw [Uow.exit, hs]
  dsimp only
  rw [if_pos hrolls, List.append_assoc]
  rfl

theorem exit_clean {answer : RollbackAnswer} {closes : Bool} {s : DbSession ω}
    (hs : u.session = some s) (hrolls : (u.needsRollback || s.inTransaction) = false) :
    (u.exit answer closes).1 = { u with
      session := none, callbacks := [], needsRollback := false
      log := u.log ++ [.closed s.pending closes] } := by
  rw [Uow.exit, hs]
  dsimp only
  rw [if_neg (by simp [hrolls])]

/-- Without a rollback there is nothing to roll back. -/
theorem Inv.pending_nil {s : DbSession ω} (h : Inv rest u) (hs : u.session = some s)
    (hrolls : (u.needsRollback || s.inTransaction) = false) : s.pending = [] := by
  rw [Bool.or_eq_false_iff] at hrolls
  by_contra hne
  rw [h.pending s hs hne] at hrolls
  exact Bool.noConfusion hrolls.2

theorem Inv.exit {answer : RollbackAnswer} {closes : Bool} (h : Inv [] u) :
    Inv [] (u.exit answer closes).1 := by
  cases hs : u.session with
  | none =>
    rw [Uow.exit, hs]
    exact h
  | some s =>
    have hopen : u.session.isSome = true := by rw [hs]; rfl
    have hused : u.used = true := h.used hopen
    cases hrolls : u.needsRollback || s.inTransaction with
    | true =>
      have hrolled := (h.waiting.clear (e := .rolledBack (answer = .ok)) rfl fun _ => rfl).discard
      have hclosed : ∀ e ∈ u.log ++ [.rolledBack (answer = .ok)], e.isClosed = false := by
        rw [List.forall_mem_append, List.forall_mem_singleton]
        exact ⟨h.opened (.inl hopen), rfl⟩
      rw [exit_rollback hs hrolls]
      refine ⟨(hrolled.clear rfl fun _ => rfl).discard, .close hclosed ?_, by simp,
        by simp [hused], by simp⟩
      intro hleft
      cases answer with
      | ok | dropped => exact absurd rfl hleft
      | kept => exact ⟨u.log, rfl⟩
    | false =>
      rw [exit_clean hs hrolls, h.pending_nil hs hrolls]
      exact ⟨(h.waiting.clear rfl fun _ => rfl).discard,
        .close (h.opened (.inl hopen)) fun hleft => absurd rfl hleft, by simp, by simp [hused],
        by simp⟩

theorem Inv.call (c : Call ω) (h : Inv [] u) : Inv [] (u.call c) := by
  cases c with
  | enter opens => exact h.enter
  | work writes => exact h.work
  | afterCommit callable => exact h.afterCommit
  | commit answer behave => exact h.commit
  | rollback answer => exact h.rollback
  | exit answer closes => exact h.exit

theorem Inv.calls (calls : List (Call ω)) (h : Inv [] u) : Inv [] (calls.foldl Uow.call u) := by
  induction calls generalizing u with
  | nil => exact h
  | cons c calls ih => exact ih (h.call c)

/-- A callback runs with the commit after its registration. -/
example : ranTickets (run [.enter true, .work [1], .afterCommit true,
    .commit .ok fun _ => ⟨[], false⟩] : Uow Nat).log = [0] := by decide

/-- The second callback raises: the third is given up, and the one the first registers runs with the
next commit. -/
example : ranTickets (run [.enter true, .work [1], .afterCommit true, .afterCommit true,
    .afterCommit true,
    .commit .ok fun ticket => ⟨if ticket = 0 then [.afterCommit true] else [], ticket = 1⟩,
    .commit .ok fun _ => ⟨[], false⟩, .exit .ok true] : Uow Nat).log = [0, 1, 3] := by decide

end

end Uow

end Ekumidayomi
