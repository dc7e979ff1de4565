import Ekumidayomi.Lib.Run
import Ekumidayomi.Lib.Txn

/-!
# Threads that run transaction programs against one database

Each call starts a thread. The threads take their steps in any order: a lock is granted when no
other thread holds it, a commit makes the writes of the transaction visible to all at one instant,
and a thread may crash at any step, which loses what it has not committed (`Step`). `Sys.exec` is
the same system as a function, for runs that are given act by act.

When every program meets its `wp`, so does every thread in every state of every run (`Good`): what
the record of a thread makes certain is true of the committed database, locks exclude each other,
and a commit satisfies the property that `wp` asks for (`Good.commit`). Identifiers are drawn once:
one that has come into the database is never brought in again (`Spent`).
-/

namespace Transact

variable {S : Schema} {C ε α : Type}

/-- What a thread is doing. -/
inductive Status (S : Schema) (ε α : Type)
  | running (p : Prog S ε α)
  | answered (result : Except ε α)
  | crashed

structure Thread (S : Schema) (C ε α : Type) where
  call : C
  status : Status S ε α
  ctx : Ctx S := {}

/-- The committed database, the clock, the identifiers drawn so far and the threads, each at the
position where it was started. -/
structure Sys (S : Schema) (C ε α : Type) where
  db : S.Db
  clock : Int
  drawn : List S.Id := []
  threads : List (Thread S C ε α) := []

inductive Act (S : Schema) (C : Type)
  | start (call : C)
  | tick (t : Int)
  | advance (i : Nat)
  | draw (i : Nat) (id : S.Id)
  | pick (i : Nat) (text : String)
  | commit (i : Nat)
  | crash (i : Nat)

/-- No thread but the `i`th holds the lock. -/
def Sys.Free (s : Sys S C ε α) (i : Nat) (k : S.Key) : Prop :=
  ∀ (j : Nat) (t : Thread S C ε α), s.threads[j]? = some t → j ≠ i → k ∉ t.ctx.held

def Sys.put (s : Sys S C ε α) (i : Nat) (t : Thread S C ε α) : Sys S C ε α :=
  { s with threads := s.threads.set i t }

/-- The thread goes on with the program `p` and the record `c`. -/
def Thread.goto (t : Thread S C ε α) (p : Prog S ε α) (c : Ctx S) : Thread S C ε α :=
  { t with status := .running p, ctx := c }

/-- The thread ends, and its transaction with it. -/
def Thread.stop (t : Thread S C ε α) (status : Status S ε α) : Thread S C ε α :=
  { t with status, ctx := t.ctx.release }

/-- One step of one thread that changes nothing but the thread. -/
inductive Thread.Step (s : Sys S C ε α) (i : Nat) (t : Thread S C ε α) :
    Act S C → Thread S C ε α → Prop
  | ret {a : α} : t.status = .running (.ret a) →
      Step s i t (.advance i) (t.stop (.answered (.ok a)))
  | throw {e : ε} : t.status = .running (.throw e) →
      Step s i t (.advance i) (t.stop (.answered (.error e)))
  | lock {k : S.Key} {p : Prog S ε α} : t.status = .running (.lock k p) → s.Free i k →
      Step s i t (.advance i) (t.goto p (t.ctx.hold k))
  | read {f : S.Db → Prog S ε α} : t.status = .running (.read f) →
      Step s i t (.advance i) (t.goto (f (t.ctx.view s.db)) (t.ctx.observe s.db s.clock))
  | write {op : S.Op} {p : Prog S ε α} : t.status = .running (.write op p) →
      Step s i t (.advance i) (t.goto p (t.ctx.push op))
  | now {f : Int → Prog S ε α} : t.status = .running (.now f) →
      Step s i t (.advance i) (t.goto (f s.clock) (t.ctx.time s.clock))
  | random {f : String → Prog S ε α} {text : String} : t.status = .running (.random f) →
      Step s i t (.pick i text) (t.goto (f text) t.ctx)
  | note {n : S.Note} {p : Prog S ε α} : t.status = .running (.note n p) →
      Step s i t (.advance i) (t.goto p (t.ctx.mark n))
  | rollback {p : Prog S ε α} : t.status = .running (.rollback p) →
      Step s i t (.advance i) (t.goto p t.ctx.release)
  | crash {p : Prog S ε α} : t.status = .running p → Step s i t (.crash i) (t.stop .crashed)

/-- One step of the system. -/
inductive Step (code : C → Prog S ε α) (s : Sys S C ε α) : Act S C → Sys S C ε α → Prop
  | start {call : C} : Step code s (.start call)
      { s with threads := s.threads ++ [{ call, status := .running (code call) }] }
  | tick {t : Int} : s.clock ≤ t → Step code s (.tick t) { s with clock := t }
  | thread {i : Nat} {t t' : Thread S C ε α} {a : Act S C} : s.threads[i]? = some t →
      Thread.Step s i t a t' → Step code s a (s.put i t')
  | draw {i : Nat} {t : Thread S C ε α} {f : S.Id → Prog S ε α} {id : S.Id} :
      s.threads[i]? = some t → t.status = .running (.fresh f) → id ∉ s.drawn →
      Step code s (.draw i id) { s.put i (t.goto (f id) (t.ctx.draw id)) with
        drawn := id :: s.drawn }
  | commit {i : Nat} {t : Thread S C ε α} {p : Prog S ε α} : s.threads[i]? = some t →
      t.status = .running (.commit p) →
      Step code s (.commit i) { s.put i (t.goto p t.ctx.commit) with db := t.ctx.view s.db }

/-! ## Running a schedule -/

section
variable [DecidableEq S.Key] [DecidableEq S.Id]

/-- The step of a thread, when it can take it. -/
def Thread.exec (s : Sys S C ε α) (i : Nat) (t : Thread S C ε α) : Option (Thread S C ε α) :=
  match t.status with
  | .running (.ret a) => some (t.stop (.answered (.ok a)))
  | .running (.throw e) => some (t.stop (.answered (.error e)))
  | .running (.lock k p) =>
    if s.threads.zipIdx.all (fun u => u.2 = i || k ∉ u.1.ctx.held) then
      some (t.goto p (t.ctx.hold k))
    else none
  | .running (.read f) => some (t.goto (f (t.ctx.view s.db)) (t.ctx.observe s.db s.clock))
  | .running (.write op p) => some (t.goto p (t.ctx.push op))
  | .running (.now f) => some (t.goto (f s.clock) (t.ctx.time s.clock))
  | .running (.note n p) => some (t.goto p (t.ctx.mark n))
  | .running (.rollback p) => some (t.goto p t.ctx.release)
  | _ => none

def Sys.exec (code : C → Prog S ε α) (s : Sys S C ε α) : Act S C → Option (Sys S C ε α)
  | .start call =>
    some { s with threads := s.threads ++ [{ call, status := .running (code call) }] }
  | .tick t => if s.clock ≤ t then some { s with clock := t } else none
  | .advance i => do
    let t ← s.threads[i]?
    let t' ← t.exec s i
    return s.put i t'
  | .draw i id => do
    let t ← s.threads[i]?
    match t.status with
    | .running (.fresh f) => if id ∈ s.drawn then none else
        some { s.put i (t.goto (f id) (t.ctx.draw id)) with drawn := id :: s.drawn }
    | _ => none
  | .pick i text => do
    let t ← s.threads[i]?
    match t.status with
    | .running (.random f) => some (s.put i (t.goto (f text) t.ctx))
    | _ => none
  | .commit i => do
    let t ← s.threads[i]?
    match t.status with
    | .running (.commit p) =>
      some { s.put i (t.goto p t.ctx.commit) with db := t.ctx.view s.db }
    | _ => none
  | .crash i => do
    let t ← s.threads[i]?
    match t.status with
    | .running _ => some (s.put i (t.stop .crashed))
    | _ => none

omit [DecidableEq S.Id] in
theorem Thread.exec_step {s : Sys S C ε α} {i : Nat} {t t' : Thread S C ε α}
    (h : t.exec s i = some t') : Thread.Step s i t (.advance i) t' := by
  rw [Thread.exec] at h
  split at h
  case h_3 k p hs =>
    obtain ⟨hall, he⟩ := Option.ite_none_right_eq_some.1 h
    cases he
    refine .lock hs fun j u hj hne => ?_
    have hu : (u, j) ∈ s.threads.zipIdx := List.mk_mem_zipIdx_iff_getElem?.2 hj
    simpa [hne] using List.all_eq_true.1 hall _ hu
  all_goals cases h
  case h_1 hs => exact .ret hs
  case h_2 hs => exact .throw hs
  case h_4 hs => exact .read hs
  case h_5 hs => exact .write hs
  case h_6 hs => exact .now hs
  case h_7 hs => exact .note hs
  case h_8 hs => exact .rollback hs

theorem Sys.exec_step {code : C → Prog S ε α} {s s' : Sys S C ε α} {a : Act S C}
    (h : s.exec code a = some s') : Step code s a s' := by
  cases a with
  | start call => cases h; exact .start
  | tick t =>
    obtain ⟨ht, he⟩ := Option.ite_none_right_eq_some.1 h
    cases he
    exact .tick ht
  | advance i =>
    simp only [Sys.exec, Option.bind_eq_bind, Option.bind_eq_some_iff] at h
    obtain ⟨t, ht, t', ht', he⟩ := h
    cases he
    exact .thread ht (Thread.exec_step ht')
  | draw i id =>
    simp only [Sys.exec, Option.bind_eq_bind, Option.bind_eq_some_iff] at h
    obtain ⟨t, ht, h⟩ := h
    split at h
    case h_1 f hs =>
      obtain ⟨hid, he⟩ := Option.ite_none_left_eq_some.1 h
      cases he
      exact .draw ht hs hid
    case h_2 => cases h
  | pick i text =>
    simp only [Sys.exec, Option.bind_eq_bind, Option.bind_eq_some_iff] at h
    obtain ⟨t, ht, h⟩ := h
    split at h
    case h_1 f hs => cases h; exact .thread ht (.random hs)
    case h_2 => cases h
  | commit i =>
    simp only [Sys.exec, Option.bind_eq_bind, Option.bind_eq_some_iff] at h
    obtain ⟨t, ht, h⟩ := h
    split at h
    case h_1 p hs => cases h; exact .commit ht hs
    case h_2 => cases h
  | crash i =>
    simp only [Sys.exec, Option.bind_eq_bind, Option.bind_eq_some_iff] at h
    obtain ⟨t, ht, h⟩ := h
    split at h
    case h_1 p hs => cases h; exact .thread ht (.crash hs)
    case h_2 => cases h

/-- The state after a schedule. -/
def Sys.execAll (code : C → Prog S ε α) (s : Sys S C ε α) (acts : List (Act S C)) :
    Option (Sys S C ε α) :=
  acts.foldlM (Sys.exec code) s

theorem Sys.execAll_run {code : C → Prog S ε α} {s s' : Sys S C ε α} {acts : List (Act S C)}
    (h : s.execAll code acts = some s') : Lts.Run (Step code) s acts s' := by
  induction acts using List.reverseRecOn generalizing s' with
  | nil => cases h; exact .nil
  | append_singleton acts a ih =>
    simp only [Sys.execAll, List.foldlM_append, List.foldlM_cons, List.foldlM_nil,
      Option.bind_eq_bind, Option.bind_eq_some_iff] at h
    obtain ⟨m, hm, m', hm', he⟩ := h
    cases he
    exact (ih hm).snoc (Sys.exec_step hm')

/-- An act that can be taken is a step. -/
theorem Sys.step_of_isSome {code : C → Prog S ε α} {s : Sys S C ε α} {a : Act S C}
    (h : (s.exec code a).isSome = true) : Step code s a ((s.exec code a).getD s) := by
  obtain ⟨s', hs'⟩ := Option.isSome_iff_exists.1 h
  rw [hs']
  exact Sys.exec_step hs'

/-- A schedule that can be followed is a run. -/
theorem Sys.run_of_isSome {code : C → Prog S ε α} {s : Sys S C ε α} {acts : List (Act S C)}
    (h : (s.execAll code acts).isSome = true) :
    Lts.Run (Step code) s acts ((s.execAll code acts).getD s) := by
  obtain ⟨s', hs'⟩ := Option.isSome_iff_exists.1 h
  rw [hs']
  exact Sys.execAll_run hs'

end

/-! ## Every thread meets its precondition -/

/-- The record `c` is a later one of the same transaction. -/
structure Ctx.Below (c' c : Ctx S) : Prop where
  held : c'.held ⊆ c.held
  reads : c'.reads ⊆ c.reads
  clocks : c'.clocks ⊆ c.clocks

/-- The record `c` is true of a system with this database, clock and identifiers. -/
structure Ctx.Sound (N : S.Note → Ctx S → Prop) (c : Ctx S) (db : S.Db) (clock : Int)
    (drawn : List S.Id) : Prop where
  sees : c.Sees db
  reads_held : ∀ r ∈ c.reads, r.held ⊆ c.held
  before : c.Before clock
  needs : ∀ op ∈ c.buf, ∀ k ∈ S.needs op, k ∈ c.held
  makes : ∀ op ∈ c.buf, ∀ id ∈ S.makes op, id ∈ c.drawn
  noted : ∀ n ∈ c.marks, ∃ c', Ctx.Below c' c ∧ N n c'
  drawn : ∀ id ∈ c.drawn, id ∈ drawn
  first : c.epoch = 0 → c.past = []

theorem Ctx.Sound.initial {N : S.Note → Ctx S → Prop} {db : S.Db} {clock : Int}
    {drawn : List S.Id} : Ctx.Sound N {} db clock drawn := by
  constructor <;> simp [Ctx.Sees, Ctx.Before]

theorem Ctx.Sound.release {N : S.Note → Ctx S → Prop} {c : Ctx S} {db : S.Db} {clock : Int}
    {drawn : List S.Id} : c.release.Sound N db clock drawn := by
  constructor <;> simp [Ctx.Sees, Ctx.Before, Ctx.release]

theorem Ctx.Sound.commit {N : S.Note → Ctx S → Prop} {c : Ctx S} {db : S.Db} {clock : Int}
    {drawn : List S.Id} : c.commit.Sound N db clock drawn := by
  constructor <;> simp [Ctx.Sees, Ctx.Before, Ctx.commit, Ctx.release]

section
variable (G : C → Ctx S → S.Db → Prop) (N : S.Note → Ctx S → Prop)
  (Q : C → α → Ctx S → Prop) (E : C → ε → Ctx S → Prop)

/-- The rest of the thread meets its precondition, and what it answered its postcondition. -/
def Thread.Ok (t : Thread S C ε α) : Prop :=
  match t.status with
  | .running p => wp (G t.call) N (Q t.call) (E t.call) p t.ctx
  | .answered (.ok a) => ∃ c, Q t.call a c ∧ t.ctx = c.release
  | .answered (.error e) => ∃ c, E t.call e c ∧ t.ctx = c.release
  | .crashed => True

/-- No two threads have something in common. -/
def Sys.Apart {κ : Type} (s : Sys S C ε α) (own : Thread S C ε α → List κ) : Prop :=
  ∀ (i j : Nat) (t t' : Thread S C ε α), i ≠ j → s.threads[i]? = some t →
    s.threads[j]? = some t' → ∀ k ∈ own t, k ∉ own t'

/-- The identifier has been drawn, and no transaction can bring it into the database any more. -/
def Sys.Spent (s : Sys S C ε α) (id : S.Id) : Prop :=
  id ∈ s.drawn ∧ ∀ t ∈ s.threads, id ∉ t.ctx.drawn

/-- What holds in every state of a system whose programs meet their preconditions. -/
structure Good (s : Sys S C ε α) : Prop where
  valid : S.valid s.db
  used : ∀ id, S.uses s.db id → id ∈ s.drawn
  ok : ∀ (i : Nat) (t : Thread S C ε α), s.threads[i]? = some t → t.Ok G N Q E
  sound : ∀ (i : Nat) (t : Thread S C ε α), s.threads[i]? = some t →
    t.ctx.Sound N s.db s.clock s.drawn
  apart : s.Apart fun t => t.ctx.held
  drawn_apart : s.Apart fun t => t.ctx.drawn
  read_spent : ∀ t ∈ s.threads, ∀ r ∈ t.ctx.reads, ∀ id, S.uses r.db id → s.Spent id

end

variable {G : C → Ctx S → S.Db → Prop} {N : S.Note → Ctx S → Prop}
  {Q : C → α → Ctx S → Prop} {E : C → ε → Ctx S → Prop}
  {code : C → Prog S ε α} {s s' : Sys S C ε α} {a : Act S C} {i : Nat} {t t' : Thread S C ε α}

theorem Good.initial (ht : s.threads = []) (hv : S.valid s.db)
    (hu : ∀ id, S.uses s.db id → id ∈ s.drawn) : Good G N Q E s where
  valid := hv
  used := hu
  ok := by simp [ht]
  sound := by simp [ht]
  apart := by simp [Sys.Apart, ht]
  drawn_apart := by simp [Sys.Apart, ht]
  read_spent := by simp [ht]

/-- A thread of the system after the `i`th has been replaced. -/
theorem Sys.get_put {j : Nat} {u : Thread S C ε α} (h : (s.put i t).threads[j]? = some u) :
    (j = i ∧ u = t) ∨ (j ≠ i ∧ s.threads[j]? = some u) := by
  rw [Sys.put, List.getElem?_set] at h
  by_cases hj : i = j
  · subst hj
    rw [if_pos rfl] at h
    split at h
    · cases h; exact .inl ⟨rfl, rfl⟩
    · cases h
  · rw [if_neg hj] at h
    exact .inr ⟨fun e => hj e.symm, h⟩

theorem Sys.get_put_self (h : s.threads[i]? = some t) : (s.put i t').threads[i]? = some t' := by
  rw [Sys.put, List.getElem?_set, if_pos rfl, if_pos (List.getElem?_eq_some_iff.1 h).1]

/-- Threads stay apart when one of them only gives up what it had, or takes what nobody has. -/
theorem Sys.Apart.put {κ : Type} {own : Thread S C ε α → List κ} (h : s.Apart own)
    (ht : s.threads[i]? = some t) (hnew : ∀ k ∈ own t', k ∈ own t ∨
      ∀ (j : Nat) (u : Thread S C ε α), s.threads[j]? = some u → j ≠ i → k ∉ own u) :
    (s.put i t').Apart own := by
  intro j l u u' hjl hu hu' k hk hk'
  rcases Sys.get_put hu with ⟨hj, rfl⟩ | ⟨hj, hold⟩
  · rcases Sys.get_put hu' with ⟨hl, -⟩ | ⟨hl, hold'⟩
    · exact hjl (hj.trans hl.symm)
    · rcases hnew k hk with hmine | hfree
      · exact h i l _ _ hl.symm ht hold' k hmine hk'
      · exact hfree _ _ hold' hl hk'
  · rcases Sys.get_put hu' with ⟨-, rfl⟩ | ⟨hl, hold'⟩
    · rcases hnew k hk' with hmine | hfree
      · exact h j i _ _ hj hold ht k hk hmine
      · exact hfree _ _ hold hj hk
    · exact h _ _ _ _ hjl hold hold' k hk hk'

theorem Sys.Spent.put {id : S.Id} (h : s.Spent id) (ht : s.threads[i]? = some t)
    (hsub : id ∈ t'.ctx.drawn → id ∈ t.ctx.drawn) : (s.put i t').Spent id := by
  refine ⟨h.1, fun u hu => ?_⟩
  rcases List.mem_or_eq_of_mem_set hu with hmem | rfl
  · exact h.2 u hmem
  · exact fun hmem => h.2 t (List.mem_of_getElem? ht) (hsub hmem)

/-- What the database uses has been drawn, and nobody holds it as new. -/
theorem Good.spent (h : Good G N Q E s) {id : S.Id} (hid : S.uses s.db id) : s.Spent id := by
  refine ⟨h.used id hid, fun t ht hmem => ?_⟩
  obtain ⟨i, hi⟩ := List.mem_iff_getElem?.1 ht
  exact (h.sound i t hi).sees.2 id hmem hid

/-- One thread is replaced, and nothing else changes. -/
theorem Good.put (h : Good G N Q E s) (ht : s.threads[i]? = some t) (hok : t'.Ok G N Q E)
    (hsound : t'.ctx.Sound N s.db s.clock s.drawn)
    (hheld : ∀ k ∈ t'.ctx.held, k ∈ t.ctx.held ∨ s.Free i k)
    (hdrawn : t'.ctx.drawn ⊆ t.ctx.drawn)
    (hreads : ∀ r ∈ t'.ctx.reads, r ∈ t.ctx.reads ∨ r.db = s.db) : Good G N Q E (s.put i t') where
  valid := h.valid
  used := h.used
  ok := by
    intro j u hu
    rcases Sys.get_put hu with ⟨-, rfl⟩ | ⟨-, hu⟩
    · exact hok
    · exact h.ok j u hu
  sound := by
    intro j u hu
    rcases Sys.get_put hu with ⟨-, rfl⟩ | ⟨-, hu⟩
    · exact hsound
    · exact h.sound j u hu
  apart := h.apart.put ht hheld
  drawn_apart := h.drawn_apart.put ht fun id hid => .inl (hdrawn hid)
  read_spent := by
    intro u hu r hr id hid
    refine Sys.Spent.put ?_ ht fun hmem => hdrawn hmem
    rcases List.mem_or_eq_of_mem_set hu with hmem | rfl
    · exact h.read_spent u hmem r hr id hid
    · rcases hreads r hr with hold | hnew
      · exact h.read_spent t (List.mem_of_getElem? ht) r hold id hid
      · exact h.spent (hnew ▸ hid)

/-- What a running thread owes. -/
theorem Good.owes (h : Good G N Q E s) {p : Prog S ε α} (ht : s.threads[i]? = some t)
    (hs : t.status = .running p) : wp (G t.call) N (Q t.call) (E t.call) p t.ctx := by
  have hok := h.ok i t ht
  rwa [Thread.Ok, hs] at hok

/-- The marks of a record are still justified when it grows. -/
theorem Ctx.Sound.noted_le {c c' : Ctx S} {db : S.Db} {clock : Int} {drawn : List S.Id}
    (h : c.Sound N db clock drawn) (hb : c.Below c') :
    ∀ n ∈ c.marks, ∃ c'', Ctx.Below c'' c' ∧ N n c'' := by
  intro n hn
  obtain ⟨c'', hc'', hN⟩ := h.noted n hn
  exact ⟨c'', ⟨fun _ hk => hb.held (hc''.held hk), fun _ hr => hb.reads (hc''.reads hr),
    fun _ hr => hb.clocks (hc''.clocks hr)⟩, hN⟩

/-- A step of one thread keeps the system good. -/
theorem Good.thread (h : Good G N Q E s) (ht : s.threads[i]? = some t)
    (hstep : Thread.Step s i t a t') : Good G N Q E (s.put i t') := by
  have hsound := h.sound i t ht
  have hend : ∀ status, (t.stop status).Ok G N Q E → Good G N Q E (s.put i (t.stop status)) :=
    fun status hok => h.put ht hok .release (by simp [Thread.stop, Ctx.release])
      (by simp [Thread.stop, Ctx.release]) (by simp [Thread.stop, Ctx.release])
  cases hstep with
  | ret hs => exact hend _ ⟨t.ctx, h.owes ht hs, rfl⟩
  | throw hs => exact hend _ ⟨t.ctx, h.owes ht hs, rfl⟩
  | crash hs => exact hend _ trivial
  | @lock key p hs hfree =>
    have hle : t.ctx.held ⊆ (t.ctx.hold key).held := List.subset_cons_self _ _
    have howes := h.owes ht hs
    refine h.put ht howes ?_ ?_ (fun _ hid => hid) (fun _ => .inl)
    · exact
        { hsound with
          reads_held := fun r hr => List.Subset.trans (hsound.reads_held r hr) hle
          needs := fun op hop k hk => hle (hsound.needs op hop k hk)
          noted := hsound.noted_le ⟨hle, fun _ hr => hr, fun _ hr => hr⟩ }
    · intro k hk
      rcases List.mem_cons.1 hk with rfl | hk
      · exact .inr hfree
      · exact .inl hk
  | read hs =>
    refine h.put ht (h.owes ht hs s.db s.clock h.valid hsound.sees hsound.before) ?_
      (fun _ => .inl) (fun _ hid => hid) fun r hr => ?_
    · exact
        { hsound with
          sees := ⟨List.forall_mem_cons.2 ⟨.refl _ _, hsound.sees.1⟩, hsound.sees.2⟩
          reads_held := List.forall_mem_cons.2 ⟨fun _ hk => hk, hsound.reads_held⟩
          before := ⟨hsound.before.1, List.forall_mem_cons.2 ⟨Int.le_refl _, hsound.before.2⟩⟩
          noted := hsound.noted_le ⟨fun _ hk => hk, List.subset_cons_self _ _, fun _ hr => hr⟩ }
    · rcases List.mem_cons.1 hr with rfl | hr
      · exact .inr rfl
      · exact .inl hr
  | write hs =>
    obtain ⟨hneeds, hmakes, hwp⟩ := h.owes ht hs
    refine h.put ht hwp ?_ (fun _ => .inl) (fun _ hid => hid) (fun _ => .inl)
    exact { hsound with
      needs := List.forall_mem_cons.2 ⟨hneeds, hsound.needs⟩
      makes := List.forall_mem_cons.2 ⟨hmakes, hsound.makes⟩
      noted := hsound.noted_le ⟨fun _ hk => hk, fun _ hr => hr, fun _ hr => hr⟩ }
  | now hs =>
    refine h.put ht (h.owes ht hs s.clock hsound.before) ?_ (fun _ => .inl) (fun _ hid => hid)
      (fun _ => .inl)
    exact { hsound with
      before := ⟨List.forall_mem_cons.2 ⟨Int.le_refl _, hsound.before.1⟩, hsound.before.2⟩
      noted := hsound.noted_le ⟨fun _ hk => hk, fun _ hr => hr, List.subset_cons_self _ _⟩ }
  | random hs =>
    exact h.put ht (h.owes ht hs _) hsound (fun _ => .inl) (fun _ hid => hid) (fun _ => .inl)
  | @note n p hs =>
    obtain ⟨hnote, hwp⟩ := h.owes ht hs
    refine h.put ht hwp ?_ (fun _ => .inl) (fun _ hid => hid) (fun _ => .inl)
    have hbelow : t.ctx.Below (t.ctx.mark n) := ⟨fun _ hk => hk, fun _ hr => hr, fun _ hr => hr⟩
    exact { hsound with
      noted := List.forall_mem_cons.2 ⟨⟨t.ctx, hbelow, hnote⟩, hsound.noted_le hbelow⟩ }
  | @rollback p hs =>
    have howes := h.owes ht hs
    have hok : Thread.Ok G N Q E (t.goto p t.ctx.release) := howes
    exact h.put ht hok .release (by simp [Thread.goto, Ctx.release])
      (by simp [Thread.goto, Ctx.release]) (by simp [Thread.goto, Ctx.release])

/-- A drawn identifier is new to everybody. -/
theorem Good.draw (h : Good G N Q E s) {f : S.Id → Prog S ε α} {id : S.Id}
    (ht : s.threads[i]? = some t) (hs : t.status = .running (.fresh f)) (hid : id ∉ s.drawn) :
    Good G N Q E { s.put i (t.goto (f id) (t.ctx.draw id)) with drawn := id :: s.drawn } := by
  have hsound := h.sound i t ht
  have hnew : id ∉ t.ctx.drawn := fun hmem => hid (hsound.drawn id hmem)
  exact
    { valid := h.valid
      used := fun x hx => List.mem_cons_of_mem _ (h.used x hx)
      ok := by
        intro j u hu
        rcases Sys.get_put hu with ⟨-, rfl⟩ | ⟨-, hu⟩
        · exact h.owes ht hs id hnew
        · exact h.ok j u hu
      sound := by
        intro j u hu
        rcases Sys.get_put hu with ⟨-, rfl⟩ | ⟨-, hu⟩
        · exact
            { hsound with
              sees := ⟨hsound.sees.1, List.forall_mem_cons.2
                ⟨fun hu => hid (h.used id hu), hsound.sees.2⟩⟩
              makes := fun op hop x hx => List.mem_cons_of_mem _ (hsound.makes op hop x hx)
              noted := hsound.noted_le ⟨fun _ hk => hk, fun _ hr => hr, fun _ hr => hr⟩
              drawn := List.forall_mem_cons.2
                ⟨List.mem_cons_self, fun x hx => List.mem_cons_of_mem _ (hsound.drawn x hx)⟩ }
        · exact { h.sound j u hu with
            drawn := fun x hx => List.mem_cons_of_mem _ ((h.sound j u hu).drawn x hx) }
      apart := h.apart.put ht fun _ => .inl
      drawn_apart := by
        refine h.drawn_apart.put ht fun x hx => ?_
        rcases List.mem_cons.1 hx with rfl | hx
        · exact .inr fun j u hu _ hmem => hid ((h.sound j u hu).drawn x hmem)
        · exact .inl hx
      read_spent := by
        intro u hu r hr x hx
        have hspent : s.Spent x := by
          rcases List.mem_or_eq_of_mem_set hu with hmem | rfl
          · exact h.read_spent u hmem r hr x hx
          · exact h.read_spent t (List.mem_of_getElem? ht) r hr x hx
        refine ⟨List.mem_cons_of_mem _ hspent.1, (hspent.put ht fun hmem => ?_).2⟩
        rcases List.mem_cons.1 hmem with rfl | hmem
        · exact absurd hspent.1 hid
        · exact hmem }

/-- To the others, a commit is a sequence of outside writes. -/
theorem Good.outside (h : Good G N Q E s) {j : Nat} {u : Thread S C ε α} {r : Read S}
    (ht : s.threads[i]? = some t) (hu : s.threads[j]? = some u) (hne : j ≠ i)
    (hr : r ∈ u.ctx.reads) : ∀ op ∈ t.ctx.buf, Outside r.held r.db op := by
  have hsound := h.sound i t ht
  refine fun op hop => ⟨fun k hk hmem => ?_, fun id hid huse => ?_⟩
  · exact h.apart i j t u hne.symm ht hu k (hsound.needs op hop k hk)
      ((h.sound j u hu).reads_held r hr hmem)
  · exact (h.read_spent u (List.mem_of_getElem? hu) r hr id huse).2 t (List.mem_of_getElem? ht)
      (hsound.makes op hop id hid)

/-- What a commit brings into the database, its thread has drawn. -/
theorem Good.uses_view (h : Good G N Q E s) {id : S.Id} (ht : s.threads[i]? = some t)
    (hid : S.uses (t.ctx.view s.db) id) : S.uses s.db id ∨ id ∈ t.ctx.drawn := by
  rcases S.uses_applyAll hid with hid | ⟨op, hop, hid⟩
  · exact .inl hid
  · exact .inr ((h.sound i t ht).makes op hop id hid)

/-- A commit keeps the system good. -/
theorem Good.committed (h : Good G N Q E s) {p : Prog S ε α} (ht : s.threads[i]? = some t)
    (hs : t.status = .running (.commit p)) :
    Good G N Q E { s.put i (t.goto p t.ctx.commit) with db := t.ctx.view s.db } := by
  have hsound := h.sound i t ht
  obtain ⟨hcommit, hwp⟩ := h.owes ht hs
  exact
    { valid := (hcommit s.db h.valid hsound.sees).2
      used := fun id hid => (h.uses_view ht hid).elim (h.used id) (hsound.drawn id)
      ok := by
        intro j u hu
        rcases Sys.get_put hu with ⟨-, rfl⟩ | ⟨-, hu⟩
        · exact hwp
        · exact h.ok j u hu
      sound := by
        intro j u hu
        rcases Sys.get_put hu with ⟨-, rfl⟩ | ⟨hj, hu⟩
        · exact .commit
        · have hsu := h.sound j u hu
          refine { hsu with sees := ⟨fun r hr => ?_, fun id hid huse => ?_⟩ }
          · exact (hsu.sees.1 r hr).extend (h.outside ht hu hj hr)
          · rcases h.uses_view ht huse with huse | hmine
            · exact hsu.sees.2 id hid huse
            · exact h.drawn_apart j i u t hj hu ht id hid hmine
      apart := h.apart.put ht (by simp [Thread.goto, Ctx.commit, Ctx.release])
      drawn_apart := h.drawn_apart.put ht (by simp [Thread.goto, Ctx.commit, Ctx.release])
      read_spent := by
        intro u hu r hr id hid
        refine Sys.Spent.put ?_ ht fun hmem => absurd hmem List.not_mem_nil
        rcases List.mem_or_eq_of_mem_set hu with hmem | rfl
        · exact h.read_spent u hmem r hr id hid
        · exact absurd hr List.not_mem_nil }

/-- Every step keeps the system good. -/
theorem Good.step (hcode : ∀ call, wp (G call) N (Q call) (E call) (code call) {})
    (h : Good G N Q E s) (hstep : Step code s a s') : Good G N Q E s' := by
  cases hstep with
  | thread ht hstep => exact h.thread ht hstep
  | draw ht hs hid => exact h.draw ht hs hid
  | commit ht hs => exact h.committed ht hs
  | tick hle =>
    refine { h with sound := fun j u hu => ?_ }
    have hbefore := (h.sound j u hu).before
    exact { h.sound j u hu with
      before := ⟨fun r hr => Int.le_trans (hbefore.1 r hr) hle,
        fun r hr => Int.le_trans (hbefore.2 r hr) hle⟩ }
  | @start call =>
    let new : Thread S C ε α := { call, status := .running (code call) }
    have hget : ∀ (j : Nat) (u : Thread S C ε α), (s.threads ++ [new])[j]? = some u →
        s.threads[j]? = some u ∨ u = new := by
      intro j u hu
      rw [List.getElem?_append] at hu
      split at hu
      · exact .inl hu
      · exact .inr (List.mem_singleton.1 (List.mem_of_getElem? hu))
    have hapart : ∀ {κ : Type} {own : Thread S C ε α → List κ}, own new = [] → s.Apart own →
        Sys.Apart { s with threads := s.threads ++ [new] } own := by
      intro κ own hnil hs j l u u' hjl hu hu' k hk hk'
      rcases hget j u hu with hu | rfl
      · rcases hget l u' hu' with hu' | rfl
        · exact hs j l u u' hjl hu hu' k hk hk'
        · rw [hnil] at hk'
          cases hk'
      · rw [hnil] at hk
        cases hk
    exact
      { valid := h.valid
        used := h.used
        ok := by
          intro j u hu
          rcases hget j u hu with hu | rfl
          · exact h.ok j u hu
          · exact hcode call
        sound := by
          intro j u hu
          rcases hget j u hu with hu | rfl
          · exact h.sound j u hu
          · exact .initial
        apart := hapart rfl h.apart
        drawn_apart := hapart rfl h.drawn_apart
        read_spent := by
          intro u hu r hr id hid
          rcases List.mem_append.1 hu with hu | hu
          · obtain ⟨hdrawn, hnew⟩ := h.read_spent u hu r hr id hid
            refine ⟨hdrawn, fun x hx => ?_⟩
            rcases List.mem_append.1 hx with hx | hx
            · exact hnew x hx
            · rw [List.mem_singleton.1 hx]
              exact List.not_mem_nil
          · rw [List.mem_singleton.1 hu] at hr
            cases hr }

theorem Good.run (hcode : ∀ call, wp (G call) N (Q call) (E call) (code call) {})
    {tr : List (Act S C)} (h : Good G N Q E s) (hrun : Lts.Run (Step code) s tr s') :
    Good G N Q E s' :=
  hrun.invariant (I := Good G N Q E) (fun hs hstep => hs.step hcode hstep) h

/-! ## What a step does to the database and to a thread -/

/-- Only a commit changes the database. -/
theorem Step.db_eq (h : Step code s a s') (hne : ∀ i, a ≠ .commit i) : s'.db = s.db := by
  cases h with
  | start | tick | thread | draw => rfl
  | commit => exact absurd rfl (hne _)

/-- The clock never goes back. -/
theorem Step.clock_le (h : Step code s a s') : s.clock ≤ s'.clock := by
  cases h with
  | tick hle => exact hle
  | start | thread | draw | commit => exact Int.le_refl _

theorem run_clock_le {tr : List (Act S C)} (h : Lts.Run (Step code) s tr s') : s.clock ≤ s'.clock :=
  h.lift (R := fun s s' => s.clock ≤ s'.clock) (fun _ => Int.le_refl _) Int.le_trans Step.clock_le

/-- A commit applies the writes of its thread, which goes on with an empty transaction. -/
theorem Step.commit_inv (h : Step code s (.commit i) s') : ∃ t p, s.threads[i]? = some t ∧
    t.status = .running (.commit p) ∧ s'.db = t.ctx.view s.db ∧
    s'.threads = s.threads.set i (t.goto p t.ctx.commit) := by
  cases h with
  | thread _ hstep => cases hstep
  | @commit i t p ht hs => exact ⟨t, p, ht, hs, rfl, rfl⟩

/-- A commit satisfies the property of its call. -/
theorem Good.commit (h : Good G N Q E s) (hstep : Step code s (.commit i) s') : ∃ t,
    s.threads[i]? = some t ∧ G t.call t.ctx s.db ∧ s'.db = t.ctx.view s.db := by
  obtain ⟨t, p, ht, hs, hdb, -⟩ := hstep.commit_inv
  exact ⟨t, ht, ((h.owes ht hs).1 s.db h.valid (h.sound i t ht).sees).1, hdb⟩

theorem Thread.Step.call_eq (h : Thread.Step s i t a t') : t'.call = t.call := by
  cases h <;> rfl

theorem Thread.Step.kept_eq (h : Thread.Step s i t a t') : t'.ctx.kept = t.ctx.kept := by
  cases h <;> rfl

theorem Thread.Step.epoch_le (h : Thread.Step s i t a t') : t.ctx.epoch ≤ t'.ctx.epoch := by
  cases h <;> simp [Thread.stop, Thread.goto, Ctx.release, Ctx.hold, Ctx.observe, Ctx.push,
    Ctx.time, Ctx.mark]

/-- A committed mark was committed before, or is one of the transaction that commits. -/
theorem Step.kept (h : Step code s a s') {u : Thread S C ε α} (hu : s'.threads[i]? = some u)
    {n : S.Note} (hn : n ∈ u.ctx.kept) :
    ∃ t, s.threads[i]? = some t ∧ (n ∈ t.ctx.kept ∨ n ∈ t.ctx.marks) := by
  have hput : ∀ {j t} t', s.threads[j]? = some t →
      (n ∈ t'.ctx.kept → n ∈ t.ctx.kept ∨ n ∈ t.ctx.marks) →
      (s.put j t').threads[i]? = some u →
      ∃ t, s.threads[i]? = some t ∧ (n ∈ t.ctx.kept ∨ n ∈ t.ctx.marks) := by
    intro j t t' ht hkept hu
    rcases Sys.get_put hu with ⟨rfl, rfl⟩ | ⟨-, hold⟩
    · exact ⟨t, ht, hkept hn⟩
    · exact ⟨u, hold, .inl hn⟩
  cases h with
  | start =>
    rw [List.getElem?_append] at hu
    split at hu
    · exact ⟨u, hu, .inl hn⟩
    · rw [List.mem_singleton.1 (List.mem_of_getElem? hu)] at hn
      cases hn
  | tick => exact ⟨u, hu, .inl hn⟩
  | thread ht hstep => exact hput _ ht (fun h => .inl (hstep.kept_eq ▸ h)) hu
  | @draw _ t f id ht => exact hput (t.goto (f id) (t.ctx.draw id)) ht .inl hu
  | @commit _ t p ht =>
    exact hput (t.goto p t.ctx.commit) ht (fun h => (List.mem_append.1 h).symm) hu

/-- A thread keeps its call, and its transactions end one after the other. -/
theorem Step.epoch_le (h : Step code s a s') (ht : s.threads[i]? = some t) :
    ∃ t', s'.threads[i]? = some t' ∧ t'.call = t.call ∧ t.ctx.epoch ≤ t'.ctx.epoch := by
  have hput : ∀ {j u u'}, s.threads[j]? = some u → u'.call = u.call →
      u.ctx.epoch ≤ u'.ctx.epoch →
      ∃ t', (s.put j u').threads[i]? = some t' ∧ t'.call = t.call ∧
        t.ctx.epoch ≤ t'.ctx.epoch := by
    intro j u u' hu hcall hle
    by_cases hj : j = i
    · subst hj
      obtain rfl : u = t := Option.some.inj (hu.symm.trans ht)
      exact ⟨u', Sys.get_put_self hu, hcall, hle⟩
    · exact ⟨t, by rw [Sys.put, List.getElem?_set_ne hj, ht], rfl, Nat.le_refl _⟩
  cases h with
  | start =>
    have hlt := (List.getElem?_eq_some_iff.1 ht).1
    exact ⟨t, by rw [List.getElem?_append_left hlt, ht], rfl, Nat.le_refl _⟩
  | tick => exact ⟨t, ht, rfl, Nat.le_refl _⟩
  | thread hu hstep => exact hput hu hstep.call_eq hstep.epoch_le
  | draw hu => exact hput hu rfl (Nat.le_refl _)
  | commit hu => exact hput hu rfl (Nat.le_succ _)

theorem run_epoch_le {tr : List (Act S C)} (h : Lts.Run (Step code) s tr s')
    (ht : s.threads[i]? = some t) :
    ∃ t', s'.threads[i]? = some t' ∧ t'.call = t.call ∧ t.ctx.epoch ≤ t'.ctx.epoch := by
  induction h with
  | nil => exact ⟨t, ht, rfl, Nat.le_refl _⟩
  | snoc _ hstep ih =>
    obtain ⟨u, hu, hcall, hle⟩ := ih
    obtain ⟨u', hu', hcall', hle'⟩ := hstep.epoch_le hu
    exact ⟨u', hu', hcall'.trans hcall, Nat.le_trans hle hle'⟩

/-- The call of a thread is that of a thread before, or starts now. -/
theorem Step.calls (h : Step code s a s') {u : Thread S C ε α} (hu : u ∈ s'.threads) :
    (∃ t ∈ s.threads, t.call = u.call) ∨ a = .start u.call := by
  cases h with
  | start =>
    rcases List.mem_append.1 hu with hu | hu
    · exact .inl ⟨u, hu, rfl⟩
    · rw [List.mem_singleton.1 hu]
      exact .inr rfl
  | tick => exact .inl ⟨u, hu, rfl⟩
  | thread ht hstep =>
    rcases List.mem_or_eq_of_mem_set hu with hu | rfl
    · exact .inl ⟨u, hu, rfl⟩
    · exact .inl ⟨_, List.mem_of_getElem? ht, hstep.call_eq.symm⟩
  | draw ht | commit ht =>
    rcases List.mem_or_eq_of_mem_set hu with hu | rfl
    · exact .inl ⟨u, hu, rfl⟩
    · exact .inl ⟨_, List.mem_of_getElem? ht, rfl⟩

theorem run_calls {tr : List (Act S C)} (h : Lts.Run (Step code) s tr s') {u : Thread S C ε α}
    (hu : u ∈ s'.threads) : (∃ t ∈ s.threads, t.call = u.call) ∨ .start u.call ∈ tr := by
  induction h generalizing u with
  | nil => exact .inl ⟨u, hu, rfl⟩
  | snoc _ hstep ih =>
    rcases hstep.calls hu with ⟨t, ht, hcall⟩ | rfl
    · rw [← hcall]
      exact (ih ht).imp_right fun hmem => List.mem_append_left _ hmem
    · exact .inr (List.mem_append_right _ List.mem_cons_self)

/-- The calls that an act starts. -/
def Act.started : Act S C → List C
  | .start call => [call]
  | _ => []

/-- The threads keep their calls, and a start adds its own. -/
theorem Step.calls_eq (h : Step code s a s') :
    s'.threads.map (·.call) = s.threads.map (·.call) ++ a.started := by
  have hput : ∀ {j u} u', s.threads[j]? = some u → u'.call = u.call →
      (s.threads.set j u').map (·.call) = s.threads.map (·.call) := by
    intro j u u' hu hcall
    obtain ⟨hlt, rfl⟩ := List.getElem?_eq_some_iff.1 hu
    rw [List.map_set, hcall, ← List.map_set, List.set_getElem_self]
  cases h with
  | start => simp [Act.started]
  | tick => simp [Act.started]
  | @thread i t t' a ht hstep =>
    have hnone : a.started = [] := by cases hstep <;> rfl
    rw [Sys.put, hput _ ht hstep.call_eq, hnone, List.append_nil]
  | @draw i t f id ht =>
    exact (hput (t.goto (f id) (t.ctx.draw id)) ht rfl).trans (List.append_nil _).symm
  | @commit i t p ht =>
    exact (hput (t.goto p t.ctx.commit) ht rfl).trans (List.append_nil _).symm

/-- A thread reads the state it steps in. -/
theorem Thread.Step.reads (h : Thread.Step s i t a t') {r : Read S} (hr : r ∈ t'.ctx.reads) :
    r ∈ t.ctx.reads ∨ (r.db = s.db ∧ r.clock = s.clock) := by
  cases h with
  | ret | throw | rollback | crash => cases hr
  | read hs =>
    rcases List.mem_cons.1 hr with rfl | hr
    · exact .inr ⟨rfl, rfl⟩
    · exact .inl hr
  | lock | write | now | random | note => exact .inl hr

theorem Step.reads (h : Step code s a s') {u : Thread S C ε α} (hu : u ∈ s'.threads) {r : Read S}
    (hr : r ∈ u.ctx.reads) :
    (∃ t ∈ s.threads, r ∈ t.ctx.reads) ∨ (r.db = s.db ∧ r.clock = s.clock) := by
  cases h with
  | start =>
    rcases List.mem_append.1 hu with hu | hu
    · exact .inl ⟨u, hu, hr⟩
    · rw [List.mem_singleton.1 hu] at hr
      cases hr
  | tick => exact .inl ⟨u, hu, hr⟩
  | thread ht hstep =>
    rcases List.mem_or_eq_of_mem_set hu with hu | rfl
    · exact .inl ⟨u, hu, hr⟩
    · exact (hstep.reads hr).imp_left fun hr => ⟨_, List.mem_of_getElem? ht, hr⟩
  | draw ht =>
    rcases List.mem_or_eq_of_mem_set hu with hu | rfl
    · exact .inl ⟨u, hu, hr⟩
    · exact .inl ⟨_, List.mem_of_getElem? ht, hr⟩
  | commit =>
    rcases List.mem_or_eq_of_mem_set hu with hu | rfl
    · exact .inl ⟨u, hu, hr⟩
    · cases hr

/-- What a thread has read since the start of the run was committed in a state of the run. -/
theorem run_reads {tr : List (Act S C)} (h : Lts.Run (Step code) s tr s') {u : Thread S C ε α}
    (hu : u ∈ s'.threads) {r : Read S} (hr : r ∈ u.ctx.reads) :
    (∃ t ∈ s.threads, r ∈ t.ctx.reads) ∨
    ∃ m, Lts.Visits (Step code) s tr s' m ∧ m.db = r.db ∧ m.clock = r.clock := by
  induction h generalizing u with
  | nil => exact .inl ⟨u, hu, hr⟩
  | @snoc m' _ _ _ hrun hstep ih =>
    rcases hstep.reads hu hr with ⟨t, ht, hr⟩ | ⟨hdb, hclock⟩
    · rcases ih ht hr with hold | ⟨m, hvisits, hm⟩
      · exact .inl hold
      · exact .inr ⟨m, hvisits.snoc hstep, hm⟩
    · exact .inr ⟨m', (Lts.Visits.last hrun).snoc hstep, hdb.symm, hclock.symm⟩

/-! ## Identifiers are drawn once -/

theorem Thread.Step.drawn_subset (h : Thread.Step s i t a t') :
    t'.ctx.drawn ⊆ t.ctx.drawn := by
  cases h with
  | ret | throw | rollback | crash => exact List.nil_subset _
  | lock | read | write | now | random | note => exact fun _ hid => hid

/-- A spent identifier stays spent. -/
theorem Step.spent (h : Step code s a s') {id : S.Id} (hid : s.Spent id) : s'.Spent id := by
  cases h with
  | start =>
    refine ⟨hid.1, fun t ht => ?_⟩
    rcases List.mem_append.1 ht with ht | ht
    · exact hid.2 t ht
    · rw [List.mem_singleton.1 ht]
      exact List.not_mem_nil
  | tick => exact hid
  | thread hu hstep => exact hid.put hu fun hmem => hstep.drawn_subset hmem
  | draw hu hs hnew =>
    refine ⟨List.mem_cons_of_mem _ hid.1, (hid.put hu fun hmem => ?_).2⟩
    rcases List.mem_cons.1 hmem with rfl | hmem
    · exact absurd hid.1 hnew
    · exact hmem
  | commit hu => exact hid.put hu fun hmem => absurd hmem List.not_mem_nil

/-! ## Counting the threads that have committed a mark -/

section
variable [DecidableEq S.Note] {n : S.Note}

/-- How many threads have committed the mark `n`. -/
def Sys.tally (s : Sys S C ε α) (n : S.Note) : Nat :=
  s.threads.countP fun t => n ∈ t.ctx.kept

omit [DecidableEq S.Note] in
theorem Sys.countP_put (P : Thread S C ε α → Bool) (t' : Thread S C ε α)
    (ht : s.threads[i]? = some t) :
    (s.put i t').threads.countP P + (if P t then 1 else 0) =
      s.threads.countP P + (if P t' then 1 else 0) := by
  obtain ⟨hlt, rfl⟩ := List.getElem?_eq_some_iff.1 ht
  rw [Sys.put, List.countP_set hlt]
  have hle := List.boole_getElem_le_countP (p := P) hlt
  lia

/-- Only a commit changes the tally. -/
theorem Step.tally_eq (h : Step code s a s') (hne : ∀ i, a ≠ .commit i) :
    s'.tally n = s.tally n := by
  have hput : ∀ {j u u'}, s.threads[j]? = some u → u'.ctx.kept = u.ctx.kept →
      (s.put j u').tally n = s.tally n := by
    intro j u u' hu hkept
    have hcount := Sys.countP_put (fun t => n ∈ t.ctx.kept) u' hu
    rw [hkept] at hcount
    exact Nat.add_right_cancel hcount
  cases h with
  | start => simp [Sys.tally]
  | tick => rfl
  | thread hu hstep => exact hput hu hstep.kept_eq
  | draw hu => exact hput hu rfl
  | commit => exact absurd rfl (hne _)

/-- A commit adds at most its own thread, when the transaction has the mark. -/
theorem Step.tally_commit (h : Step code s (.commit i) s') (ht : s.threads[i]? = some t) :
    s'.tally n ≤ s.tally n + if n ∈ t.ctx.marks then 1 else 0 := by
  obtain ⟨u, p, hu, -, -, hthreads⟩ := h.commit_inv
  obtain rfl : u = t := Option.some.inj (hu.symm.trans ht)
  have hcount := Sys.countP_put (fun t => n ∈ t.ctx.kept) (u.goto p u.ctx.commit) hu
  rw [Sys.put, ← hthreads] at hcount
  simp only [Thread.goto, Ctx.commit, List.mem_append] at hcount
  rw [Sys.tally, Sys.tally]
  by_cases hm : n ∈ u.ctx.marks <;> by_cases hk : n ∈ u.ctx.kept <;>
    simp only [hm, hk, or_true, true_or, or_self, decide_true, decide_false, if_true, if_false,
      Bool.false_eq_true] at hcount ⊢ <;> lia

end

end Transact
