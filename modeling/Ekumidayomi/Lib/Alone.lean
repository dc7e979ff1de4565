import Ekumidayomi.Lib.Interleaving

/-!
# A transaction program on its own

What a program does when no other thread runs is a function of the database and of what it draws
from outside (`Prog.alone`). It is used to compare two runs of one program, or one program on two
databases. `Prog.Yields` says where a program ends alone, with rules for each way to compose
programs. Such a run is one of the runs of the threads of `Lib.Interleaving` (`alone_run`).
-/

namespace Transact

variable {S : Schema} {C ε α β : Type}

/-- What a program draws: the clock, identifiers and texts, by how much it has drawn before. -/
structure Oracle (S : Schema) where
  clock : Nat → Int
  id : Nat → S.Id
  text : Nat → String

/-- The committed database, the writes that are not committed, the last one first, and how much has
been drawn. -/
structure Here (S : Schema) where
  db : S.Db
  buf : List S.Op := []
  count : Nat := 0

/-- The database as the program sees it. -/
def Here.view (h : Here S) : S.Db := S.applyAll h.buf h.db

def Here.push (h : Here S) (op : S.Op) : Here S := { h with buf := op :: h.buf }

def Here.next (h : Here S) : Here S := { h with count := h.count + 1 }

/-- The answer of a program that runs alone, and what it leaves behind. -/
def Prog.alone (o : Oracle S) : Prog S ε α → Here S → Except ε α × Here S
  | .ret a, h => (.ok a, h)
  | .throw e, h => (.error e, h)
  | .lock _ p, h => p.alone o h
  | .read f, h => (f h.view).alone o h
  | .write op p, h => p.alone o (h.push op)
  | .now f, h => (f (o.clock h.count)).alone o h.next
  | .fresh f, h => (f (o.id h.count)).alone o h.next
  | .random f, h => (f (o.text h.count)).alone o h.next
  | .note _ p, h => p.alone o h
  | .commit p, h => p.alone o { h with db := h.view, buf := [] }
  | .rollback p, h => p.alone o { h with buf := [] }

section
variable {o : Oracle S} {h : Here S}

theorem Prog.alone_bind {p : Prog S ε α} {f : α → Prog S ε β} :
    (p >>= f).alone o h = match p.alone o h with
      | (.ok a, h') => (f a).alone o h'
      | (.error e, h') => (.error e, h') := by
  show (p.bind f).alone o h = _
  induction p generalizing h with
  | ret a => rfl
  | throw e => rfl
  | lock k p ih | rollback p ih | note n p ih | commit p ih | write op p ih => exact ih
  | read g ih => exact ih _
  | now g ih | fresh g ih | random g ih => exact ih _

@[simp] theorem Prog.alone_pure {a : α} : (pure a : Prog S ε α).alone o h = (.ok a, h) := rfl

@[simp] theorem Prog.alone_throw {e : ε} : (throw e : Prog S ε α).alone o h = (.error e, h) := rfl

end

/-! ## Where a program ends -/

/-- Alone, the program ends in `Q` with its answer or in `E` with its error. -/
def Prog.Yields (o : Oracle S) (p : Prog S ε α) (h : Here S) (Q : α → Here S → Prop)
    (E : ε → Here S → Prop) : Prop :=
  match p.alone o h with
  | (.ok a, h') => Q a h'
  | (.error e, h') => E e h'

section
variable {o : Oracle S} {h : Here S} {Q Q' : α → Here S → Prop} {E E' : ε → Here S → Prop}
  {R : β → Here S → Prop}

theorem Prog.Yields.mono {p : Prog S ε α} (hp : p.Yields o h Q E) (hQ : ∀ a h', Q a h' → Q' a h')
    (hE : ∀ e h', E e h' → E' e h') : p.Yields o h Q' E' := by
  unfold Prog.Yields at hp ⊢
  split at hp
  · exact hQ _ _ hp
  · exact hE _ _ hp

theorem Prog.yields_bind {p : Prog S ε α} {f : α → Prog S ε β} :
    (p >>= f).Yields o h R E ↔ p.Yields o h (fun a h' => (f a).Yields o h' R E) E := by
  unfold Prog.Yields
  rw [Prog.alone_bind]
  rcases p.alone o h with ⟨a | e, h'⟩ <;> exact Iff.rfl

theorem Prog.yields_tryCatch {p : Prog S ε α} {f : ε → Prog S ε α} :
    (tryCatch p f).Yields o h Q E ↔ p.Yields o h Q fun e h' => (f e).Yields o h' Q E := by
  show (p.catch f).Yields o h Q E ↔ _
  induction p generalizing h with
  | ret a => exact Iff.rfl
  | throw e => exact Iff.rfl
  | lock k p ih | rollback p ih | note n p ih | commit p ih | write op p ih => exact ih
  | read g ih => exact ih _
  | now g ih | fresh g ih | random g ih => exact ih _

@[simp] theorem Prog.yields_pure {a : α} :
    (pure a : Prog S ε α).Yields o h Q E ↔ Q a h := Iff.rfl

@[simp] theorem Prog.yields_throw {e : ε} :
    (MonadExcept.throw e : Prog S ε α).Yields o h Q E ↔ E e h := Iff.rfl

/-- A program does not end in two places. -/
theorem Prog.Yields.false {p : Prog S ε α} (hp : p.Yields o h Q E) (hp' : p.Yields o h Q' E')
    (hQ : ∀ a h', Q a h' → ¬ Q' a h') (hE : ∀ e h', E e h' → ¬ E' e h') : False := by
  unfold Prog.Yields at hp hp'
  generalize p.alone o h = outcome at hp hp'
  rcases outcome with ⟨e | a, h'⟩
  · exact hE e h' hp hp'
  · exact hQ a h' hp hp'

end

/-! ## A program alone is a run of its thread -/

section
variable {code : C → Prog S ε α}

/-- The system with one thread, which runs `p`. -/
def Sys.single (call : C) (p : Prog S ε α) (c : Ctx S) (db : S.Db) (clock : Int)
    (drawn : List S.Id) : Sys S C ε α :=
  { db, clock, drawn, threads := [{ call, status := .running p, ctx := c }] }

theorem Sys.single_get (call : C) (p : Prog S ε α) (c : Ctx S) (db : S.Db) (clock : Int)
    (drawn : List S.Id) : (Sys.single call p c db clock drawn).threads[0]? =
      some { call, status := .running p, ctx := c } := rfl

/-- A run of the thread gives the answer `r` and leaves the database `db'`. -/
def Ends (code : C → Prog S ε α) (call : C) (s : Sys S C ε α) (r : Except ε α) (db' : S.Db) :
    Prop :=
  ∃ tr s', Lts.Run (Step code) s tr s' ∧ s'.db = db' ∧
    ∃ c', s'.threads = [{ call, status := .answered r, ctx := c' }]

theorem Ends.step {call : C} {s s' : Sys S C ε α} {a : Act S C} {r : Except ε α} {db' : S.Db}
    (hs : Step code s a s') (h : Ends code call s' r db') : Ends code call s r db' := by
  obtain ⟨tr, s'', hrun, hend⟩ := h
  exact ⟨_, s'', (Lts.Run.single hs).append hrun, hend⟩

theorem Prog.le_alone_count (o : Oracle S) (p : Prog S ε α) (h : Here S) :
    h.count ≤ (p.alone o h).2.count := by
  induction p generalizing h with
  | ret | throw => exact Nat.le_refl _
  | lock k p ih | note n p ih => exact ih h
  | read f ih => exact ih _ h
  | write op p ih => exact ih (h.push op)
  | now f ih | fresh f ih | random f ih => exact Nat.le_trans (Nat.le_succ _) (ih _ h.next)
  | commit p ih => exact ih { h with db := h.view, buf := [] }
  | rollback p ih => exact ih { h with buf := [] }

/-- What a program does alone, its thread can do: when the clock does not go back and the
identifiers that the program draws are new and distinct, there is a run with the same answer and the
same database. -/
theorem alone_run (o : Oracle S) (hmono : ∀ m n, m ≤ n → o.clock m ≤ o.clock n) (call : C)
    (p : Prog S ε α) (h : Here S) (c : Ctx S) (clock : Int) (drawn : List S.Id)
    (hbuf : c.buf = h.buf) (hclock : clock ≤ o.clock h.count)
    (hinj : ∀ m n, m < (p.alone o h).2.count → n < (p.alone o h).2.count → o.id m = o.id n → m = n)
    (hnew : ∀ n, h.count ≤ n → n < (p.alone o h).2.count → o.id n ∉ drawn) :
    Ends code call (.single call p c h.db clock drawn) (p.alone o h).1 (p.alone o h).2.db := by
  induction p generalizing h c clock drawn with
  | ret a => exact ⟨_, _, .single (.thread (Sys.single_get ..) (.ret rfl)), rfl, _, rfl⟩
  | throw e => exact ⟨_, _, .single (.thread (Sys.single_get ..) (.throw rfl)), rfl, _, rfl⟩
  | lock k p ih =>
    have hfree : (Sys.single call (.lock k p) c h.db clock drawn).Free 0 k := by
      intro j t ht hj
      cases j with
      | zero => exact absurd rfl hj
      | succ j => cases ht
    exact .step (.thread (Sys.single_get ..) (.lock rfl hfree))
      (ih h (c.hold k) clock drawn hbuf hclock hinj hnew)
  | read f ih =>
    have hview : c.view h.db = h.view := by rw [Ctx.view, hbuf, Here.view]
    refine .step (.thread (Sys.single_get ..) (.read rfl)) ?_
    show Ends code call (.single call (f (c.view h.db)) (c.observe h.db clock) h.db clock drawn) _ _
    rw [hview]
    exact ih _ h (c.observe h.db clock) clock drawn hbuf hclock hinj hnew
  | write op p ih =>
    refine .step (.thread (Sys.single_get ..) (.write rfl)) ?_
    exact ih (h.push op) (c.push op) clock drawn (congrArg (op :: ·) hbuf) hclock hinj hnew
  | now f ih =>
    -- the clock first reaches the next reading
    refine .step (.tick hclock) (.step (.thread (Sys.single_get ..) (.now rfl)) ?_)
    exact ih _ h.next (c.time _) _ drawn hbuf (hmono _ _ (Nat.le_succ _))
      hinj fun n hn => hnew n (Nat.le_of_succ_le hn)
  | fresh f ih =>
    have hlt : h.count < ((f (o.id h.count)).alone o h.next).2.count :=
      (f (o.id h.count)).le_alone_count o h.next
    refine .step (.draw (Sys.single_get ..) rfl (hnew h.count (Nat.le_refl _) hlt)) ?_
    refine ih _ h.next (c.draw _) clock (o.id h.count :: drawn) hbuf
      (Int.le_trans hclock (hmono _ _ (Nat.le_succ _))) hinj fun n hn hn' hmem => ?_
    rcases List.mem_cons.1 hmem with he | hmem
    · rw [hinj _ _ hn' hlt he] at hn
      exact absurd hn (Nat.not_succ_le_self _)
    · exact hnew n (Nat.le_of_succ_le hn) hn' hmem
  | random f ih =>
    refine .step (a := .pick 0 (o.text h.count)) (.thread (Sys.single_get ..) (.random rfl)) ?_
    exact ih _ h.next c clock drawn hbuf (Int.le_trans hclock (hmono _ _ (Nat.le_succ _))) hinj
      fun n hn => hnew n (Nat.le_of_succ_le hn)
  | note n p ih =>
    exact .step (.thread (Sys.single_get ..) (.note rfl))
      (ih h (c.mark n) clock drawn hbuf hclock hinj hnew)
  | commit p ih =>
    have hview : c.view h.db = h.view := by rw [Ctx.view, hbuf, Here.view]
    refine .step (.commit (Sys.single_get ..) rfl) ?_
    show Ends code call (.single call p c.commit (c.view h.db) clock drawn) _ _
    rw [hview]
    exact ih { h with db := h.view, buf := [] } c.commit clock drawn rfl hclock hinj hnew
  | rollback p ih =>
    refine .step (.thread (Sys.single_get ..) (.rollback rfl)) ?_
    exact ih { h with buf := [] } c.release clock drawn rfl hclock hinj hnew

end

end Transact
