import Mathlib.Data.List.Basic

/-!
# Transaction programs

A transaction program runs against a database at the isolation level READ COMMITTED. It takes locks
and keeps them to the end of its transaction, reads what is committed at that instant together with
its own writes, collects writes that nobody else sees, reads the clock, draws identifiers, and
commits or rolls back (`Prog`). Between any two of these steps other transactions may commit.

A `Schema` says for each write which locks protect what it changes (`needs`) and which identifiers
it brings into the database (`makes`). A program that takes these locks before it writes is exposed
to others only through writes whose locks it does not hold itself (`Interferes`), so what it has
read under a lock still holds when it commits. `wp` is the weakest precondition of a program in
this sense: it follows the program with the record of what it has done so far (`Ctx`) and asks, at
each commit, for a property of that record and of every database that the record allows. The rules
`wp_bind`, `wp_tryCatch` and `wp_mono` are those a proof uses; what `wp` promises about threads
that really run against each other is in `Lib.Interleaving`.
-/

namespace Transact

/-- What a database offers to the transactions on it. -/
structure Schema where
  Db : Type
  /-- A write to one row. -/
  Op : Type
  Key : Type
  Id : Type
  /-- What a program marks in passing. A mark has no effect. -/
  Note : Type
  apply : Op → Db → Db
  /-- The locks that whoever writes must hold. -/
  needs : Op → List Key
  /-- The identifiers of the rows that a write adds. -/
  makes : Op → List Id
  uses : Db → Id → Prop
  /-- What every committed database satisfies. -/
  valid : Db → Prop
  uses_apply : ∀ {op db id}, uses (apply op db) id → uses db id ∨ id ∈ makes op

/-- A transaction program with answers in `α` and errors in `ε`. -/
inductive Prog (S : Schema) (ε α : Type) : Type
  | ret (a : α)
  | throw (e : ε)
  | lock (key : S.Key) (next : Prog S ε α)
  | read (next : S.Db → Prog S ε α)
  | write (op : S.Op) (next : Prog S ε α)
  | now (next : Int → Prog S ε α)
  | fresh (next : S.Id → Prog S ε α)
  | random (next : String → Prog S ε α)
  | note (n : S.Note) (next : Prog S ε α)
  | commit (next : Prog S ε α)
  | rollback (next : Prog S ε α)

variable {S : Schema} {ε α β : Type}

/-! ## Programs compose -/

def Prog.bind : Prog S ε α → (α → Prog S ε β) → Prog S ε β
  | .ret a, f => f a
  | .throw e, _ => .throw e
  | .lock k p, f => .lock k (p.bind f)
  | .read g, f => .read fun db => (g db).bind f
  | .write op p, f => .write op (p.bind f)
  | .now g, f => .now fun t => (g t).bind f
  | .fresh g, f => .fresh fun id => (g id).bind f
  | .random g, f => .random fun s => (g s).bind f
  | .note n p, f => .note n (p.bind f)
  | .commit p, f => .commit (p.bind f)
  | .rollback p, f => .rollback (p.bind f)

/-- Continue an error with a handler. What the program did before the error stays done. -/
def Prog.catch : Prog S ε α → (ε → Prog S ε α) → Prog S ε α
  | .ret a, _ => .ret a
  | .throw e, h => h e
  | .lock k p, h => .lock k (p.catch h)
  | .read g, h => .read fun db => (g db).catch h
  | .write op p, h => .write op (p.catch h)
  | .now g, h => .now fun t => (g t).catch h
  | .fresh g, h => .fresh fun id => (g id).catch h
  | .random g, h => .random fun s => (g s).catch h
  | .note n p, h => .note n (p.catch h)
  | .commit p, h => .commit (p.catch h)
  | .rollback p, h => .rollback (p.catch h)

instance : Monad (Prog S ε) where
  pure := .ret
  bind := .bind

instance : MonadExcept ε (Prog S ε) where
  throw := .throw
  tryCatch := .catch

/-! ## What a transaction has done, and what others may do meanwhile -/

/-- A sequence of writes, the last one first. -/
def Schema.applyAll (S : Schema) (ops : List S.Op) (db : S.Db) : S.Db := ops.foldr S.apply db

@[simp] theorem Schema.applyAll_nil (db : S.Db) : S.applyAll [] db = db := rfl

@[simp] theorem Schema.applyAll_cons (op : S.Op) (ops : List S.Op) (db : S.Db) :
    S.applyAll (op :: ops) db = S.apply op (S.applyAll ops db) := rfl

theorem Schema.applyAll_append (ops ops' : List S.Op) (db : S.Db) :
    S.applyAll (ops ++ ops') db = S.applyAll ops (S.applyAll ops' db) := by
  simp [Schema.applyAll]

/-- Identifiers come into the database with the writes that make them. -/
theorem Schema.uses_applyAll {ops : List S.Op} {db : S.Db} {id : S.Id}
    (h : S.uses (S.applyAll ops db) id) : S.uses db id ∨ ∃ op ∈ ops, id ∈ S.makes op := by
  induction ops with
  | nil => exact .inl h
  | cons op ops ih =>
    rcases S.uses_apply h with h | h
    · rcases ih h with h | ⟨o, ho, hid⟩
      · exact .inl h
      · exact .inr ⟨o, List.mem_cons_of_mem _ ho, hid⟩
    · exact .inr ⟨op, List.mem_cons_self, h⟩

/-- A write by others: it needs none of the locks `held`, and makes no row under an identifier that
`db` uses. -/
structure Outside (held : List S.Key) (db : S.Db) (op : S.Op) : Prop where
  needs : ∀ k ∈ S.needs op, k ∉ held
  makes : ∀ id ∈ S.makes op, ¬ S.uses db id

/-- Others lead from one database to the next. -/
def Interferes (held : List S.Key) (db db' : S.Db) : Prop :=
  ∃ ops, (∀ op ∈ ops, Outside held db op) ∧ db' = S.applyAll ops db

theorem Interferes.refl (held : List S.Key) (db : S.Db) : Interferes held db db :=
  ⟨[], by simp, rfl⟩

theorem Interferes.extend {held : List S.Key} {db db' : S.Db} {ops : List S.Op}
    (h : Interferes held db db') (hops : ∀ op ∈ ops, Outside held db op) :
    Interferes held db (S.applyAll ops db') := by
  obtain ⟨ops', ho', rfl⟩ := h
  refine ⟨ops ++ ops', fun op hop => ?_, (Schema.applyAll_append ..).symm⟩
  exact (List.mem_append.1 hop).elim (hops op) (ho' op)

/-- What each write by others keeps, others keep. -/
theorem Interferes.keeps {held : List S.Key} {db db' : S.Db} {P : S.Db → Prop}
    (h : Interferes held db db') (hop : ∀ op d, Outside held db op → P d → P (S.apply op d))
    (h0 : P db) : P db' := by
  obtain ⟨ops, ho, rfl⟩ := h
  induction ops with
  | nil => exact h0
  | cons op ops ih =>
    exact hop op _ (ho op List.mem_cons_self) (ih fun o h => ho o (List.mem_cons_of_mem _ h))

/-- A read: the locks that were held, the committed database and the time. -/
structure Read (S : Schema) where
  held : List S.Key
  db : S.Db
  clock : Int

/-- The record of a program: of its transaction first, then of the program as a whole. -/
structure Ctx (S : Schema) where
  held : List S.Key := []
  reads : List (Read S) := []
  /-- The writes, the last one first. -/
  buf : List S.Op := []
  /-- The readings of the clock, each with the locks held at that instant. -/
  clocks : List (List S.Key × Int) := []
  drawn : List S.Id := []
  marks : List S.Note := []
  /-- The marks of committed transactions. -/
  kept : List S.Note := []
  /-- The marks of transactions that have ended. -/
  past : List S.Note := []
  /-- How many transactions have ended. -/
  epoch : Nat := 0

/-- The record with one more lock, read, write, reading of the clock, identifier or mark. -/
def Ctx.hold (c : Ctx S) (k : S.Key) : Ctx S := { c with held := k :: c.held }

@[inherit_doc Ctx.hold]
def Ctx.observe (c : Ctx S) (db : S.Db) (clock : Int) : Ctx S :=
  { c with reads := ⟨c.held, db, clock⟩ :: c.reads }

@[inherit_doc Ctx.hold]
def Ctx.push (c : Ctx S) (op : S.Op) : Ctx S := { c with buf := op :: c.buf }

@[inherit_doc Ctx.hold]
def Ctx.time (c : Ctx S) (t : Int) : Ctx S := { c with clocks := (c.held, t) :: c.clocks }

@[inherit_doc Ctx.hold]
def Ctx.draw (c : Ctx S) (id : S.Id) : Ctx S := { c with drawn := id :: c.drawn }

@[inherit_doc Ctx.hold]
def Ctx.mark (c : Ctx S) (n : S.Note) : Ctx S := { c with marks := n :: c.marks }

/-- The record when the transaction has ended without effect. -/
def Ctx.release (c : Ctx S) : Ctx S :=
  { kept := c.kept, past := c.marks ++ c.past, epoch := c.epoch + 1 }

/-- The record when the transaction has committed. -/
def Ctx.commit (c : Ctx S) : Ctx S := { c.release with kept := c.marks ++ c.kept }

/-- The database as the transaction sees it. -/
def Ctx.view (c : Ctx S) (db : S.Db) : S.Db := S.applyAll c.buf db

/-- A committed database that the record allows: others led there from everything that was read,
and nobody has used the identifiers drawn. -/
def Ctx.Sees (c : Ctx S) (db : S.Db) : Prop :=
  (∀ r ∈ c.reads, Interferes r.held r.db db) ∧ ∀ id ∈ c.drawn, ¬ S.uses db id

/-- No clock reading of the record is after `t`. -/
def Ctx.Before (c : Ctx S) (t : Int) : Prop :=
  (∀ r ∈ c.clocks, r.2 ≤ t) ∧ ∀ r ∈ c.reads, r.clock ≤ t

/-- What the record makes certain about the committed database, now and until the transaction
ends. -/
def Ctx.Sure (c : Ctx S) (P : S.Db → Prop) : Prop := ∀ db, S.valid db → c.Sees db → P db

/-- The transaction goes on from one record to the next. -/
structure Ctx.Le (c c' : Ctx S) : Prop where
  held : c.held ⊆ c'.held
  reads : c.reads ⊆ c'.reads
  clocks : c.clocks ⊆ c'.clocks
  drawn : c.drawn ⊆ c'.drawn
  kept : c'.kept = c.kept
  past : c'.past = c.past
  epoch : c'.epoch = c.epoch

namespace Ctx

variable {c c' c'' : Ctx S}

theorem Le.refl (c : Ctx S) : c.Le c :=
  ⟨fun _ => id, fun _ => id, fun _ => id, fun _ => id, rfl, rfl, rfl⟩

theorem Le.trans (h : c.Le c') (h' : c'.Le c'') : c.Le c'' where
  held := fun _ hk => h'.held (h.held hk)
  reads := fun _ hr => h'.reads (h.reads hr)
  clocks := fun _ ht => h'.clocks (h.clocks ht)
  drawn := fun _ hd => h'.drawn (h.drawn hd)
  kept := h'.kept.trans h.kept
  past := h'.past.trans h.past
  epoch := h'.epoch.trans h.epoch

theorem Le.sees (h : c.Le c') {db : S.Db} (hs : c'.Sees db) : c.Sees db :=
  ⟨fun r hr => hs.1 r (h.reads hr), fun id hid => hs.2 id (h.drawn hid)⟩

theorem le_hold (k : S.Key) : c.Le (c.hold k) :=
  { Le.refl c with held := List.subset_cons_self _ _ }

theorem le_observe (db : S.Db) (t : Int) : c.Le (c.observe db t) :=
  { Le.refl c with reads := List.subset_cons_self _ _ }

theorem le_push (op : S.Op) : c.Le (c.push op) := { Le.refl c with }

theorem le_time (t : Int) : c.Le (c.time t) :=
  { Le.refl c with clocks := List.subset_cons_self _ _ }

theorem le_mark (n : S.Note) : c.Le (c.mark n) := { Le.refl c with }

theorem le_draw (id : S.Id) : c.Le (c.draw id) :=
  { Le.refl c with drawn := List.subset_cons_self _ _ }

/-- What is certain stays so. -/
theorem Le.sure (h : c.Le c') {P : S.Db → Prop} (hs : c.Sure P) : c'.Sure P :=
  fun db hv hdb => hs db hv (h.sees hdb)

theorem Sure.mono {P P' : S.Db → Prop} (h : c.Sure P) (hp : ∀ db, P db → P' db) : c.Sure P' :=
  fun db hv hdb => hp db (h db hv hdb)

/-- A property of what was read that no write by others changes is certain. -/
theorem sure_of_read {r : Read S} {P : S.Db → Prop} (hr : r ∈ c.reads)
    (hop : ∀ op d, Outside r.held r.db op → P d → P (S.apply op d)) (h0 : P r.db) : c.Sure P :=
  fun _ _ hs => (hs.1 _ hr).keeps hop h0

theorem sure_unused {id : S.Id} (h : id ∈ c.drawn) : c.Sure fun db => ¬ S.uses db id :=
  fun _ _ hs => hs.2 id h

end Ctx

/-! ## Weakest preconditions -/

/-- From the record `c`, the program writes only under the locks its writes need, satisfies `N` at
each mark and `G` at each commit, and ends in `Q` with an answer or in `E` with an error. -/
def wp (G : Ctx S → S.Db → Prop) (N : S.Note → Ctx S → Prop) (Q : α → Ctx S → Prop)
    (E : ε → Ctx S → Prop) : Prog S ε α → Ctx S → Prop
  | .ret a, c => Q a c
  | .throw e, c => E e c
  | .lock k p, c => wp G N Q E p (c.hold k)
  | .read f, c => ∀ db t, S.valid db → c.Sees db → c.Before t →
      wp G N Q E (f (c.view db)) (c.observe db t)
  | .write op p, c => (∀ k ∈ S.needs op, k ∈ c.held) ∧ (∀ id ∈ S.makes op, id ∈ c.drawn) ∧
      wp G N Q E p (c.push op)
  | .now f, c => ∀ t, c.Before t → wp G N Q E (f t) (c.time t)
  | .fresh f, c => ∀ id, id ∉ c.drawn → wp G N Q E (f id) (c.draw id)
  | .random f, c => ∀ s, wp G N Q E (f s) c
  | .note n p, c => N n c ∧ wp G N Q E p (c.mark n)
  | .commit p, c => (∀ db, S.valid db → c.Sees db → G c db ∧ S.valid (c.view db)) ∧
      wp G N Q E p c.commit
  | .rollback p, c => wp G N Q E p c.release

section
variable {G : Ctx S → S.Db → Prop} {N : S.Note → Ctx S → Prop} {Q Q' : α → Ctx S → Prop}
  {E E' : ε → Ctx S → Prop} {R : β → Ctx S → Prop} {c : Ctx S}

theorem wp_mono {p : Prog S ε α} (h : wp G N Q E p c) (hQ : ∀ a c, Q a c → Q' a c)
    (hE : ∀ e c, E e c → E' e c) : wp G N Q' E' p c := by
  induction p generalizing c with
  | ret a => exact hQ a c h
  | throw e => exact hE e c h
  | lock k p ih | rollback p ih => exact ih h
  | read f ih => exact fun db t hv hs ht => ih _ (h db t hv hs ht)
  | write op p ih => exact ⟨h.1, h.2.1, ih h.2.2⟩
  | now f ih => exact fun t ht => ih _ (h t ht)
  | fresh f ih => exact fun id hid => ih _ (h id hid)
  | random f ih => exact fun s => ih _ (h s)
  | note n p ih | commit p ih => exact ⟨h.1, ih h.2⟩

/-- A commit may be asked for less. -/
theorem wp_commit_mono {G' : Ctx S → S.Db → Prop} {p : Prog S ε α} (h : wp G N Q E p c)
    (hG : ∀ c db, G c db → G' c db) : wp G' N Q E p c := by
  induction p generalizing c with
  | ret | throw => exact h
  | lock k p ih | rollback p ih => exact ih h
  | read f ih => exact fun db t hv hs ht => ih _ (h db t hv hs ht)
  | write op p ih => exact ⟨h.1, h.2.1, ih h.2.2⟩
  | now f ih => exact fun t ht => ih _ (h t ht)
  | fresh f ih => exact fun id hid => ih _ (h id hid)
  | random f ih => exact fun s => ih _ (h s)
  | note n p ih => exact ⟨h.1, ih h.2⟩
  | commit p ih => exact ⟨fun db hv hs => (h.1 db hv hs).imp_left (hG c db), ih h.2⟩

theorem wp_bind {p : Prog S ε α} {f : α → Prog S ε β} :
    wp G N R E (p >>= f) c ↔ wp G N (fun a => wp G N R E (f a)) E p c := by
  show wp G N R E (p.bind f) c ↔ _
  induction p generalizing c with
  | ret a => exact Iff.rfl
  | throw e => exact Iff.rfl
  | lock k p ih | rollback p ih => exact ih
  | read g ih =>
    exact forall_congr' fun db => forall_congr' fun _ => forall_congr' fun _ =>
      forall_congr' fun _ => forall_congr' fun _ => ih (c.view db)
  | write op p ih => exact and_congr_right fun _ => and_congr_right fun _ => ih
  | now g ih => exact forall_congr' fun t => forall_congr' fun _ => ih t
  | fresh g ih => exact forall_congr' fun id => forall_congr' fun _ => ih id
  | random g ih => exact forall_congr' fun s => ih s
  | note n p ih | commit p ih => exact and_congr_right fun _ => ih

theorem wp_tryCatch {p : Prog S ε α} {h : ε → Prog S ε α} :
    wp G N Q E (tryCatch p h) c ↔ wp G N Q (fun e => wp G N Q E (h e)) p c := by
  show wp G N Q E (p.catch h) c ↔ _
  induction p generalizing c with
  | ret a => exact Iff.rfl
  | throw e => exact Iff.rfl
  | lock k p ih | rollback p ih => exact ih
  | read g ih =>
    exact forall_congr' fun db => forall_congr' fun _ => forall_congr' fun _ =>
      forall_congr' fun _ => forall_congr' fun _ => ih (c.view db)
  | write op p ih => exact and_congr_right fun _ => and_congr_right fun _ => ih
  | now g ih => exact forall_congr' fun t => forall_congr' fun _ => ih t
  | fresh g ih => exact forall_congr' fun id => forall_congr' fun _ => ih id
  | random g ih => exact forall_congr' fun s => ih s
  | note n p ih | commit p ih => exact and_congr_right fun _ => ih

@[simp] theorem wp_pure {a : α} : wp G N Q E (pure a) c ↔ Q a c := Iff.rfl

@[simp] theorem wp_throw {e : ε} : wp G N Q E (throw e) c ↔ E e c := Iff.rfl

end

end Transact
