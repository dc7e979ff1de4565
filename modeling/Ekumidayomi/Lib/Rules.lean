import Ekumidayomi.Lib.Along

/-!
# Statements and their rules

The statements that transaction programs are written with, over any schema, and what a program may
assume after each. A value is `Framed` by a lock when writes that do not need the lock leave it
alone, and `Local` when a write changes it in a way that depends on the value only. What is read of
such a value under its lock is what the transaction sees of it until it writes to it itself
(`Prog.wp_forUpdate`): `Ctx.Relates` says so of every database that the transaction may commit on
and of what it would make of it.
-/

namespace Transact

variable {S : Schema} {ε α β : Type}

/-! ## Statements -/

namespace Prog

def query (f : S.Db → α) : Prog S ε α := .read fun db => .ret (f db)

def acquire (k : S.Key) : Prog S ε Unit := .lock k (.ret ())

def put (op : S.Op) : Prog S ε Unit := .write op (.ret ())

def clock : Prog S ε Int := .now .ret

def draw : Prog S ε S.Id := .fresh .ret

def mark (n : S.Note) : Prog S ε Unit := .note n (.ret ())

def save : Prog S ε Unit := .commit (.ret ())

/-- Writes, the first one first. -/
def putAll : List S.Op → Prog S ε Unit
  | [] => .ret ()
  | op :: ops => .write op (putAll ops)

/-- `SELECT ... FOR UPDATE` of one row: a row that is there is locked and read again. -/
def forUpdate (k : S.Key) (get : S.Db → Option α) : Prog S ε (Option α) := do
  match ← query get with
  | none => return none
  | some _ =>
    acquire k
    query get

end Prog

/-! ## What a lock protects -/

/-- Whoever does not hold the lock leaves the value alone. -/
def Schema.Framed (S : Schema) (k : S.Key) (g : S.Db → β) : Prop :=
  ∀ (op : S.Op) (db : S.Db), k ∉ S.needs op → g (S.apply op db) = g db

/-- What a write makes of the value depends on the value only. -/
def Schema.Local (S : Schema) (g : S.Db → β) : Prop :=
  ∀ (op : S.Op) (db db' : S.Db), g db = g db' → g (S.apply op db) = g (S.apply op db')

theorem Schema.Local.applyAll {g : S.Db → β} (h : S.Local g) {db db' : S.Db} (ops : List S.Op)
    (heq : g db = g db') : g (S.applyAll ops db) = g (S.applyAll ops db') := by
  induction ops with
  | nil => exact heq
  | cons op ops ih => exact h op _ _ ih

theorem Schema.Framed.interferes {k : S.Key} {g : S.Db → β} (h : S.Framed k g)
    {held : List S.Key} {db db' : S.Db} (hk : k ∈ held) (hi : Interferes held db db') :
    g db' = g db :=
  hi.keeps (P := fun d => g d = g db)
    (fun op d hop heq => (h op d fun hmem => hop.needs k hmem hk).trans heq) rfl

/-- The transaction goes on to the record `c'` without marks, and adds the writes `ops`, the last
one first. -/
structure Ctx.Adds (c : Ctx S) (ops : List S.Op) (c' : Ctx S) : Prop where
  le : c.Le c'
  buf : c'.buf = ops ++ c.buf
  marks : c'.marks = c.marks

/-- How what the transaction sees is related to what is committed, now and until it ends. -/
def Ctx.Relates (c : Ctx S) (R : S.Db → S.Db → Prop) : Prop :=
  ∀ db, S.valid db → c.Sees db → R db (c.view db)

/-- Between the two records the transaction has read, under the lock, a database on which it sees
what `P` says. -/
def Ctx.Reads (c c' : Ctx S) (k : S.Key) (P : S.Db → Prop) : Prop :=
  ∃ r ∈ c'.reads, k ∈ r.held ∧ S.valid r.db ∧ c.Sees r.db ∧ P (c.view r.db)

/-- The record with writes that the transaction has not made yet, the last one first. -/
def Ctx.with (c : Ctx S) (ops : List S.Op) : Ctx S := { c with buf := ops ++ c.buf }

/-- What the transaction sees, now and until it ends. -/
abbrev Ctx.Shows (c : Ctx S) (P : S.Db → Prop) : Prop := c.Relates fun _ => P

section
variable {c c' c'' : Ctx S} {ops ops' : List S.Op}

theorem Ctx.Adds.refl (c : Ctx S) : c.Adds [] c := ⟨.refl c, rfl, rfl⟩

theorem Ctx.Adds.trans (h : c.Adds ops c') (h' : c'.Adds ops' c'') : c.Adds (ops' ++ ops) c'' :=
  ⟨h.le.trans h'.le, by rw [h'.buf, h.buf, List.append_assoc], h'.marks.trans h.marks⟩

theorem Ctx.Adds.trans_nil (h : c.Adds ops c') (h' : c'.Adds [] c'') : c.Adds ops c'' := h.trans h'

theorem Ctx.Adds.of_nil (h : c.Adds [] c') (h' : c'.Adds ops c'') : c.Adds ops c'' := by
  simpa using h.trans h'

theorem Ctx.Adds.hold (k : S.Key) : c.Adds [] (c.hold k) := ⟨Ctx.le_hold k, rfl, rfl⟩

theorem Ctx.Adds.observe (db : S.Db) (t : Int) : c.Adds [] (c.observe db t) :=
  ⟨Ctx.le_observe db t, rfl, rfl⟩

theorem Ctx.Adds.time (t : Int) : c.Adds [] (c.time t) := ⟨Ctx.le_time t, rfl, rfl⟩

theorem Ctx.Adds.draw (id : S.Id) : c.Adds [] (c.draw id) := ⟨Ctx.le_draw id, rfl, rfl⟩

theorem Ctx.Adds.push (op : S.Op) : c.Adds [op] (c.push op) := ⟨Ctx.le_push op, rfl, rfl⟩

/-- A read leaves the record true of the database that was read. -/
theorem Ctx.Sees.observe {db : S.Db} {t : Int} (h : c.Sees db) : (c.observe db t).Sees db :=
  ⟨List.forall_mem_cons.2 ⟨.refl _ _, h.1⟩, h.2⟩

theorem Ctx.Relates.mono {R R' : S.Db → S.Db → Prop} (h : c.Relates R)
    (hR : ∀ db db', R db db' → R' db db') : c.Relates R' :=
  fun db hv hs => hR db _ (h db hv hs)

/-- Steps that write nothing leave what the transaction sees as it is. -/
theorem Ctx.Relates.quiet {R : S.Db → S.Db → Prop} (h : c.Relates R) (ha : c.Adds [] c') :
    c'.Relates R := by
  intro db hv hs
  rw [Ctx.view, ha.buf]
  exact h db hv (ha.le.sees hs)

/-- A write of the transaction shows at once. -/
theorem Ctx.Relates.push {R R' : S.Db → S.Db → Prop} {op : S.Op} (h : c.Relates R)
    (hR : ∀ db db', R db db' → R' db (S.apply op db')) : (c.push op).Relates R' :=
  fun db hv hs => hR db _ (h db hv ((Ctx.le_push op).sees hs))

theorem Ctx.Relates.and {R R' : S.Db → S.Db → Prop} (h : c.Relates R) (h' : c.Relates R') :
    c.Relates fun db db' => R db db' ∧ R' db db' :=
  fun db hv hs => ⟨h db hv hs, h' db hv hs⟩

theorem Schema.Framed.applyAll {k : S.Key} {g : S.Db → β} (hg : S.Framed k g) {ops : List S.Op}
    (hops : ∀ op ∈ ops, k ∉ S.needs op) (db : S.Db) : g (S.applyAll ops db) = g db := by
  induction ops with
  | nil => rfl
  | cons op ops ih =>
    refine (hg op _ (hops op List.mem_cons_self)).trans ?_
    exact ih fun o ho => hops o (List.mem_cons_of_mem _ ho)

/-- What shows of a value goes on to show when the transaction writes elsewhere. -/
theorem Ctx.Relates.others {k : S.Key} {g : S.Db → β} {A : β → Prop}
    (h : c.Shows fun db => A (g db))
    (hg : S.Framed k g) (hc' : c.Adds ops c') (hops : ∀ op ∈ ops, k ∉ S.needs op) :
    c'.Shows fun db => A (g db) := by
  intro db hv hs
  have hold : A (g (c.view db)) := h db hv (hc'.le.sees hs)
  rw [Ctx.view, hc'.buf, Schema.applyAll_append, ← Ctx.view, hg.applyAll hops]
  exact hold

/-- A value that was read under its lock shows. -/
theorem Schema.Framed.shows {k : S.Key} {g : S.Db → β} (hg : S.Framed k g) (hl : S.Local g)
    {r : Read S} (hk : k ∈ r.held) (hr : r ∈ c.reads) :
    c.Shows fun db => g db = g (c.view r.db) :=
  fun _ _ hs => hl.applyAll c.buf (hg.interferes hk (hs.1 r hr))

end

/-! ## Rules -/

namespace Prog

variable {G : Ctx S → S.Db → Prop} {N : S.Note → Ctx S → Prop} {E : ε → Ctx S → Prop} {c : Ctx S}

theorem wp_query {f : S.Db → α} {Q : α → Ctx S → Prop} : wp G N Q E (query f) c ↔
    ∀ db t, S.valid db → c.Sees db → c.Before t → Q (f (c.view db)) (c.observe db t) := Iff.rfl

theorem wp_acquire {k : S.Key} {Q : Unit → Ctx S → Prop} :
    wp G N Q E (acquire k) c ↔ Q () (c.hold k) := Iff.rfl

theorem wp_mark {n : S.Note} {Q : Unit → Ctx S → Prop} :
    wp G N Q E (mark n) c ↔ N n c ∧ Q () (c.mark n) := Iff.rfl

/-- A check that raises when it fails. -/
theorem wp_guard {p : Prop} [Decidable p] {e : ε} {next : Unit → Prog S ε α}
    {Q : α → Ctx S → Prop} (herror : p → E e c) (hok : ¬ p → wp G N Q E (next ()) c) :
    wp G N Q E (if p then throw e >>= next else next ()) c := by
  by_cases h : p
  · rw [if_pos h]
    exact herror h
  · rw [if_neg h]
    exact hok h

/-- A query under the lock of what it reads: the value was read at some instant, and shows. -/
theorem wp_query_locked {k : S.Key} {g : S.Db → α} {Q : α → Ctx S → Prop} (hg : S.Framed k g)
    (hl : S.Local g) (hk : k ∈ c.held)
    (h : ∀ v c', c.Adds [] c' → c.Reads c' k (fun db => g db = v) → c'.Shows (fun db => g db = v) →
      Q v c') :
    wp G N Q E (query g) c := by
  rw [wp_query]
  intro db t hv hs _
  have hr : (⟨c.held, db, t⟩ : Read S) ∈ (c.observe db t).reads := List.mem_cons_self
  exact h _ _ (.observe db t) ⟨_, hr, hk, hv, hs, rfl⟩ (hg.shows hl hk hr)

/-- A row that is found is locked, and shows until the transaction writes to it. -/
theorem wp_forUpdate {k : S.Key} {g : S.Db → Option α} {Q : Option α → Ctx S → Prop}
    (hg : S.Framed k g) (hl : S.Local g)
    (hnone : ∀ c' db, c.Adds [] c' → S.valid db → c.Sees db → g (c.view db) = none → Q none c')
    (hsome : ∀ v c', c.Adds [] c' → k ∈ c'.held → c.Reads c' k (fun db => g db = some v) →
      c'.Shows (fun db => g db = some v) → Q (some v) c') :
    wp G N Q E (forUpdate k g) c := by
  rw [forUpdate, wp_bind, wp_query]
  intro db t hvalid hsees _
  cases hg₀ : g (c.view db) with
  | none => exact hnone _ db (.observe db t) hvalid hsees hg₀
  | some r =>
    dsimp only
    rw [wp_bind, wp_acquire]
    have ha : c.Adds [] ((c.observe db t).hold k) := (Ctx.Adds.observe db t).trans (.hold k)
    refine wp_query_locked hg hl List.mem_cons_self fun v c' hc' hread hv => ?_
    obtain ⟨r, hr, hk, hvalid', hsees', hgv⟩ := hread
    have hsees' := ha.le.sees hsees'
    cases v with
    | none => exact hnone c' r.db (ha.trans_nil hc') hvalid' hsees' hgv
    | some v =>
      exact hsome v c' (ha.trans_nil hc') (hc'.le.held List.mem_cons_self)
        ⟨r, hr, hk, hvalid', hsees', hgv⟩ hv

/-- Writes under locks that are held, with identifiers that were drawn. -/
theorem wp_putAll {ops : List S.Op} {Q : Unit → Ctx S → Prop}
    (hneeds : ∀ op ∈ ops, ∀ k ∈ S.needs op, k ∈ c.held)
    (hmakes : ∀ op ∈ ops, ∀ id ∈ S.makes op, id ∈ c.drawn)
    (h : ∀ c', c.Adds ops.reverse c' → Q () c') : wp G N Q E (putAll ops) c := by
  induction ops generalizing c with
  | nil => exact h c (.refl c)
  | cons op ops ih =>
    rw [List.forall_mem_cons] at hneeds hmakes
    refine ⟨hneeds.1, hmakes.1, ih hneeds.2 hmakes.2 fun c' hc' => h c' ?_⟩
    rw [List.reverse_cons]
    exact (Ctx.Adds.push op).trans hc'

/-! The same statements on the way. -/

section
variable {L : S.Key → Ctx S → Prop} {P : Ctx S → Prop}

theorem along_query {f : S.Db → α} {Q : α → Ctx S → Prop} : along L P Q E (query f) c ↔
    ∀ db t, S.valid db → c.Sees db → c.Before t → c.Drew → Q (f (c.view db)) (c.observe db t) :=
  Iff.rfl

theorem along_acquire {k : S.Key} {Q : Unit → Ctx S → Prop} :
    along L P Q E (acquire k) c ↔ L k c ∧ Q () (c.hold k) := Iff.rfl

theorem along_put {op : S.Op} {Q : Unit → Ctx S → Prop} :
    along L P Q E (put op) c ↔ Q () (c.push op) := Iff.rfl

theorem along_draw {Q : S.Id → Ctx S → Prop} :
    along L P Q E draw c ↔ ∀ id, id ∉ c.drawn → Q id (c.draw id) := Iff.rfl

theorem along_forUpdate {k : S.Key} {g : S.Db → Option α} {Q : Option α → Ctx S → Prop}
    (hlock : ∀ x db t, c.Drew → g (c.view db) = some x → L k (c.observe db t))
    (h : ∀ found ks c', ks ⊆ [k] → c.Locks ks c' → Q found c') :
    along L P Q E (forUpdate k g) c := by
  rw [forUpdate, along_bind, along_query]
  intro db t _ _ _ hdrew
  cases hg : g (c.view db) with
  | none => exact h none [] _ (List.nil_subset _) (.observe db t)
  | some x =>
    dsimp only
    rw [along_bind, along_acquire]
    refine ⟨hlock x db t hdrew hg, ?_⟩
    rw [along_query]
    intro db' t' _ _ _ _
    refine h _ [k] _ (List.Subset.refl _) ?_
    exact ((Ctx.Locks.observe db t).trans (.hold k)).trans (.observe db' t')

end

end Prog

end Transact
