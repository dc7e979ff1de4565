import Ekumidayomi.Lib.Along

/-!
# Programs on some of the tables

A schema may have tables beside those of a smaller one: an `Embedding` says which databases, writes,
locks and identifiers of the larger schema are those of the smaller one, and that its other writes
leave the smaller tables alone. A program on the smaller tables then runs on all of them
(`Embedding.lift`), where it meets what it meets on its own (`Embedding.wp_lift`): what it has done
there is what it would have done here (`Embedding.Same`), and whatever others do to all the tables,
they do to the smaller ones as others could (`Embedding.interferes`). So does what it meets on its
way (`Embedding.along_lift`).
-/

namespace Transact

/-- The tables of `S` among those of `T`. -/
structure Embedding (S T : Schema) where
  db : T.Db → S.Db
  op : S.Op → T.Op
  key : S.Key → T.Key
  id : T.Id → S.Id
  note : S.Note → T.Note
  id_inj : ∀ {i i'}, id i = id i' → i = i'
  db_op : ∀ o d, db (T.apply (op o) d) = S.apply o (db d)
  /-- A write to the other tables leaves those of `S` alone. -/
  other : ∀ o', (∃ o, o' = op o) ∨ ∀ d, db (T.apply o' d) = db d
  needs_op : ∀ o, T.needs (op o) = (S.needs o).map key
  makes_op : ∀ o, S.makes o = (T.makes (op o)).map id
  uses_db : ∀ {d i}, S.uses (db d) (id i) → T.uses d i
  valid_db : ∀ {d}, T.valid d → S.valid (db d)
  valid_op : ∀ {ops d}, T.valid d → S.valid (S.applyAll ops (db d)) →
    T.valid (T.applyAll (ops.map op) d)

variable {S T : Schema} {ε ε' α : Type}

namespace Embedding

variable (m : Embedding S T)

/-- The program on all the tables, with its errors as `error` names them. -/
def lift (error : ε → ε') : Prog S ε α → Prog T ε' α
  | .ret a => .ret a
  | .throw e => .throw (error e)
  | .lock k p => .lock (m.key k) (lift error p)
  | .read f => .read fun d => lift error (f (m.db d))
  | .write o p => .write (m.op o) (lift error p)
  | .now f => .now fun t => lift error (f t)
  | .fresh f => .fresh fun i => lift error (f (m.id i))
  | .random f => .random fun s => lift error (f s)
  | .note n p => .note (m.note n) (lift error p)
  | .commit p => .commit (lift error p)
  | .rollback p => .rollback (lift error p)

/-- One read, on the smaller tables and on all of them. -/
structure SameRead (r : Read S) (r' : Read T) : Prop where
  held : r'.held = r.held.map m.key
  db : r.db = m.db r'.db
  clock : r.clock = r'.clock

/-- One record, on the smaller tables and on all of them. -/
structure Same (c : Ctx S) (c' : Ctx T) : Prop where
  held : c'.held = c.held.map m.key
  reads : ∀ r ∈ c.reads, ∃ r' ∈ c'.reads, m.SameRead r r'
  buf : c'.buf = c.buf.map m.op
  clocks : ∀ reading ∈ c.clocks, ∃ reading' ∈ c'.clocks, reading'.2 = reading.2
  drawn : c.drawn = c'.drawn.map m.id
  marks : c'.marks = c.marks.map m.note
  kept : c'.kept = c.kept.map m.note
  past : c'.past = c.past.map m.note
  epoch : c'.epoch = c.epoch

variable {m} {c : Ctx S} {c' : Ctx T}

/-! ## What others do -/

/-- The writes of the smaller tables are made there alone. -/
theorem db_applyAll (ops : List S.Op) (d : T.Db) :
    m.db (T.applyAll (ops.map m.op) d) = S.applyAll ops (m.db d) := by
  induction ops with
  | nil => rfl
  | cons o ops ih =>
    rw [List.map_cons, Schema.applyAll_cons, Schema.applyAll_cons, m.db_op, ih]

/-- A write by others to the smaller tables is one that others could make there. -/
theorem outside {held : List S.Key} {d : T.Db} {o : S.Op}
    (h : Outside (held.map m.key) d (m.op o)) : Outside held (m.db d) o where
  needs := by
    intro k hk hheld
    refine h.needs (m.key k) ?_ (List.mem_map_of_mem hheld)
    rw [m.needs_op]
    exact List.mem_map_of_mem hk
  makes := by
    intro id hid huses
    rw [m.makes_op] at hid
    obtain ⟨i, hi, rfl⟩ := List.mem_map.1 hid
    exact h.makes i hi (m.uses_db huses)

/-- What others may do to all the tables, they may do to the smaller ones. -/
theorem interferes {held : List S.Key} {d d' : T.Db} (h : Interferes (held.map m.key) d d') :
    Interferes held (m.db d) (m.db d') := by
  refine h.keeps (P := fun d' => Interferes held (m.db d) (m.db d')) (fun o' e hout ih => ?_)
    (.refl _ _)
  rcases m.other o' with ⟨o, rfl⟩ | hleft
  · rw [m.db_op]
    have hone : ∀ o' ∈ [o], Outside held (m.db d) o' := List.forall_mem_singleton.2 (outside hout)
    exact ih.extend hone
  · rw [hleft]
    exact ih

/-! ## What the program does -/

/-- The empty records are one record. -/
theorem Same.initial : m.Same {} {} := by
  constructor <;> simp

/-- A database that the whole transaction may see holds tables that the smaller one may see. -/
theorem Same.sees (h : m.Same c c') {d : T.Db} (hs : c'.Sees d) : c.Sees (m.db d) := by
  refine ⟨fun r hr => ?_, fun id hid huses => ?_⟩
  · obtain ⟨r', hr', hsame⟩ := h.reads r hr
    have hi := hs.1 r' hr'
    rw [hsame.held] at hi
    rw [hsame.db]
    exact interferes hi
  · rw [h.drawn] at hid
    obtain ⟨i, hi, rfl⟩ := List.mem_map.1 hid
    exact hs.2 i hi (m.uses_db huses)

/-- Their readings of the clock are the same. -/
theorem Same.before (h : m.Same c c') {t : Int} (ht : c'.Before t) : c.Before t := by
  refine ⟨fun reading hreading => ?_, fun r hr => ?_⟩
  · obtain ⟨reading', hreading', heq⟩ := h.clocks reading hreading
    exact heq ▸ ht.1 reading' hreading'
  · obtain ⟨r', hr', hsame⟩ := h.reads r hr
    exact hsame.clock ▸ ht.2 r' hr'

/-- They see the same pending writes. -/
theorem Same.view (h : m.Same c c') (d : T.Db) : m.db (c'.view d) = c.view (m.db d) := by
  rw [Ctx.view, h.buf, db_applyAll]
  rfl

/-- A query keeps the records alike. -/
theorem Same.observe (h : m.Same c c') (d : T.Db) (t : Int) :
    m.Same (c.observe (m.db d) t) (c'.observe d t) :=
  { h with
    reads := List.forall_mem_cons.2 ⟨⟨_, List.mem_cons_self, h.held, rfl, rfl⟩, fun r hr =>
      (h.reads r hr).imp fun _ hr' => ⟨List.mem_cons_of_mem _ hr'.1, hr'.2⟩⟩ }

/-- A reading of the clock keeps them alike. -/
theorem Same.time (h : m.Same c c') (t : Int) : m.Same (c.time t) (c'.time t) :=
  { h with
    clocks := List.forall_mem_cons.2 ⟨⟨_, List.mem_cons_self, rfl⟩, fun reading hreading =>
      (h.clocks reading hreading).imp fun _ hr' => ⟨List.mem_cons_of_mem _ hr'.1, hr'.2⟩⟩ }

/-- A lock keeps them alike. -/
theorem Same.hold (h : m.Same c c') (k : S.Key) : m.Same (c.hold k) (c'.hold (m.key k)) :=
  { h with held := congrArg (m.key k :: ·) h.held }

/-- A write keeps them alike. -/
theorem Same.push (h : m.Same c c') (o : S.Op) : m.Same (c.push o) (c'.push (m.op o)) :=
  { h with buf := congrArg (m.op o :: ·) h.buf }

/-- A fresh id keeps them alike. -/
theorem Same.draw (h : m.Same c c') (i : T.Id) : m.Same (c.draw (m.id i)) (c'.draw i) :=
  { h with drawn := congrArg (m.id i :: ·) h.drawn }

/-- A mark keeps them alike. -/
theorem Same.mark (h : m.Same c c') (n : S.Note) : m.Same (c.mark n) (c'.mark (m.note n)) :=
  { h with marks := congrArg (m.note n :: ·) h.marks }

/-- A rollback keeps them alike. -/
theorem Same.release (h : m.Same c c') : m.Same c.release c'.release := by
  constructor <;> simp [Ctx.release, h.kept, h.past, h.marks, h.epoch]

/-- A commit keeps them alike. -/
theorem Same.commit (h : m.Same c c') : m.Same c.commit c'.commit :=
  { h.release with kept := by simp [Ctx.commit, h.kept, h.marks] }

/-- A program meets on all the tables what it meets on its own. -/
theorem wp_lift {G : Ctx S → S.Db → Prop} {N : S.Note → Ctx S → Prop} {Q : α → Ctx S → Prop}
    {E : ε → Ctx S → Prop} {G' : Ctx T → T.Db → Prop} {N' : T.Note → Ctx T → Prop}
    {Q' : α → Ctx T → Prop} {E' : ε' → Ctx T → Prop} {error : ε → ε'} {p : Prog S ε α}
    (hG : ∀ c c' d, m.Same c c' → c'.Sees d → G c (m.db d) → G' c' d)
    (hN : ∀ n c c', m.Same c c' → N n c → N' (m.note n) c')
    (hQ : ∀ a c c', m.Same c c' → Q a c → Q' a c')
    (hE : ∀ e c c', m.Same c c' → E e c → E' (error e) c')
    (hsame : m.Same c c') (h : wp G N Q E p c) : wp G' N' Q' E' (m.lift error p) c' := by
  induction p generalizing c c' with
  | ret a => exact hQ a c c' hsame h
  | throw e => exact hE e c c' hsame h
  | lock k p ih => exact ih (hsame.hold k) h
  | read f ih =>
    intro d t hv hs ht
    dsimp only
    rw [hsame.view]
    exact ih _ (hsame.observe d t) (h _ t (m.valid_db hv) (hsame.sees hs) (hsame.before ht))
  | write o p ih =>
    obtain ⟨hneeds, hmakes, h⟩ := h
    refine ⟨fun k hk => ?_, fun i hi => ?_, ih (hsame.push o) h⟩
    · rw [m.needs_op] at hk
      obtain ⟨k', hk', rfl⟩ := List.mem_map.1 hk
      rw [hsame.held]
      exact List.mem_map_of_mem (hneeds k' hk')
    · have hmem : m.id i ∈ c.drawn := by
        refine hmakes (m.id i) ?_
        rw [m.makes_op]
        exact List.mem_map_of_mem hi
      rw [hsame.drawn] at hmem
      obtain ⟨i', hi', heq⟩ := List.mem_map.1 hmem
      rwa [← m.id_inj heq]
  | now f ih => exact fun t ht => ih _ (hsame.time t) (h t (hsame.before ht))
  | fresh f ih =>
    intro i hi
    refine ih _ (hsame.draw i) (h _ fun hmem => ?_)
    rw [hsame.drawn] at hmem
    obtain ⟨i', hi', heq⟩ := List.mem_map.1 hmem
    rw [m.id_inj heq] at hi'
    exact hi hi'
  | random f ih => exact fun s => ih s hsame (h s)
  | note n p ih => exact ⟨hN n c c' hsame h.1, ih (hsame.mark n) h.2⟩
  | commit p ih =>
    refine ⟨fun d hv hs => ?_, ih hsame.commit h.2⟩
    obtain ⟨hg, hvalid⟩ := h.1 (m.db d) (m.valid_db hv) (hsame.sees hs)
    refine ⟨hG c c' d hsame hs hg, ?_⟩
    rw [Ctx.view, hsame.buf]
    exact m.valid_op hv hvalid
  | rollback p ih => exact ih hsame.release h

/-- The ids that the writes make were drawn by the smaller transaction too. -/
theorem Same.drew (h : m.Same c c') (hd : c'.Drew) : c.Drew := by
  intro o ho id hid
  rw [m.makes_op] at hid
  obtain ⟨i, hi, rfl⟩ := List.mem_map.1 hid
  have hmem : m.op o ∈ c'.buf := h.buf ▸ List.mem_map_of_mem ho
  rw [h.drawn]
  exact List.mem_map_of_mem (hd _ hmem i hi)

/-- What holds along a program on its own tables holds along it on all of them. -/
theorem along_lift {L : S.Key → Ctx S → Prop} {G : Ctx S → Prop} {Q : α → Ctx S → Prop}
    {E : ε → Ctx S → Prop} {L' : T.Key → Ctx T → Prop} {G' : Ctx T → Prop} {Q' : α → Ctx T → Prop}
    {E' : ε' → Ctx T → Prop} {error : ε → ε'} {p : Prog S ε α}
    (hL : ∀ k c c', m.Same c c' → L k c → L' (m.key k) c')
    (hG : ∀ c c', m.Same c c' → G c → G' c')
    (hQ : ∀ a c c', m.Same c c' → Q a c → Q' a c')
    (hE : ∀ e c c', m.Same c c' → E e c → E' (error e) c')
    (hsame : m.Same c c') (h : along L G Q E p c) : along L' G' Q' E' (m.lift error p) c' := by
  induction p generalizing c c' with
  | ret a => exact hQ a c c' hsame h
  | throw e => exact hE e c c' hsame h
  | lock k p ih => exact ⟨hL k c c' hsame h.1, ih (hsame.hold k) h.2⟩
  | read f ih =>
    intro d t hv hs ht hd
    dsimp only
    rw [hsame.view]
    exact ih _ (hsame.observe d t)
      (h _ t (m.valid_db hv) (hsame.sees hs) (hsame.before ht) (hsame.drew hd))
  | write o p ih => exact ih (hsame.push o) h
  | now f ih => exact fun t ht => ih _ (hsame.time t) (h t (hsame.before ht))
  | fresh f ih =>
    intro i hi
    refine ih _ (hsame.draw i) (h _ fun hmem => ?_)
    rw [hsame.drawn] at hmem
    obtain ⟨i', hi', heq⟩ := List.mem_map.1 hmem
    rw [m.id_inj heq] at hi'
    exact hi hi'
  | random f ih => exact fun s => ih s hsame (h s)
  | note n p ih => exact ih (hsame.mark n) h
  | commit p ih => exact ⟨hG c c' hsame h.1, ih hsame.commit h.2⟩
  | rollback p ih => exact ih hsame.release h

end Embedding

end Transact
