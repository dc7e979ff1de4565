import Ekumidayomi.Lib.Interleaving

/-!
# What a program meets on its way

`wp` asks a program for the locks of its writes and for a property of its commits. `along` asks
nothing of the writes, and asks for a property of the record each time the program requests a lock,
commits or ends: in which order it takes its locks, what it has read when it raises an error. What
is asked of single writes can be read off the program alone (`Prog.Emits`). A system that is `Good`
keeps what the programs meet along their way (`run_along`), and what a request
was asked for stays known of the lock while it is held (`run_held`).
-/

namespace Transact

variable {S : Schema} {C ε α β : Type}

/-- The transaction has drawn the identifiers of the rows that it adds. -/
def Ctx.Drew (c : Ctx S) : Prop := ∀ op ∈ c.buf, ∀ id ∈ S.makes op, id ∈ c.drawn

/-- What the transaction sees is committed, or it has made it itself. -/
theorem Ctx.Drew.uses {c : Ctx S} (h : c.Drew) {db : S.Db} {id : S.Id}
    (hid : S.uses (c.view db) id) : S.uses db id ∨ id ∈ c.drawn := by
  rcases S.uses_applyAll hid with hid | ⟨op, hop, hid⟩
  · exact .inl hid
  · exact .inr (h op hop id hid)

/-- From the record `c`, the program satisfies `L` at each lock that it requests and `G` at each
commit, and ends in `Q` with an answer or in `E` with an error. -/
def along (L : S.Key → Ctx S → Prop) (G : Ctx S → Prop) (Q : α → Ctx S → Prop)
    (E : ε → Ctx S → Prop) : Prog S ε α → Ctx S → Prop
  | .ret a, c => Q a c
  | .throw e, c => E e c
  | .lock k p, c => L k c ∧ along L G Q E p (c.hold k)
  | .read f, c => ∀ db t, S.valid db → c.Sees db → c.Before t → c.Drew →
      along L G Q E (f (c.view db)) (c.observe db t)
  | .write op p, c => along L G Q E p (c.push op)
  | .now f, c => ∀ t, c.Before t → along L G Q E (f t) (c.time t)
  | .fresh f, c => ∀ id, id ∉ c.drawn → along L G Q E (f id) (c.draw id)
  | .random f, c => ∀ s, along L G Q E (f s) c
  | .note n p, c => along L G Q E p (c.mark n)
  | .commit p, c => G c ∧ along L G Q E p c.commit
  | .rollback p, c => along L G Q E p c.release

section
variable {L : S.Key → Ctx S → Prop} {G : Ctx S → Prop} {Q Q' : α → Ctx S → Prop}
  {E E' : ε → Ctx S → Prop} {R : β → Ctx S → Prop} {c : Ctx S}

theorem along_mono {p : Prog S ε α} (h : along L G Q E p c) (hQ : ∀ a c, Q a c → Q' a c)
    (hE : ∀ e c, E e c → E' e c) : along L G Q' E' p c := by
  induction p generalizing c with
  | ret a => exact hQ a c h
  | throw e => exact hE e c h
  | lock k p ih | commit p ih => exact ⟨h.1, ih h.2⟩
  | write op p ih | note n p ih | rollback p ih => exact ih h
  | read f ih => exact fun db t hv hs ht hd => ih _ (h db t hv hs ht hd)
  | now f ih => exact fun t ht => ih _ (h t ht)
  | fresh f ih => exact fun id hid => ih _ (h id hid)
  | random f ih => exact fun s => ih _ (h s)

/-- What does not depend on the transaction may be asked of its commits as well. -/
theorem along_and {P : Prop} {p : Prog S ε α} (hP : P) (h : along L G Q E p c) :
    along L (fun c => P ∧ G c) Q E p c := by
  induction p generalizing c with
  | ret | throw => exact h
  | lock k p ih => exact ⟨h.1, ih h.2⟩
  | commit p ih => exact ⟨⟨hP, h.1⟩, ih h.2⟩
  | write op p ih | note n p ih | rollback p ih => exact ih h
  | read f ih => exact fun db t hv hs ht hd => ih _ (h db t hv hs ht hd)
  | now f ih => exact fun t ht => ih _ (h t ht)
  | fresh f ih => exact fun id hid => ih _ (h id hid)
  | random f ih => exact fun s => ih _ (h s)

theorem along_bind {p : Prog S ε α} {f : α → Prog S ε β} :
    along L G R E (p >>= f) c ↔ along L G (fun a => along L G R E (f a)) E p c := by
  show along L G R E (p.bind f) c ↔ _
  induction p generalizing c with
  | ret a => exact Iff.rfl
  | throw e => exact Iff.rfl
  | lock k p ih | commit p ih => exact and_congr_right fun _ => ih
  | write op p ih | note n p ih | rollback p ih => exact ih
  | read g ih =>
    exact forall_congr' fun db => forall_congr' fun _ => forall_congr' fun _ =>
      forall_congr' fun _ => forall_congr' fun _ => forall_congr' fun _ => ih (c.view db)
  | now g ih => exact forall_congr' fun t => forall_congr' fun _ => ih t
  | fresh g ih => exact forall_congr' fun id => forall_congr' fun _ => ih id
  | random g ih => exact forall_congr' fun s => ih s

theorem along_tryCatch {p : Prog S ε α} {h : ε → Prog S ε α} :
    along L G Q E (tryCatch p h) c ↔ along L G Q (fun e => along L G Q E (h e)) p c := by
  show along L G Q E (p.catch h) c ↔ _
  induction p generalizing c with
  | ret a => exact Iff.rfl
  | throw e => exact Iff.rfl
  | lock k p ih | commit p ih => exact and_congr_right fun _ => ih
  | write op p ih | note n p ih | rollback p ih => exact ih
  | read g ih =>
    exact forall_congr' fun db => forall_congr' fun _ => forall_congr' fun _ =>
      forall_congr' fun _ => forall_congr' fun _ => forall_congr' fun _ => ih (c.view db)
  | now g ih => exact forall_congr' fun t => forall_congr' fun _ => ih t
  | fresh g ih => exact forall_congr' fun id => forall_congr' fun _ => ih id
  | random g ih => exact forall_congr' fun s => ih s

@[simp] theorem along_pure {a : α} : along L G Q E (pure a) c ↔ Q a c := Iff.rfl

@[simp] theorem along_throw {e : ε} : along L G Q E (throw e) c ↔ E e c := Iff.rfl

/-- A check that raises when it fails. -/
theorem along_guard {p : Prop} [Decidable p] {e : ε} {next : Unit → Prog S ε α}
    (herror : p → E e c) (hok : ¬ p → along L G Q E (next ()) c) :
    along L G Q E (if p then throw e >>= next else next ()) c := by
  by_cases h : p
  · rw [if_pos h]
    exact herror h
  · rw [if_neg h]
    exact hok h

end

/-! ## Programs that take no lock -/

/-- The transaction goes on to the record `c'` and takes the locks `ks`, the last one first. -/
structure Ctx.Locks (c : Ctx S) (ks : List S.Key) (c' : Ctx S) : Prop where
  le : c.Le c'
  held : c'.held = ks ++ c.held

section
variable {c c' c'' : Ctx S} {ks ks' : List S.Key}

theorem Ctx.Locks.refl (c : Ctx S) : c.Locks [] c := ⟨.refl c, rfl⟩

theorem Ctx.Locks.trans (h : c.Locks ks c') (h' : c'.Locks ks' c'') : c.Locks (ks' ++ ks) c'' :=
  ⟨h.le.trans h'.le, by rw [h'.held, h.held, List.append_assoc]⟩

theorem Ctx.Locks.trans_nil (h : c.Locks ks c') (h' : c'.Locks [] c'') : c.Locks ks c'' :=
    h.trans h'

theorem Ctx.Locks.of_nil (h : c.Locks [] c') (h' : c'.Locks ks c'') : c.Locks ks c'' := by
  simpa using h.trans h'

theorem Ctx.Locks.hold (k : S.Key) : c.Locks [k] (c.hold k) := ⟨Ctx.le_hold k, rfl⟩

theorem Ctx.Locks.observe (db : S.Db) (t : Int) : c.Locks [] (c.observe db t) :=
  ⟨Ctx.le_observe db t, rfl⟩

theorem Ctx.Locks.push (op : S.Op) : c.Locks [] (c.push op) := ⟨Ctx.le_push op, rfl⟩

theorem Ctx.Locks.time (t : Int) : c.Locks [] (c.time t) := ⟨Ctx.le_time t, rfl⟩

theorem Ctx.Locks.draw (id : S.Id) : c.Locks [] (c.draw id) := ⟨Ctx.le_draw id, rfl⟩

theorem Ctx.Locks.mark (n : S.Note) : c.Locks [] (c.mark n) := ⟨Ctx.le_mark n, rfl⟩

end

/-- The program requests no lock and does not end its transaction. -/
def Prog.Quiet : Prog S ε α → Prop
  | .ret _ | .throw _ => True
  | .lock _ _ | .commit _ | .rollback _ => False
  | .read f => ∀ db, (f db).Quiet
  | .write _ p | .note _ p => p.Quiet
  | .now f => ∀ t, (f t).Quiet
  | .fresh f => ∀ id, (f id).Quiet
  | .random f => ∀ s, (f s).Quiet

namespace Prog.Quiet

variable {p : Prog S ε α}

theorem pure (a : α) : (Pure.pure a : Prog S ε α).Quiet := trivial

theorem throw (e : ε) : (MonadExcept.throw e : Prog S ε α).Quiet := trivial

theorem bind {f : α → Prog S ε β} (h : p.Quiet) (hf : ∀ a, (f a).Quiet) : (p >>= f).Quiet := by
  show (p.bind f).Quiet
  induction p with
  | ret a => exact hf a
  | throw => trivial
  | lock | commit | rollback => exact h.elim
  | write op p ih | note n p ih => exact ih h
  | read g ih | now g ih | fresh g ih | random g ih => exact fun x => ih x (h x)

theorem tryCatch {f : ε → Prog S ε α} (h : p.Quiet) (hf : ∀ e, (f e).Quiet) :
    (MonadExcept.tryCatch p f).Quiet := by
  show (p.catch f).Quiet
  induction p with
  | throw e => exact hf e
  | ret => trivial
  | lock | commit | rollback => exact h.elim
  | write op p ih | note n p ih => exact ih h
  | read g ih | now g ih | fresh g ih | random g ih => exact fun x => ih x (h x)

theorem ite {q : Prop} [Decidable q] {p' : Prog S ε α} (h : p.Quiet) (h' : p'.Quiet) :
    (if q then p else p').Quiet := by
  split
  · exact h
  · exact h'

/-- Such a program keeps the locks that are held. -/
theorem along {L : S.Key → Ctx S → Prop} {G : Ctx S → Prop} {Q : α → Ctx S → Prop}
    {E : ε → Ctx S → Prop} {c : Ctx S} (h : p.Quiet) (hQ : ∀ a c', c.Locks [] c' → Q a c')
    (hE : ∀ e c', c.Locks [] c' → E e c') : along L G Q E p c := by
  induction p generalizing c with
  | ret a => exact hQ a c (.refl c)
  | throw e => exact hE e c (.refl c)
  | lock | commit | rollback => exact h.elim
  | write op p ih =>
    have hc := Ctx.Locks.push (c := c) op
    exact ih h (fun a c' hc' => hQ a c' (hc.of_nil hc')) fun e c' hc' => hE e c' (hc.of_nil hc')
  | note n p ih =>
    have hc := Ctx.Locks.mark (c := c) n
    exact ih h (fun a c' hc' => hQ a c' (hc.of_nil hc')) fun e c' hc' => hE e c' (hc.of_nil hc')
  | read f ih =>
    intro db t _ _ _ _
    have hc := Ctx.Locks.observe (c := c) db t
    exact ih _ (h _) (fun a c' hc' => hQ a c' (hc.of_nil hc')) fun e c' hc' => hE e c'
      (hc.of_nil hc')
  | now f ih =>
    intro t _
    have hc := Ctx.Locks.time (c := c) t
    exact ih _ (h _) (fun a c' hc' => hQ a c' (hc.of_nil hc')) fun e c' hc' => hE e c'
      (hc.of_nil hc')
  | fresh f ih =>
    intro id _
    have hc := Ctx.Locks.draw (c := c) id
    exact ih _ (h _) (fun a c' hc' => hQ a c' (hc.of_nil hc')) fun e c' hc' => hE e c'
      (hc.of_nil hc')
  | random f ih => exact fun s => ih s (h s) hQ hE

end Prog.Quiet

/-! ## What a program writes -/

/-- Whatever the program reads, each of its writes satisfies `W` and each of its answers `Q`. -/
def Prog.Emits (W : S.Op → Prop) (Q : α → Prop) : Prog S ε α → Prop
  | .ret a => Q a
  | .throw _ => True
  | .write op p => W op ∧ p.Emits W Q
  | .lock _ p | .note _ p | .commit p | .rollback p => p.Emits W Q
  | .read f => ∀ db, (f db).Emits W Q
  | .now f => ∀ t, (f t).Emits W Q
  | .fresh f => ∀ id, (f id).Emits W Q
  | .random f => ∀ s, (f s).Emits W Q

namespace Prog.Emits

variable {W : S.Op → Prop} {Q Q' : α → Prop} {R : β → Prop} {p : Prog S ε α}

theorem bind {f : α → Prog S ε β} (h : p.Emits W Q) (hf : ∀ a, Q a → (f a).Emits W R) :
    (p >>= f).Emits W R := by
  show (p.bind f).Emits W R
  induction p with
  | ret a => exact hf a h
  | throw => trivial
  | write op p ih => exact ⟨h.1, ih h.2⟩
  | lock k p ih | note n p ih | commit p ih | rollback p ih => exact ih h
  | read g ih | now g ih | fresh g ih | random g ih => exact fun x => ih x (h x)

theorem tryCatch {f : ε → Prog S ε α} (h : p.Emits W Q) (hf : ∀ e, (f e).Emits W Q) :
    (MonadExcept.tryCatch p f).Emits W Q := by
  show (p.catch f).Emits W Q
  induction p with
  | ret => exact h
  | throw e => exact hf e
  | write op p ih => exact ⟨h.1, ih h.2⟩
  | lock k p ih | note n p ih | commit p ih | rollback p ih => exact ih h
  | read g ih | now g ih | fresh g ih | random g ih => exact fun x => ih x (h x)

theorem ite {q : Prop} [Decidable q] {p' : Prog S ε α} (h : q → p.Emits W Q)
    (h' : ¬ q → p'.Emits W Q) : (if q then p else p').Emits W Q := by
  split
  case isTrue hq => exact h hq
  case isFalse hq => exact h' hq

/-- A check that raises when it fails. -/
theorem guard {q : Prop} [Decidable q] {e : ε} {next : Unit → Prog S ε α}
    (h : ¬ q → (next ()).Emits W Q) :
    Prog.Emits W Q (if q then MonadExcept.throw e >>= next else next ()) :=
  .ite (fun _ => trivial) h

/-- What a program writes is there when it commits. -/
theorem along {E : ε → Ctx S → Prop} {c : Ctx S} (h : p.Emits W Q) (hc : ∀ op ∈ c.buf, W op)
    (hE : ∀ e c', E e c') :
    along (fun _ _ => True) (fun c => ∀ op ∈ c.buf, W op) (fun a _ => Q a) E p c := by
  induction p generalizing c with
  | ret a => exact h
  | throw e => exact hE e c
  | write op p ih =>
    refine ih h.2 fun o ho => ?_
    rcases List.mem_cons.1 ho with rfl | ho
    · exact h.1
    · exact hc o ho
  | lock k p ih => exact ⟨trivial, ih h hc⟩
  | note n p ih => exact ih h hc
  | commit p ih => exact ⟨hc, ih h fun op hop => absurd hop List.not_mem_nil⟩
  | rollback p ih => exact ih h fun op hop => absurd hop List.not_mem_nil
  | read f ih => exact fun db t _ _ _ _ => ih _ (h _) hc
  | now f ih => exact fun t _ => ih _ (h t) hc
  | fresh f ih => exact fun id _ => ih _ (h id) hc
  | random f ih => exact fun s => ih _ (h s) hc

end Prog.Emits

/-! ## Every thread meets what its program meets -/

variable {G₀ : C → Ctx S → S.Db → Prop} {N : S.Note → Ctx S → Prop} {Q₀ : C → α → Ctx S → Prop}
  {E₀ : C → ε → Ctx S → Prop} {L : S.Key → Ctx S → Prop} {G : C → Ctx S → Prop}
  {Q : C → α → Ctx S → Prop} {E : C → ε → Ctx S → Prop} {code : C → Prog S ε α}
  {s s' : Sys S C ε α} {a : Act S C} {i : Nat} {t t' : Thread S C ε α}

/-- The rest of the thread meets what is asked of its call. -/
def Thread.Meets (L : S.Key → Ctx S → Prop) (G : C → Ctx S → Prop) (Q : C → α → Ctx S → Prop)
    (E : C → ε → Ctx S → Prop) (t : Thread S C ε α) : Prop :=
  ∀ p, t.status = .running p → along L (G t.call) (Q t.call) (E t.call) p t.ctx

theorem Thread.Meets.owes {p : Prog S ε α} (h : t.Meets L G Q E) (hs : t.status = .running p) :
    along L (G t.call) (Q t.call) (E t.call) p t.ctx := h p hs

theorem Thread.Meets.goto {p : Prog S ε α} {c : Ctx S}
    (h : along L (G t.call) (Q t.call) (E t.call) p c) : (t.goto p c).Meets L G Q E := by
  rintro _ ⟨rfl⟩
  exact h

theorem Thread.Meets.step (hgood : Good G₀ N Q₀ E₀ s) (ht : s.threads[i]? = some t)
    (h : t.Meets L G Q E) (hstep : Thread.Step s i t a t') : t'.Meets L G Q E := by
  have hsound := hgood.sound i t ht
  cases hstep with
  | ret | throw | crash => exact nofun
  | lock hs => exact .goto (h.owes hs).2
  | read hs =>
    exact .goto (h.owes hs s.db s.clock hgood.valid hsound.sees hsound.before hsound.makes)
  | write hs => exact .goto (h.owes hs)
  | now hs => exact .goto (h.owes hs s.clock hsound.before)
  | random hs => exact .goto (h.owes hs _)
  | note hs => exact .goto (h.owes hs)
  | rollback hs => exact .goto (h.owes hs)

theorem Step.meets (hgood : Good G₀ N Q₀ E₀ s) (h : ∀ t ∈ s.threads, t.Meets L G Q E)
    (hstep : Step code s a s')
    (hstart : ∀ call, a = .start call → along L (G call) (Q call) (E call) (code call) {}) :
    ∀ t ∈ s'.threads, t.Meets L G Q E := by
  have hput : ∀ {j : Nat} {u u' : Thread S C ε α}, s.threads[j]? = some u →
      (u.Meets L G Q E → u'.Meets L G Q E) → ∀ t ∈ s.threads.set j u', t.Meets L G Q E := by
    intro j u u' hu hkeeps t ht
    rcases List.mem_or_eq_of_mem_set ht with ht | rfl
    · exact h t ht
    · exact hkeeps (h u (List.mem_of_getElem? hu))
  cases hstep with
  | tick => exact h
  | @start call =>
    intro t ht
    rcases List.mem_append.1 ht with ht | ht
    · exact h t ht
    · rw [List.mem_singleton.1 ht]
      rintro _ ⟨rfl⟩
      exact hstart call rfl
  | thread ht hstep => exact hput ht fun hmeets => hmeets.step hgood ht hstep
  | draw ht hs hid =>
    refine hput ht fun hmeets => .goto (hmeets.owes hs _ fun hmem => hid ?_)
    exact (hgood.sound _ _ ht).drawn _ hmem
  | commit ht hs => exact hput ht fun hmeets => .goto (hmeets.owes hs).2

/-- In every state of a run, every thread meets what the calls that the run starts meet. -/
theorem run_along (hmeets : ∀ call, wp (G₀ call) N (Q₀ call) (E₀ call) (code call) {})
    {tr : List (Act S C)} (hgood : Good G₀ N Q₀ E₀ s) (hrun : Lts.Run (Step code) s tr s')
    (hcode : ∀ call, .start call ∈ tr → along L (G call) (Q call) (E call) (code call) {})
    (h : ∀ t ∈ s.threads, t.Meets L G Q E) : ∀ t ∈ s'.threads, t.Meets L G Q E := by
  induction hrun with
  | nil => exact h
  | snoc hrun hstep ih =>
    refine hstep.meets (hgood.run hmeets hrun) ?_ ?_
    · exact ih fun call hcall => hcode call (List.mem_append_left _ hcall)
    · rintro call rfl
      exact hcode call (List.mem_append_right _ List.mem_cons_self)

/-! ## What is known of a lock that is held -/

/-- A step ends the transaction, or goes on with it and takes at most the lock it requests. -/
theorem Thread.Step.held (h : Thread.Step s i t a t') : t'.ctx.held = [] ∨
    t.ctx.Le t'.ctx ∧ ∀ k ∈ t'.ctx.held, k ∈ t.ctx.held ∨ ∃ p, t.status = .running (.lock k p) := by
  cases h with
  | ret | throw | rollback | crash => exact .inl rfl
  | @lock k p hs =>
    refine .inr ⟨Ctx.le_hold k, fun k' hk' => ?_⟩
    rcases List.mem_cons.1 hk' with rfl | hk'
    · exact .inr ⟨p, hs⟩
    · exact .inl hk'
  | read => exact .inr ⟨Ctx.le_observe _ _, fun _ => .inl⟩
  | write => exact .inr ⟨Ctx.le_push _, fun _ => .inl⟩
  | now => exact .inr ⟨Ctx.le_time _, fun _ => .inl⟩
  | random => exact .inr ⟨.refl _, fun _ => .inl⟩
  | note => exact .inr ⟨Ctx.le_mark _, fun _ => .inl⟩

section
variable {H : S.Key → Ctx S → Prop}

/-- Every lock that the thread holds has the property. -/
def Thread.Keeps (H : S.Key → Ctx S → Prop) (t : Thread S C ε α) : Prop :=
  ∀ k ∈ t.ctx.held, H k t.ctx

theorem Step.keeps (hL : ∀ k c, L k c → k ∈ c.held ∨ H k c)
    (hH : ∀ k c c', c.Le c' → H k c → H k c') (hmeets : ∀ t ∈ s.threads, t.Meets L G Q E)
    (h : ∀ t ∈ s.threads, t.Keeps H) (hstep : Step code s a s') : ∀ t ∈ s'.threads, t.Keeps H := by
  have hput : ∀ {j : Nat} {u u' : Thread S C ε α}, s.threads[j]? = some u →
      u'.Keeps H → ∀ t ∈ s.threads.set j u', t.Keeps H := by
    intro j u u' hu hkeeps t ht
    rcases List.mem_or_eq_of_mem_set ht with ht | rfl
    · exact h t ht
    · exact hkeeps
  cases hstep with
  | tick => exact h
  | start =>
    intro t ht
    rcases List.mem_append.1 ht with ht | ht
    · exact h t ht
    · rw [List.mem_singleton.1 ht]
      exact nofun
  | @thread j u u' a hu hstep =>
    have hmem := List.mem_of_getElem? hu
    refine hput hu fun k hk => ?_
    rcases hstep.held with hnil | ⟨hle, hheld⟩
    · rw [hnil] at hk
      cases hk
    · rcases hheld k hk with hold | ⟨p, hs⟩
      · exact hH k _ _ hle (h u hmem k hold)
      · rcases hL k _ (hmeets u hmem _ hs).1 with hold | hnew
        · exact hH k _ _ hle (h u hmem k hold)
        · exact hH k _ _ hle hnew
  | draw hu =>
    exact hput hu fun k hk => hH k _ _ (Ctx.le_draw _) (h _ (List.mem_of_getElem? hu) k hk)
  | commit hu => exact hput hu nofun

/-- What a request is asked for, and stays true as the transaction goes on, is known of every lock
that is held in a run. -/
theorem run_held (hmeets : ∀ call, wp (G₀ call) N (Q₀ call) (E₀ call) (code call) {})
    (hL : ∀ k c, L k c → k ∈ c.held ∨ H k c) (hH : ∀ k c c', c.Le c' → H k c → H k c')
    {tr : List (Act S C)} (hgood : Good G₀ N Q₀ E₀ s) (hrun : Lts.Run (Step code) s tr s')
    (hcode : ∀ call, .start call ∈ tr → along L (G call) (Q call) (E call) (code call) {})
    (h : s.threads = []) : ∀ t ∈ s'.threads, t.Keeps H := by
  induction hrun with
  | nil => simp [h]
  | @snoc m _ tr l hrun hstep ih =>
    have hcode' : ∀ call, .start call ∈ tr → along L (G call) (Q call) (E call) (code call) {} :=
      fun call hcall => hcode call (List.mem_append_left _ hcall)
    exact hstep.keeps hL hH (run_along hmeets hgood hrun hcode' (by simp [h])) (ih hcode')

end

end Transact
