import Ekumidayomi.Lib.Rules

/-!
# Transactions that account for their writes

An account `A c op post` says why a transaction with the record `c` may write `op` after the writes
`post`: what it has read under which lock, or what it has written before. A record is `Booked` when
it has an account of each of its writes. Most of a program writes nothing that needs an account
(`Prog.Only`), and keeps what such writes keep of the record (`Prog.Only.along`); an account is
brought where the program makes one of the other writes. In a run, every transaction that commits
is as its program says (`Step.commit_meets`).
-/

namespace Transact

variable {S : Schema} {C ε α β : Type}

/-! ## Records with an account of every write -/

/-- Each of the writes has an account over those before it. The last write comes first. -/
def Ctx.BookedFor (A : Ctx S → S.Op → List S.Op → Prop) (c : Ctx S) : List S.Op → Prop
  | [] => True
  | op :: post => A c op post ∧ c.BookedFor A post

def Ctx.Booked (A : Ctx S → S.Op → List S.Op → Prop) (c : Ctx S) : Prop := c.BookedFor A c.buf

/-- Accounts that the record still gives when it goes on, or that say less. -/
theorem Ctx.BookedFor.mono {A B : Ctx S → S.Op → List S.Op → Prop} {c c' : Ctx S} {ops : List S.Op}
    (hA : ∀ op post, A c op post → B c' op post) (h : c.BookedFor A ops) : c'.BookedFor B ops := by
  induction ops with
  | nil => trivial
  | cons op post ih => exact ⟨hA op post h.1, ih h.2⟩

/-- Each write has its account. -/
theorem Ctx.BookedFor.account {A : Ctx S → S.Op → List S.Op → Prop} {c : Ctx S}
    {ops : List S.Op} {op : S.Op} (h : c.BookedFor A ops) (hop : op ∈ ops) :
    ∃ post, (∀ o ∈ post, o ∈ ops) ∧ A c op post := by
  induction ops with
  | nil => cases hop
  | cons o post ih =>
    rcases List.mem_cons.1 hop with rfl | hop
    · exact ⟨post, fun _ => List.mem_cons_of_mem _, h.1⟩
    · obtain ⟨post', hsub, hA⟩ := ih h.2 hop
      exact ⟨post', fun o' ho' => List.mem_cons_of_mem _ (hsub o' ho'), hA⟩

/-! ## Programs whose writes need no account -/

/-- The transaction goes on, and keeps its writes and marks. -/
structure Ctx.Follows (c c' : Ctx S) : Prop where
  le : c.Le c'
  buf : c.buf ⊆ c'.buf
  marks : c.marks ⊆ c'.marks

section
variable {c c' c'' : Ctx S}

theorem Ctx.Follows.refl (c : Ctx S) : c.Follows c := ⟨.refl c, fun _ => id, fun _ => id⟩

theorem Ctx.Follows.trans (h : c.Follows c') (h' : c'.Follows c'') : c.Follows c'' :=
  ⟨h.le.trans h'.le, List.Subset.trans h.buf h'.buf, List.Subset.trans h.marks h'.marks⟩

theorem Ctx.Follows.hold (k : S.Key) : c.Follows (c.hold k) :=
  ⟨Ctx.le_hold k, fun _ => id, fun _ => id⟩

theorem Ctx.Follows.observe (db : S.Db) (t : Int) : c.Follows (c.observe db t) :=
  ⟨Ctx.le_observe db t, fun _ => id, fun _ => id⟩

theorem Ctx.Follows.push (op : S.Op) : c.Follows (c.push op) :=
  ⟨Ctx.le_push op, List.subset_cons_self _ _, fun _ => id⟩

theorem Ctx.Follows.time (t : Int) : c.Follows (c.time t) :=
  ⟨Ctx.le_time t, fun _ => id, fun _ => id⟩

theorem Ctx.Follows.draw (id : S.Id) : c.Follows (c.draw id) :=
  ⟨Ctx.le_draw id, fun _ h => h, fun _ h => h⟩

theorem Ctx.Follows.mark (n : S.Note) : c.Follows (c.mark n) :=
  ⟨Ctx.le_mark n, fun _ => id, List.subset_cons_self _ _⟩

end

/-- The program stays in its transaction, every write of it satisfies `W`, every mark `M` and every
error `X`. -/
def Prog.Only (W : S.Op → Prop) (M : S.Note → Prop) (X : ε → Prop) : Prog S ε α → Prop
  | .ret _ => True
  | .throw e => X e
  | .commit _ | .rollback _ => False
  | .lock _ p => p.Only W M X
  | .read f => ∀ db, (f db).Only W M X
  | .write op p => W op ∧ p.Only W M X
  | .now f => ∀ t, (f t).Only W M X
  | .fresh f => ∀ id, (f id).Only W M X
  | .random f => ∀ s, (f s).Only W M X
  | .note n p => M n ∧ p.Only W M X

/-- What a record keeps while its transaction goes on, as long as its writes satisfy `W` and its
marks `M`. -/
structure Ctx.Kept (W : S.Op → Prop) (M : S.Note → Prop) (I : Ctx S → Prop) : Prop where
  le : ∀ {c c' : Ctx S}, c.Le c' → c'.buf = c.buf → c'.marks = c.marks → I c → I c'
  push : ∀ {c : Ctx S} {op : S.Op}, W op → I c → I (c.push op)
  mark : ∀ {c : Ctx S} {n : S.Note}, M n → I c → I (c.mark n)

theorem Ctx.Kept.and {W : S.Op → Prop} {M : S.Note → Prop} {I J : Ctx S → Prop}
    (hI : Ctx.Kept W M I) (hJ : Ctx.Kept W M J) : Ctx.Kept W M fun c => I c ∧ J c where
  le := fun hle hbuf hmarks h => ⟨hI.le hle hbuf hmarks h.1, hJ.le hle hbuf hmarks h.2⟩
  push := fun hop h => ⟨hI.push hop h.1, hJ.push hop h.2⟩
  mark := fun hn h => ⟨hI.mark hn h.1, hJ.mark hn h.2⟩

namespace Prog.Only

variable {W : S.Op → Prop} {M : S.Note → Prop} {X X' : ε → Prop} {p : Prog S ε α}

theorem pure (a : α) : (Pure.pure a : Prog S ε α).Only W M X := trivial

theorem throw {e : ε} (h : X e) : (MonadExcept.throw e : Prog S ε α).Only W M X := h

/-- More may be allowed of it. -/
theorem mono {W' : S.Op → Prop} {M' : S.Note → Prop} (h : p.Only W M X) (hW : ∀ op, W op → W' op)
    (hM : ∀ n, M n → M' n) (hX : ∀ e, X e → X' e) : p.Only W' M' X' := by
  induction p with
  | ret => trivial
  | throw e => exact hX e h
  | commit | rollback => exact h.elim
  | lock k p ih => exact ih h
  | write op p ih => exact ⟨hW op h.1, ih h.2⟩
  | note n p ih => exact ⟨hM n h.1, ih h.2⟩
  | read g ih | now g ih | fresh g ih | random g ih => exact fun x => ih x (h x)

theorem bind {f : α → Prog S ε β} (h : p.Only W M X) (hf : ∀ a, (f a).Only W M X) :
    (p >>= f).Only W M X := by
  show (p.bind f).Only W M X
  induction p with
  | ret a => exact hf a
  | throw => exact h
  | commit | rollback => exact h.elim
  | lock k p ih => exact ih h
  | write op p ih | note n p ih => exact ⟨h.1, ih h.2⟩
  | read g ih | now g ih | fresh g ih | random g ih => exact fun x => ih x (h x)

theorem tryCatch {f : ε → Prog S ε α} (h : p.Only W M X') (hf : ∀ e, X' e → (f e).Only W M X) :
    (MonadExcept.tryCatch p f).Only W M X := by
  show (p.catch f).Only W M X
  induction p with
  | throw e => exact hf e h
  | ret => trivial
  | commit | rollback => exact h.elim
  | lock k p ih => exact ih h
  | write op p ih | note n p ih => exact ⟨h.1, ih h.2⟩
  | read g ih | now g ih | fresh g ih | random g ih => exact fun x => ih x (h x)

theorem ite {q : Prop} [Decidable q] {p' : Prog S ε α} (h : p.Only W M X) (h' : p'.Only W M X) :
    (if q then p else p').Only W M X := by
  split
  · exact h
  · exact h'

/-- Such a program keeps what its writes and marks keep. -/
theorem along {L : S.Key → Ctx S → Prop} {I G : Ctx S → Prop} {Q : α → Ctx S → Prop}
    {E : ε → Ctx S → Prop} {c : Ctx S} (hkept : Ctx.Kept W M I) (hL : ∀ k c, L k c)
    (h : p.Only W M X) (hI : I c) (hQ : ∀ a c', c.Follows c' → I c' → Q a c')
    (hE : ∀ e c', X e → c.Follows c' → I c' → E e c') : along L G Q E p c := by
  induction p generalizing c with
  | ret a => exact hQ a c (.refl c) hI
  | throw e => exact hE e c h (.refl c) hI
  | commit | rollback => exact h.elim
  | lock k p ih =>
    have hgo : c.Follows (c.hold k) := .hold k
    exact ⟨hL k c, ih h (hkept.le hgo.le rfl rfl hI) (fun a c' hc' => hQ a c' (hgo.trans hc'))
      fun e c' he hc' => hE e c' he (hgo.trans hc')⟩
  | read f ih =>
    intro db t _ _ _ _
    have hgo : c.Follows (c.observe db t) := .observe db t
    exact ih _ (h _) (hkept.le hgo.le rfl rfl hI) (fun a c' hc' => hQ a c' (hgo.trans hc'))
      fun e c' he hc' => hE e c' he (hgo.trans hc')
  | write op p ih =>
    have hgo : c.Follows (c.push op) := .push op
    exact ih h.2 (hkept.push h.1 hI) (fun a c' hc' => hQ a c' (hgo.trans hc'))
      fun e c' he hc' => hE e c' he (hgo.trans hc')
  | now f ih =>
    intro t _
    have hgo : c.Follows (c.time t) := .time t
    exact ih t (h t) (hkept.le hgo.le rfl rfl hI) (fun a c' hc' => hQ a c' (hgo.trans hc'))
      fun e c' he hc' => hE e c' he (hgo.trans hc')
  | fresh f ih =>
    intro id _
    have hgo : c.Follows (c.draw id) := .draw id
    exact ih id (h id) (hkept.le hgo.le rfl rfl hI) (fun a c' hc' => hQ a c' (hgo.trans hc'))
      fun e c' he hc' => hE e c' he (hgo.trans hc')
  | random f ih => exact fun s => ih s (h s) hI hQ hE
  | note n p ih =>
    have hgo : c.Follows (c.mark n) := .mark n
    exact ih h.2 (hkept.mark h.1 hI) (fun a c' hc' => hQ a c' (hgo.trans hc'))
      fun e c' he hc' => hE e c' he (hgo.trans hc')

end Prog.Only

/-! ## What follows a commit -/

/-- At each commit of the program, its pending writes and what it does next satisfy `R`. -/
def Prog.Settles (R : List S.Op → Prog S ε α → Prop) : Prog S ε α → List S.Op → Prop
  | .ret _, _ | .throw _, _ => True
  | .lock _ p, ops | .note _ p, ops => p.Settles R ops
  | .read f, ops => ∀ db, (f db).Settles R ops
  | .write op p, ops => p.Settles R (op :: ops)
  | .now f, ops => ∀ t, (f t).Settles R ops
  | .fresh f, ops => ∀ id, (f id).Settles R ops
  | .random f, ops => ∀ s, (f s).Settles R ops
  | .commit p, ops => R ops p ∧ p.Settles R []
  | .rollback p, _ => p.Settles R []

section
variable {W : S.Op → Prop} {M : S.Note → Prop} {X : ε → Prop}
  {R : List S.Op → Prog S ε β → Prop} {ops : List S.Op} {f : α → Prog S ε β}

/-- A part that stays in its transaction. -/
theorem Prog.Settles.bind {p : Prog S ε α} (hp : p.Only W M X)
    (hf : ∀ a ops', ops ⊆ ops' → (f a).Settles R ops') : (p >>= f).Settles R ops := by
  show (p.bind f).Settles R ops
  induction p generalizing ops with
  | ret a => exact hf a ops (List.Subset.refl _)
  | throw e => trivial
  | commit | rollback => exact hp.elim
  | lock k p ih => exact ih hp hf
  | note n p ih => exact ih hp.2 hf
  | write op p ih =>
    exact ih hp.2 fun a ops' hsub => hf a ops' (List.Subset.trans (List.subset_cons_self _ _) hsub)
  | read g ih | now g ih | fresh g ih | random g ih => exact fun x => ih x (hp x) hf

end

/-! ## Commits in a run -/

/-- A transaction commits with a record that satisfies what its program meets at a commit. -/
theorem Step.commit_meets {G : C → Ctx S → Prop} {L : S.Key → Ctx S → Prop}
    {Q : C → α → Ctx S → Prop} {E : C → ε → Ctx S → Prop} {code : C → Prog S ε α}
    {s s' : Sys S C ε α} {i : Nat} (hmeets : ∀ t ∈ s.threads, t.Meets L G Q E)
    (h : Step code s (.commit i) s') : ∃ t, s.threads[i]? = some t ∧ G t.call t.ctx ∧
      s'.db = t.ctx.view s.db := by
  obtain ⟨t, p, ht, hs, hdb, -⟩ := h.commit_inv
  exact ⟨t, ht, ((hmeets t (List.mem_of_getElem? ht)).owes hs).1, hdb⟩

/-- What the rest of the thread does at its commits. -/
def Thread.Settles (R : C → List S.Op → Prog S ε α → Prop) (t : Thread S C ε α) : Prop :=
  ∀ p, t.status = .running p → p.Settles (R t.call) t.ctx.buf

/-- What a transaction has drawn is spent once it has committed. -/
theorem Step.commit_spent {G : C → Ctx S → S.Db → Prop} {N : S.Note → Ctx S → Prop}
    {Q : C → α → Ctx S → Prop} {E : C → ε → Ctx S → Prop} {code : C → Prog S ε α}
    {s s' : Sys S C ε α} {i : Nat} {t : Thread S C ε α} (hgood : Good G N Q E s)
    (ht : s.threads[i]? = some t) (h : Step code s (.commit i) s') {id : S.Id}
    (hid : id ∈ t.ctx.drawn) : s'.Spent id := by
  cases h with
  | thread _ hstep => cases hstep
  | @commit _ u p hu hs =>
    obtain rfl : t = u := Option.some.inj (ht.symm.trans hu)
    refine ⟨(hgood.sound i t ht).drawn id hid, fun v hv hmem => ?_⟩
    obtain ⟨j, hj⟩ := List.mem_iff_getElem?.1 hv
    rcases Sys.get_put hj with ⟨-, rfl⟩ | ⟨hne, hold⟩
    · cases hmem
    · exact hgood.drawn_apart j i v t hne hold ht id hmem hid

end Transact
