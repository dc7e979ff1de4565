import Ekumidayomi.Auth.Calls

/-!
# Rules for the statements of the identity services

For each statement of `Auth.Transactions`, what a program may assume after it. What a row lock
protects is `Framed` by that lock: writes that do not need the lock leave it alone, so a value read
under the lock is the value at the commit (`wp_query_locked`, `wp_forUpdate`). The rules for larger
statements are derived from these and are the only thing that the proofs about calls use.
-/

namespace Ekumidayomi

open Transact

/-- The transaction goes on to the record `c'` without marks, and adds the writes `ops`, the last
one first. -/
structure Goes {sv : Services} (c : Ctx (schema sv)) (ops : List Op) (c' : Ctx (schema sv)) :
    Prop where
  le : c.Le c'
  buf : c'.buf = ops ++ c.buf
  marks : c'.marks = c.marks

section
variable {sv : Services} {settings : AuthSettings} {α β : Type}
  {G : Ctx (schema sv) → Db → Prop} {N : Note → Ctx (schema sv) → Prop}
  {Q : α → Ctx (schema sv) → Prop}
  {E : Error → Ctx (schema sv) → Prop} {c c' c'' : Ctx (schema sv)} {ops ops' : List Op}

/-- A transaction that does nothing adds nothing. -/
theorem Goes.refl (c : Ctx (schema sv)) : Goes c [] c := ⟨.refl c, rfl, rfl⟩

/-- The writes of two parts, one after the other. -/
theorem Goes.trans (h : Goes c ops c') (h' : Goes c' ops' c'') : Goes c (ops' ++ ops) c'' :=
  ⟨h.le.trans h'.le, by rw [h'.buf, h.buf, List.append_assoc], h'.marks.trans h.marks⟩

/-- Steps that write nothing add nothing. -/
theorem Goes.trans_nil (h : Goes c ops c') (h' : Goes c' [] c'') : Goes c ops c'' := h.trans h'

/-- Steps that write nothing, before those that do. -/
theorem Goes.of_nil (h : Goes c [] c') (h' : Goes c' ops c'') : Goes c ops c'' := by
  simpa using h.trans h'

/-- A lock writes nothing. -/
theorem Goes.hold (k : Key) : Goes c [] (c.hold k) := ⟨Ctx.le_hold (c := c) k, rfl, rfl⟩

/-- A query writes nothing. -/
theorem Goes.observe (db : Db) (t : Time) : Goes c [] (c.observe db t) :=
  ⟨Ctx.le_observe (c := c) db t, rfl, rfl⟩

/-- A write adds itself. -/
theorem Goes.push (op : Op) : Goes c [op] (c.push op) := ⟨Ctx.le_push (c := c) op, rfl, rfl⟩

/-- Reading the clock writes nothing. -/
theorem Goes.time (t : Time) : Goes c [] (c.time t) := ⟨Ctx.le_time (c := c) t, rfl, rfl⟩

/-- Drawing an id writes nothing. -/
theorem Goes.draw (id : UUID) : Goes c [] (c.draw id) := ⟨Ctx.le_draw (c := c) id, rfl, rfl⟩

/-! ## The primitive statements -/

/-- A query reads some database that the transaction may see. -/
theorem wp_query {f : Db → α} : wp G N Q E (query f) c ↔ ∀ (db : Db) (t : Time),
    db.AdminsVerified → c.Sees db → c.Before t → Q (f (c.view db)) (c.observe db t) := Iff.rfl

/-- A lock is held from then on. -/
theorem wp_lock {Q : Unit → Ctx (schema sv) → Prop} {k : Key} :
    wp G N Q E (lock k) c ↔ Q () (c.hold k) := Iff.rfl

/-- A write needs its locks, and makes only ids that were drawn. -/
theorem wp_write {Q : Unit → Ctx (schema sv) → Prop} {op : Op} :
    wp G N Q E (write op) c ↔ (∀ k ∈ op.needs sv, k ∈ c.held) ∧ (∀ id ∈ op.makes, id ∈ c.drawn) ∧
      Q () (c.push op) := Iff.rfl

/-- A reading of the clock is no earlier than what was read before. -/
theorem wp_utcNow {Q : Time → Ctx (schema sv) → Prop} :
    wp G N Q E utcNow c ↔ ∀ t, c.Before t → Q t (c.time t) := Iff.rfl

/-- An id is one that the transaction has not drawn. -/
theorem wp_uuid4 {Q : UUID → Ctx (schema sv) → Prop} :
    wp G N Q E uuid4 c ↔ ∀ id, id ∉ c.drawn → Q id (c.draw id) := Iff.rfl

/-- A random text can be any. -/
theorem wp_randomText {Q : String → Ctx (schema sv) → Prop} :
    wp G N Q E randomText c ↔ ∀ s, Q s c := Iff.rfl

/-- A mark is judged where it is set. -/
theorem wp_note {Q : Unit → Ctx (schema sv) → Prop} {n : Note} :
    wp G N Q E (note n) c ↔ N n c ∧ Q () (c.mark n) := Iff.rfl

/-- A commit is judged in every database that the transaction may see. -/
theorem wp_commit {Q : Unit → Ctx (schema sv) → Prop} :
    wp G N Q E commit c ↔ (∀ db : Db, db.AdminsVerified → c.Sees db →
      G c db ∧ Db.AdminsVerified (c.view db)) ∧ Q () c.commit := Iff.rfl

/-- A check that raises when it fails. -/
theorem wp_guard {p : Prop} [Decidable p] {e : Error} {next : Unit → Tx sv α}
    (herror : p → E e c) (hok : ¬ p → wp G N Q E (next ()) c) :
    wp G N Q E (if p then throw e >>= next else next ()) c := by
  by_cases h : p
  · rw [if_pos h]
    exact herror h
  · rw [if_neg h]
    exact hok h

/-! ## What a lock protects -/

/-- Whoever does not hold the lock leaves the value alone. -/
def Framed (sv : Services) (k : Key) (g : Db → β) : Prop :=
  ∀ (op : Op) (db : Db), k ∉ op.needs sv → g (op.apply db) = g db

/-- The lock of a user protects the row. -/
theorem framed_user (id : UUID) : Framed sv (.user id) (·.user id) := by
  intro op db h
  cases op <;> simp only [Op.needs, List.mem_append, List.mem_cons, Key.user.injEq, not_or,
    List.not_mem_nil, reduceCtorEq, not_false_eq_true] at h <;>
    simp only [Db.user, Op.apply, Store.get_modify]
  case insertUser => exact Store.get_insert_ne (Ne.symm h.1.1)
  case setAccess | setVerified => rw [if_neg h.1]

/-- It protects the user's credential too. -/
theorem framed_credential (id : UUID) : Framed sv (.user id) (·.credential id) := by
  intro op db h
  cases op <;> simp only [Op.needs, List.mem_append, List.mem_cons, Key.user.injEq, not_or,
    List.not_mem_nil, reduceCtorEq, not_false_eq_true] at h <;>
    simp only [Db.credential, Op.apply, Store.get_modify]
  case insertCredential => exact Store.get_insert_ne (Ne.symm h.1)
  case setPassword => rw [if_neg h.1]

/-- The lock of a session protects the row. -/
theorem framed_session (id : UUID) : Framed sv (.session id) (·.session id) := by
  intro op db h
  cases op <;> simp only [Op.needs, List.mem_append, List.mem_cons, Key.session.injEq, not_or,
    List.not_mem_nil, reduceCtorEq, not_false_eq_true] at h <;>
    simp only [Db.session, Op.apply, Store.get_modify]
  case insertSession => exact Store.get_insert_ne (Ne.symm h.2.1)
  case revokeSession | setAuthenticated => rw [if_neg h.1]

/-- The lock of a challenge protects the row. -/
theorem framed_challenge (id : UUID) : Framed sv (.challenge id) (·.challenge id) := by
  intro op db h
  cases op <;> simp only [Op.needs, List.mem_append, List.mem_cons, Key.challenge.injEq, not_or,
    List.not_mem_nil, reduceCtorEq, not_false_eq_true] at h <;>
    simp only [Db.challenge, Op.apply, Store.get_modify, Store.get_erase]
  case insertChallenge => exact Store.get_insert_ne (Ne.symm h.1)
  case deleteChallenge | setAttempts | setConsumed => rw [if_neg h.1]

/-- The lock of an identity protects the row. -/
theorem framed_identity (id : UUID) : Framed sv (.identity id) (·.identity id) := by
  intro op db h
  cases op <;> simp only [Op.needs, List.mem_append, List.mem_cons, Key.identity.injEq, not_or,
    List.not_mem_nil, reduceCtorEq, not_false_eq_true] at h <;>
    simp only [Db.identity, Op.apply, Store.get_modify, Store.get_erase]
  case insertIdentity => exact Store.get_insert_ne (Ne.symm h.1)
  case deleteIdentity | setLastLogin => rw [if_neg h.1]

/-- A protected value that was read is certain. -/
theorem Framed.sure {k : Key} {g : Db → β} (hg : Framed sv k g) {r : Read (schema sv)}
    (hk : k ∈ r.held) (hr : r ∈ c.reads) : c.Sure fun db => g db = g r.db := by
  refine Ctx.sure_of_read hr (fun op db hop heq => ?_) rfl
  rw [← heq]
  exact hg op db fun hmem => hop.needs k hmem hk

/-- A property of what was read that no write by others changes is certain. -/
theorem sure_of_read {r : Read (schema sv)} {P : Db → Prop} (hr : r ∈ c.reads)
    (hop : ∀ (op : Op) (d : Db), Outside r.held r.db op → P d → P (op.apply d)) (h0 : P r.db) :
    c.Sure P :=
  Ctx.sure_of_read hr hop h0

/-- The transaction's own writes do not show in the value. -/
def Plain (c : Ctx (schema sv)) (g : Db → β) : Prop := ∀ db : Db, g (c.view db) = g db

/-- Steps that write nothing do not show in the value either. -/
theorem Plain.goes {g : Db → β} (h : Plain c g) (hgo : Goes c [] c') : Plain c' g := by
  intro db
  rw [Ctx.view, hgo.buf]
  exact h db

/-- A query under the lock that protects what it reads. -/
theorem wp_query_locked {k : Key} {g : Db → α} (hg : Framed sv k g) (hplain : Plain c g)
    (hk : k ∈ c.held)
    (h : ∀ v c', Goes c [] c' → (∃ db, g db = v) → c'.Sure (fun db => g db = v) → Q v c') :
    wp G N Q E (query g) c := by
  rw [wp_query]
  intro db t _ _ _
  refine h _ _ (.observe db t) ⟨_, rfl⟩ ?_
  rw [hplain]
  exact hg.sure (r := ⟨c.held, db, t⟩) hk List.mem_cons_self

/-- A locked read finds nothing, or a row that stays certain while the lock is held. -/
theorem wp_forUpdate {k : Key} {g : Db → Option β} {Q : Option β → Ctx (schema sv) → Prop}
    (hg : Framed sv k g) (hplain : Plain c g)
    (hnone : ∀ c', Goes c [] c' → Q none c')
    (hsome : ∀ r c', Goes c [] c' → k ∈ c'.held → (∃ db, g db = some r) →
      c'.Sure (fun db => g db = some r) → Q (some r) c') :
    wp G N Q E (forUpdate g k) c := by
  rw [forUpdate, wp_bind, wp_query]
  intro db t _ _ _
  cases g (c.view db) with
  | none => exact hnone _ (.observe db t)
  | some r =>
    show wp G N Q E (lock k >>= fun _ => query g) (c.observe db t)
    rw [wp_bind, wp_lock]
    have hgo : Goes c [] ((c.observe db t).hold k) := (Goes.observe db t).trans (.hold k)
    refine wp_query_locked hg hplain List.mem_cons_self fun v c' hc' hread hv => ?_
    cases v with
    | none => exact hnone c' (hgo.trans_nil hc')
    | some r =>
      exact hsome r c' (hgo.trans_nil hc') (hc'.le.held List.mem_cons_self) hread hv

/-- A flush writes under the row's lock. -/
theorem wp_flushRow {k : Key} {g : Db → Option β} {op : Op} {Q : Unit → Ctx (schema sv) → Prop}
    (hneeds : ∀ k' ∈ op.needs sv, k' = k ∨ k' ∈ c.held) (hmakes : op.makes = [])
    (hstale : ∀ c', Goes c [] c' → E .staleDataError c')
    (h : ∀ c', Goes c [op] c' → Q () c') : wp G N Q E (flushRow g k op) c := by
  have hwrite : ∀ c', Goes c [] c' → k ∈ c'.held → wp G N Q E (write op) c' := by
    intro c' hc' hk
    rw [wp_write, hmakes]
    refine ⟨fun k' hk' => ?_, by simp, h _ (hc'.trans (.push op))⟩
    rcases hneeds k' hk' with rfl | hmem
    · exact hk
    · exact hc'.le.held hmem
  rw [flushRow, wp_bind, forUpdate, wp_bind, wp_query]
  intro db t _ _ _
  cases g (c.view db) with
  | none => exact hstale _ (.observe db t)
  | some r =>
    show wp G N _ E (lock k >>= fun _ => query g) (c.observe db t)
    rw [wp_bind, wp_lock, wp_query]
    intro db' t' _ _ _
    have hgo : Goes c [] (((c.observe db t).hold k).observe db' t') :=
      ((Goes.observe db t).trans (.hold k)).trans (.observe db' t')
    cases g (((c.observe db t).hold k).view db') with
    | none => exact hstale _ hgo
    | some r' => exact hwrite _ hgo List.mem_cons_self

/-- A flush of a row that its lock protects leaves it certain that the row is there. -/
theorem wp_flushRow_sure {k : Key} {g : Db → Option β} {op : Op}
    {Q : Unit → Ctx (schema sv) → Prop} (hg : Framed sv k g) (hplain : Plain c g)
    (hneeds : ∀ k' ∈ op.needs sv, k' = k ∨ k' ∈ c.held) (hmakes : op.makes = [])
    (hstale : ∀ c', Goes c [] c' → E .staleDataError c')
    (h : ∀ r c', Goes c [op] c' → c'.Sure (fun db => g db = some r) → Q () c') :
    wp G N Q E (flushRow g k op) c := by
  rw [flushRow, wp_bind]
  refine wp_forUpdate hg hplain hstale fun r c' hc' hk _ hr => ?_
  dsimp only
  rw [wp_write, hmakes]
  refine ⟨fun k' hk' => ?_, by simp, h r _ (hc'.trans (.push op)) (Ctx.le_push op |>.sure hr)⟩
  rcases hneeds k' hk' with rfl | hmem
  · exact hk
  · exact hc'.le.held hmem

/-- An insert writes under the entry of the index and the row's lock, after it has found no row
with the entry. -/
theorem wp_insertUnique {entry row : Key} {taken : Db → Bool} {op : Op}
    {Q : Unit → Ctx (schema sv) → Prop}
    (hneeds : ∀ k ∈ op.needs sv, k = entry ∨ k = row ∨ k ∈ c.held)
    (hmakes : ∀ id ∈ op.makes, id ∈ c.drawn)
    (htaken : ∀ c', Goes c [] c' → E .integrityError c')
    (h : ∀ (r : Read (schema sv)) c', Goes c [op] c' → entry ∈ r.held → r ∈ c'.reads →
      c.held ⊆ r.held → row ∈ c'.held → taken (c.view r.db) = false → Q () c') :
    wp G N Q E (insertUnique entry taken row op) c := by
  rw [insertUnique, wp_bind, wp_lock, wp_bind, wp_query]
  intro db t _ _ _
  have hgo : Goes c [] ((c.hold entry).observe db t) := (Goes.hold entry).trans (.observe db t)
  refine wp_guard (fun _ => htaken _ hgo) fun hfree => ?_
  rw [wp_bind, wp_lock, wp_write]
  refine ⟨fun k hk => ?_, fun id hid => hgo.le.drawn (hmakes id hid), ?_⟩
  · rcases hneeds k hk with rfl | rfl | hmem
    · exact List.mem_cons_of_mem _ List.mem_cons_self
    · exact List.mem_cons_self
    · exact List.mem_cons_of_mem _ (List.mem_cons_of_mem _ hmem)
  · refine h ⟨entry :: c.held, db, t⟩ _
      ((hgo.trans (.hold row)).trans (.push op)) List.mem_cons_self
      List.mem_cons_self (List.subset_cons_self _ _) List.mem_cons_self ?_
    exact Bool.eq_false_iff.2 hfree

end

end Ekumidayomi
