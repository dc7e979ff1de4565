import Mathlib.Logic.Relation
import Ekumidayomi.Lib.Along

/-!
# Locks that are taken in order

A thread waits for another one when it requests a lock that the other holds (`Sys.Waits`). Threads
do not wait in a circle when every program takes its locks in the order of a `LockOrder`: by rising
rank, but for two exceptions. A lock of rank 0 is only ever requested under another lock, its guard,
and so nobody waits for it; and a transaction that holds a lock may request one of the same rank
when it holds the guard of both. The guard of a row may depend on the row, whose owner never changes
(`LockOrder.Agree`). A row that a transaction adds itself is its own: nobody else can name it before
the commit.
-/

namespace Transact

variable {S : Schema} {C ε α : Type}

/-- The `i`th thread requests a lock that the `j`th holds. -/
def Sys.Waits (s : Sys S C ε α) (i j : Nat) : Prop :=
  i ≠ j ∧ ∃ t u k p, s.threads[i]? = some t ∧ t.status = .running (.lock k p) ∧
    s.threads[j]? = some u ∧ k ∈ u.ctx.held

/-- A relation has no cycle when a measure rises with every step but the last one of a path. -/
theorem not_transGen_of_rises {W : Nat → Nat → Prop} (μ : Nat → Nat)
    (h : ∀ i j l, W i j → W j l → μ i < μ j) (i : Nat) : ¬ Relation.TransGen W i i := by
  have hpath : ∀ j, Relation.TransGen W i j → ∀ l, W j l → μ i < μ j := by
    intro j hij
    induction hij with
    | single hstep => exact fun l hl => h _ _ l hstep hl
    | tail _ hstep ih => exact fun l hl => Nat.lt_trans (ih _ hstep) (h _ _ l hstep hl)
  intro hcycle
  obtain ⟨l, hl, -⟩ := Relation.TransGen.head'_iff.1 hcycle
  exact Nat.lt_irrefl _ (hpath i hcycle l hl)

/-- The database is the committed one, or a thread has read it. -/
def Sys.Shows (s : Sys S C ε α) (db : S.Db) : Prop :=
  db = s.db ∨ ∃ t ∈ s.threads, ∃ r ∈ t.ctx.reads, r.db = db

/-- Only a commit brings another database. -/
theorem Step.shows {code : C → Prog S ε α} {s s' : Sys S C ε α} {a : Act S C} {db : S.Db}
    (h : Step code s a s') (hdb : s'.Shows db) :
    s.Shows db ∨ db = s'.db ∧ ∃ (i : Nat) (t : Thread S C ε α),
      s.threads[i]? = some t ∧ db = t.ctx.view s.db := by
  rcases hdb with rfl | ⟨t, ht, r, hr, rfl⟩
  · cases h with
    | start | tick | thread | draw => exact .inl (.inl rfl)
    | @commit i t p ht => exact .inr ⟨rfl, i, t, ht, rfl⟩
  · rcases h.reads ht hr with ⟨u, hu, hold⟩ | ⟨hnew, -⟩
    · exact .inl (.inr ⟨u, hu, r, hold, rfl⟩)
    · exact .inl (.inl hnew)

/-- An order in which transactions take their locks. -/
structure LockOrder (S : Schema) where
  rank : S.Key → Nat
  /-- The identifier of the row that a lock is of. -/
  row : S.Key → Option S.Id
  /-- The lock under which a lock is taken. -/
  guard : S.Key → S.Db → Option S.Key
  guard_apply : ∀ {k op db g}, guard k (S.apply op db) = some g →
    guard k db = some g ∨ ∃ id ∈ S.makes op, row k = some id
  guard_uses : ∀ {k db g}, guard k db = some g →
    (∀ db', guard k db' = some g) ∨ ∃ id, row k = some id ∧ S.uses db id

namespace LockOrder

variable (o : LockOrder S)

/-- The lock is of a row that the transaction adds. -/
def Own (k : S.Key) (c : Ctx S) : Prop := ∃ id, o.row k = some id ∧ id ∈ c.drawn

/-- The lock is of a row that the transaction has seen. -/
def Named (k : S.Key) (c : Ctx S) : Prop :=
  ∀ id, o.row k = some id → ∃ r ∈ c.reads, S.uses r.db id

/-- The transaction has seen that `g` is the guard of `k`. -/
def Guards (g k : S.Key) (c : Ctx S) : Prop := ∃ r ∈ c.reads, o.guard k r.db = some g

/-- The lock may be requested after those that are held. -/
inductive Orderly (k : S.Key) (c : Ctx S) : Prop
  | held : k ∈ c.held → Orderly k c
  | own : o.Own k c → Orderly k c
  | guarded {g : S.Key} : o.rank k = 0 → o.Named k c → g ∈ c.held → o.Guards g k c → Orderly k c
  | rises : 0 < o.rank k → o.Named k c → (∀ k' ∈ c.held, o.rank k' < o.rank k ∨ o.Own k' c ∨
      o.rank k' = o.rank k ∧ ∃ g ∈ c.held, o.Guards g k c ∧ o.Guards g k' c) → Orderly k c

/-- What is known of a lock that was requested in order. -/
def Taken (k : S.Key) (c : Ctx S) : Prop :=
  o.Own k c ∨ o.Named k c ∧ (o.rank k = 0 → ∃ g ∈ c.held, o.Guards g k c)

variable {o} {k g : S.Key} {c c' : Ctx S}

theorem Own.le (h : o.Own k c) (hle : c.Le c') : o.Own k c' :=
  h.imp fun _ hid => ⟨hid.1, hle.drawn hid.2⟩

theorem Named.le (h : o.Named k c) (hle : c.Le c') : o.Named k c' :=
  fun id hid => (h id hid).imp fun _ hr => ⟨hle.reads hr.1, hr.2⟩

theorem Guards.le (h : o.Guards g k c) (hle : c.Le c') : o.Guards g k c' :=
  h.imp fun _ hr => ⟨hle.reads hr.1, hr.2⟩

theorem Taken.le (h : o.Taken k c) (hle : c.Le c') : o.Taken k c' := by
  rcases h with hown | ⟨hnamed, hguard⟩
  · exact .inl (hown.le hle)
  · refine .inr ⟨hnamed.le hle, fun hrank => ?_⟩
    obtain ⟨g, hg, hguards⟩ := hguard hrank
    exact ⟨g, hle.held hg, hguards.le hle⟩

theorem Orderly.taken (h : o.Orderly k c) : k ∈ c.held ∨ o.Taken k c := by
  cases h with
  | held hk => exact .inl hk
  | own hown => exact .inr (.inl hown)
  | guarded _ hnamed hg hguards => exact .inr (.inr ⟨hnamed, fun _ => ⟨_, hg, hguards⟩⟩)
  | rises hrank hnamed => exact .inr (.inr ⟨hnamed, fun h => absurd h (Nat.ne_of_gt hrank)⟩)

/-! ## Rules -/

theorem guard_applyAll {ops : List S.Op} {db : S.Db} (h : o.guard k (S.applyAll ops db) = some g) :
    o.guard k db = some g ∨ ∃ op ∈ ops, ∃ id ∈ S.makes op, o.row k = some id := by
  induction ops with
  | nil => exact .inl h
  | cons op ops ih =>
    rcases o.guard_apply h with h | ⟨id, hid, hrow⟩
    · exact (ih h).imp_right fun ⟨p, hp, hmade⟩ => ⟨p, List.mem_cons_of_mem _ hp, hmade⟩
    · exact .inr ⟨op, List.mem_cons_self, id, hid, hrow⟩

/-- The transaction has seen the lock and its guard, or the lock is of a row that it adds. -/
def Under (o : LockOrder S) (g k : S.Key) (c : Ctx S) : Prop :=
  o.Own k c ∨ o.Named k c ∧ o.Guards g k c

/-- The locks that are held have a lower rank, or are of rows that the transaction adds. -/
def Room (o : LockOrder S) (n : Nat) (c : Ctx S) : Prop := ∀ k ∈ c.held, o.rank k < n ∨ o.Own k c

/-- The locks that are held may have the same rank too, if they have the guard `g`. -/
def Peers (o : LockOrder S) (g : S.Key) (n : Nat) (c : Ctx S) : Prop :=
  ∀ k ∈ c.held, o.rank k < n ∨ o.Own k c ∨ o.rank k = n ∧ o.Guards g k c

section
variable {m n : Nat} {ks : List S.Key} {db : S.Db} {t : Int} {i : S.Id}

theorem Under.le (h : o.Under g k c) (hle : c.Le c') : o.Under g k c' :=
  h.imp (·.le hle) fun h => ⟨h.1.le hle, h.2.le hle⟩

theorem Room.initial : o.Room n {} := nofun

theorem Room.mono (h : o.Room m c) (hle : m ≤ n) : o.Room n c :=
  fun k hk => (h k hk).imp_left fun hlt => Nat.lt_of_lt_of_le hlt hle

theorem Room.locks (h : o.Room n c) (hc : c.Locks ks c') (hks : ∀ k ∈ ks, o.rank k < n) :
    o.Room n c' := by
  intro k hk
  rw [hc.held] at hk
  rcases List.mem_append.1 hk with hk | hk
  · exact .inl (hks k hk)
  · exact (h k hk).imp_right (·.le hc.le)

theorem Room.quiet (h : o.Room n c) (hc : c.Locks [] c') : o.Room n c' := h.locks hc nofun

theorem Room.peers (h : o.Room n c) : o.Peers g n c :=
  fun k hk => (h k hk).imp_right .inl

theorem Peers.quiet (h : o.Peers g n c) (hc : c.Locks [] c') : o.Peers g n c' := by
  intro k hk
  rw [hc.held] at hk
  exact (h k hk).imp_right fun h => h.imp (·.le hc.le) fun h => ⟨h.1, h.2.le hc.le⟩

theorem Peers.hold (h : o.Peers g (o.rank k) c) (hk : o.Under g k c) :
    o.Peers g (o.rank k) (c.hold k) := by
  refine List.forall_mem_cons.2 ⟨.inr ?_, h⟩
  exact hk.imp_right fun hk => ⟨rfl, hk.2⟩

/-- What the transaction sees it has read, or it is its own. -/
theorem named_of_view (hdrew : c.Drew) (hrow : o.row k = some i) (huses : S.uses (c.view db) i) :
    o.Own k c ∨ o.Named k (c.observe db t) := by
  rcases hdrew.uses huses with huses | hdrawn
  · refine .inr fun id' hrow' => ⟨_, List.mem_cons_self, ?_⟩
    obtain rfl : i = id' := Option.some.inj (hrow.symm.trans hrow')
    exact huses
  · exact .inl ⟨i, hrow, hdrawn⟩

theorem under_of_view (hdrew : c.Drew) (hrow : o.row k = some i) (huses : S.uses (c.view db) i)
    (hguard : o.guard k (c.view db) = some g) : o.Under g k (c.observe db t) := by
  rcases named_of_view (t := t) hdrew hrow huses with hown | hnamed
  · exact .inl hown
  · rcases guard_applyAll hguard with hguard | ⟨op, hop, id', hid', hrow'⟩
    · exact .inr ⟨hnamed, _, List.mem_cons_self, hguard⟩
    · exact .inl ⟨id', hrow', hdrew op hop id' hid'⟩

theorem Orderly.of_room (hpos : 0 < o.rank k) (hnamed : o.Named k c) (h : o.Room (o.rank k) c) :
    o.Orderly k c :=
  .rises hpos hnamed fun k' hk' => (h k' hk').imp_right .inl

theorem Orderly.of_under (hrank : o.rank k = 0) (h : o.Under g k c) (hg : g ∈ c.held) :
    o.Orderly k c := by
  rcases h with hown | ⟨hnamed, hguards⟩
  · exact .own hown
  · exact .guarded hrank hnamed hg hguards

theorem Orderly.of_peers (hpos : 0 < o.rank k) (h : o.Peers g (o.rank k) c) (hk : o.Under g k c)
    (hg : g ∈ c.held) : o.Orderly k c := by
  rcases hk with hown | ⟨hnamed, hguards⟩
  · exact .own hown
  · refine .rises hpos hnamed fun k' hk' => ?_
    exact (h k' hk').imp_right fun h => h.imp_right fun h => ⟨h.1, g, hg, hguards, h.2⟩

/-- The lock of a row that the transaction sees, after locks of lower ranks. -/
theorem Orderly.of_view (hpos : 0 < o.rank k) (h : o.Room (o.rank k) c) (hdrew : c.Drew)
    (hrow : o.row k = some i) (huses : S.uses (c.view db) i) : o.Orderly k (c.observe db t) := by
  rcases named_of_view (t := t) hdrew hrow huses with hown | hnamed
  · exact .own hown
  · exact .of_room hpos hnamed (h.quiet (.observe db t))

end

/-! ## Guards agree -/

section
variable {G₀ : C → Ctx S → S.Db → Prop} {N : S.Note → Ctx S → Prop} {Q₀ : C → α → Ctx S → Prop}
  {E₀ : C → ε → Ctx S → Prop} {G : C → Ctx S → Prop} {Q : C → α → Ctx S → Prop}
  {E : C → ε → Ctx S → Prop} {code : C → Prog S ε α} {s s' : Sys S C ε α} {a : Act S C}
  {i j l : Nat} {t u : Thread S C ε α}

/-- No two databases name different guards of one lock. -/
def Agree (o : LockOrder S) (s : Sys S C ε α) : Prop :=
  ∀ k g g' db db', s.Shows db → s.Shows db' → o.guard k db = some g → o.guard k db' = some g' →
    g = g'

/-- An identifier that a database uses is nobody's own. -/
theorem not_drawn_of_uses (hgood : Good G₀ N Q₀ E₀ s) {db : S.Db} (hdb : s.Shows db) {id : S.Id}
    (hid : S.uses db id) (ht : t ∈ s.threads) : id ∉ t.ctx.drawn := by
  rcases hdb with rfl | ⟨u, hu, r, hr, rfl⟩
  · exact (hgood.spent hid).2 t ht
  · exact (hgood.read_spent u hu r hr id hid).2 t ht

theorem Agree.step (hgood : Good G₀ N Q₀ E₀ s) (h : o.Agree s) (hstep : Step code s a s') :
    o.Agree s' := by
  -- what a commit brings, against what was there
  have hnew : ∀ {i : Nat} {t : Thread S C ε α} {k g g' db}, s.threads[i]? = some t →
      s.Shows db → o.guard k (t.ctx.view s.db) = some g → o.guard k db = some g' → g = g' := by
    intro i t k g g' db ht hdb hg hg'
    rcases guard_applyAll hg with hold | ⟨op, hop, id, hid, hrow⟩
    · exact h k g g' _ db (.inl rfl) hdb hold hg'
    · rcases o.guard_uses hg' with hconst | ⟨id', hrow', huses⟩
      · exact Option.some.inj (hg.symm.trans (hconst _))
      · obtain rfl : id = id' := Option.some.inj (hrow.symm.trans hrow')
        have hdrawn := (hgood.sound i t ht).makes op hop id hid
        exact absurd hdrawn (not_drawn_of_uses hgood hdb huses (List.mem_of_getElem? ht))
  intro k g g' db db' hdb hdb' hg hg'
  rcases hstep.shows hdb with hold | ⟨heq, i, t, ht, hview⟩
  · rcases hstep.shows hdb' with hold' | ⟨-, i, t, ht, rfl⟩
    · exact h k g g' db db' hold hold' hg hg'
    · exact (hnew ht hold hg' hg).symm
  · rcases hstep.shows hdb' with hold' | ⟨heq', -⟩
    · exact hnew ht hold' (hview ▸ hg) hg'
    · rw [heq'.trans heq.symm, hg] at hg'
      exact Option.some.inj hg'

theorem run_agree (hmeets : ∀ call, wp (G₀ call) N (Q₀ call) (E₀ call) (code call) {})
    {tr : List (Act S C)} (hgood : Good G₀ N Q₀ E₀ s) (hrun : Lts.Run (Step code) s tr s')
    (h : s.threads = []) : o.Agree s' := by
  refine (hrun.invariant (I := fun s => Good G₀ N Q₀ E₀ s ∧ o.Agree s) ?_ ⟨hgood, ?_⟩).2
  · exact fun hs hstep => ⟨hs.1.step hmeets hstep, hs.2.step hs.1 hstep⟩
  · have hdb : ∀ db, s.Shows db → db = s.db := by
      simp [Sys.Shows, h]
    intro k g g' db db' hdb₁ hdb₂ hg hg'
    rw [hdb db hdb₁] at hg
    rw [hdb db' hdb₂, hg] at hg'
    exact Option.some.inj hg'

/-! ## Nobody waits in a circle -/

/-- Twice the rank of the lock that is requested, and one more when a lock of that rank is held. -/
noncomputable def level (o : LockOrder S) (k : S.Key) (c : Ctx S) : Nat :=
  open Classical in
  2 * o.rank k + if ∃ k' ∈ c.held, ¬ o.Own k' c ∧ o.rank k' = o.rank k then 1 else 0

/-- The level of the request that the thread waits with. -/
noncomputable def levelAt (o : LockOrder S) (s : Sys S C ε α) (i : Nat) : Nat :=
  match s.threads[i]? with
  | none => 0
  | some t =>
    match t.status with
    | .running (.lock k _) => o.level k t.ctx
    | _ => 0

theorem levelAt_eq {k : S.Key} {p : Prog S ε α} (ht : s.threads[i]? = some t)
    (hs : t.status = .running (.lock k p)) : o.levelAt s i = o.level k t.ctx := by
  simp [levelAt, ht, hs]

/-- A system whose threads take their locks in order. -/
structure Ordered (o : LockOrder S) (s : Sys S C ε α) : Prop where
  apart : s.Apart fun t => t.ctx.held
  drawn_apart : s.Apart fun t => t.ctx.drawn
  drawn : ∀ t ∈ s.threads, ∀ u ∈ s.threads, ∀ r ∈ u.ctx.reads, ∀ id, S.uses r.db id →
    id ∉ t.ctx.drawn
  agree : o.Agree s
  taken : ∀ t ∈ s.threads, t.Keeps o.Taken
  orderly : ∀ t ∈ s.threads, ∀ k p, t.status = .running (.lock k p) → o.Orderly k t.ctx

theorem Ordered.of_run (hmeets : ∀ call, wp (G₀ call) N (Q₀ call) (E₀ call) (code call) {})
    {tr : List (Act S C)} (hgood : Good G₀ N Q₀ E₀ s) (hrun : Lts.Run (Step code) s tr s')
    (hcode : ∀ call, .start call ∈ tr → along o.Orderly (G call) (Q call) (E call) (code call) {})
    (h : s.threads = []) : o.Ordered s' where
  apart := (hgood.run hmeets hrun).apart
  drawn_apart := (hgood.run hmeets hrun).drawn_apart
  drawn := fun t ht u hu r hr _ hid =>
    not_drawn_of_uses (hgood.run hmeets hrun) (.inr ⟨u, hu, r, hr, rfl⟩) hid ht
  agree := run_agree hmeets hgood hrun h
  taken := run_held hmeets (fun _ _ => Orderly.taken) (fun _ _ _ hle htaken => htaken.le hle) hgood
    hrun hcode h
  orderly := fun t ht _ _ hs =>
    (run_along hmeets hgood hrun hcode (by simp [h]) t ht _ hs).1

section
variable {k : S.Key} {p : Prog S ε α}

/-- A lock that another thread has seen is not the thread's own. -/
theorem Ordered.not_own (h : o.Ordered s) (ht : t ∈ s.threads) (hu : u ∈ s.threads)
    (hnamed : o.Named k t.ctx) : ¬ o.Own k u.ctx := by
  rintro ⟨id, hrow, hdrawn⟩
  obtain ⟨r, hr, huses⟩ := hnamed id hrow
  exact h.drawn u hu t ht r hr id huses hdrawn

/-- A request that waits rises, and what it waits for is not its holder's own. -/
theorem Ordered.waits (h : o.Ordered s) (hne : i ≠ j) (ht : s.threads[i]? = some t)
    (hs : t.status = .running (.lock k p)) (hu : s.threads[j]? = some u) (hk : k ∈ u.ctx.held) :
    ¬ o.Own k u.ctx ∧ ∀ k' ∈ t.ctx.held, o.rank k' < o.rank k ∨ o.Own k' t.ctx ∨
      o.rank k' = o.rank k ∧ ∃ g ∈ t.ctx.held, o.Guards g k t.ctx ∧ o.Guards g k' t.ctx := by
  have htmem := List.mem_of_getElem? ht
  have humem := List.mem_of_getElem? hu
  cases h.orderly t htmem k p hs with
  | held hmine => exact absurd hk (h.apart i j t u hne ht hu k hmine)
  | own hown =>
    obtain ⟨id, hrow, hdrawn⟩ := hown
    rcases h.taken u humem k hk with ⟨id', hrow', hdrawn'⟩ | ⟨hnamed, -⟩
    · obtain rfl : id = id' := Option.some.inj (hrow.symm.trans hrow')
      exact absurd hdrawn' (h.drawn_apart i j t u hne ht hu id hdrawn)
    · exact absurd ⟨id, hrow, hdrawn⟩ (h.not_own humem htmem hnamed)
  | guarded hrank hnamed hg hguards =>
    rcases h.taken u humem k hk with hown | ⟨-, hguard⟩
    · exact absurd hown (h.not_own htmem humem hnamed)
    · obtain ⟨g', hg', r', hr', heq'⟩ := hguard hrank
      obtain ⟨r, hr, heq⟩ := hguards
      obtain rfl := h.agree k _ _ r.db r'.db (.inr ⟨t, htmem, r, hr, rfl⟩)
        (.inr ⟨u, humem, r', hr', rfl⟩) heq heq'
      exact absurd hg' (h.apart i j t u hne ht hu _ hg)
  | rises _ hnamed hrises => exact ⟨h.not_own htmem humem hnamed, hrises⟩

/-- Along a path of waiting threads the level rises. -/
theorem Ordered.level_lt (h : o.Ordered s) (hij : s.Waits i j) (hjl : s.Waits j l) :
    o.levelAt s i < o.levelAt s j := by
  obtain ⟨hne, t, u, k, p, ht, hs, hu, hk⟩ := hij
  obtain ⟨hne', u', v, k', p', hu', hs', hv, hk'⟩ := hjl
  obtain rfl : u' = u := Option.some.inj (hu'.symm.trans hu)
  obtain ⟨hown, hrises⟩ := h.waits hne ht hs hu hk
  obtain ⟨-, hrises'⟩ := h.waits hne' hu hs' hv hk'
  rw [levelAt_eq ht hs, levelAt_eq hu hs', level, level]
  rcases hrises' k hk with hlt | hmine | ⟨heq, g, hg, -, r, hr, hguard⟩
  · split <;> split <;> omega
  · exact absurd hmine hown
  · -- the holder has the guard, so that the thread which waits for it has no lock of the rank
    have hfree : ¬ ∃ k'' ∈ t.ctx.held, ¬ o.Own k'' t.ctx ∧ o.rank k'' = o.rank k := by
      rintro ⟨k'', hk'', hown'', heq''⟩
      rcases hrises k'' hk'' with hlt | hmine | ⟨-, g', hg', ⟨r', hr', hguard'⟩, -⟩
      · omega
      · exact hown'' hmine
      · obtain rfl := h.agree k _ _ r.db r'.db
          (.inr ⟨u', List.mem_of_getElem? hu, r, hr, rfl⟩)
          (.inr ⟨t, List.mem_of_getElem? ht, r', hr', rfl⟩) hguard hguard'
        exact h.apart i j t u' hne ht hu _ hg' hg
    rw [if_neg hfree, if_pos ⟨k, hk, hown, heq⟩]
    omega

/-- Threads that take their locks in order do not wait in a circle. -/
theorem Ordered.not_deadlocked (h : o.Ordered s) (i : Nat) : ¬ Relation.TransGen s.Waits i i :=
  not_transGen_of_rises (o.levelAt s) (fun _ _ _ hij hjl => h.level_lt hij hjl) i

end

end

end LockOrder

end Transact
