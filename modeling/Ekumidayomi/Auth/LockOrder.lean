import Ekumidayomi.Auth.Along
import Ekumidayomi.Lib.Deadlock

/-!
# The order in which the identity services take their locks

Advisory locks come first, those of external identities before those of addresses, then challenges,
users, the entries of the unique indexes and sessions last (`Key.rank`). A credential, an identity
and the entry of a provider are only taken under the row of their user. Two users are locked at once
by `change_access`, under the lock of the membership, and several sessions by whoever has locked the
row of their user. Each program follows this order (`code_orders`), if `finish` locks the external
identity under one of the integers `external` and the address under another.
-/

namespace Ekumidayomi

open Transact

/-! ## The order -/

/-- The ranks of the locks. The locks of rank 0 are taken under the row of a user. -/
def Key.rank (external : List Int) : Key → Nat
  | .credential _ | .identity _ | .uniqueProvider _ _ => 0
  | .advisory id => if id ∈ external then 1 else 2
  | .challenge _ => 3
  | .uniqueChallenge _ _ => 4
  | .user _ => 5
  | .uniqueEmail _ => 6
  | .uniqueSubject _ _ => 7
  | .uniqueSecret _ => 8
  | .session _ => 9

/-- The row that a lock is of. -/
def Key.row : Key → Option UUID
  | .user id | .session id | .challenge id | .identity id => some id
  | _ => none

/-- The lock under which a lock is taken: always, or when another one of its rank is held. -/
def Key.guard : Key → Db → Option Key
  | .user _, _ => some (.advisory adminMembershipLock)
  | .credential userId, _ | .uniqueProvider userId _, _ => some (.user userId)
  | .session id, db => (db.session id).map fun x => .user x.userId
  | .identity id, db => (db.identity id).map fun x => .user x.userId
  | _, _ => none

/-- Sessions and identities keep their user. -/
theorem Key.guard_apply {k g : Key} {op : Op} {db : Db} (h : k.guard (op.apply db) = some g) :
    k.guard db = some g ∨ ∃ id ∈ op.makes, k.row = some id := by
  cases k with
  | session id =>
    obtain ⟨x, hx, rfl⟩ := Option.map_eq_some_iff.1 h
    rcases Db.session_apply_keeps hx with ⟨rfl, hid, -⟩ | ⟨y, hy, huser, -⟩
    · exact .inr ⟨x.id, List.mem_cons_self, congrArg some hid.symm⟩
    · refine .inl ?_
      rw [Key.guard, hy, Option.map_some, huser]
  | identity id =>
    obtain ⟨x, hx, rfl⟩ := Option.map_eq_some_iff.1 h
    rcases Db.identity_apply hx with ⟨rfl, hid, -⟩ | ⟨y, hy, rfl | ⟨t, -, rfl⟩⟩
    · exact .inr ⟨x.id, List.mem_cons_self, congrArg some hid.symm⟩
    all_goals exact .inl (by rw [Key.guard, hy, Option.map_some])
  | _ => exact .inl h

theorem Key.guard_uses {k g : Key} {db : Db} (h : k.guard db = some g) :
    (∀ db', k.guard db' = some g) ∨ ∃ id, k.row = some id ∧ db.Uses id := by
  cases k with
  | session id =>
    obtain ⟨x, hx, -⟩ := Option.map_eq_some_iff.1 h
    exact .inr ⟨id, rfl, .inr (.inr (.inl (by simp [hx])))⟩
  | identity id =>
    obtain ⟨x, hx, -⟩ := Option.map_eq_some_iff.1 h
    exact .inr ⟨id, rfl, .inr (.inr (.inr (.inr (by simp [hx]))))⟩
  | _ => exact .inl fun _ => h

/-- The order of the locks of the identity services. -/
abbrev lockOrder (sv : Services) (external : List Int) : LockOrder (schema sv) where
  rank := Key.rank external
  row := Key.row
  guard := Key.guard
  guard_apply := Key.guard_apply
  guard_uses := Key.guard_uses

/-- The program takes its locks in order, and ends in `Q` with an answer. -/
abbrev Orders (sv : Services) (external : List Int) {α : Type} (Q : α → Ctx (schema sv) → Prop)
    (p : Tx sv α) (c : Ctx (schema sv)) : Prop :=
  along (lockOrder sv external).Orderly (fun _ => True) Q (fun _ _ => True) p c

/-- The locks that are held have a lower rank. -/
abbrev Room {sv : Services} (external : List Int) (n : Nat) (c : Ctx (schema sv)) : Prop :=
  (lockOrder sv external).Room n c

/-- The lock was seen to be the user's. -/
abbrev OfUser {sv : Services} (external : List Int) (userId : UUID) (k : Key)
    (c : Ctx (schema sv)) : Prop :=
  (lockOrder sv external).Under (.user userId) k c

section
variable {sv : Services} {settings : AuthSettings} {external : List Int} {α β : Type}
  {Q : α → Ctx (schema sv) → Prop} {c c' : Ctx (schema sv)}

/-! ## Statements that take no lock -/

theorem orders_quiet {p : Tx sv α} (hp : p.Quiet) (h : ∀ a c', Locks c [] c' → Q a c') :
    Orders sv external Q p c :=
  hp.along h fun _ _ _ => trivial

/-! ## Statements that take locks -/

theorem orders_lock {k : Key} {Q : Unit → Ctx (schema sv) → Prop} (hrow : k.row = none)
    (hpos : 0 < k.rank external) (hroom : Room external (k.rank external) c)
    (h : Q () (c.hold k)) : Orders sv external Q (lock k) c := by
  refine ⟨.of_room hpos (fun id hid => ?_) hroom, h⟩
  rw [show k.row = some id from hid] at hrow
  cases hrow

theorem rank_advisory {id : Int} : 0 < (Key.advisory id).rank external ∧
    (Key.advisory id).rank external < 3 := by
  rw [Key.rank]
  split <;> omega

/-- The first lock of a transaction. -/
theorem orders_advisory {id : Int} {Q : Unit → Ctx (schema sv) → Prop} (hheld : c.held = [])
    (h : ∀ c', c'.held = [.advisory id] → c.Le c' → Q () c') :
    Orders sv external Q (lock (.advisory id)) c := by
  refine orders_lock rfl rank_advisory.1 ?_ (h _ ?_ (Locks.hold _).le)
  · intro k hk
    rw [hheld] at hk
    cases hk
  · show .advisory id :: c.held = _
    rw [hheld]

theorem orders_forUpdate {g : Db → Option β} {k : Key} {Q : Option β → Ctx (schema sv) → Prop}
    (hlock : ∀ x (db : Db) t, c.Drew → g (c.view db) = some x →
      (lockOrder sv external).Orderly k (c.observe db t))
    (hnone : ∀ ks c', ks ⊆ [k] → Locks c ks c' → Q none c')
    (hsome : ∀ x db c', Locks c [k] c' → g db = some x → Q (some x) c') :
    Orders sv external Q (forUpdate g k) c := by
  rw [Orders, forUpdate, along_bind, along_query]
  intro db t _ _ _ hdrew
  cases hg : g (c.view db) with
  | none => exact hnone [] _ (List.nil_subset _) (Locks.observe db t)
  | some x =>
    show Orders sv external Q (lock k >>= fun _ => query g) (c.observe db t)
    rw [Orders, along_bind, along_lock]
    refine ⟨hlock x db t hdrew hg, ?_⟩
    rw [along_query]
    intro db' t' _ _ _ _
    have hc : Locks c [k] (((c.observe db t).hold k).observe db' t') :=
      ((Locks.observe db t).trans (Locks.hold k)).trans (Locks.observe db' t')
    cases hg' : g (((c.observe db t).hold k).view db') with
    | none => exact hnone [k] _ (List.Subset.refl _) hc
    | some x' => exact hsome x' _ _ hc hg'

/-- A row of rank `n`, which the transaction finds before it locks it. -/
theorem orders_forUpdate_row {g : Db → Option β} {k : Key} {i : UUID}
    {Q : Option β → Ctx (schema sv) → Prop} (hrow : k.row = some i) (hpos : 0 < k.rank external)
    (huses : ∀ db x, g db = some x → db.Uses i) (hroom : Room external (k.rank external) c)
    (hnone : ∀ ks c', ks ⊆ [k] → Locks c ks c' → Q none c')
    (hsome : ∀ x db c', Locks c [k] c' → g db = some x → Q (some x) c') :
    Orders sv external Q (forUpdate g k) c :=
  orders_forUpdate (fun x _ _ hdrew hg => .of_view hpos hroom hdrew hrow (huses _ x hg)) hnone hsome

/-- A flush of a row that may be locked. -/
theorem orders_flushRow {g : Db → Option β} {k : Key} {op : Op} {Q : Unit → Ctx (schema sv) → Prop}
    (hlock : ∀ x (db : Db) t, c.Drew → g (c.view db) = some x →
      (lockOrder sv external).Orderly k (c.observe db t))
    (h : ∀ c', Locks c [k] c' → Q () c') : Orders sv external Q (flushRow g k op) c := by
  rw [Orders, flushRow, along_bind]
  refine orders_forUpdate hlock (fun _ _ _ _ => trivial) fun x db c' hc' _ => ?_
  exact h _ (hc'.trans_nil (Locks.push op))

theorem orders_insertUnique {entry row : Key} {taken : Db → Bool} {op : Op}
    {Q : Unit → Ctx (schema sv) → Prop} (hentry : (lockOrder sv external).Orderly entry c)
    (hown : (lockOrder sv external).Own row c) (h : ∀ c', Locks c [row, entry] c' → Q () c') :
    Orders sv external Q (insertUnique entry taken row op) c := by
  rw [Orders, insertUnique, along_bind, along_lock]
  refine ⟨hentry, ?_⟩
  rw [along_bind, along_query]
  intro db t _ _ _ _
  refine along_guard (fun _ => trivial) fun _ => ?_
  have hc : Locks c [entry] ((c.hold entry).observe db t) :=
    (Locks.hold entry).trans_nil (Locks.observe db t)
  rw [along_bind, along_lock]
  refine ⟨.own (hown.le hc.le), ?_⟩
  rw [along_write]
  exact h _ ((hc.trans (Locks.hold row)).trans_nil (Locks.push op))

/-! ## Users -/

theorem orders_findUserById {id : UUID} {Q : Option User → Ctx (schema sv) → Prop}
    (hroom : Room external 5 c) (hnone : ∀ c', c.Le c' → Q none c')
    (hsome : ∀ u c', Locks c [.user id] c' → u.id = id → Q (some u) c') :
    Orders sv external Q (findUserById sv id true) c := by
  rw [findUserById, if_pos rfl]
  refine orders_forUpdate_row (i := id) rfl (Nat.succ_pos _) (fun _ x hx => .inl (by simp [hx]))
    hroom (fun _ c' _ hc' => hnone c' hc'.le) fun u db c' hc' hu => ?_
  exact hsome u c' hc' (Store.key_of_get hu)

theorem orders_createCustomer {email : String} {Q : User → Ctx (schema sv) → Prop}
    (hroom : Room external 6 c)
    (h : ∀ user c', c.Le c' → .user user.id ∈ c'.held → Room external 7 c' → Q user c') :
    Orders sv external Q (createCustomer sv email) c := by
  rw [createCustomer]
  split
  case h_1 => trivial
  case h_2 normalized hnorm =>
    rw [Orders, along_bind, along_uuid4]
    intro id _
    dsimp only
    rw [along_bind]
    have hroom' := hroom.quiet (Locks.draw id)
    refine orders_insertUnique (.of_room (Nat.succ_pos _) nofun hroom')
      ⟨id, rfl, List.mem_cons_self⟩ ?_
    intro c' hc'
    refine h _ c' ((Locks.draw id).le.trans hc'.le) ?_ ?_
    · rw [hc'.held]
      exact List.mem_cons_self
    · refine (hroom'.mono (by decide)).locks hc' ?_
      simp [Key.rank]

/-! ## Sessions -/

theorem orders_issue {user : User} {Q : String → Ctx (schema sv) → Prop} (hroom : Room external 8 c)
    (h : ∀ secret c', c.Le c' → Room external 9 c' → Q secret c') :
    Orders sv external Q (issue sv settings user) c := by
  rw [issue]
  refine along_guard (fun _ => trivial) fun _ => ?_
  rw [along_bind, along_randomText]
  intro secret
  rw [along_bind, along_utcNow]
  intro now _
  rw [along_bind, along_uuid4]
  intro id _
  have hc : Locks c [] ((c.time now).draw id) := (Locks.time now).trans (Locks.draw id)
  have hroom' := hroom.quiet hc
  rw [along_bind]
  refine orders_insertUnique (.of_room (Nat.succ_pos _) nofun hroom')
    ⟨id, rfl, List.mem_cons_self⟩ ?_
  intro c' hc'
  refine h secret c' (hc.le.trans hc'.le) fun k hk => ?_
  rw [hc'.held] at hk
  simp only [List.cons_append, List.nil_append, List.mem_cons] at hk
  rcases hk with rfl | rfl | hk
  · exact .inr ⟨id, rfl, hc'.le.drawn List.mem_cons_self⟩
  · exact .inl (Nat.lt_succ_self 8)
  · exact ((hroom'.mono (by decide)) k hk).imp_right (·.le hc'.le)

/-- A session that the transaction sees is of its user. -/
theorem ofUser_of_session {db : Db} {t : Time} {row : AuthSession} (hdrew : c.Drew)
    (hrow : row ∈ (Db.sessions (c.view db)).rows) :
    OfUser external row.userId (.session row.id) (c.observe db t) := by
  have hget : Db.session (c.view db) row.id = some row := Store.mem_rows.1 hrow
  refine LockOrder.under_of_view hdrew (i := row.id) rfl (.inr (.inr (.inl (by simp [hget])))) ?_
  show Key.guard (.session row.id) (c.view db) = _
  rw [Key.guard, hget]
  rfl

/-- The sessions of one user, under the lock of the user's row. -/
theorem orders_revokeEach_all {userId : UUID} {now : Time} {ids : List UUID}
    {Q : Unit → Ctx (schema sv) → Prop}
    (hpeers : (lockOrder sv external).Peers (.user userId) 9 c) (hheld : .user userId ∈ c.held)
    (hids : ∀ id ∈ ids, OfUser external userId (.session id) c) (h : ∀ c', c.Le c' → Q () c') :
    Orders sv external Q (revokeEach sv userId none now ids) c := by
  induction ids generalizing c with
  | nil => exact h c (.refl c)
  | cons id ids ih =>
    rw [List.forall_mem_cons] at hids
    rw [revokeEach, Orders, along_bind, along_lock]
    refine ⟨.of_peers (Nat.succ_pos _) hpeers hids.1 hheld, ?_⟩
    have hpeers' := LockOrder.Peers.hold (o := lockOrder sv external)
      (k := Key.session id) hpeers hids.1
    have hnext : ∀ c₁, Locks (c.hold (.session id)) [] c₁ →
        Orders sv external Q (revokeEach sv userId none now ids) c₁ := by
      intro c₁ hc₁
      have hle := (Locks.hold (.session id)).le.trans hc₁.le
      exact ih (hpeers'.quiet hc₁) (hle.held hheld) (fun k hk => (hids.2 k hk).le hle)
        fun c' hc' => h c' (hle.trans hc')
    rw [along_bind, along_query]
    intro db t _ _ _ _
    split
    · exact hnext _ ((Locks.observe db t).trans (Locks.push _))
    · exact hnext _ (Locks.observe db t)

/-- One session, which is locked once. -/
theorem orders_revokeEach_one {userId sessionId : UUID} {now : Time} {ids : List UUID}
    {Q : Unit → Ctx (schema sv) → Prop} (hids : ∀ id ∈ ids, id = sessionId)
    (hlock : ids ≠ [] → (lockOrder sv external).Orderly (.session sessionId) c)
    (h : ∀ c', c.Le c' → Q () c') :
    Orders sv external Q (revokeEach sv userId (some sessionId) now ids) c := by
  induction ids generalizing c with
  | nil => exact h c (.refl c)
  | cons id ids ih =>
    rw [List.forall_mem_cons] at hids
    obtain ⟨rfl, hids⟩ := hids
    rw [revokeEach, Orders, along_bind, along_lock]
    refine ⟨hlock (List.cons_ne_nil _ _), ?_⟩
    have hnext : ∀ c₁, Locks (c.hold (.session id)) [] c₁ →
        Orders sv external Q (revokeEach sv userId (some id) now ids) c₁ := by
      intro c₁ hc₁
      refine ih hids (fun _ => .held (hc₁.le.held List.mem_cons_self)) fun c' hc' => h c' ?_
      exact ((Locks.hold (.session id)).le.trans hc₁.le).trans hc'
    rw [along_bind, along_query]
    intro db t _ _ _ _
    split
    · exact hnext _ ((Locks.observe db t).trans (Locks.push _))
    · exact hnext _ (Locks.observe db t)

theorem orders_revoke_all {userId : UUID} {Q : Unit → Ctx (schema sv) → Prop}
    (hroom : Room external 9 c) (hheld : .user userId ∈ c.held) (h : ∀ c', c.Le c' → Q () c') :
    Orders sv external Q (revoke sv userId none) c := by
  rw [revoke, Orders, along_bind, along_utcNow]
  intro now _
  rw [along_bind, along_query]
  intro db t _ _ _ hdrew
  have hc : Locks c [] ((c.time now).observe db t) := (Locks.time now).trans (Locks.observe db t)
  refine orders_revokeEach_all (hroom.quiet hc).peers (hc.le.held hheld) (fun id hid => ?_)
    fun c' hc' => h c' (hc.le.trans hc')
  obtain ⟨row, hrow, rfl⟩ := List.mem_map.1 hid
  obtain ⟨hmem, hlive⟩ := List.mem_filter.1 hrow
  simp only [AuthSession.revocable, Bool.and_eq_true, decide_eq_true_eq] at hlive
  exact hlive.1.1 ▸ ofUser_of_session hdrew hmem

theorem orders_revoke_one {userId sessionId : UUID} {Q : Unit → Ctx (schema sv) → Prop}
    (hroom : Room external 9 c) (h : ∀ c', c.Le c' → Q () c') :
    Orders sv external Q (revoke sv userId (some sessionId)) c := by
  rw [revoke, Orders, along_bind, along_utcNow]
  intro now _
  rw [along_bind, along_query]
  intro db t _ _ _ hdrew
  have hc : Locks c [] ((c.time now).observe db t) := (Locks.time now).trans (Locks.observe db t)
  have hids : ∀ id ∈ ((Db.sessions ((c.time now).view db)).rows.filter
      (·.revocable userId (some sessionId))).map (·.id), id = sessionId ∧
        Db.Uses ((c.time now).view db) id := by
    intro id hid
    obtain ⟨row, hrow, rfl⟩ := List.mem_map.1 hid
    obtain ⟨hmem, hlive⟩ := List.mem_filter.1 hrow
    have hget : Db.session ((c.time now).view db) row.id = some row := Store.mem_rows.1 hmem
    refine ⟨?_, .inr (.inr (.inl (by simp [hget])))⟩
    simp only [AuthSession.revocable, Bool.and_eq_true, Option.all_some, decide_eq_true_eq] at hlive
    exact hlive.2
  refine orders_revokeEach_one (fun id hid => (hids id hid).1) (fun hne => ?_)
    fun c' hc' => h c' (hc.le.trans hc')
  obtain ⟨id, hid⟩ := List.exists_mem_of_ne_nil _ hne
  obtain ⟨rfl, huses⟩ := hids id hid
  exact .of_view (Nat.succ_pos _) (hroom.quiet (Locks.time now)) hdrew rfl huses

/-! ## Permissions -/

/-- `authorize` locks the row of the actor's user. -/
theorem orders_authorize {actor : Actor} {permission : Permission} {limit : Option Nat}
    {Q : User → Ctx (schema sv) → Prop} (hroom : Room external 5 c)
    (h : ∀ user c', Locks c [.user actor.userId] c' → user.id = actor.userId → Q user c') :
    Orders sv external Q (authorize sv actor permission limit true) c := by
  rw [authorize, Orders, along_bind]
  refine orders_findUserById hroom (fun c₁ _ => ?_) fun user c₁ hc₁ hid => ?_
  · rw [along_bind, along_query]
    exact fun _ _ _ _ _ _ => trivial
  · rw [along_bind, along_query]
    intro db t _ _ _ _
    have hc := hc₁.trans_nil (Locks.observe db t)
    cases Db.session (c₁.view db) actor.sessionId with
    | none => trivial
    | some session =>
      dsimp only
      refine along_guard (fun _ => trivial) fun _ => ?_
      rw [along_bind, along_utcNow]
      intro now _
      refine along_guard (fun _ => trivial) fun _ => ?_
      split
      · trivial
      · refine along_guard (fun _ => trivial) fun _ => ?_
        cases limit with
        | none => exact h user _ (hc.trans_nil (Locks.time now)) hid
        | some limit =>
          dsimp only
          rw [along_bind, along_utcNow]
          intro now' _
          refine along_guard (fun _ => trivial) fun _ => ?_
          rw [along_bind, along_note]
          refine h user _ ?_ hid
          exact ((hc.trans_nil (Locks.time now)).trans_nil (Locks.time now')).trans_nil
            (Ctx.Locks.mark _)

/-! ## Challenges -/

theorem orders_createChallenge {email : String} {purpose : ChallengePurpose} {now : Time}
    {isResend : Bool} {cid : Option String} {Q : UUID → Ctx (schema sv) → Prop}
    (hentry : ∀ c', Locks c [] c' →
      (lockOrder sv external).Orderly (.uniqueChallenge email purpose.value) c')
    (h : ∀ id c', Q id c') :
    Orders sv external Q (createChallenge sv settings email purpose now isResend cid) c := by
  rw [createChallenge, Orders, along_bind, along_uuid4]
  intro id _
  dsimp only
  split
  · trivial
  · rw [along_bind, along_uuid4]
    intro eventId _
    split
    · trivial
    case h_2 event _ =>
      rw [along_bind, along_write, along_bind]
      refine orders_quiet quiet_correlation fun text c₁ hc₁ => ?_
      rw [along_bind]
      refine orders_quiet quiet_record fun _ c₂ hc₂ => ?_
      have hc : Locks (c.draw id) [] c₂ :=
        (((Locks.draw eventId).trans (Locks.push (.addEvent event))).trans hc₁).trans hc₂
      rw [along_bind, storeChallenge]
      split
      · trivial
      · refine orders_insertUnique (hentry c₂ ((Locks.draw id).trans hc)) ⟨id, rfl, ?_⟩
          fun c' _ => h id c'
        exact hc.le.drawn List.mem_cons_self

theorem orders_issueChallenge {email : String} {purpose : ChallengePurpose} {cid : Option String}
    {Q : UUID → Ctx (schema sv) → Prop} (hheld : c.held ⊆ [.email sv email])
    (h : ∀ id c', Q id c') :
    Orders sv external Q (issueChallenge sv settings email purpose cid) c := by
  rw [issueChallenge]
  refine along_guard (fun _ => trivial) fun _ => ?_
  have hroom : Room external 3 (c.hold (.email sv email)) := by
    refine List.forall_mem_cons.2 ⟨.inl rank_advisory.2, fun k hk => .inl ?_⟩
    rw [List.mem_singleton.1 (hheld hk)]
    exact rank_advisory.2
  have hlock : (lockOrder sv external).Orderly (.email sv email) c := by
    by_cases hnil : c.held = []
    · refine .of_room rank_advisory.1 nofun fun k hk => ?_
      rw [hnil] at hk
      cases hk
    · obtain ⟨k, hk⟩ := List.exists_mem_of_ne_nil _ hnil
      exact .held (List.mem_singleton.1 (hheld hk) ▸ hk)
  rw [lockEmail, along_bind, along_lock]
  refine ⟨hlock, ?_⟩
  rw [along_bind, along_query]
  intro db t _ _ _ _
  rw [along_bind]
  refine orders_quiet quiet_utcNow fun now c₁ hc₁ => ?_
  have hroom₁ := (hroom.quiet (Locks.observe db t)).quiet hc₁
  have hentry : ∀ {c₂}, Room external 4 c₂ →
      (lockOrder sv external).Orderly (.uniqueChallenge email purpose.value) c₂ :=
    fun hroom => .of_room (Nat.succ_pos _) nofun hroom
  split
  · exact orders_createChallenge (fun c' hc' => hentry ((hroom₁.mono (by decide)).quiet hc')) h
  case h_2 p hp =>
    obtain ⟨hpe, hpp⟩ : p.email = email ∧ p.purpose = purpose.value := by
      simpa using List.find?_some hp
    split
    · exact orders_quiet quiet_uuid4 fun id c' _ => h id c'
    · rw [along_bind, deleteChallenge, along_bind]
      refine orders_forUpdate_row (k := .challenge p.id) (i := p.id) rfl (Nat.succ_pos _)
        (fun _ x hx => .inr (.inr (.inr (.inl (by simp [hx]))))) hroom₁ (fun ks c₂ hks hc₂ => ?_)
        fun x _ c₂ hc₂ _ => ?_
      · show Orders sv external Q (createChallenge sv settings email purpose now true cid) c₂
        refine orders_createChallenge (fun c' hc' => hentry (.quiet ?_ hc')) h
        refine (hroom₁.mono (by decide)).locks hc₂ fun k hk => ?_
        rw [List.mem_singleton.1 (hks hk)]
        exact Nat.lt_succ_self 3
      · have hroom₂ : Room external 4 c₂ := (hroom₁.mono (by decide)).locks hc₂ (by simp [Key.rank])
        dsimp only
        rw [along_bind, along_lock, hpe, hpp, along_write]
        refine ⟨hentry hroom₂, orders_createChallenge (fun c' hc' => .held ?_) h⟩
        exact hc'.le.held List.mem_cons_self

theorem orders_consumeChallenge {id : UUID} {code : String} {purpose : ChallengePurpose}
    {cid : Option String} {Q : EmailChallenge → Ctx (schema sv) → Prop} (hheld : c.held = [])
    (h : ∀ row c', Room external 5 c' → Q row c') :
    Orders sv external Q (consumeChallenge sv settings id code purpose cid) c := by
  have hrest : ∀ c₁, Room external 3 c₁ →
      Orders sv external Q (consumeLocked sv settings id code purpose cid) c₁ := by
    intro c₁ hroom
    rw [consumeLocked, Orders, along_bind]
    refine orders_forUpdate_row (i := id) rfl (Nat.succ_pos _)
      (fun _ x hx => .inr (.inr (.inr (.inl (by simp [hx]))))) hroom (fun ks c₂ hks hc₂ => ?_)
      fun row _ c₂ hc₂ _ => ?_
    all_goals have hroom₂ : Room external 5 c₂ := (hroom.mono (by decide)).locks hc₂ ?_
    · exact orders_quiet quiet_refuseChallenge fun row c' hc' => h row c' (hroom₂.quiet hc')
    · intro k hk
      rw [List.mem_singleton.1 (hks hk)]
      exact Nat.lt_of_sub_eq_succ rfl
    · exact orders_quiet quiet_checkChallenge fun row c' hc' => h row c' (hroom₂.quiet hc')
    · simp [Key.rank]
  rw [consumeChallenge, Orders, along_bind, along_query]
  intro db t _ _ _ _
  split
  · refine hrest _ fun k hk => ?_
    rw [show (c.observe db t).held = [] from hheld] at hk
    cases hk
  · rw [lockEmail, along_bind]
    refine orders_advisory hheld fun c' hheld' _ => hrest c' fun k hk => .inl ?_
    rw [hheld'] at hk
    rw [List.mem_singleton.1 hk]
    exact rank_advisory.2

theorem orders_consumeOrCommit {id : UUID} {code : String} {purpose : ChallengePurpose}
    {Q : EmailChallenge → Ctx (schema sv) → Prop} (hheld : c.held = [])
    (h : ∀ row c', Room external 5 c' → Q row c') :
    Orders sv external Q (consumeOrCommit sv settings id code purpose) c := by
  rw [consumeOrCommit, Orders, along_tryCatch]
  refine along_mono (orders_consumeChallenge hheld h) (fun _ _ hq => hq) fun e c' _ => ?_
  split
  · exact ⟨trivial, trivial⟩
  · trivial

/-! ## The calls of `auth/registration.py` and `auth/service.py` -/

/-- The program takes its locks in order. -/
abbrev IsOrderly (sv : Services) (external : List Int) (p : Tx sv AuthResult)
    (c : Ctx (schema sv)) : Prop :=
  Orders sv external (fun _ _ => True) p c

theorem orderly_leave {a : AuthResult} : IsOrderly sv external (do commit; return a) c :=
  ⟨trivial, trivial⟩

theorem orderly_beginRegistration {email : String} {cid : Option String} :
    IsOrderly sv external (beginRegistration sv settings email cid) {} := by
  rw [IsOrderly, beginRegistration, Orders, along_bind]
  refine orders_quiet quiet_correlation fun text c₁ hc₁ => ?_
  rw [along_bind]
  refine orders_quiet quiet_uuid4 fun id c₂ hc₂ => ?_
  rw [along_bind]
  refine orders_quiet quiet_record fun _ c₃ hc₃ => ?_
  split
  · trivial
  · rw [lockEmail, along_bind]
    refine orders_advisory ((hc₁.trans hc₂).trans hc₃).held fun c₄ hheld _ => ?_
    rw [along_bind]
    refine orders_quiet quiet_findUserByEmail fun user c₅ hc₅ => ?_
    cases user with
    | none =>
      dsimp only
      rw [along_bind]
      refine orders_issueChallenge (fun k hk => ?_) fun _ _ => orderly_leave
      rwa [hc₅.held, hheld] at hk
    | some user =>
      dsimp only
      rw [along_bind]
      exact orders_quiet quiet_uuid4 fun _ _ _ => orderly_leave

theorem orderly_beginReset {email : String} :
    IsOrderly sv external (beginReset sv settings email) {} := by
  have hdecoy : ∀ c', IsOrderly sv external
      (do let challengeId ← uuid4; commit; return .challenge challengeId) c' := by
    intro c'
    rw [IsOrderly, Orders, along_bind]
    exact orders_quiet quiet_uuid4 fun _ _ _ => orderly_leave
  rw [IsOrderly, beginReset, Orders, along_bind]
  refine orders_quiet quiet_findUserByEmail fun user c₁ hc₁ => ?_
  cases user with
  | none => exact hdecoy c₁
  | some user =>
    dsimp only
    split
    · exact hdecoy c₁
    · rw [along_bind]
      refine orders_quiet (quiet_query _) fun credential c₂ hc₂ => ?_
      cases credential with
      | none => exact hdecoy c₂
      | some credential =>
        dsimp only
        rw [along_bind]
        refine orders_issueChallenge (fun k hk => ?_) fun _ _ => orderly_leave
        rw [hc₂.held, hc₁.held] at hk
        cases hk

theorem orderly_completeRegistration {r : CompleteRequest} :
    IsOrderly sv external (completeRegistration sv settings r) {} := by
  rw [IsOrderly, completeRegistration, Orders, along_bind]
  refine orders_quiet quiet_correlation fun text c₁ hc₁ => ?_
  rw [along_bind]
  refine orders_quiet quiet_validateNewPassword fun _ c₂ hc₂ => ?_
  rw [along_bind]
  refine orders_consumeOrCommit (hc₁.trans hc₂).held fun row c₃ hroom => ?_
  rw [along_bind]
  refine orders_quiet quiet_findUserByEmail fun user c₄ hc₄ => ?_
  cases user with
  | some user => trivial
  | none =>
    dsimp only
    rw [along_bind]
    refine orders_createCustomer ((hroom.mono (by decide)).quiet hc₄) fun user c₅ _ _ _ => ?_
    rw [along_bind]
    refine orders_quiet quiet_utcNow fun verifiedAt c₆ _ => ?_
    rw [along_bind]
    refine orders_quiet quiet_hashPassword fun hash c₇ _ => ?_
    rw [along_bind]
    refine orders_quiet quiet_record fun _ c₈ _ => ?_
    rw [along_bind, along_write, along_bind, along_write]
    exact orderly_leave

/-- The credential of a user, under the lock of the user's row. -/
theorem orders_flushPassword {userId : UUID} {hash : String} {Q : Unit → Ctx (schema sv) → Prop}
    (hheld : .user userId ∈ c.held) (h : ∀ c', Locks c [.credential userId] c' → Q () c') :
    Orders sv external Q (flushPassword sv userId hash) c := by
  refine orders_flushRow (fun x db t _ _ => ?_) h
  refine .of_under (g := Key.user userId) rfl (.inr ⟨nofun, _, List.mem_cons_self, rfl⟩) hheld

theorem orderly_completeReset {r : CompleteRequest} {cid : String} :
    IsOrderly sv external (completeReset sv settings r cid) {} := by
  rw [IsOrderly, completeReset, Orders, along_bind]
  refine orders_quiet quiet_validateNewPassword fun _ c₁ hc₁ => ?_
  rw [along_bind]
  refine orders_consumeOrCommit hc₁.held fun row c₂ hroom => ?_
  rw [along_bind]
  refine orders_quiet quiet_findUserByEmail fun found c₃ hc₃ => ?_
  cases found with
  | none => trivial
  | some found =>
    dsimp only
    rw [along_bind]
    refine orders_findUserById (hroom.quiet hc₃) (fun _ _ => trivial) fun user c₄ hc₄ hid => ?_
    have hroom₄ : Room external 9 c₄ :=
      ((hroom.quiet hc₃).mono (by decide)).locks hc₄ (by simp [Key.rank])
    have hheld₄ : .user user.id ∈ c₄.held := by
      rw [hc₄.held, hid]
      exact List.mem_cons_self
    dsimp only
    refine along_guard (fun _ => trivial) fun _ => ?_
    rw [along_bind]
    refine orders_quiet (quiet_query _) fun credential c₅ hc₅ => ?_
    cases credential with
    | none => trivial
    | some credential =>
      dsimp only
      rw [along_bind]
      refine orders_quiet quiet_hashPassword fun hash c₆ hc₆ => ?_
      have hc := hc₅.trans hc₆
      rw [along_bind]
      refine orders_revoke_all (hroom₄.quiet hc) (hc.le.held hheld₄) fun c₇ hle₇ => ?_
      rw [along_bind]
      refine orders_quiet quiet_record fun _ c₈ hc₈ => ?_
      rw [along_bind]
      refine orders_flushPassword ?_ fun _ _ => orderly_leave
      exact hc₈.le.held (hle₇.held (hc.le.held hheld₄))

/-- The session of a login, with the user's row locked. -/
theorem orderly_startSession {r : LoginRequest} {user : User} {credential : PasswordCredential}
    (hroom : Room external 8 c) (hheld : .user user.id ∈ c.held) :
    IsOrderly sv external (startSession sv settings r user credential) c := by
  have hissue : ∀ c₁, Room external 8 c₁ →
      IsOrderly sv external (issueSession sv settings r user) c₁ := by
    intro c₁ hroom₁
    rw [IsOrderly, issueSession, Orders, along_bind]
    refine orders_issue hroom₁ fun secret c₂ _ hroom₂ => ?_
    split
    · rw [along_bind]
      refine orders_quiet quiet_resolveOrNone fun previous c₃ hc₃ => ?_
      cases previous with
      | none => exact orderly_leave
      | some previous =>
        dsimp only
        rw [along_bind]
        exact orders_revoke_one (hroom₂.quiet hc₃) fun _ _ => orderly_leave
    · exact orderly_leave
  rw [IsOrderly, startSession]
  split
  · rw [Orders, along_bind]
    refine orders_quiet quiet_hashPassword fun hash c₁ hc₁ => ?_
    rw [along_bind]
    refine orders_flushPassword (hc₁.le.held hheld) fun c₂ hc₂ => hissue c₂ ?_
    exact (hroom.quiet hc₁).locks hc₂ (by simp [Key.rank])
  · exact hissue c hroom

theorem orderly_login {r : LoginRequest} : IsOrderly sv external (login sv settings r) {} := by
  have hfound : (tryCatch (findUserByEmail sv r.email) fun e =>
      if e = .invalidEmail then pure none else throw e).Quiet :=
    .tryCatch quiet_findUserByEmail fun _ => .ite (.pure _) (.throw _)
  rw [IsOrderly, login, Orders, along_bind]
  refine orders_quiet hfound fun found c₁ hc₁ => ?_
  cases found with
  | none => trivial
  | some found =>
    dsimp only
    rw [along_bind]
    refine orders_findUserById (LockOrder.Room.initial.quiet hc₁) (fun _ _ => trivial)
      fun user c₂ hc₂ hid => ?_
    dsimp only
    rw [along_bind]
    refine orders_quiet (quiet_query _) fun credential c₃ hc₃ => ?_
    cases credential with
    | none => trivial
    | some credential =>
      dsimp only
      refine along_guard (fun _ => trivial) fun _ => ?_
      rw [along_bind, along_note]
      refine along_guard (fun _ => trivial) fun _ => ?_
      have hc : Locks {} [.user found.id] (c₃.mark (.verified user.id credential.passwordHash)) :=
        ((hc₁.trans hc₂).trans hc₃).trans_nil (Ctx.Locks.mark _)
      refine orderly_startSession (LockOrder.Room.initial.locks hc (by simp [Key.rank])) ?_
      rw [hc.held, hid]
      exact List.mem_cons_self

theorem orderly_logout {secret : Option String} {hint : Option UUID} :
    IsOrderly sv external (logout sv secret hint) {} := by
  rw [IsOrderly, logout, Orders, along_bind]
  refine orders_quiet quiet_resolveOrNone fun actor c₁ hc₁ => ?_
  cases actor with
  | none => trivial
  | some actor =>
    dsimp only
    rw [along_bind]
    exact orders_revoke_one (LockOrder.Room.initial.quiet hc₁) fun _ _ => orderly_leave

theorem orderly_logoutAll {actor : Actor} : IsOrderly sv external (logoutAll sv actor) {} := by
  rw [IsOrderly, logoutAll, Orders, along_bind]
  refine orders_findUserById .initial (fun _ _ => trivial) fun user c₁ hc₁ _ => ?_
  dsimp only
  rw [along_bind]
  refine orders_revoke_all (LockOrder.Room.initial.locks hc₁ (by simp [Key.rank])) ?_
    fun _ _ => orderly_leave
  rw [hc₁.held]
  exact List.mem_cons_self

theorem orderly_reauthenticate {actor : Actor} {password : String} :
    IsOrderly sv external (reauthenticate sv actor password) {} := by
  rw [IsOrderly, reauthenticate, Orders, along_bind]
  refine orders_findUserById .initial (fun c₁ _ => ?_) fun user c₁ hc₁ _ => ?_
  · rw [along_bind]
    refine orders_quiet (quiet_query _) fun _ _ _ => ?_
    dsimp only
    rw [along_bind]
    exact orders_quiet (quiet_query _) fun _ _ _ => trivial
  · rw [along_bind]
    refine orders_quiet (quiet_query _) fun credential c₂ hc₂ => ?_
    dsimp only
    rw [along_bind]
    refine orders_quiet (quiet_query _) fun row c₃ hc₃ => ?_
    cases row with
    | none => trivial
    | some row =>
      dsimp only
      refine along_guard (fun _ => trivial) fun _ => ?_
      rw [along_bind]
      refine orders_quiet quiet_utcNow fun now c₄ hc₄ => ?_
      refine along_guard (fun _ => trivial) fun _ => ?_
      rw [along_bind]
      refine orders_quiet quiet_utcNow fun authenticatedAt c₅ hc₅ => ?_
      have hc := hc₁.trans_nil (((hc₂.trans hc₃).trans hc₄).trans hc₅)
      have hroom : Room external 9 c₅ := LockOrder.Room.initial.locks hc (by simp [Key.rank])
      rw [along_bind]
      refine orders_flushRow (fun x db t hdrew hx => ?_) fun _ _ => orderly_leave
      exact .of_view (Nat.succ_pos _) hroom hdrew rfl (.inr (.inr (.inl (by simp [hx]))))

/-! ## The calls of `users/administration.py` and `auth/bootstrap.py` -/

/-- Two users are locked under the lock of the membership. -/
theorem orders_findTarget {i targetId : UUID} {Q : Option User → Ctx (schema sv) → Prop}
    (hheld : c.held = [.user i, .advisory adminMembershipLock]) (hnone : ∀ c', Q none c')
    (hsome : ∀ u c', Locks c [.user targetId] c' → u.id = targetId → Q (some u) c') :
    Orders sv external Q (findUserById sv targetId true) c := by
  rw [findUserById, if_pos rfl]
  refine orders_forUpdate (fun x db t hdrew hx => ?_) (fun _ c' _ _ => hnone c')
    fun u db c' hc' hu => hsome u c' hc' (Store.key_of_get hu)
  have huses : Db.Uses (c.view db) targetId := .inl (by simp [hx])
  rcases LockOrder.named_of_view (o := lockOrder sv external) (k := Key.user targetId)
    (t := t) hdrew
    rfl huses with hown | hnamed
  · exact .own hown
  · have hguards : ∀ k, (lockOrder sv external).Guards (.advisory adminMembershipLock) (.user k)
        (c.observe db t) := fun k => ⟨_, List.mem_cons_self, rfl⟩
    have hheld' : (c.observe db t).held = [.user i, .advisory adminMembershipLock] := hheld
    refine .of_peers (g := Key.advisory adminMembershipLock) (Nat.succ_pos _) (fun k hk => ?_)
      (.inr ⟨hnamed, hguards targetId⟩) ?_
    · rw [hheld'] at hk
      simp only [List.mem_cons, List.not_mem_nil, or_false] at hk
      rcases hk with rfl | rfl
      · exact .inr (.inr ⟨rfl, hguards i⟩)
      · exact .inl (Nat.lt_trans rank_advisory.2 (by decide : 3 < 5))
    · rw [hheld']
      exact List.mem_cons_of_mem _ List.mem_cons_self

/-- Only the lock of the membership is held. -/
theorem room_membership (hheld : c.held = [.advisory adminMembershipLock]) : Room external 5 c := by
  intro k hk
  rw [hheld] at hk
  rw [List.mem_singleton.1 hk]
  exact .inl (Nat.lt_trans rank_advisory.2 (by decide))

theorem orderly_changeAccess {actor : Actor} {targetId : UUID} {role : Option Role}
    {isActive : Option Bool} {cid : String} :
    IsOrderly sv external (changeAccess sv settings actor targetId role isActive cid) {} := by
  rw [IsOrderly, changeAccess, lockMembership, Orders, along_bind]
  refine orders_advisory rfl fun c₁ hheld₁ _ => ?_
  rw [along_bind]
  refine orders_authorize (room_membership hheld₁) fun _ c₂ hc₂ _ => ?_
  rw [along_bind]
  refine orders_findTarget (i := actor.userId) (by rw [hc₂.held, hheld₁]; rfl) (fun _ => trivial)
    fun target c₃ hc₃ hid => ?_
  have hroom₃ : Room external 9 c₃ := (((room_membership hheld₁).mono (by decide)).locks hc₂
    (by simp [Key.rank])).locks hc₃ (by simp [Key.rank])
  have hheld₃ : .user target.id ∈ c₃.held := by
    rw [hc₃.held, hid]
    exact List.mem_cons_self
  -- the rest, after the administrators may have been counted
  have hrest : ∀ (newRole : String) (newActive : Bool) c₄, Locks c₃ [] c₄ →
      IsOrderly sv external (do
        if newRole = Role.admin.value ∧ target.emailVerifiedAt.isNone then throw .unverifiedAdmin
        write (.setAccess target.id newRole newActive)
        revoke sv target.id none
        record sv { kind := .administrator, actorId := some actor.userId }
          "identity.access_changed" "user" target.id .succeeded
          [("old_role", .str target.role), ("new_role", .str newRole),
            ("old_active", .bool target.isActive), ("new_active", .bool newActive)] cid
        commit
        return .done) c₄ := by
    intro newRole newActive c₄ hc₄
    refine along_guard (fun _ => trivial) fun _ => ?_
    rw [along_bind]
    refine orders_quiet (quiet_write _) fun _ c₅ hc₅ => ?_
    have hc := hc₄.trans hc₅
    rw [along_bind]
    refine orders_revoke_all (hroom₃.quiet hc) (hc.le.held hheld₃) fun c₆ _ => ?_
    rw [along_bind]
    exact orders_quiet quiet_record fun _ _ _ => orderly_leave
  dsimp only
  split
  · trivial
  · split
    · rw [along_bind]
      refine orders_quiet (quiet_query _) fun others c₄ hc₄ => ?_
      split
      · trivial
      · exact hrest _ _ c₄ hc₄
    · exact hrest _ _ c₃ (.refl c₃)

theorem orderly_bootstrap {email password : String} {breached : Option Bool} :
    IsOrderly sv external (bootstrap sv email password breached) {} := by
  rw [IsOrderly, bootstrap, lockMembership, Orders, along_bind]
  refine orders_advisory rfl fun c₁ hheld₁ _ => ?_
  rw [along_bind]
  refine orders_quiet quiet_findUserByEmail fun existing c₂ hc₂ => ?_
  cases existing with
  | some existing => exact along_guard (fun _ => trivial) fun _ => orderly_leave
  | none =>
    dsimp only
    rw [along_bind]
    refine orders_quiet (quiet_query _) fun admins c₃ hc₃ => ?_
    refine along_guard (fun _ => trivial) fun _ => ?_
    rw [along_bind]
    refine orders_quiet quiet_validateNewPassword fun _ c₄ hc₄ => ?_
    have hroom : Room external 6 c₄ :=
      ((room_membership hheld₁).mono (by decide)).quiet ((hc₂.trans hc₃).trans hc₄)
    rw [along_bind]
    refine orders_createCustomer hroom fun user c₅ _ _ _ => ?_
    rw [along_bind]
    refine orders_quiet quiet_utcNow fun verifiedAt c₆ _ => ?_
    rw [along_bind]
    refine orders_quiet quiet_hashPassword fun hash c₇ _ => ?_
    rw [along_bind]
    refine orders_quiet quiet_record fun _ c₈ _ => ?_
    rw [along_bind, along_write, along_bind, along_write, along_bind, along_write]
    exact orderly_leave

/-! ## The calls of `auth/oidc/service.py` -/

/-- An identity that the transaction sees is of its user. -/
theorem ofUser_of_identity {db : Db} {t : Time} {row : ExternalIdentity} (hdrew : c.Drew)
    (hrow : row ∈ (Db.identities (c.view db)).rows) :
    OfUser external row.userId (.identity row.id) (c.observe db t) := by
  have hget : Db.identity (c.view db) row.id = some row := Store.mem_rows.1 hrow
  refine LockOrder.under_of_view hdrew (i := row.id) rfl
    (.inr (.inr (.inr (.inr (by simp [hget]))))) ?_
  show Key.guard (.identity row.id) (c.view db) = _
  rw [Key.guard, hget]
  rfl

/-- The flush of an identity, under the lock of its user's row. -/
theorem orders_flushIdentity {userId id : UUID} {op : Op} {Q : Unit → Ctx (schema sv) → Prop}
    (hof : OfUser external userId (.identity id) c) (hheld : .user userId ∈ c.held)
    (h : ∀ c', Locks c [.identity id] c' → Q () c') :
    Orders sv external Q (flushRow (·.identity id) (.identity id) op) c :=
  orders_flushRow (fun _ db t _ _ => .of_under rfl (hof.le (Locks.observe db t).le) hheld) h

/-- The entry of a provider, under the lock of the user's row. -/
theorem orderly_uniqueProvider {userId : UUID} {provider : String} {r : Read (schema sv)}
    (hread : r ∈ c.reads) (hheld : .user userId ∈ c.held) :
    (lockOrder sv external).Orderly (.uniqueProvider userId provider) c :=
  .of_under (g := Key.user userId) rfl (.inr ⟨nofun, r, hread, rfl⟩) hheld

theorem orders_insertIdentity {identity : Identity} {user : User} {cid : String}
    {Q : Unit → Ctx (schema sv) → Prop} {r : Read (schema sv)} (hread : r ∈ c.reads)
    (hroom : Room external 7 c) (hheld : .user user.id ∈ c.held)
    (h : ∀ c', Room external 8 c' → Q () c') :
    Orders sv external Q (insertIdentity sv identity user cid) c := by
  rw [insertIdentity, Orders, along_bind, along_utcNow]
  intro lastLoginAt _
  rw [along_bind, along_uuid4]
  intro id _
  dsimp only
  rw [along_bind]
  refine orders_quiet quiet_auditActor fun actor c₁ hc₁ => ?_
  rw [along_bind]
  refine orders_quiet quiet_record fun _ c₂ hc₂ => ?_
  have hc : Locks c [] c₂ := (((Locks.time lastLoginAt).trans (Locks.draw id)).trans hc₁).trans hc₂
  have hroom₂ := hroom.quiet hc
  split
  · trivial
  rw [along_bind, along_lock]
  refine ⟨.of_room (Nat.succ_pos _) nofun hroom₂, ?_⟩
  have hdrawn : id ∈ c₂.drawn := (hc₁.trans hc₂).le.drawn List.mem_cons_self
  refine orders_insertUnique (orderly_uniqueProvider (hc.le.reads hread)
    (List.mem_cons_of_mem _ (hc.le.held hheld))) ⟨id, rfl, hdrawn⟩ fun c' hc' => h c' ?_
  refine LockOrder.Room.locks
    (c := c₂.hold (.uniqueSubject identity.provider.value identity.subject))
    ?_ hc' (by simp [Key.rank])
  exact (hroom₂.mono (by decide)).locks (Locks.hold _) (by simp [Key.rank])

theorem orderly_finishSession {identity : Identity} {user : User} {cid : String}
    (hroom : Room external 8 c) :
    IsOrderly sv external (finishSession sv settings identity user cid) c := by
  rw [IsOrderly, finishSession, Orders, along_bind]
  refine orders_issue hroom fun secret c₁ _ hroom₁ => ?_
  rw [along_bind]
  refine orders_quiet (quiet_query _) fun session c₂ hc₂ => ?_
  cases session with
  | none => trivial
  | some session =>
    dsimp only
    rw [along_bind]
    refine orders_quiet quiet_utcNow fun now c₃ hc₃ => ?_
    rw [along_bind]
    refine orders_quiet quiet_auditActor fun actor c₄ hc₄ => ?_
    rw [along_bind]
    refine orders_quiet quiet_record fun _ c₅ hc₅ => ?_
    have hroom₅ := hroom₁.quiet (((hc₂.trans hc₃).trans hc₄).trans hc₅)
    rw [along_bind]
    refine orders_flushRow (fun x db t hdrew hx => ?_) fun _ _ => orderly_leave
    exact .of_view (Nat.succ_pos _) hroom₅ hdrew rfl (.inr (.inr (.inl (by simp [hx]))))

theorem orderly_finishLogin {identity : Identity} {found : Option ExternalIdentity} {cid : String}
    {id : Int} {r : Read (schema sv)} (hread : r ∈ c.reads) (hheld : c.held = [.advisory id])
    (hfirst : id ∈ external) (hsecond : ∀ email, identity.address sv = some email →
      lockId sv email ∉ external)
    (hfound : ∀ x, found = some x → OfUser external x.userId (.identity x.id) c) :
    IsOrderly sv external (finishLogin sv settings identity found cid) c := by
  have hroom : Room external 2 c := by
    intro k hk
    rw [hheld] at hk
    rw [List.mem_singleton.1 hk]
    exact .inl (by simp [Key.rank, hfirst])
  unfold IsOrderly finishLogin
  split
  case h_1 x =>
    rw [Orders, along_bind]
    refine orders_findUserById (hroom.mono (by decide)) (fun _ _ => trivial) fun user c₁ hc₁ _ => ?_
    dsimp only
    refine along_guard (fun _ => trivial) fun _ => ?_
    rw [along_bind]
    refine orders_quiet quiet_utcNow fun lastLoginAt c₂ hc₂ => ?_
    have hc := hc₁.trans_nil hc₂
    have hheld₂ : .user x.userId ∈ c₂.held := by
      rw [hc.held]
      exact List.mem_cons_self
    rw [along_bind]
    refine orders_flushIdentity ((hfound x rfl).le hc.le) hheld₂ fun c₃ hc₃ => ?_
    exact orderly_finishSession (((hroom.mono (by decide)).locks hc (by simp [Key.rank])).locks hc₃
      (by simp [Key.rank]))
  case h_2 =>
    cases haddress : identity.address sv with
    | none => trivial
    | some email =>
      have hrank : (Key.email sv email).rank external = 2 := by
        simp [Key.rank, Key.email, hsecond email haddress]
      dsimp only
      rw [lockEmail, Orders, along_bind]
      refine orders_lock rfl rank_advisory.1 (hrank ▸ hroom) ?_
      have hc : Locks c [.email sv email] (c.hold (.email sv email)) := .hold _
      have hroom₁ : Room external 6 (c.hold (.email sv email)) := by
        refine (hroom.mono (by decide)).locks hc ?_
        simp [hrank]
      rw [along_bind]
      refine orders_quiet quiet_findUserByEmail fun user c₂ hc₂ => ?_
      cases user with
      | some user => trivial
      | none =>
        dsimp only
        rw [along_bind]
        refine orders_createCustomer (hroom₁.quiet hc₂) fun created c₃ hle₃ hheld₃ hroom₃ => ?_
        rw [along_bind]
        refine orders_quiet quiet_utcNow fun verifiedAt c₄ hc₄ => ?_
        rw [along_bind]
        refine orders_quiet (quiet_write _) fun _ c₅ hc₅ => ?_
        have hc' := hc₄.trans hc₅
        rw [along_bind]
        refine orders_insertIdentity (r := r) ?_ (hroom₃.quiet hc') (hc'.le.held hheld₃)
          fun c₆ hroom₆ => orderly_finishSession hroom₆
        exact hc'.le.reads (hle₃.reads (hc₂.le.reads hread))

theorem orderly_finishLink {identity : Identity} {found : Option ExternalIdentity} {actor : Actor}
    {cid : String} (hroom : Room external 5 c) :
    IsOrderly sv external (finishLink sv settings identity found actor cid) c := by
  rw [IsOrderly, finishLink, Orders, along_bind]
  refine orders_authorize hroom fun user c₁ hc₁ hid => ?_
  cases found with
  | some x =>
    dsimp only
    split <;> trivial
  | none =>
    dsimp only
    rw [along_bind, along_query]
    intro db t _ _ _ _
    refine along_guard (fun _ => trivial) fun _ => ?_
    have hc := hc₁.trans_nil (Locks.observe db t)
    have hheld : .user user.id ∈ (c₁.observe db t).held := by
      rw [hc.held, hid]
      exact List.mem_cons_self
    rw [along_bind]
    exact orders_insertIdentity List.mem_cons_self
      ((hroom.mono (by decide)).locks hc (by simp [Key.rank])) hheld fun _ _ => orderly_leave

theorem orderly_finishReauthenticate {identity : Identity} {found : Option ExternalIdentity}
    {actor : Actor} {cid : String} (hroom : Room external 5 c)
    (hfound : ∀ x, found = some x → OfUser external x.userId (.identity x.id) c) :
    IsOrderly sv external (finishReauthenticate sv identity found actor cid) c := by
  rw [IsOrderly, finishReauthenticate, Orders, along_bind]
  refine orders_authorize hroom fun user c₁ hc₁ _ => ?_
  cases found with
  | none => trivial
  | some x =>
    dsimp only
    refine along_guard (fun _ => trivial) fun hmine => ?_
    have huser : x.userId = actor.userId := by
      simp only [ne_eq, Bool.or_eq_true, decide_eq_true_eq, not_or, not_not] at hmine
      exact hmine.1
    rw [along_bind]
    refine orders_quiet (quiet_query _) fun session c₂ hc₂ => ?_
    cases session with
    | none => trivial
    | some session =>
      dsimp only
      refine along_guard (fun _ => trivial) fun _ => ?_
      rw [along_bind]
      refine orders_quiet quiet_utcNow fun now c₃ hc₃ => ?_
      refine along_guard (fun _ => trivial) fun _ => ?_
      rw [along_bind]
      refine orders_quiet quiet_utcNow fun authenticatedAt c₄ hc₄ => ?_
      rw [along_bind]
      refine orders_quiet quiet_utcNow fun lastLoginAt c₅ hc₅ => ?_
      rw [along_bind]
      refine orders_quiet quiet_record fun _ c₆ hc₆ => ?_
      have hc := hc₁.trans_nil ((((hc₂.trans hc₃).trans hc₄).trans hc₅).trans hc₆)
      have hheld : .user x.userId ∈ c₆.held := by
        rw [hc.held, huser]
        exact List.mem_cons_self
      have hroom₆ : Room external 9 c₆ := (hroom.mono (by decide)).locks hc (by simp [Key.rank])
      rw [along_bind]
      refine orders_flushRow (fun y db t hdrew hy => ?_) fun c₇ hc₇ => ?_
      · exact .of_view (Nat.succ_pos _) hroom₆ hdrew rfl (.inr (.inr (.inl (by simp [hy]))))
      · rw [along_bind]
        exact orders_flushIdentity ((hfound x rfl).le (hc.le.trans hc₇.le)) (hc₇.le.held hheld)
          fun _ _ => orderly_leave

/-- `finish` locks the external identity under one of the integers `external`, and an address under
another. -/
def Call.Apart (sv : Services) (external : List Int) : Call → Prop
  | .finish identity _ _ _ =>
    lockId sv (externalText identity.provider.value identity.subject) ∈ external ∧
      ∀ email, identity.address sv = some email → lockId sv email ∉ external
  | _ => True

theorem orderly_finish {identity : Identity} {attempt : Attempt} {actor : Option Actor}
    {cid : String} (h : (Call.finish identity attempt actor cid).Apart sv external) :
    IsOrderly sv external (finish sv settings identity attempt actor cid) {} := by
  rw [IsOrderly, finish]
  refine along_guard (fun _ => trivial) fun _ => ?_
  rw [lockEmail, along_bind]
  refine orders_advisory rfl fun c₁ hheld₁ _ => ?_
  rw [along_bind, along_query]
  intro db t _ _ _ hdrew
  have hheld : (c₁.observe db t).held = _ := hheld₁
  have hroom : Room external 5 (c₁.observe db t) := by
    intro k hk
    rw [hheld] at hk
    rw [List.mem_singleton.1 hk]
    exact .inl (Nat.lt_trans rank_advisory.2 (by decide))
  have hfound : ∀ x, (Db.identities (c₁.view db)).rows.find? (fun x =>
      x.provider = identity.provider.value && x.subject = identity.subject) = some x →
      OfUser external x.userId (.identity x.id) (c₁.observe db t) :=
    fun x hx => ofUser_of_identity hdrew (List.mem_of_find?_eq_some hx)
  split
  · exact orderly_finishLogin List.mem_cons_self hheld h.1 h.2 hfound
  · cases actor with
    | none => trivial
    | some actor =>
      dsimp only
      refine along_guard (fun _ => trivial) fun _ => ?_
      split
      · exact orderly_finishReauthenticate hroom hfound
      · exact orderly_finishLink hroom

theorem orderly_unlink {actor : Actor} {provider : ProviderName} {cid : String} :
    IsOrderly sv external (unlink sv settings actor provider cid) {} := by
  rw [IsOrderly, unlink, Orders, along_bind]
  refine orders_quiet (quiet_query _) fun seen c₁ hc₁ => ?_
  cases seen with
  | none => trivial
  | some seen =>
    dsimp only
    rw [lockEmail, along_bind]
    refine orders_advisory hc₁.held fun c₂ hheld₂ _ => ?_
    have hroom₂ : Room external 5 c₂ := by
      intro k hk
      rw [hheld₂] at hk
      rw [List.mem_singleton.1 hk]
      exact .inl (Nat.lt_trans rank_advisory.2 (by decide))
    rw [along_bind]
    refine orders_authorize hroom₂ fun _ c₃ hc₃ _ => ?_
    rw [along_bind, along_query]
    intro db t _ _ _ hdrew
    cases hexisting : providerIdentity actor.userId provider (c₃.view db) with
    | none => trivial
    | some existing =>
      have huser : existing.userId = actor.userId := by
        have hmatch := List.find?_some hexisting
        simp only [Bool.and_eq_true, decide_eq_true_eq] at hmatch
        exact hmatch.1
      have hof : OfUser external existing.userId (.identity existing.id) (c₃.observe db t) :=
        ofUser_of_identity hdrew (List.mem_of_find?_eq_some hexisting)
      dsimp only
      rw [along_bind]
      refine orders_quiet (quiet_query _) fun count c₄ hc₄ => ?_
      rw [along_bind]
      refine orders_quiet (quiet_query _) fun password c₅ hc₅ => ?_
      refine along_guard (fun _ => trivial) fun _ => ?_
      rw [along_bind]
      refine orders_quiet quiet_record fun _ c₆ hc₆ => ?_
      have hle : (c₃.observe db t).Le c₆ := ((hc₄.trans hc₅).trans hc₆).le
      have hc := (hc₃.trans_nil (Locks.observe db t)).trans_nil ((hc₄.trans hc₅).trans hc₆)
      have hheld : .user existing.userId ∈ c₆.held := by
        rw [hc.held, huser]
        exact List.mem_cons_self
      rw [along_bind]
      refine orders_forUpdate (fun _ db' t' _ _ => ?_) (fun _ _ _ _ => orderly_leave)
        fun _ _ c₇ hc₇ _ => ?_
      · exact .of_under rfl (hof.le (hle.trans (Locks.observe db' t').le)) hheld
      · have hroom₇ : Room external 7 c₇ := ((hroom₂.mono (by decide)).locks hc
          (by simp [Key.rank])).locks hc₇ (by simp [Key.rank])
        dsimp only
        rw [along_bind, along_lock]
        refine ⟨.of_room (Nat.succ_pos _) nofun hroom₇, ?_⟩
        rw [along_bind, along_lock]
        refine ⟨orderly_uniqueProvider (hc₇.le.reads (hle.reads List.mem_cons_self))
          (List.mem_cons_of_mem _ (hc₇.le.held hheld)), ?_⟩
        rw [along_bind, along_write]
        exact orderly_leave

theorem orderly_authorize {actor : Actor} {permission : Permission} {limit : Option Nat}
    {locked : Bool} : IsOrderly sv external (Auth.code sv settings
      (.authorize actor permission limit locked)) {} := by
  rw [IsOrderly, Auth.code, Orders, along_bind]
  cases locked with
  | true => exact orders_authorize .initial fun _ _ _ _ => trivial
  | false => exact orders_quiet quiet_authorize fun _ _ _ => trivial

/-- Every call takes its locks in order. -/
theorem code_orders {call : Call} (h : call.Apart sv external) :
    IsOrderly sv external (Auth.code sv settings call) {} := by
  cases call with
  | beginRegistration => exact orderly_beginRegistration
  | completeRegistration => exact orderly_completeRegistration
  | login => exact orderly_login
  | logout => exact orderly_logout
  | logoutAll => exact orderly_logoutAll
  | reauthenticate => exact orderly_reauthenticate
  | beginReset => exact orderly_beginReset
  | completeReset => exact orderly_completeReset
  | changeAccess => exact orderly_changeAccess
  | bootstrap => exact orderly_bootstrap
  | finish => exact orderly_finish h
  | unlink => exact orderly_unlink
  | authorize => exact orderly_authorize

end

end Ekumidayomi
