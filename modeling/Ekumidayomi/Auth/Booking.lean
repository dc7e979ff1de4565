import Ekumidayomi.Auth.Ledger
import Ekumidayomi.Outbox.Payloads

/-!
# The statements of the identity services account for their writes

The rules of `Books` for the statements of `Auth.Transactions`: which of them owe nothing
(`IsPlain`), and which account the others bring.
-/

namespace Ekumidayomi

open Transact

namespace Ledger

section
variable {sv : Services} {settings : AuthSettings} {α : Type} {Q : α → Ctx (schema sv) → Prop}
  {c c' : Ctx (schema sv)} {ops : List Op}

/-- The program is sound when it commits, and when it refuses a challenge. -/
abbrev Books (Q : α → Ctx (schema sv) → Prop) (p : Tx sv α) (c : Ctx (schema sv)) : Prop :=
  along (fun _ _ => True) Sound Q (fun e c' => e = .invalidChallenge → Sound c') p c

/-- The writes and marks of the program owe nothing, it refuses no challenge, and it finds no unique
column taken. -/
abbrev IsPlain (p : Tx sv α) : Prop :=
  p.Only Op.isPlain Note.isPlain fun e => e ≠ .invalidChallenge ∧ e ≠ .integrityError

/-! ## Statements that owe nothing -/

/-- A program that owes nothing leaves a sound transaction sound. -/
theorem books_plain {p : Tx sv α} (hp : IsPlain p) (hc : Sound c)
    (h : ∀ a c', c.Follows c' → Sound c' → Q a c') : Books Q p c :=
  hp.along (owing_kept []) (fun _ _ => trivial) hc h fun _ _ he _ _ heq => absurd heq he.1

/-- Such a program issues no challenge. -/
theorem books_unissued {p : Tx sv α} (hp : IsPlain p) (hc : Sound c) (hnone : Unissued c)
    (h : ∀ a c', c.Follows c' → Sound c' → Unissued c' → Q a c') : Books Q p c :=
  hp.along ((owing_kept []).and unissued_kept) (fun _ _ => trivial) ⟨hc, hnone⟩
    (fun a c' hc' hs => h a c' hc' hs.1 hs.2) fun _ _ he _ _ heq => absurd heq he.1

/-- A query owes nothing. -/
theorem plain_query (f : Db → α) : IsPlain (query f : Tx sv α) := fun _ => trivial

/-- Nor does a lock. -/
theorem plain_lock (k : Key) : IsPlain (lock k : Tx sv Unit) := trivial

/-- A write that owes nothing, as a program. -/
theorem plain_write (op : Op) (hop : op.isPlain) : IsPlain (write op : Tx sv Unit) := ⟨hop, trivial⟩

/-- Reading the clock owes nothing. -/
theorem plain_utcNow : IsPlain (utcNow : Tx sv Time) := fun _ => trivial

/-- Drawing an id owes nothing. -/
theorem plain_uuid4 : IsPlain (uuid4 : Tx sv UUID) := fun _ => trivial

/-- Drawing a text owes nothing. -/
theorem plain_randomText : IsPlain (randomText : Tx sv String) := fun _ => trivial

/-- A locked read owes nothing. -/
theorem plain_forUpdate {get : Db → Option α} {k : Key} :
    IsPlain (forUpdate get k : Tx sv (Option α)) := by
  refine (plain_query get).bind fun found => ?_
  cases found with
  | none => exact .pure _
  | some _ => exact (plain_lock k).bind fun _ => plain_query get

/-- The flush of a row owes what its write does. -/
theorem plain_flushRow {get : Db → Option α} {k : Key} {op : Op} (hop : op.isPlain) :
    IsPlain (flushRow get k op : Tx sv Unit) := by
  refine plain_forUpdate.bind fun found => ?_
  cases found with
  | none => exact .throw (by decide)
  | some _ => exact plain_write op hop

/-- An audit record owes nothing: it is what others owe. -/
theorem plain_record {actor : AuditActor} {action targetType : String} {targetId : UUID}
    {outcome : AuditOutcome} {metadata : List (String × AuditValue)} {correlationId : String} :
    IsPlain (record sv actor action targetType targetId outcome metadata correlationId) := by
  rw [record]
  refine .ite (.throw (by decide)) ?_
  exact plain_utcNow.bind fun _ => plain_uuid4.bind fun _ => plain_write _ trivial

/-- The correlation id is checked or drawn. -/
theorem plain_correlation {given : Option String} : IsPlain (correlation sv given) := by
  have hdraw : IsPlain (do return uuidStr (← uuid4) : Tx sv String) :=
    plain_uuid4.bind fun _ => .pure _
  cases given with
  | none => exact hdraw
  | some text => exact .ite (.pure _) hdraw

/-- Hashing writes nothing. -/
theorem plain_hashPassword {password : String} : IsPlain (hashPassword sv password) := by
  rw [hashPassword]
  exact .ite (.throw (by decide)) (plain_randomText.bind fun _ => .pure _)

/-- The checks of a new password write nothing, and no refusal of theirs is that of a challenge. -/
theorem plain_validateNewPassword {breached : Option Bool} {password : String} :
    IsPlain (validateNewPassword sv breached password) := by
  unfold validateNewPassword
  refine .ite (.throw (by decide)) (.ite (.throw (by decide)) ?_)
  split
  · exact .throw (by decide)
  · exact .throw (by decide)
  · exact .pure _

/-- An account is found without a write. -/
theorem plain_findUserByEmail {email : String} : IsPlain (findUserByEmail sv email) := by
  rw [findUserByEmail]
  split
  · exact .throw (by decide)
  · exact plain_query _

/-- The end of `resolve`, which reads nothing. -/
theorem plain_resolved (result : Option (AuthSession × User)) :
    IsPlain (match result with
      | none => throw .authenticationRequired
      | some (row, user) =>
        match Role.ofValue user.role with
        | none => throw .authenticationRequired
        | some role => pure { userId := user.id, sessionId := row.id, role
                              authenticatedAt := row.authenticatedAt } : Tx sv Actor) := by
  split
  · exact .throw (by decide)
  · split
    · exact .throw (by decide)
    · exact .pure _

/-- A session is resolved without a write. -/
theorem plain_resolve {secret : Option String} {hint : Option UUID} :
    IsPlain (resolve sv secret hint) := by
  unfold resolve
  split
  case h_1 => exact .throw (by decide)
  case h_2 secret =>
    refine .ite (.throw (by decide)) (plain_utcNow.bind fun now => ?_)
    dsimp only
    split
    · refine .bind (.pure _) fun hinted => ?_
      cases hinted with
      | none => exact .bind (plain_query _) plain_resolved
      | some found => exact .bind (.pure _) plain_resolved
    · refine .bind (plain_query _) fun hinted => ?_
      cases hinted with
      | none => exact .bind (plain_query _) plain_resolved
      | some found => exact .bind (.pure _) plain_resolved

/-- So is one that may be absent. -/
theorem plain_resolveOrNone {secret : Option String} {hint : Option UUID} :
    IsPlain (resolveOrNone sv secret hint) :=
  .tryCatch (plain_resolve.bind fun _ => .pure _) fun _ he => .ite (.pure _) (.throw he)

/-- The revocation of a session owes nothing. -/
theorem plain_revokeEach {userId : UUID} {sessionId : Option UUID} {now : Time} {ids : List UUID} :
    IsPlain (revokeEach sv userId sessionId now ids) := by
  induction ids with
  | nil => exact .pure _
  | cons id ids ih =>
    refine (plain_lock _).bind fun _ => (plain_query _).bind fun found => ?_
    exact .ite ((plain_write (.revokeSession id now) trivial).bind fun _ => ih) ih

/-- Nor does that of all sessions of a user. -/
theorem plain_revoke {userId : UUID} {sessionId : Option UUID} :
    IsPlain (revoke sv userId sessionId) :=
  plain_utcNow.bind fun _ => (plain_query _).bind fun _ => plain_revokeEach

/-- An audit record goes on with what it tells. -/
theorem books_audit {actor : AuditActor} {action targetType : String} {targetId : UUID}
    {outcome : AuditOutcome} {metadata : List (String × AuditValue)} {correlationId : String}
    {Q : Unit → Ctx (schema sv) → Prop}
    (h : ∀ a c', Goes c [.addAudit a] c' →
      a.Tells actor.actorId action targetId outcome metadata → Q () c') :
    Books Q (record sv actor action targetType targetId outcome metadata correlationId) c := by
  rw [record]
  refine along_guard (fun _ => by rintro ⟨⟩) fun _ => ?_
  rw [along_bind, along_utcNow]
  intro t _
  rw [along_bind, along_uuid4]
  intro id _
  rw [along_write]
  refine h _ _ (((Goes.time t).trans (.draw id)).trans (.push _)) ?_
  exact ⟨rfl, rfl, rfl, rfl, rfl⟩

/-- The correlation id is drawn without a write. -/
theorem books_correlation {given : Option String} {Q : String → Ctx (schema sv) → Prop}
    (h : ∀ text c', Goes c [] c' → Q text c') : Books Q (correlation sv given) c := by
  have hdraw : Books Q (do return uuidStr (← uuid4)) c := by
    rw [Books, along_bind, along_uuid4]
    exact fun id _ => h _ _ (.draw id)
  cases given with
  | none => exact hdraw
  | some text =>
    rw [correlation]
    split
    · exact h _ _ (.refl c)
    · exact hdraw

/-- The actor of an audit record is the user it is made of. -/
theorem books_auditActor {user : User} {Q : AuditActor → Ctx (schema sv) → Prop}
    (h : ∀ actor, actor.actorId = some user.id → Q actor c) : Books Q (auditActor sv user) c := by
  unfold auditActor
  split
  · rintro ⟨⟩
  · exact h _ rfl

/-! ## Users -/

/-- A user that the transaction sees is known. -/
theorem known_of_view {r : Read (schema sv)} {id : UUID} (hr : r ∈ c.reads)
    (h : Db.user ((schema sv).applyAll ops r.db) id ≠ none) : Known c ops id := by
  induction ops with
  | nil => exact .inr ⟨r, hr, h⟩
  | cons op ops ih =>
    obtain ⟨x, hx⟩ := Option.ne_none_iff_exists'.1 h
    rcases Db.user_apply_keeps hx with ⟨rfl, hid, -⟩ | ⟨y, hy, -⟩
    · exact .inl ⟨x, List.mem_cons_self, hid⟩
    · exact (ih (Option.ne_none_iff_exists'.2 ⟨y, hy⟩)).mono fun _ => List.mem_cons_of_mem op

/-- A known user stays known. -/
theorem Known.follows {id : UUID} (hc' : c.Follows c') (h : Known c c.buf id) :
    Known c' c'.buf id :=
  (h.le hc'.le).mono fun _ hop => hc'.buf hop

/-- Writes that owe nothing. -/
theorem Owing.goes {more : List Op} (hgo : Goes c ops c') (hops : ∀ op ∈ ops, op.isPlain)
    (h : Owing more c) : Owing more c' where
  booked := by
    have hold : c'.BookedFor Account c.buf := by
      refine h.booked.mono fun _ _ haccount => haccount.le hgo.le ?_
      rw [hgo.marks]
      exact List.Subset.refl _
    rw [Ctx.Booked, hgo.buf]
    clear hgo
    induction ops with
    | nil => exact hold
    | cons op ops ih =>
      rw [List.forall_mem_cons] at hops
      exact ⟨.of_plain hops.1, ih hops.2⟩
  settled := by
    rw [hgo.buf]
    refine h.settled.more hgo.le (fun op hop => ?_) (fun op hop => ?_) fun n hn => .inl (hgo.marks ▸ hn)
    · exact List.mem_append.2 ((List.mem_append.1 hop).imp_right (List.mem_append_right ops))
    · rcases List.mem_append.1 hop with hop | hop
      · exact .inl (List.mem_append_left _ hop)
      · rcases List.mem_append.1 hop with hop | hop
        · exact .inr (hops op hop)
        · exact .inl (List.mem_append_right _ hop)

/-- Steps without a write keep what is owed. -/
theorem Owing.adds {more : List Op} (hgo : Goes c [] c') (h : Owing more c) : Owing more c' :=
  h.goes hgo (List.forall_mem_nil _)

/-- A transaction that adds writes follows the one before it. -/
theorem Follows.of_adds (hc' : Goes c ops c') : c.Follows c' := by
  refine ⟨hc'.le, ?_, ?_⟩
  · rw [hc'.buf]
    exact List.subset_append_right _ _
  · rw [hc'.marks]
    exact List.Subset.refl _

/-- A user that is found is one the transaction sees, under the lock when that was asked for. -/
theorem books_findUserById {id : UUID} {locked : Bool} {Q : Option User → Ctx (schema sv) → Prop}
    (hnone : ∀ c', Goes c [] c' → Q none c')
    (hsome : ∀ r u c', Goes c [] c' → r ∈ c'.reads → (locked = true → .user id ∈ r.held) →
      Db.user (c.view r.db) id = some u → Q (some u) c') :
    Books Q (findUserById sv id locked) c := by
  have hquery : ∀ c₁, Goes c [] c₁ → (locked = true → .user id ∈ c₁.held) →
      Books Q (query (·.user id)) c₁ := by
    intro c₁ hc₁ hk
    rw [Books, along_query]
    intro db t _ _ _ _
    have hview : c₁.view db = c.view db := by
      rw [Ctx.view, hc₁.buf]
      rfl
    have hc : Goes c [] (c₁.observe db t) := hc₁.trans (.observe db t)
    cases hu : Db.user (c₁.view db) id with
    | none => exact hnone _ hc
    | some u => exact hsome ⟨c₁.held, db, t⟩ u _ hc List.mem_cons_self hk (hview ▸ hu)
  rw [findUserById]
  cases locked with
  | false => exact hquery c (.refl c) (by rintro ⟨⟩)
  | true =>
    rw [if_pos rfl, forUpdate, Books, along_bind, along_query]
    intro db t _ _ _ _
    split
    · exact hnone _ (.observe db t)
    · rw [along_bind, along_lock]
      refine ⟨trivial, hquery _ ((Goes.observe db t).trans (.hold _)) fun _ => ?_⟩
      exact List.mem_cons_self

/-- The checked insert of a row, with its account. -/
theorem books_insertUnique {entry row : Key} {taken : Db → Bool} {op : Op}
    {Q : Unit → Ctx (schema sv) → Prop}
    (h : ∀ r c', Goes c [] c' → r ∈ c'.reads → entry ∈ r.held → c.held ⊆ r.held →
      taken ((schema sv).applyAll c'.buf r.db) = false → Q () (c'.push op)) :
    Books Q (insertUnique entry taken row op) c := by
  rw [Books, insertUnique, along_bind, along_lock]
  refine ⟨trivial, ?_⟩
  rw [along_bind, along_query]
  intro db t _ _ _ _
  refine along_guard (fun _ => by rintro ⟨⟩) fun hfree => ?_
  rw [along_bind, along_lock]
  refine ⟨trivial, ?_⟩
  rw [along_write]
  refine h ⟨(c.hold entry).held, db, t⟩ _ ?_ List.mem_cons_self List.mem_cons_self
    (List.subset_cons_self _ _) (Bool.eq_false_of_not_eq_true hfree)
  exact ((Goes.hold entry).trans (.observe db t)).trans (.hold row)

/-- A new customer accounts for its address, which is free under the lock of its entry. -/
theorem Account.of_insertUser {user : User} {r : Read (schema sv)} (hr : r ∈ c.reads)
    (hk : .uniqueEmail user.email ∈ r.held) (hnew : user.role = Role.customer.value ∧ user.isActive = true)
    (hfree : (Db.users ((schema sv).applyAll ops r.db)).rows.any (·.email = user.email) = false) :
    Account c (.insertUser user) ops where
  email := by
    intro id v hadded
    obtain ⟨row, hrow, rfl⟩ := Option.map_eq_some_iff.1 hadded
    obtain ⟨⟨rfl⟩, -⟩ := Op.newUser_eq hrow
    exact ⟨r, hr, hk, fun _ => Store.column_vacant hfree fun x hx => by simpa using hx⟩
  secret := .of_none fun _ => rfl
  purpose := .of_none fun _ => rfl
  subject := .of_none fun _ => rfl
  provider := .of_none fun _ => rfl
  owner := by rintro _ ⟨⟩
  evidence := hnew

/-- A new customer is among the pending writes afterwards. -/
theorem books_createCustomer {email : String} {Q : User → Ctx (schema sv) → Prop} (hc : Sound c)
    (h : ∀ user c', c.Follows c' → Sound c' → .insertUser user ∈ c'.buf → Q user c') :
    Books Q (createCustomer sv email) c := by
  rw [createCustomer]
  split
  case h_1 => rintro ⟨⟩
  case h_2 normalized _ =>
    rw [Books, along_bind, along_uuid4]
    intro id _
    dsimp only
    rw [along_bind]
    refine books_insertUnique fun r c' hc' hr hk _ hfree => ?_
    have hgo : Goes c [] c' := (Goes.draw id).trans_nil hc'
    refine h _ _ (Follows.of_adds (hgo.trans (.push _))) ?_ List.mem_cons_self
    exact (hc.adds hgo).push (.of_insertUser hr hk ⟨rfl, rfl⟩ hfree) rfl

/-! ## Sessions and permissions -/

/-- A new session accounts for its secret and for its owner. -/
theorem Account.of_insertSession {row : AuthSession} {r : Read (schema sv)} (hr : r ∈ c.reads)
    (hk : .uniqueSecret row.secretHash ∈ r.held) (hknown : Known c ops row.userId)
    (hfree : (Db.sessions ((schema sv).applyAll ops r.db)).rows.any
      (·.secretHash = row.secretHash) = false) : Account c (.insertSession row) ops where
  email := .of_none fun _ => rfl
  secret := by
    intro id v hadded
    obtain ⟨row', hrow, rfl⟩ := Option.map_eq_some_iff.1 hadded
    obtain ⟨⟨rfl⟩, -⟩ := Op.newSession_eq hrow
    exact ⟨r, hr, hk, fun _ => Store.column_vacant hfree fun x hx => by simpa using hx⟩
  purpose := .of_none fun _ => rfl
  subject := .of_none fun _ => rfl
  provider := .of_none fun _ => rfl
  owner := by
    rintro _ ⟨rfl⟩
    exact hknown
  evidence := trivial

/-- A session is issued to a known user. -/
theorem books_issue {user : User} {Q : String → Ctx (schema sv) → Prop} (hc : Sound c)
    (hknown : Known c c.buf user.id) (h : ∀ secret c', c.Follows c' → Sound c' → Q secret c') :
    Books Q (issue sv settings user) c := by
  rw [issue]
  refine along_guard (fun _ => by rintro ⟨⟩) fun _ => ?_
  rw [along_bind, along_randomText]
  intro secret
  rw [along_bind, along_utcNow]
  intro now _
  rw [along_bind, along_uuid4]
  intro id _
  rw [along_bind]
  refine books_insertUnique fun r c' hc' hr hk _ hfree => ?_
  have hgo : Goes c [] c' := ((Goes.time now).trans (.draw id)).trans_nil hc'
  have hknown' : Known c' c'.buf user.id := hknown.follows (Follows.of_adds hgo)
  refine h secret _ (Follows.of_adds (hgo.trans (.push _))) ?_
  exact (hc.adds hgo).push (.of_insertSession hr hk hknown' hfree) rfl

/-- The actor's user is known after `authorize`, which writes nothing. -/
theorem books_authorize {actor : Actor} {permission : Permission} {limit : Option Nat}
    {locked : Bool} {Q : User → Ctx (schema sv) → Prop} (hc : Sound c)
    (h : ∀ user c', c.Follows c' → c'.buf = c.buf → Sound c' → user.id = actor.userId →
      Known c' c'.buf user.id → Q user c') :
    Books Q (authorize sv actor permission limit locked) c := by
  rw [authorize, Books, along_bind]
  refine books_findUserById (fun c₁ _ => ?_) fun r user c₁ hc₁ hr _ hu => ?_
  · rw [along_bind, along_query]
    intro db t _ _ _ _
    rintro ⟨⟩
  · rw [along_bind, along_query]
    intro db t _ _ _ _
    cases Db.session (c₁.view db) actor.sessionId with
    | none => rintro ⟨⟩
    | some session =>
      dsimp only
      refine along_guard (fun _ => by rintro ⟨⟩) fun _ => ?_
      rw [along_bind, along_utcNow]
      intro now _
      refine along_guard (fun _ => by rintro ⟨⟩) fun _ => ?_
      have hgo : Goes c [] ((c₁.observe db t).time now) :=
        (hc₁.trans (.observe db t)).trans (.time now)
      have hknown : Known c₁ c.buf actor.userId :=
        known_of_view hr (Option.ne_none_iff_exists'.2 ⟨user, hu⟩)
      have hid : user.id = actor.userId := Store.key_of_get hu
      rw [← hid] at hknown
      split
      · rintro ⟨⟩
      · refine along_guard (fun _ => by rintro ⟨⟩) fun _ => ?_
        cases limit with
        | none =>
          refine h user _ (Follows.of_adds hgo) hgo.buf (hc.adds hgo) hid ?_
          rw [hgo.buf]
          exact hknown.le ((Goes.observe db t).trans (.time now)).le
        | some limit =>
          dsimp only
          rw [along_bind, along_utcNow]
          intro now' _
          refine along_guard (fun _ => by rintro ⟨⟩) fun _ => ?_
          have hgo' := hgo.trans (.time now')
          rw [along_bind, along_note]
          refine h user _ ((Follows.of_adds hgo').trans (.mark _)) hgo'.buf ?_ hid ?_
          · exact (owing_kept []).mark trivial (hc.adds hgo')
          · show Known _ (((c₁.observe db t).time now).time now').buf _
            rw [hgo'.buf]
            have hgo₁ : Goes c₁ [] (((c₁.observe db t).time now).time now') :=
              ((Goes.observe db t).trans (.time now)).trans (.time now')
            exact hknown.le (hgo₁.le.trans (Ctx.le_mark _))

/-! ## Challenges -/

/-- An event, the record of it and the challenge it announces. -/
theorem Owing.announce {event : DomainEvent} {a : AuditRecord} {row : EmailChallenge}
    {isResend : Bool} {r : Read (schema sv)} (hc : Sound c)
    (hgo : Goes c [.insertChallenge row, .addAudit a, .addEvent event] c')
    (hnew : event.eventId ∉ c.drawn ∧ row.id ∉ c.drawn)
    (hdrawn : event.eventId ∈ c'.drawn ∧ row.id ∈ c'.drawn) (hannounces : event.Announces row)
    (htells : a.Tells none "auth.challenge_issued" row.id .succeeded
      [("purpose", .str row.purpose), ("is_resend", .bool isResend)])
    (hr : r ∈ c'.reads) (hk : .uniqueChallenge row.email row.purpose ∈ r.held)
    (hfree : (Db.challenges ((schema sv).applyAll (.addAudit a :: .addEvent event :: c.buf)
      r.db)).rows.any (fun x => x.email = row.email && x.purpose = row.purpose) = false) :
    Sound c' where
  booked := by
    have hmarks : c.marks ⊆ c'.marks := by
      rw [hgo.marks]
      exact List.Subset.refl _
    have hold : c'.BookedFor Account c.buf :=
      hc.booked.mono fun _ _ haccount => haccount.le hgo.le hmarks
    have hevent : Account c' (.addEvent event) c.buf :=
      { email := .of_none fun _ => rfl
        secret := .of_none fun _ => rfl
        purpose := .of_none fun _ => rfl
        subject := .of_none fun _ => rfl
        provider := .of_none fun _ => rfl
        owner := by rintro _ ⟨⟩
        evidence := by
          refine ⟨hdrawn.1, hannounces.aggregateId ▸ hdrawn.2, fun e he => ?_⟩
          -- an earlier event has identifiers that were drawn before
          obtain ⟨post, -, haccount⟩ := hc.booked.account he
          refine ⟨fun heq => hnew.1 (heq ▸ haccount.evidence.1), fun heq => hnew.2 ?_⟩
          rw [hannounces.aggregateId] at heq
          exact heq ▸ haccount.evidence.2.1 }
    have hrow : Account c' (.insertChallenge row) (.addAudit a :: .addEvent event :: c.buf) :=
      { email := .of_none fun _ => rfl
        secret := .of_none fun _ => rfl
        purpose := by
          intro id v hadded
          obtain ⟨row', hrow, rfl⟩ := Option.map_eq_some_iff.1 hadded
          obtain ⟨⟨rfl⟩, -⟩ := Op.newChallenge_eq hrow
          refine ⟨r, hr, hk, fun _ => Store.column_vacant hfree fun x hx => ?_⟩
          simpa using hx
        subject := .of_none fun _ => rfl
        provider := .of_none fun _ => rfl
        owner := by rintro _ ⟨⟩
        evidence := by
          refine ⟨⟨event, List.mem_cons_of_mem _ List.mem_cons_self, hannounces⟩, isResend, a, ?_⟩
          exact ⟨List.mem_cons_self, htells⟩ }
    rw [Ctx.Booked, hgo.buf]
    exact ⟨hrow, .of_plain trivial, hevent, hold⟩
  settled := by
    rw [hgo.buf, List.nil_append]
    have hsub : ∀ op ∈ c.buf,
        op ∈ [.insertChallenge row, .addAudit a, .addEvent event] ++ c.buf :=
      fun _ => List.mem_append_right _
    constructor
    · intro id role isActive hmem
      have hold : .setAccess id role isActive ∈ c.buf := by simpa using hmem
      exact (hc.settled.access id role isActive hold).mono hgo.le hsub
    · intro e hmem
      rcases List.mem_append.1 hmem with hmem | hold
      · have heq : e = event := by simpa using hmem
        exact ⟨row, List.mem_append_left _ List.mem_cons_self, heq ▸ hannounces⟩
      · obtain ⟨row', hrow', hannounces'⟩ := hc.settled.event e hold
        exact ⟨row', hsub _ hrow', hannounces'⟩
    · intro id hmark
      obtain ⟨purpose, ha⟩ := hc.settled.guess id (hgo.marks ▸ hmark)
      exact ⟨purpose, ha.mono hsub⟩

/-- A new challenge brings its event and its record, or the transaction fails. -/
theorem books_createChallenge {email : String} {purpose : ChallengePurpose} {now : Time}
    {isResend : Bool} {cid : Option String} {Q : UUID → Ctx (schema sv) → Prop} (hc : Sound c)
    (h : ∀ id c', c.Follows c' → Sound c' → Q id c') :
    Books Q (createChallenge sv settings email purpose now isResend cid) c := by
  rw [createChallenge, Books, along_bind, along_uuid4]
  intro id hid
  dsimp only
  split
  · rintro ⟨⟩
  case h_2 codeHash _ =>
    rw [along_bind, along_uuid4]
    intro eventId heventId
    split
    · rintro ⟨⟩
    case h_2 event hevent =>
      obtain ⟨-, -, rfl⟩ := DomainEvent.create_ok_iff.1 hevent
      rw [along_bind, along_write, along_bind]
      refine books_correlation fun text c₁ hc₁ => ?_
      rw [along_bind]
      refine books_audit fun a c₂ hc₂ htells => ?_
      rw [along_bind, storeChallenge]
      split
      · rintro ⟨⟩
      refine books_insertUnique fun r c₃ hc₃ hr hk _ hfree => ?_
      have hdraw : Goes c [] ((c.draw id).draw eventId) := (Goes.draw id).trans (.draw eventId)
      have hgo := (((hdraw.of_nil (.push _)).trans_nil hc₁).trans hc₂).trans_nil hc₃
      have hle := ((Goes.push _).trans_nil hc₁).trans (hc₂.trans_nil hc₃) |>.le
      rw [hgo.buf] at hfree
      refine h id _ (Follows.of_adds (hgo.trans (.push _))) ?_
      refine hc.announce (hgo.trans (.push _)) ⟨?_, hid⟩ ⟨?_, ?_⟩ ⟨rfl, rfl, rfl, rfl, rfl, rfl⟩
        htells hr hk hfree
      · exact fun hmem => heventId (List.mem_cons_of_mem _ hmem)
      · exact hle.drawn List.mem_cons_self
      · exact hle.drawn (List.mem_cons_of_mem _ List.mem_cons_self)

/-- A challenge that the transaction sees and has not issued was committed. -/
theorem challenge_of_view {r : Read (schema sv)} {id : UUID} (hnone : ∀ row, .insertChallenge row ∉ ops)
    (h : Db.challenge ((schema sv).applyAll ops r.db) id ≠ none) : Db.challenge r.db id ≠ none := by
  induction ops with
  | nil => exact h
  | cons op ops ih =>
    obtain ⟨x, hx⟩ := Option.ne_none_iff_exists'.1 h
    rcases Db.challenge_apply hx with ⟨rfl, -, -⟩ | ⟨y, hy, -⟩
    · exact absurd List.mem_cons_self (hnone x)
    · refine ih (fun row hmem => hnone row (List.mem_cons_of_mem _ hmem)) ?_
      exact Option.ne_none_iff_exists'.2 ⟨y, hy⟩

/-- A challenge that is deleted is one of the database: the transaction has issued none. -/
theorem books_deleteChallenge {row : EmailChallenge} {Q : Unit → Ctx (schema sv) → Prop}
    (hc : Sound c) (hnone : Unissued c) (h : ∀ c', c.Follows c' → Sound c' → Q () c') :
    Books Q (deleteChallenge sv row) c := by
  rw [deleteChallenge, forUpdate, Books, along_bind, along_bind, along_query]
  intro db t _ _ _ _
  have hdone : ∀ c', Goes c [] c' → Q () c' := fun c' hc' => h c' (Follows.of_adds hc') (hc.adds hc')
  split
  · exact hdone _ (.observe db t)
  · rw [along_bind, along_lock]
    refine ⟨trivial, ?_⟩
    rw [along_query]
    intro db' t' _ _ _ _
    have hgo : Goes c [] (((c.observe db t).hold (.challenge row.id)).observe db' t') :=
      ((Goes.observe db t).trans (.hold _)).trans (.observe db' t')
    split
    · exact hdone _ hgo
    case h_2 x hx =>
      rw [along_bind, along_lock]
      refine ⟨trivial, ?_⟩
      rw [along_write]
      have hgo' := hgo.trans (.hold (.uniqueChallenge row.email row.purpose))
      refine h _ (Follows.of_adds (hgo'.trans (.push _))) ?_
      refine (hc.adds hgo').push (.of_evidence rfl (by rintro _ ⟨⟩) ?_) rfl
      refine ⟨_, List.mem_cons_self, challenge_of_view hnone ?_⟩
      exact Option.ne_none_iff_exists'.2 ⟨x, hx⟩

/-- An old challenge is deleted before a new one is created. -/
theorem books_issueChallenge {email : String} {purpose : ChallengePurpose} {cid : Option String}
    {Q : UUID → Ctx (schema sv) → Prop} (hc : Sound c) (hnone : Unissued c)
    (h : ∀ id c', c.Follows c' → Sound c' → Q id c') :
    Books Q (issueChallenge sv settings email purpose cid) c := by
  rw [issueChallenge]
  refine along_guard (fun _ => by rintro ⟨⟩) fun _ => ?_
  rw [lockEmail, along_bind]
  refine books_unissued (plain_lock _) hc hnone fun _ c₁ hc₁ hs₁ hnone₁ => ?_
  rw [along_bind]
  refine books_unissued (plain_query _) hs₁ hnone₁ fun previous c₂ hc₂ hs₂ hnone₂ => ?_
  rw [along_bind]
  refine books_unissued plain_utcNow hs₂ hnone₂ fun now c₃ hc₃ hs₃ hnone₃ => ?_
  have hgo := (hc₁.trans hc₂).trans hc₃
  cases previous with
  | none => exact books_createChallenge hs₃ fun id c' hc' => h id c' (hgo.trans hc')
  | some previous =>
    dsimp only
    split
    · exact books_plain plain_uuid4 hs₃ fun id c' hc' => h id c' (hgo.trans hc')
    · rw [along_bind]
      refine books_deleteChallenge hs₃ hnone₃ fun c₄ hc₄ hs₄ => ?_
      exact books_createChallenge hs₄ fun id c' hc' => h id c' ((hgo.trans hc₄).trans hc')

/-- A refusal, as long as it leaves the transaction sound. -/
theorem books_refuseChallenge {id : UUID} {purpose : ChallengePurpose} {cid : Option String}
    (h : ∀ a c', Goes c [.addAudit a] c' →
      a.Tells none "auth.challenge_verification_failed" id .denied
        [("purpose", .str purpose.value)] → Sound c') :
    Books Q (refuseChallenge sv id purpose cid) c := by
  rw [refuseChallenge, Books, along_bind]
  refine books_correlation fun text c₁ hc₁ => ?_
  rw [along_bind]
  exact books_audit fun a c₂ hc₂ htells _ => h a c₂ (hc₁.of_nil hc₂) htells

/-- A refusal without a wrong code leaves a sound transaction sound. -/
theorem books_refuse {id : UUID} {purpose : ChallengePurpose} {cid : Option String}
    (hc : Sound c) : Books Q (refuseChallenge sv id purpose cid) c :=
  books_refuseChallenge fun _ _ hgo _ => hc.goes hgo (List.forall_mem_singleton.2 trivial)

/-- A wrong code and the record of the failure. -/
theorem Owing.guess {id : UUID} {purpose : ChallengePurpose} {a : AuditRecord} (hc : Sound c)
    (hgo : Goes (c.mark (.wrongCode id)) [.addAudit a] c')
    (htells : a.Tells none "auth.challenge_verification_failed" id .denied
      [("purpose", .str purpose.value)]) : Sound c' where
  booked := by
    have hle : c.Le c' := (Ctx.le_mark (c := c) _).trans hgo.le
    have hmarks : c.marks ⊆ c'.marks := by
      rw [hgo.marks]
      exact List.subset_cons_self _ _
    rw [Ctx.Booked, hgo.buf]
    exact ⟨.of_plain trivial, hc.booked.mono fun _ _ haccount => haccount.le hle hmarks⟩
  settled := by
    have hle : c.Le c' := (Ctx.le_mark (c := c) _).trans hgo.le
    have hsub : ∀ op ∈ c.buf, op ∈ [.addAudit a] ++ c.buf := fun _ => List.mem_append_right _
    rw [show c'.buf = [.addAudit a] ++ c.buf from hgo.buf, List.nil_append]
    constructor
    · intro i role isActive hmem
      have hold : .setAccess i role isActive ∈ c.buf := by simpa using hmem
      exact (hc.settled.access i role isActive hold).mono hle hsub
    · intro e hmem
      have hold : .addEvent e ∈ c.buf := by simpa using hmem
      obtain ⟨row, hrow, hannounces⟩ := hc.settled.event e hold
      exact ⟨row, hsub _ hrow, hannounces⟩
    · intro i hmark
      rw [hgo.marks] at hmark
      rcases List.mem_cons.1 hmark with heq | hold
      · cases heq
        exact ⟨purpose, a, List.mem_append_left _ List.mem_cons_self, htells⟩
      · obtain ⟨purpose', ha⟩ := hc.settled.guess i hold
        exact ⟨purpose', ha.mono hsub⟩

/-- A challenge that passes its check is consumed, and every refusal of it is sound. -/
theorem books_checkChallenge {row : EmailChallenge} {code : String} {purpose : ChallengePurpose}
    {cid : Option String} {Q : EmailChallenge → Ctx (schema sv) → Prop} (hc : Sound c)
    (h : ∀ row c', c.Follows c' → Sound c' → Q row c') :
    Books Q (checkChallenge sv settings row code purpose cid) c := by
  rw [checkChallenge]
  split
  · exact books_refuse hc
  · rw [Books, along_bind]
    refine books_plain plain_utcNow hc fun now c₁ hc₁ hs₁ => ?_
    split
    · exact books_refuse hs₁
    · rw [along_bind]
      refine books_plain (plain_write _ trivial) hs₁ fun _ c₂ hc₂ hs₂ => ?_
      split
      · rintro ⟨⟩
      · split
        · rw [along_bind, along_note]
          exact books_refuseChallenge fun a c' hgo htells => hs₂.guess hgo htells
        · have hplain : IsPlain (do
              let consumedAt ← utcNow
              write (.setConsumed row.id consumedAt)
              return { row with attempts := row.attempts + 1, consumedAt := some consumedAt } :
                Tx sv EmailChallenge) :=
            plain_utcNow.bind fun now =>
              (plain_write (.setConsumed row.id now) trivial).bind fun _ => .pure _
          exact books_plain hplain hs₂ fun row c' hc' => h row c' ((hc₁.trans hc₂).trans hc')

/-- So is a challenge that is read and locked first. -/
theorem books_consumeChallenge {id : UUID} {code : String} {purpose : ChallengePurpose}
    {cid : Option String} {Q : EmailChallenge → Ctx (schema sv) → Prop} (hc : Sound c)
    (h : ∀ row c', c.Follows c' → Sound c' → Q row c') :
    Books Q (consumeChallenge sv settings id code purpose cid) c := by
  rw [consumeChallenge, Books, along_bind]
  refine books_plain (plain_query _) hc fun candidate c₁ hc₁ hs₁ => ?_
  have hlocked : ∀ c', c₁.Follows c' → Sound c' →
      Books Q (consumeLocked sv settings id code purpose cid) c' := by
    intro c₂ hc₂ hs₂
    rw [consumeLocked, Books, along_bind]
    refine books_plain plain_forUpdate hs₂ fun found c₃ hc₃ hs₃ => ?_
    cases found with
    | none => exact books_refuse hs₃
    | some row =>
      exact books_checkChallenge hs₃ fun row c' hc' => h row c' (((hc₁.trans hc₂).trans hc₃).trans hc')
  cases candidate with
  | none => exact hlocked c₁ (.refl c₁) hs₁
  | some candidate =>
    dsimp only
    rw [lockEmail, along_bind]
    exact books_plain (plain_lock _) hs₁ fun _ => hlocked

/-- A refused challenge is committed with its record. -/
theorem books_consumeOrCommit {id : UUID} {code : String} {purpose : ChallengePurpose}
    {Q : EmailChallenge → Ctx (schema sv) → Prop} (hc : Sound c)
    (h : ∀ row c', c.Follows c' → Sound c' → Q row c') :
    Books Q (consumeOrCommit sv settings id code purpose) c := by
  rw [consumeOrCommit, Books, along_tryCatch]
  refine along_mono (books_consumeChallenge hc h) (fun _ _ hq => hq) fun e c' hs => ?_
  split
  case isTrue heq =>
    rw [along_bind, along_commit]
    exact ⟨hs heq, fun _ => sound_fresh rfl rfl⟩
  case isFalse hne => exact fun heq => absurd heq hne

/-! ## Credentials, access and identities -/

/-- A password is replaced with evidence that it may be. -/
theorem books_flushPassword {userId : UUID} {hash : String} {Q : Unit → Ctx (schema sv) → Prop}
    (hc : Sound c) (hevidence : Recorded c.buf none "identity.password_reset" userId .succeeded [] ∨
      ∃ old, .verified userId old ∈ c.marks)
    (h : ∀ c', c.Follows c' → Sound c' → Q () c') : Books Q (flushPassword sv userId hash) c := by
  rw [flushPassword, flushRow, Books, along_bind]
  refine books_plain plain_forUpdate hc fun found c₁ hc₁ hs₁ => ?_
  cases found with
  | none => rintro ⟨⟩
  | some _ =>
    rw [along_write]
    refine h _ (hc₁.trans (.push _)) ?_
    refine hs₁.push (.of_evidence rfl (by rintro _ ⟨⟩) ?_) rfl
    exact hevidence.imp (.mono fun _ hop => hc₁.buf hop) (.imp fun _ hold => hc₁.marks hold)

/-- A new identity accounts for its subject, its provider and its owner. -/
theorem Account.of_insertIdentity {row : ExternalIdentity} {r : Read (schema sv)} (hr : r ∈ c.reads)
    (hsubject : .uniqueSubject row.provider row.subject ∈ r.held)
    (hprovider : .uniqueProvider row.userId row.provider ∈ r.held)
    (hknown : Known c ops row.userId)
    (hfree : (Db.identities ((schema sv).applyAll ops r.db)).rows.any (fun x =>
      (x.provider = row.provider && x.subject = row.subject) ||
        (x.userId = row.userId && x.provider = row.provider)) = false)
    (hevidence : Evidenced c (.insertIdentity row) ops) :
    Account c (.insertIdentity row) ops where
  email := .of_none fun _ => rfl
  secret := .of_none fun _ => rfl
  purpose := .of_none fun _ => rfl
  subject := by
    intro id v hadded
    obtain ⟨row', hrow, rfl⟩ := Option.map_eq_some_iff.1 hadded
    obtain ⟨⟨rfl⟩, -⟩ := Op.newIdentity_eq hrow
    refine ⟨r, hr, hsubject, fun _ => Store.column_vacant hfree fun x hx => ?_⟩
    simp only [Prod.mk.injEq] at hx
    simp [hx.1, hx.2]
  provider := by
    intro id v hadded
    obtain ⟨row', hrow, rfl⟩ := Option.map_eq_some_iff.1 hadded
    obtain ⟨⟨rfl⟩, -⟩ := Op.newIdentity_eq hrow
    refine ⟨r, hr, hprovider, fun _ => Store.column_vacant hfree fun x hx => ?_⟩
    simp only [Prod.mk.injEq] at hx
    simp [hx.1, hx.2]
  owner := by
    rintro _ ⟨rfl⟩
    exact hknown
  evidence := hevidence

/-- The record of a link is there before the identity is. -/
theorem books_insertIdentity {identity : Identity} {user : User} {cid : String}
    {Q : Unit → Ctx (schema sv) → Prop} (hc : Sound c) (hknown : Known c c.buf user.id)
    (h : ∀ c', c.Follows c' → Sound c' → Q () c') :
    Books Q (insertIdentity sv identity user cid) c := by
  rw [insertIdentity, Books, along_bind, along_utcNow]
  intro now _
  rw [along_bind, along_uuid4]
  intro id _
  dsimp only
  rw [along_bind]
  refine books_auditActor fun actor hactor => ?_
  rw [along_bind]
  refine books_audit fun a c₁ hc₁ htells => ?_
  split
  · rintro ⟨⟩
  rw [along_bind, along_lock]
  refine ⟨trivial, books_insertUnique fun r c₂ hc₂ hr hk hheld hfree => ?_⟩
  have hdraw : Goes c [] ((c.time now).draw id) := (Goes.time now).trans (.draw id)
  have hgo : Goes c [.addAudit a] c₂ :=
    ((hdraw.of_nil hc₁).trans_nil (.hold _)).trans_nil hc₂
  have hs₂ : Sound c₂ := hc.goes hgo (List.forall_mem_singleton.2 trivial)
  have hfollows := Follows.of_adds hgo
  refine h _ (hfollows.trans (.push _)) (hs₂.push ?_ rfl)
  refine .of_insertIdentity hr (hheld List.mem_cons_self) hk (hknown.follows hfollows) hfree ?_
  refine ⟨a, ?_, hactor ▸ htells⟩
  rw [hgo.buf]
  exact List.mem_cons_self

end

end Ledger

end Ekumidayomi
