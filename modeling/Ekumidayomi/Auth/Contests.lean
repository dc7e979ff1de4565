import Ekumidayomi.Auth.Initiation
import Ekumidayomi.Auth.Integrity

/-!
# What the identity workflows race for

Two registrations may want one address, two logins one external identity, two links one place at a
provider. Each workflow takes a lock, looks whether what it wants is taken, and then inserts, so a
unique constraint should never be the one to refuse it: whoever is late finds out by looking and
raises an error of its own (`Loses`, `losses`). The locks of an address and of an external identity
are advisory, and nothing but the workflows themselves makes a transaction take them. What a
transaction may rely on when all others do is `Steady`; the rules below follow the statements of
`Auth.Transactions` under it.
-/

namespace Ekumidayomi

open Transact

/-! ## Addresses in their normal form -/

/-- The address of every account and of every challenge is its own normal form. -/
structure Db.Normal (sv : Services) (db : Db) : Prop where
  user : ∀ {id u}, db.user id = some u → sv.normalizeEmail u.email = some u.email
  challenge : ∀ {id x}, db.challenge id = some x → sv.normalizeEmail x.email = some x.email

/-- The address that the write adds is its own normal form. -/
def Op.Normal (sv : Services) : Op → Prop
  | .insertUser row => sv.normalizeEmail row.email = some row.email
  | .insertChallenge row => sv.normalizeEmail row.email = some row.email
  | _ => True

section
variable {sv : Services} {db : Db}

/-- No write changes an address. -/
theorem Db.Normal.apply {op : Op} (h : db.Normal sv) (hop : op.Normal sv) :
    (op.apply db).Normal sv where
  user := by
    intro id u hu
    rcases Db.user_apply_keeps hu with ⟨rfl, -, -⟩ | ⟨y, hy, hemail, -⟩
    · exact hop
    · rw [hemail]
      exact h.user hy
  challenge := by
    intro id x hx
    rcases Db.challenge_apply_keeps hx with ⟨rfl, -, -⟩ | ⟨y, hy, hsame, -⟩
    · exact hop
    · rw [hsame]
      exact h.challenge hy

/-- Nor does a transaction. -/
theorem Db.Normal.applyAll {ops : List Op} (h : db.Normal sv) (hops : ∀ op ∈ ops, op.Normal sv) :
    Db.Normal sv ((schema sv).applyAll ops db) := by
  induction ops with
  | nil => exact h
  | cons op ops ih =>
    rw [List.forall_mem_cons] at hops
    exact (ih hops.2).apply hops.1

/-- Others keep the address of a challenge. -/
theorem Db.challenge_email {held : List Key} {db' : Db} {id : UUID} {x y : EmailChallenge}
    (hi : Interferes (S := schema sv) held db db') (hx : db.challenge id = some x)
    (hy : db'.challenge id = some y) : y.email = x.email := by
  refine hi.keeps (P := fun d => ∀ y, Db.challenge d id = some y → y.email = x.email) ?_ ?_ y hy
  · intro op d hop ih y hy
    rcases Db.challenge_apply_keeps hy with ⟨rfl, hid, -⟩ | ⟨z, hz, hsame, -⟩
    · -- nobody draws an id that was in use
      refine absurd ?_ (hop.makes y.id List.mem_cons_self)
      refine .inr (.inr (.inr (.inl ?_)))
      rw [hid, hx]
      exact Option.some_ne_none x
    · exact hsame.trans (ih z hz)
  · intro y hy
    rw [Option.some.inj (hy.symm.trans hx)]

/-- The challenge is gone, or somebody has consumed it. -/
def Db.Spent (db : Db) (id : UUID) : Prop :=
  ∀ row, db.challenge id = some row → row.consumedAt.isSome = true

/-- The lock of an external identity. -/
def Identity.key (sv : Services) (identity : Identity) : Key :=
  .email sv (externalText identity.provider.value identity.subject)

/-- The external identity is nobody's. -/
def Identity.Free (sv : Services) (identity : Identity) (db : Db) : Prop :=
  (subjectIndex sv).Vacant (identity.provider.value, identity.subject) db

end

namespace Race

/-! ## What a transaction may rely on -/

section
variable {sv : Services}

/-- The record of a transaction whose rivals lock the address of every account that they insert: the
databases it has read are those of one run, and an address that it has found free under the lock is
free wherever it looks. It has consumed no challenge that it had missed before it locked the row. -/
structure Steady (sv : Services) (c : Ctx (schema sv)) : Prop where
  integral : ∀ r ∈ c.reads, Db.Integral r.db
  normal : ∀ r ∈ c.reads, Db.Normal sv r.db
  chain : ∀ r ∈ c.reads, ∀ r' ∈ c.reads,
    Interferes r.held r.db r'.db ∨ Interferes r'.held r'.db r.db
  vacant : ∀ r ∈ c.reads, ∀ r' ∈ c.reads, ∀ email, Key.email sv email ∈ r.held →
    (emailIndex sv).Vacant email r.db → (emailIndex sv).Vacant email r'.db
  looked : ∀ id t, .setConsumed id t ∈ c.buf → ∀ r ∈ c.reads, .challenge id ∉ r.held →
    Db.challenge r.db id ≠ none

variable {c c' : Ctx (schema sv)} {call : Call}

/-- Before the first read there is nothing to rely on. -/
theorem Steady.of_nil (hreads : c.reads = []) : Steady sv c := by
  constructor <;> simp [hreads]

/-- A record that was steady later was so before. -/
theorem Steady.of_follows (h : Steady sv c') (hc : c.Follows c') : Steady sv c where
  integral := fun r hr => h.integral r (hc.le.reads hr)
  normal := fun r hr => h.normal r (hc.le.reads hr)
  chain := fun r hr r' hr' => h.chain r (hc.le.reads hr) r' (hc.le.reads hr')
  vacant := fun r hr r' hr' => h.vacant r (hc.le.reads hr) r' (hc.le.reads hr')
  looked := fun id t hop r hr => h.looked id t (hc.buf hop) r (hc.le.reads hr)

/-- A challenge has one address wherever the transaction looks. -/
theorem Steady.one_email {r r' : Read (schema sv)} {id : UUID} {x y : EmailChallenge}
    (h : Steady sv c) (hr : r ∈ c.reads) (hr' : r' ∈ c.reads) (hx : Db.challenge r.db id = some x)
    (hy : Db.challenge r'.db id = some y) : y.email = x.email := by
  rcases h.chain r hr r' hr' with hi | hi
  · exact Db.challenge_email hi hx hy
  · exact (Db.challenge_email hi hy hx).symm

/-! ## Losing -/

/-- The transaction has looked under the lock, and at every such look it was so. -/
def Finds (c : Ctx (schema sv)) (k : Key) (P : Db → Prop) : Prop :=
  (∃ look ∈ c.reads, k ∈ look.held) ∧ ∀ look ∈ c.reads, k ∈ look.held → P look.db

/-- A registration has found its challenge spent, or has consumed it and found the address taken. -/
def LosesRegistration (c : Ctx (schema sv)) (id : UUID) : Prop :=
  ∃ seen ∈ c.reads, ∃ row, Db.challenge seen.db id = some row ∧
    (Finds c (.email sv row.email) (Db.Spent · id) ∨
      (∃ t, .setConsumed id t ∈ c.buf) ∧
        Finds c (.email sv row.email) fun db => ¬ (emailIndex sv).Vacant row.email db)

/-- A login by a new customer has found the address taken. -/
def LosesLogin (c : Ctx (schema sv)) (identity : Identity) : Prop :=
  Finds c (identity.key sv) (identity.Free sv) ∧ ∃ email, identity.address sv = some email ∧
    Finds c (.email sv email) fun db => ¬ (emailIndex sv).Vacant email db

/-- An authorized link has found the external identity taken, or the user's place at the
provider. -/
def LosesLink (c : Ctx (schema sv)) (identity : Identity) (actor : Actor) : Prop :=
  (∃ limit now, .authorized actor.sessionId limit now ∈ c.marks) ∧
    (Finds c (identity.key sv) (fun db => ¬ identity.Free sv db) ∨
      Finds c (.user actor.userId) fun db =>
        ¬ (providerIndex sv).Vacant (actor.userId, identity.provider.value) db)

/-- An authorized unlink has found the identity gone. -/
def LosesUnlink (c : Ctx (schema sv)) (actor : Actor) (provider : ProviderName) : Prop :=
  (∃ limit now, .authorized actor.sessionId limit now ∈ c.marks) ∧
    Finds c (.user actor.userId) ((providerIndex sv).Vacant (actor.userId, provider.value))

/-- The transaction has lost: under the lock that its workflow takes for it, it has found taken what
it was going to add, or gone what it was going to use. -/
def Loses (sv : Services) (call : Call) (c : Ctx (schema sv)) : Prop :=
  match call with
  | .completeRegistration r => LosesRegistration c r.challengeId
  | .finish identity attempt actor _ =>
    (attempt.intent = .login ∧ LosesLogin c identity) ∨
      (attempt.intent = .link ∧ ∃ a, actor = some a ∧ LosesLink c identity a)
  | .unlink actor provider _ => LosesUnlink c actor provider
  | _ => False

/-- The errors of those who lose. -/
def losses : List Error := [.invalidChallenge, .externalLoginFailed, .providerAlreadyLinked]

/-- Who has lost has found it out by looking. -/
theorem Loses.reads (h : Loses sv call c) : c.reads ≠ [] := by
  have hfinds : ∀ {k P}, Finds c k P → c.reads ≠ [] :=
    fun hk => List.ne_nil_of_mem hk.1.choose_spec.1
  cases call with
  | completeRegistration r =>
    obtain ⟨seen, hseen, -⟩ := h
    exact List.ne_nil_of_mem hseen
  | finish identity attempt actor cid =>
    rcases h with ⟨-, hfree, -⟩ | ⟨-, a, -, -, htaken | htaken⟩
    · exact hfinds hfree
    · exact hfinds htaken
    · exact hfinds htaken
  | unlink actor provider cid => exact hfinds h.2
  | _ => exact h.elim

/-! ## What is asked on the way -/

/-- The write adds no address but in its normal form, and no account but under the lock of its
address. -/
def Guarded (c : Ctx (schema sv)) (op : Op) : Prop :=
  op.Normal sv ∧ ∀ row, op = .insertUser row → .email sv row.email ∈ c.held

/-- The transaction has guarded its writes, and each of them satisfies `P`. -/
structure Tidy (P : Op → Prop) (c : Ctx (schema sv)) : Prop where
  guarded : Steady sv c → ∀ op ∈ c.buf, Guarded c op
  only : ∀ op ∈ c.buf, P op

/-- An error in the call: the database finds no unique column taken but that of a secret, and who
has lost raises an error that says so. -/
def Raises (sv : Services) (call : Call) (e : Error) (c : Ctx (schema sv)) : Prop :=
  Steady sv c →
    (e = .integrityError → ∃ hash, c.held.head? = some (.uniqueSecret hash)) ∧
      (Loses sv call c → e ∈ losses)

/-- A commit of the call: its writes are guarded, and nobody who has lost commits but a registration
that adds no account. -/
def Closes (sv : Services) (call : Call) (c : Ctx (schema sv)) : Prop :=
  Steady sv c → (∀ op ∈ c.buf, Guarded c op) ∧
    (Loses sv call c → (∃ r, call = .completeRegistration r) ∧ ∀ row, .insertUser row ∉ c.buf)

/-- An answer of the call: nobody who has lost gets one. -/
def Answers (sv : Services) (call : Call) (_ : AuthResult) (c : Ctx (schema sv)) : Prop :=
  ¬ Loses sv call c

/-- The program raises and commits as the call should. -/
abbrev Contest {α : Type} (call : Call) (Q : α → Ctx (schema sv) → Prop) (p : Tx sv α)
    (c : Ctx (schema sv)) : Prop :=
  along (fun _ _ => True) (Closes sv call) Q (Raises sv call) p c

/-- So does what is left of the call, up to its answer. -/
abbrev Ends (call : Call) (p : Tx sv AuthResult) (c : Ctx (schema sv)) : Prop :=
  Contest call (Answers sv call) p c

/-- A write stays guarded. -/
theorem Guarded.le {op : Op} (h : Guarded c op) (hle : c.Le c') : Guarded c' op :=
  ⟨h.1, fun row hrow => hle.held (h.2 row hrow)⟩

/-- A write that owes nothing adds no address. -/
theorem Guarded.of_plain {op : Op} (hop : op.isPlain) : Guarded c op := by
  refine ⟨?_, ?_⟩
  · cases op <;> trivial
  · rintro row rfl
    exact hop.elim

/-- A transaction that has written nothing is tidy. -/
theorem Tidy.of_nil {P : Op → Prop} (hbuf : c.buf = []) : Tidy P c := by
  constructor <;> simp [hbuf]

theorem Tidy.mono {P P' : Op → Prop} (hP : ∀ op, P op → P' op) (h : Tidy P c) : Tidy P' c :=
  ⟨h.guarded, fun op hop => hP op (h.only op hop)⟩

/-- Steps that write nothing leave the writes as they are. -/
theorem Tidy.follows {P : Op → Prop} (h : Tidy P c) (hc : c.Follows c') (hbuf : c'.buf = c.buf) :
    Tidy P c' := by
  refine ⟨fun hs op hop => ?_, fun op hop => h.only op (hbuf ▸ hop)⟩
  exact (h.guarded (hs.of_follows hc) op (hbuf ▸ hop)).le hc.le

/-- So do steps that are known to write nothing. -/
theorem Tidy.goes {P : Op → Prop} (h : Tidy P c) (hc : Goes c [] c') : Tidy P c' :=
  h.follows (Ledger.Follows.of_adds hc) hc.buf

/-- One more write. -/
theorem Tidy.wrote {P : Op → Prop} {op : Op} (h : Tidy P c) (hc : Goes c [op] c')
    (hop : Steady sv c' → Guarded c' op) (hP : P op) : Tidy P c' where
  guarded := by
    intro hs o ho
    rw [hc.buf] at ho
    rcases List.mem_cons.1 ho with rfl | ho
    · exact hop hs
    · exact (h.guarded (hs.of_follows (Ledger.Follows.of_adds hc)) o ho).le hc.le
  only := by
    rw [hc.buf]
    exact List.forall_mem_cons.2 ⟨hP, h.only⟩

/-- A write that adds no address needs no guard. -/
theorem Guarded.of_other {op : Op} (hnormal : op.Normal sv) (hnew : ∀ id, op.newUser id = none) :
    Guarded c op := by
  refine ⟨hnormal, ?_⟩
  rintro row rfl
  have hrow := hnew row.id
  rw [Op.newUser, if_pos rfl] at hrow
  cases hrow

/-- One more write that adds no account. -/
theorem Tidy.other {P : Op → Prop} {op : Op} (h : Tidy P c) (hc : Goes c [op] c')
    (hnew : ∀ id, op.newUser id = none) (hnormal : op.Normal sv) (hP : P op) : Tidy P c' :=
  h.wrote hc (fun _ => .of_other hnormal hnew) hP

end

/-! ## Statements -/

section
variable {sv : Services} {settings : AuthSettings} {α : Type} {call : Call}
  {Q : α → Ctx (schema sv) → Prop} {c : Ctx (schema sv)} {P : Op → Prop}

/-- A tidy transaction that has written nothing but what is plain issues no challenge. -/
theorem Tidy.unissued {c' : Ctx (schema sv)} (hc : Tidy Op.isPlain c') {op : Op}
    (hop : op ∈ c'.buf) (id : UUID) : (purposeIndex sv).added op id = none := by
  have hplain := hc.only op hop
  cases op <;> first | rfl | exact hplain.elim

/-- The challenge is not there any more: others do not bring it back, and the transaction has
deleted it if it was there. -/
def Replaces (sv : Services) (row : EmailChallenge) (c : Ctx (schema sv)) : Prop :=
  ∀ db : Db, c.Sees db → (purposeIndex sv).value row.id (c.view db) ≠ some (row.email, row.purpose)

end

end Race

end Ekumidayomi
