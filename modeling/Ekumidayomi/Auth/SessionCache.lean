import Ekumidayomi.Auth.Transactions
import Ekumidayomi.Lib.Alone

/-!
# The session cache is a hint

`SessionService.resolve` with the cache spelled out: what `redis.get` answers becomes the hint of a
first query, and what `redis.set` answers is ignored. A hint only narrows the query by a condition
on the key, so with unique secret hashes both queries find the same row, and the answer is that of a
resolution without a cache.
-/

namespace Ekumidayomi

open Transact

/-- What `redis.get` does. -/
inductive CacheGet
  | error
  | missing
  | bytes (value : Bytes)
  | text (value : String)
  deriving DecidableEq, Repr

/-- What `redis.set` does. -/
inductive CacheSet
  | error | stored
  deriving DecidableEq, Repr

/-- The hint that `resolve` takes from the cache. `decode` is `bytes.decode` and `uuidOf` the
constructor `UUID`, each `none` where it raises; an empty value counts as missing. -/
def CacheGet.hint (decode : Bytes → Option String) (uuidOf : String → Option UUID) :
    CacheGet → Option UUID
  | .error | .missing => none
  | .bytes value => if value.isEmpty then none else (decode value).bind uuidOf
  | .text value => if value.isEmpty then none else uuidOf value

/-- `SessionService.resolve` against a cache that answers `get` and then `set`. -/
def SessionService.resolve (sv : Services) (decode : Bytes → Option String)
    (uuidOf : String → Option UUID) (get : CacheGet) (set : CacheSet) (secret : Option String) :
    Tx sv Actor := do
  let actor ← Ekumidayomi.resolve sv secret (get.hint decode uuidOf)
  match set with
  | .error => return actor
  | .stored => return actor

/-- The unique constraint on `secret_hash`. -/
def Db.UniqueSecrets (db : Db) : Prop :=
  ∀ a ∈ db.sessions.rows, ∀ b ∈ db.sessions.rows, a.secretHash = b.secretHash → a = b

section
variable {db : Db} {hash : String} {now : Time} {found : AuthSession × User}

/-- The condition of the query on a row, without the hint. -/
theorem of_liveSession {hint : Option UUID} (h : liveSession hash now hint db = some found) :
    ∃ row ∈ db.sessions.rows, row.secretHash = hash ∧ row.revokedAt.isNone = true ∧
      now < row.expiresAt ∧ ((db.user row.userId).bind fun user =>
        if user.isActive ∧ user.emailVerifiedAt.isSome then some (row, user) else none) =
          some found := by
  obtain ⟨row, hrow, hf⟩ := List.exists_of_findSome?_eq_some h
  obtain ⟨⟨hhash, hrev, hexp, -⟩, hf⟩ := Option.ite_none_right_eq_some.1 hf
  exact ⟨row, hrow, hhash, hrev, hexp, hf⟩

/-- With unique secret hashes, what the hinted query finds the plain query finds. -/
theorem liveSession_of_hint (hu : db.UniqueSecrets) {hint : Option UUID}
    (h : liveSession hash now hint db = some found) :
    liveSession hash now none db = some found := by
  obtain ⟨row, hrow, hhash, hrev, hexp, hf⟩ := of_liveSession h
  cases hplain : liveSession hash now none db with
  | none =>
    have hnone := List.findSome?_eq_none_iff.1 hplain row hrow
    simp only [hhash, hrev, hexp, Option.all_none, and_self, if_true] at hnone
    rw [hnone] at hf
    cases hf
  | some found' =>
    obtain ⟨row', hrow', hhash', -, -, hf'⟩ := of_liveSession hplain
    obtain rfl := hu row' hrow' row hrow (hhash'.trans hhash.symm)
    rw [← hf, ← hf']

variable {sv : Services} {o : Oracle (schema sv)} {h : Here (schema sv)} {α : Type}

@[simp] theorem alone_query {f : Db → α} : (query f : Tx sv α).alone o h =
    (.ok (f h.view), h) := rfl

@[simp] theorem alone_utcNow : (utcNow : Tx sv Time).alone o h = (.ok (o.clock h.count), h.next) :=
  rfl

/-- The answer of `resolve` on what its queries found. -/
def resolved : Option (AuthSession × User) → Except Error Actor
  | none => .error .authenticationRequired
  | some (row, user) =>
    match Role.ofValue user.role with
    | none => .error .authenticationRequired
    | some role => .ok { userId := user.id, sessionId := row.id, role
                         authenticatedAt := row.authenticatedAt }

/-- Alone, `resolve` answers by the first query that finds a row. -/
theorem alone_resolve {secret : String} {hint : Option UUID} (htoken : isToken secret = true) :
    (resolve sv (some secret) hint).alone o h =
      (resolved ((hint.bind fun id =>
          liveSession (digest sv secret) (o.clock h.count) (some id) h.view).or
        (liveSession (digest sv secret) (o.clock h.count) none h.view)), h.next) := by
  have hend : ∀ result : Option (AuthSession × User),
      (match result with
        | none => throw .authenticationRequired
        | some (row, user) =>
          match Role.ofValue user.role with
          | none => throw .authenticationRequired
          | some role => pure { userId := user.id, sessionId := row.id, role
                                authenticatedAt := row.authenticatedAt } : Tx sv Actor).alone o
        h.next = (resolved result, h.next) := by
    intro result
    unfold resolved
    split
    · rfl
    · split <;> rfl
  unfold resolve
  simp only [htoken, Bool.not_true, Bool.false_eq_true, if_false, Prog.alone_bind, alone_utcNow]
  cases hint with
  | none => exact hend _
  | some id =>
    simp only [Prog.alone_bind, alone_query, Option.bind_some]
    rw [show h.next.view = h.view from rfl]
    cases liveSession (digest sv secret) (o.clock h.count) (some id) h.view with
    | none => exact hend _
    | some found => exact hend (some found)

/-- With unique secret hashes the hint makes no difference. -/
theorem alone_resolve_hint (hu : h.view.UniqueSecrets) (secret : Option String)
    (hint : Option UUID) :
    (resolve sv secret hint).alone o h = (resolve sv secret none).alone o h := by
  cases secret with
  | none => rfl
  | some secret =>
    by_cases htoken : isToken secret = true
    · rw [alone_resolve htoken, alone_resolve htoken]
      cases hint with
      | none => rfl
      | some id =>
        simp only [Option.bind_some, Option.bind_none, Option.none_or]
        cases hfirst : liveSession (digest sv secret) (o.clock h.count) (some id) h.view with
        | none => rfl
        | some found => rw [liveSession_of_hint hu hfirst, Option.some_or]
    · unfold resolve
      simp only [htoken]
      rfl

end

/-- **The cache never influences authorization.** On every database with unique secret hashes, at
every time and for every presented secret, `resolve` returns the same actor or raises the same error
whatever the cache answers on either call. -/
theorem resolve_ignores_cache (sv : Services) (decode : Bytes → Option String)
    (uuidOf : String → Option UUID) (o : Oracle (schema sv)) (h : Here (schema sv))
    (hu : h.view.UniqueSecrets) (secret : Option String) (get get' : CacheGet)
    (set set' : CacheSet) :
    (SessionService.resolve sv decode uuidOf get set secret).alone o h =
      (SessionService.resolve sv decode uuidOf get' set' secret).alone o h := by
  have hplain : ∀ (get : CacheGet) (set : CacheSet),
      (SessionService.resolve sv decode uuidOf get set secret).alone o h =
        (resolve sv secret none).alone o h := by
    intro get set
    rw [SessionService.resolve, Prog.alone_bind, alone_resolve_hint hu]
    rcases (resolve sv secret none).alone o h with ⟨answer | actor, h'⟩
    · rfl
    · cases set <;> rfl
  rw [hplain get set, hplain get' set']

/-- One microsecond past the epoch, with identifiers from a hundred on. -/
def AuthFixture.oracle : Oracle (schema AuthFixture.services) where
  clock _ := 1
  id n := BitVec.ofNat 128 (100 + n)
  text _ := "salt"

/-- A cache that fails, and one that names a session that is not there. -/
theorem resolve_ignores_cache_token :
    (SessionService.resolve AuthFixture.services (fun _ => none) (fun _ => some 7) .error .error
        (some AuthFixture.token)).alone AuthFixture.oracle
          { db := AuthFixture.db } =
      (SessionService.resolve AuthFixture.services (fun _ => none) (fun _ => some 7)
        (.text "00000000-0000-0000-0000-000000000007") .stored
        (some AuthFixture.token)).alone AuthFixture.oracle
          { db := AuthFixture.db } := by
  refine resolve_ignores_cache _ _ _ _ _ ?_ _ _ _ _ _
  intro a ha b hb _
  rw [List.mem_singleton.1 ha, List.mem_singleton.1 hb]

end Ekumidayomi
