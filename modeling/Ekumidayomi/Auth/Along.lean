import Ekumidayomi.Auth.Calls
import Ekumidayomi.Lib.Along

/-!
# The statements of the identity services on the way

The rules of `along` for the statements of `Auth.Transactions`, and which of the functions below the
services request no lock (`Prog.Quiet`): audit records, password checks and hashes, the resolution
of a session and the check of a challenge that is locked already.
-/

namespace Ekumidayomi

open Transact

/-- The transaction goes on to the record `c'` and takes the locks `ks`, the last one first. -/
abbrev Locks {sv : Services} (c : Ctx (schema sv)) (ks : List Key) (c' : Ctx (schema sv)) : Prop :=
  c.Locks ks c'

section
variable {sv : Services} {c : Ctx (schema sv)}

/-- A lock requested is one more. -/
theorem Locks.hold (k : Key) : Locks c [k] (c.hold k) := Ctx.Locks.hold (c := c) k

/-- A query takes no lock. -/
theorem Locks.observe (db : Db) (t : Time) : Locks c [] (c.observe db t) :=
  Ctx.Locks.observe (c := c) db t

/-- A write takes no lock: its locks are requested before it. -/
theorem Locks.push (op : Op) : Locks c [] (c.push op) := Ctx.Locks.push (c := c) op

/-- A reading of the clock takes no lock. -/
theorem Locks.time (t : Time) : Locks c [] (c.time t) := Ctx.Locks.time (c := c) t

/-- A fresh id takes no lock. -/
theorem Locks.draw (id : UUID) : Locks c [] (c.draw id) := Ctx.Locks.draw (c := c) id

end

section
variable {sv : Services} {settings : AuthSettings} {α β : Type}
  {L : Key → Ctx (schema sv) → Prop} {G : Ctx (schema sv) → Prop} {Q : α → Ctx (schema sv) → Prop}
  {E : Error → Ctx (schema sv) → Prop} {c : Ctx (schema sv)}

/-! ## The primitive statements -/

/-- A query goes on with what it reads in some database that the transaction may see. -/
theorem along_query {f : Db → α} : along L G Q E (query f) c ↔ ∀ (db : Db) (t : Time),
    db.AdminsVerified → c.Sees db → c.Before t → c.Drew → Q (f (c.view db))
      (c.observe db t) := Iff.rfl

/-- A lock request is judged where it is made. -/
theorem along_lock {Q : Unit → Ctx (schema sv) → Prop} {k : Key} :
    along L G Q E (lock k) c ↔ L k c ∧ Q () (c.hold k) := Iff.rfl

/-- A write goes on with one more pending write. -/
theorem along_write {Q : Unit → Ctx (schema sv) → Prop} {op : Op} :
    along L G Q E (write op) c ↔ Q () (c.push op) := Iff.rfl

/-- A reading of the clock is no earlier than what was read before. -/
theorem along_utcNow {Q : Time → Ctx (schema sv) → Prop} :
    along L G Q E utcNow c ↔ ∀ t, c.Before t → Q t (c.time t) := Iff.rfl

/-- An id is one that the transaction has not drawn. -/
theorem along_uuid4 {Q : UUID → Ctx (schema sv) → Prop} :
    along L G Q E uuid4 c ↔ ∀ id, id ∉ c.drawn → Q id (c.draw id) := Iff.rfl

/-- A random text can be any. -/
theorem along_randomText {Q : String → Ctx (schema sv) → Prop} :
    along L G Q E randomText c ↔ ∀ s, Q s c := Iff.rfl

/-- A mark is added to the record. -/
theorem along_note {Q : Unit → Ctx (schema sv) → Prop} {n : Note} :
    along L G Q E (note n) c ↔ Q () (c.mark n) := Iff.rfl

/-- A commit is judged where it is made. -/
theorem along_commit {Q : Unit → Ctx (schema sv) → Prop} :
    along L G Q E commit c ↔ G c ∧ Q () c.commit := Iff.rfl

/-! ## Functions that request no lock -/

/-- A query requests no lock. -/
theorem quiet_query (f : Db → α) : (query f : Tx sv α).Quiet := fun _ => trivial

/-- A write requests no lock. -/
theorem quiet_write (op : Op) : (write op : Tx sv Unit).Quiet := trivial

/-- Reading the clock requests no lock. -/
theorem quiet_utcNow : (utcNow : Tx sv Time).Quiet := fun _ => trivial

/-- Drawing an id requests no lock. -/
theorem quiet_uuid4 : (uuid4 : Tx sv UUID).Quiet := fun _ => trivial

/-- Drawing a text requests no lock. -/
theorem quiet_randomText : (randomText : Tx sv String).Quiet := fun _ => trivial

/-- A mark requests no lock. -/
theorem quiet_note (n : Note) : (note n : Tx sv Unit).Quiet := trivial

/-- An audit record is inserted without a lock: no index on it is unique. -/
theorem quiet_record {actor : AuditActor} {action targetType : String} {targetId : UUID}
    {outcome : AuditOutcome} {metadata : List (String × AuditValue)} {correlationId : String} :
    (record sv actor action targetType targetId outcome metadata correlationId).Quiet := by
  rw [record]
  refine .ite trivial ?_
  exact quiet_utcNow.bind fun _ => quiet_uuid4.bind fun _ => quiet_write _

/-- The correlation id is checked or drawn. -/
theorem quiet_correlation {given : Option String} : (correlation sv given).Quiet := by
  have hdraw : (do return uuidStr (← uuid4) : Tx sv String).Quiet :=
    quiet_uuid4.bind fun _ => .pure _
  cases given with
  | none => exact hdraw
  | some text => exact .ite (.pure _) hdraw

/-- Hashing draws a salt. -/
theorem quiet_hashPassword {password : String} : (hashPassword sv password).Quiet := by
  rw [hashPassword]
  exact .ite trivial (quiet_randomText.bind fun _ => .pure _)

/-- The checks of a new password read no row. -/
theorem quiet_validateNewPassword {breached : Option Bool} {password : String} :
    (validateNewPassword sv breached password).Quiet := by
  unfold validateNewPassword
  refine .ite trivial (.ite trivial ?_)
  split <;> trivial

/-- An account is found by its address in one query. -/
theorem quiet_findUserByEmail {email : String} : (findUserByEmail sv email).Quiet := by
  rw [findUserByEmail]
  split
  · trivial
  · exact quiet_query _

/-- The end of `resolve`, which reads nothing. -/
theorem quiet_resolved (result : Option (AuthSession × User)) :
    Prog.Quiet (match result with
      | none => throw .authenticationRequired
      | some (row, user) =>
        match Role.ofValue user.role with
        | none => throw .authenticationRequired
        | some role => pure { userId := user.id, sessionId := row.id, role
                              authenticatedAt := row.authenticatedAt } : Tx sv Actor) := by
  split
  · trivial
  · split <;> trivial

/-- A session is resolved by queries alone. -/
theorem quiet_resolve {secret : Option String} {hint : Option UUID} :
    (resolve sv secret hint).Quiet := by
  unfold resolve
  split
  case h_1 => trivial
  case h_2 secret =>
    refine .ite trivial (quiet_utcNow.bind fun now => ?_)
    dsimp only
    split
    · refine .bind (.pure _) fun hinted => ?_
      cases hinted with
      | none => exact .bind (quiet_query _) quiet_resolved
      | some found => exact .bind (.pure _) quiet_resolved
    · refine .bind (quiet_query _) fun hinted => ?_
      cases hinted with
      | none => exact .bind (quiet_query _) quiet_resolved
      | some found => exact .bind (.pure _) quiet_resolved

/-- So is one that may be absent. -/
theorem quiet_resolveOrNone {secret : Option String} {hint : Option UUID} :
    (resolveOrNone sv secret hint).Quiet :=
  .tryCatch (quiet_resolve.bind fun _ => .pure _) fun _ => .ite (.pure _) (.throw _)

/-- Without a lock, `authorize` reads. -/
theorem quiet_authorize {actor : Actor} {permission : Permission} {limit : Option Nat} :
    (authorize sv actor permission limit false).Quiet := by
  rw [authorize]
  refine .bind (quiet_query _) fun user => (quiet_query _).bind fun session => ?_
  split
  · refine .ite trivial (quiet_utcNow.bind fun now => .ite trivial ?_)
    split
    · trivial
    · refine .ite trivial ?_
      cases limit with
      | none => trivial
      | some limit =>
        exact quiet_utcNow.bind fun _ => .ite trivial (.bind (quiet_note _) fun _ => .pure _)
  · trivial

/-- The actor of an audit record is computed from the user. -/
theorem quiet_auditActor {user : User} : (auditActor sv user).Quiet := by
  unfold auditActor
  split <;> trivial

/-- A refusal writes its audit record and raises. -/
theorem quiet_refuseChallenge {id : UUID} {purpose : ChallengePurpose} {cid : Option String} :
    (refuseChallenge sv id purpose cid : Tx sv α).Quiet :=
  quiet_correlation.bind fun _ => quiet_record.bind fun _ => .throw _

/-- A challenge is checked under the lock that its caller has taken. -/
theorem quiet_checkChallenge {row : EmailChallenge} {code : String} {purpose : ChallengePurpose}
    {cid : Option String} : (checkChallenge sv settings row code purpose cid).Quiet := by
  rw [checkChallenge]
  refine .ite quiet_refuseChallenge (quiet_utcNow.bind fun now => ?_)
  refine .ite quiet_refuseChallenge ((quiet_write _).bind fun _ => ?_)
  split
  · trivial
  · refine .ite ?_ ?_
    · exact (quiet_note _).bind fun _ => quiet_refuseChallenge
    · exact quiet_utcNow.bind fun _ => (quiet_write _).bind fun _ => .pure _

end

end Ekumidayomi
