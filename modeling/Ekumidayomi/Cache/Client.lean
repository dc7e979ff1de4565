import Mathlib.Logic.Function.Basic
import Ekumidayomi.Lib.Run

/-!
# Single-flight loading

`CacheClient.get_or_load`, `_acquire_lock` and `_release_lock` of `cache/client.py`, for callers of
one key. A call is a program (`Code`) that stops at every command: a command on the lock key
(`LockCommand`) is executed by the Redis server, and all else (the cached value, the loader, the
sleep between polls) is answered by the environment. The state of a connection that watches the lock
key is the number of writes that the key has had at the `WATCH`; the program hands it to its `EXEC`.

The system interleaves the callers. A command fails at any time, with or without an effect, and the
effect may come later (`Sys.late`); a reply may be lost, a command may be sent twice, and the entry
of the lock key may expire at any time. `Sys.heard` keeps every command that a caller has sent with
what it has heard of it.
-/

namespace Ekumidayomi.Cache

/-! ## Programs -/

/-- A command on the lock key. `exec` is `MULTI`, `DEL`, `EXEC` on a connection that watches the key
since its write number `watched`. -/
inductive LockCommand
  | setNx (token : String)
  | watch
  | get
  | unwatch
  | exec (watched : Nat)
  deriving DecidableEq, Repr

/-- A value as the client receives it: text, or bytes with what `bytes.decode` gives. -/
inductive Raw
  | text (value : String)
  | bytes (decoded : Option String)
  deriving DecidableEq, Repr

/-- The reply to a command: whether `SET` stored, the state of the watching connection, the value
found, the number of keys that `DEL` removed. -/
def LockReply : LockCommand → Type
  | .setNx _ => Bool
  | .watch => Nat
  | .get => Option Raw
  | .unwatch => Unit
  | .exec _ => Nat

/-- How a command fails: a `WatchError`, another `RedisError` or a `TimeoutError`, or the
cancellation of the task, which no handler takes. -/
inductive RedisFailure
  | watchError | unavailable | cancelled
  deriving DecidableEq, Repr

/-- What the environment is asked: the cached value, to delete a corrupt value, to store a value, to
run the loader, to sleep. -/
inductive Query (V : Type)
  | read
  | deleteCorrupt
  | write (value : V)
  | load
  | sleep
  deriving DecidableEq, Repr

/-- A cached value that was read. The client may fail to decode the reply, and the codec may give
`None` or raise what is no `CacheDecodeError`. -/
inductive Cached (V : Type)
  | missing
  | corrupt
  | unreadable
  | value (v : Option V)

/-- The answers. Storing a value may fail to encode it, which is the `none` of `write`; the loader
and the sleep may raise. -/
def Answer (V : Type) : Query V → Type
  | .read => Except RedisFailure (Cached V)
  | .deleteCorrupt => Except RedisFailure Unit
  | .write _ => Option (Except RedisFailure Unit)
  | .load => Option V
  | .sleep => Bool

inductive CacheError
  | typeError (message : String)
  | valueError (message : String)
  /-- `CacheUnavailableError`. -/
  | unavailable
  | cancelled
  /-- Whatever the loader, the codec or the sleep raised. -/
  | raised
  deriving DecidableEq, Repr

inductive Code (V : Type) (α : Type)
  | done (result : Except CacheError α)
  | ask (q : Query V) (next : Answer V q → Code V α)
  | redis (c : LockCommand) (next : Except RedisFailure (LockReply c) → Code V α)

namespace Code
variable {V α β : Type}

/-- Go on from what a program returns or raises. -/
def andThen : Code V α → (Except CacheError α → Code V β) → Code V β
  | .done result, f => f result
  | .ask q next, f => .ask q fun a => (next a).andThen f
  | .redis c next, f => .redis c fun r => (next r).andThen f

protected def throw (e : CacheError) : Code V α := .done (.error e)

protected def bind (x : Code V α) (f : α → Code V β) : Code V β :=
  x.andThen fun
    | .ok a => f a
    | .error e => .done (.error e)

instance : Monad (Code V) where
  pure a := .done (.ok a)
  bind := Code.bind

/-- `try: x finally: y`. -/
def tryFinally (x : Code V α) (y : Code V β) : Code V α :=
  x.andThen fun result => y.andThen fun
    | .ok _ => .done result
    | .error e => .done (.error e)

end Code

/-! ## The client -/

section
variable {V : Type}

/-- `CacheUnavailableError`, or what the operation returns when it may fail open; a cancellation is
raised in any case. -/
def failed {α : Type} (failOpen : Bool) (value : α) : RedisFailure → Code V α
  | .cancelled => .throw .cancelled
  | .watchError | .unavailable => if failOpen then pure value else .throw .unavailable

/-- `_decode_token`. -/
def decodeToken : Option Raw → Option String
  | some (.text value) => some value
  | some (.bytes decoded) => decoded
  | none => none

/-- The loader. -/
def load : Code V V :=
  .ask .load fun
    | some v => pure v
    | none => .throw .raised

/-- `_delete_corrupt`. -/
def deleteCorrupt : Code V Unit :=
  .ask .deleteCorrupt fun
    | .ok _ => pure ()
    | .error e => failed true () e

/-- `_read`. -/
def read (failOpen : Bool) : Code V (Bool × Option V) :=
  .ask .read fun
    | .error e => failed failOpen (false, none) e
    | .ok .missing => pure (true, none)
    | .ok (.value v) => pure (true, v)
    | .ok .unreadable => .throw .raised
    | .ok .corrupt => do
      deleteCorrupt
      return (true, none)

/-- `get`. -/
def get (failOpen : Bool) : Code V (Option V) := do
  let (_, value) ← read failOpen
  return value

/-- `set`, whose time to live is checked by its caller too. -/
def set (failOpen : Bool) (value : V) : Code V Bool :=
  .ask (.write value) fun
    | none => .throw .raised
    | some (.ok _) => pure true
    | some (.error e) => failed failOpen false e

/-- `_acquire_lock`; the expiry of the entry is the server's. -/
def acquireLock (failOpen : Bool) (token : String) : Code V (Option Bool) :=
  .redis (.setNx token) fun
    | .error e => failed failOpen none e
    | .ok true => pure (some true)
    | .ok false => pure (some false)

/-- The handlers of `_release_lock`. -/
def releaseFailed (failOpen : Bool) : RedisFailure → Code V Bool
  | .watchError => pure false
  | e => failed failOpen false e

/-- `_release_lock`. The `UNWATCH` by which the library resets a pipeline that is left while it
watches changes nothing at the server, and is left out. -/
def releaseLock (failOpen : Bool) (token : String) : Code V Bool :=
  .redis .watch fun
    | .error e => releaseFailed failOpen e
    | .ok watched => .redis .get fun
      | .error e => releaseFailed failOpen e
      | .ok current =>
        if decodeToken current ≠ some token then
          .redis .unwatch fun
            | .error e => releaseFailed failOpen e
            | .ok _ => pure false
        else
          .redis (.exec watched) fun
            | .error e => releaseFailed failOpen e
            | .ok deleted =>
              let count : Nat := deleted
              pure (count != 0)

/-- The loop of a caller that has to wait; `polls` is how often it finds its deadline ahead. -/
def poll (failOpen : Bool) : Nat → Code V V
  | 0 => do
    let value ← load
    discard (set failOpen value)
    return value
  | polls + 1 => .ask .sleep fun
    | false => .throw .raised
    | true => do
      let (available, cached) ← read failOpen
      match cached with
      | some v => return v
      | none => if available then poll failOpen polls else load

/-- The arguments of `get_or_load`, the client's `fail_open`, and how long the caller would wait. -/
structure Args where
  failOpen : Bool
  callable : Bool
  ttlSeconds : Int
  leaseMs : Int
  waitMs : Int
  polls : Nat
  deriving DecidableEq, Repr

def validateTtl (value : Int) : Except CacheError Unit :=
  if 1 ≤ value ∧ value ≤ 86400 then .ok ()
  else .error (.valueError "ttl_seconds must be between 1 and 86400")

def validateMilliseconds (name : String) (value minimum maximum : Int) : Except CacheError Unit :=
  if minimum ≤ value ∧ value ≤ maximum then .ok ()
  else .error (.valueError (name ++ " must be between " ++ toString minimum ++ " and " ++
    toString maximum))

/-- The checks of the arguments. -/
def Args.validate (args : Args) : Except CacheError Unit := do
  if !args.callable then throw (.typeError "loader must be callable")
  validateTtl args.ttlSeconds
  validateMilliseconds "lease_ms" args.leaseMs 100 30000
  validateMilliseconds "wait_ms" args.waitMs 0 10000

/-- What a caller does with the lock. -/
def underLock (failOpen : Bool) (token : String) : Code V V :=
  Code.tryFinally (do
      let value ← load
      discard (set failOpen value)
      return value)
    (releaseLock failOpen token)

/-- `get_or_load`. -/
def getOrLoad (args : Args) (token : String) : Code V V :=
  Code.bind (.done args.validate) fun _ => do
    let (available, cached) ← read args.failOpen
    match cached with
    | some v => return v
    | none =>
      if available then do
        match ← acquireLock args.failOpen token with
        | none => load
        | some true => underLock args.failOpen token
        | some false => poll args.failOpen args.polls
      else load

end

/-! ## The server and the callers -/

/-- The lock key at the server: its entry unless it has expired, and how often it has been written.
`granted` are the callers whose `SET` took effect. -/
structure Server where
  entry : Option String := none
  writes : Nat := 0
  granted : List Nat := []

/-- The value of the entry as the client receives it. -/
def rawOf (decodeResponses : Bool) (token : String) : Raw :=
  if decodeResponses then .text token else .bytes (some token)

/-- The server executes a command of a caller. An `EXEC` is refused when the key has been written
since it was watched. -/
def Server.execute (decodeResponses : Bool) (s : Server) (caller : Nat) :
    (c : LockCommand) → Server × Except RedisFailure (LockReply c)
  | .setNx token =>
    if s.entry.isSome then (s, .ok false)
    else
      ({ s with entry := some token, writes := s.writes + 1, granted := caller :: s.granted },
        .ok true)
  | .watch => (s, .ok s.writes)
  | .get => (s, .ok (s.entry.map (rawOf decodeResponses)))
  | .unwatch => (s, .ok ())
  | .exec watched =>
    if watched = s.writes then
      match s.entry with
      | some _ => ({ s with entry := none, writes := s.writes + 1 }, .ok (1 : Nat))
      | none => (s, .ok (0 : Nat))
    else (s, .error .watchError)

/-- A caller: its program, or a command that was executed with the reply that is on its way. -/
inductive Thread (V : Type)
  | running (code : Code V V)
  | answered (c : LockCommand) (reply : Except RedisFailure (LockReply c))
      (next : Except RedisFailure (LockReply c) → Code V V)

/-- A command that a caller has sent, and what it has heard of it. -/
structure Heard where
  command : LockCommand
  reply : Except RedisFailure (LockReply command)

structure Sys (V : Type) where
  server : Server
  threads : Nat → Thread V
  heard : Nat → List Heard
  /-- Commands that their callers no longer wait for and that have not been executed. -/
  late : List (Nat × LockCommand)

inductive Label
  | expire
  | execute (caller : Nat) (c : LockCommand)
  | other
  deriving DecidableEq, Repr

section
variable {V : Type}

def Sys.setThread (s : Sys V) (i : Nat) (t : Thread V) : Sys V :=
  { s with threads := Function.update s.threads i t }

/-- A caller hears of its command and goes on. -/
def Sys.hear (s : Sys V) (i : Nat) (c : LockCommand) (reply : Except RedisFailure (LockReply c))
    (next : Except RedisFailure (LockReply c) → Code V V) : Sys V :=
  { s.setThread i (.running (next reply)) with
    heard := Function.update s.heard i (s.heard i ++ [⟨c, reply⟩]) }

/-- A step of the system. -/
inductive Step (decodeResponses : Bool) : Sys V → Label → Sys V → Prop
  | expire {s : Sys V} :
      Step decodeResponses s .expire { s with server := { s.server with entry := none } }
  | ask {s : Sys V} {i : Nat} {q : Query V} {next : Answer V q → Code V V} (a : Answer V q) :
      s.threads i = .running (.ask q next) →
      Step decodeResponses s .other (s.setThread i (.running (next a)))
  | execute {s : Sys V} {i : Nat} {c : LockCommand}
      {next : Except RedisFailure (LockReply c) → Code V V} :
      s.threads i = .running (.redis c next) →
      Step decodeResponses s (.execute i c)
        { s.setThread i (.answered c (s.server.execute decodeResponses i c).2 next) with
          server := (s.server.execute decodeResponses i c).1 }
  | receive {s : Sys V} {i : Nat} {c : LockCommand} {reply : Except RedisFailure (LockReply c)}
      {next : Except RedisFailure (LockReply c) → Code V V} :
      s.threads i = .answered c reply next →
      Step decodeResponses s .other (s.hear i c reply next)
  | lose {s : Sys V} {i : Nat} {c : LockCommand} {reply : Except RedisFailure (LockReply c)}
      {next : Except RedisFailure (LockReply c) → Code V V} (e : RedisFailure) :
      s.threads i = .answered c reply next →
      Step decodeResponses s .other (s.hear i c (.error e) next)
  | fail {s : Sys V} {i : Nat} {c : LockCommand}
      {next : Except RedisFailure (LockReply c) → Code V V} (e : RedisFailure) :
      s.threads i = .running (.redis c next) →
      Step decodeResponses s .other
        { s.hear i c (.error e) next with late := (i, c) :: s.late }
  | resend {s : Sys V} {i : Nat} {c : LockCommand}
      {next : Except RedisFailure (LockReply c) → Code V V} :
      s.threads i = .running (.redis c next) →
      Step decodeResponses s .other { s with late := (i, c) :: s.late }
  | late {s : Sys V} {i : Nat} {c : LockCommand} {before after : List (Nat × LockCommand)} :
      s.late = before ++ (i, c) :: after →
      Step decodeResponses s (.execute i c)
        { s with server := (s.server.execute decodeResponses i c).1, late := before ++ after }

/-- The callers before any has done anything, each with its arguments and its token. -/
def Sys.start (args : Nat → Args) (token : Nat → String) : Sys V :=
  { server := {}, threads := fun i => .running (getOrLoad (args i) (token i)),
    heard := fun _ => [], late := [] }

def Run (decodeResponses : Bool) : Sys V → List Label → Sys V → Prop :=
  Lts.Run (Step decodeResponses)

end

end Ekumidayomi.Cache
