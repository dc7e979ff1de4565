import Ekumidayomi.Cache.Client

/-!
# Ownership of the single-flight lock

What a caller knows of the lock survives the steps of the others: the lock key is written more
often, or its entry is the same or has expired (`Server.Later`). So an `EXEC` that is executed at
the write number of its `WATCH` finds the entry that the `GET` in between has found, or none, and
this holds of every copy of the command that is still on its way (`CommandOk`). `wp` is the
precondition of a program under such interference, for what its caller has heard of its commands.
The programs of `get_or_load` meet it: in the end the caller has heard a whole course of commands
(`Course`), and one that ends with exactly one release when the lock was acquired (`Release`).
-/

namespace Ekumidayomi.Cache

variable {V : Type} {token : Nat → String} {decodeResponses : Bool} {i : Nat}

/-! ## What a caller hears -/

/-- What is heard of a release, from its `WATCH` to the last command that it sends: the `GET` follows
a `WATCH` that was answered, then the `EXEC` on what was watched if the token found is the caller's,
or the `UNWATCH` if it is not. -/
inductive Release (token : String) : List Heard → Prop
  | unwatched (e : RedisFailure) : Release token [⟨.watch, .error e⟩]
  | unread (watched : Nat) (e : RedisFailure) :
      Release token [⟨.watch, .ok watched⟩, ⟨.get, .error e⟩]
  | foreign (watched : Nat) (current : Option Raw)
      (reply : Except RedisFailure (LockReply .unwatch)) : decodeToken current ≠ some token →
      Release token [⟨.watch, .ok watched⟩, ⟨.get, .ok current⟩, ⟨.unwatch, reply⟩]
  | own (watched : Nat) (current : Option Raw)
      (reply : Except RedisFailure (LockReply (.exec watched))) : decodeToken current = some token →
      Release token [⟨.watch, .ok watched⟩, ⟨.get, .ok current⟩, ⟨.exec watched, reply⟩]

/-- What is heard of a call: nothing when it needs no lock, a `SET` that did not store the token, or
one that did and then a release. -/
inductive Course (token : String) : List Heard → Prop
  | idle : Course token []
  | refused (reply : Except RedisFailure (LockReply (.setNx token))) : reply ≠ .ok true →
      Course token [⟨.setNx token, reply⟩]
  | held {release : List Heard} : Release token release →
      Course token (⟨.setNx token, .ok true⟩ :: release)

/-- The reply by which `_acquire_lock` returns `True`. -/
def Heard.acquires : Heard → Bool
  | ⟨.setNx _, .ok stored⟩ => stored
  | _ => false

/-- The command by which a release begins. -/
def Heard.releases (x : Heard) : Bool := x.command = .watch

/-- A release begins once and acquires nothing. -/
theorem Release.counts {t : String} {heard : List Heard} (h : Release t heard) :
    heard.countP Heard.releases = 1 ∧ heard.countP Heard.acquires = 0 := by
  cases h <;> exact ⟨rfl, rfl⟩

/-- A call begins as many releases as it has acquired the lock, which is at most once. -/
theorem Course.counts {t : String} {heard : List Heard} (h : Course t heard) :
    heard.countP Heard.releases = heard.countP Heard.acquires ∧
      heard.countP Heard.acquires ≤ 1 := by
  cases h with
  | idle => exact ⟨rfl, Nat.zero_le _⟩
  | refused reply hne =>
    have hnot : Heard.acquires ⟨.setNx t, reply⟩ = false := by
      cases reply with
      | error e => rfl
      | ok stored =>
        cases stored with
        | false => rfl
        | true => exact absurd rfl hne
    rw [List.countP_singleton, List.countP_singleton, hnot]
    exact ⟨rfl, Nat.zero_le _⟩
  | @held release hrelease =>
    obtain ⟨hreleases, hacquires⟩ := hrelease.counts
    rw [List.countP_cons, List.countP_cons, hreleases, hacquires]
    exact ⟨rfl, Nat.le_refl _⟩

/-- So far a call has begun at most as many releases. -/
theorem Course.counts_prefix {t : String} {heard rest : List Heard} (h : Course t (heard ++ rest)) :
    heard.countP Heard.releases ≤ heard.countP Heard.acquires ∧
      heard.countP Heard.acquires ≤ 1 := by
  obtain ⟨heq, hle⟩ := h.counts
  rw [List.countP_append, List.countP_append] at heq
  rw [List.countP_append] at hle
  refine ⟨?_, by omega⟩
  cases heard with
  | nil => exact Nat.zero_le _
  | cons x heard =>
    -- a course that acquires the lock does so first
    have hfirst : ∀ tail, Course t (x :: tail) →
        x.acquires = true ∨ (x :: tail).countP Heard.acquires = 0 := by
      intro tail hcourse
      cases hcourse with
      | held _ => exact .inl rfl
      | refused reply _ =>
        rw [List.countP_singleton]
        cases Heard.acquires ⟨.setNx t, reply⟩ with
        | true => exact .inl rfl
        | false => exact .inr rfl
    rcases hfirst (heard ++ rest) h with hx | hnone
    · rw [List.countP_cons_of_pos hx] at heq hle ⊢
      omega
    · rw [← List.cons_append, List.countP_append] at hnone
      omega

/-- What others, or the expiry of the entry, may have done to the server. -/
structure Server.Later (s s' : Server) : Prop where
  writes : s.writes ≤ s'.writes
  entry : s'.writes = s.writes → s'.entry = s.entry ∨ s'.entry = none
  granted : ∀ j ∈ s.granted, j ∈ s'.granted

section
variable {s s' s'' : Server}

theorem Server.Later.refl (s : Server) : s.Later s :=
  ⟨Nat.le_refl _, fun _ => .inl rfl, fun _ h => h⟩

theorem Server.Later.trans (h : s.Later s') (h' : s'.Later s'') : s.Later s'' where
  writes := Nat.le_trans h.writes h'.writes
  entry := by
    intro heq
    have hle := h.writes
    have hle' := h'.writes
    rcases h'.entry (by omega) with hsame | hnone
    · rw [hsame]
      exact h.entry (by omega)
    · exact .inr hnone
  granted := fun j hj => h'.granted j (h.granted j hj)

/-- A command that a caller may send: its own token, or an `EXEC` that removes no entry but its
own. -/
def CommandOk (token : Nat → String) (i : Nat) (s : Server) : LockCommand → Prop
  | .setNx t => t = token i
  | .exec watched => watched ≤ s.writes ∧
      (watched = s.writes → s.entry = none ∨ s.entry = some (token i))
  | _ => True

theorem CommandOk.later {c : LockCommand} (h : CommandOk token i s c) (hlater : s.Later s') :
    CommandOk token i s' c := by
  cases c with
  | setNx t => exact h
  | watch | get | unwatch => trivial
  | exec watched =>
    obtain ⟨hle, hentry⟩ := h
    have hwrites := hlater.writes
    refine ⟨by omega, fun heq => ?_⟩
    rcases hlater.entry (by omega) with hsame | hnone
    · rw [hsame]
      exact hentry (by omega)
    · exact .inl hnone

theorem Server.expire_later : s.Later { s with entry := none } :=
  ⟨Nat.le_refl _, fun _ => .inr rfl, fun _ h => h⟩

/-- What a command does: nothing, it stores its token where there was no entry, or it removes the
entry. -/
theorem Server.execute_cases (decodeResponses : Bool) (j : Nat) (c : LockCommand) :
    (s.execute decodeResponses j c).1 = s ∨
    (∃ t, c = .setNx t ∧ s.entry = none ∧ (s.execute decodeResponses j c).1 =
      { s with entry := some t, writes := s.writes + 1, granted := j :: s.granted }) ∨
    (∃ t, c = .exec s.writes ∧ s.entry = some t ∧ (s.execute decodeResponses j c).1 =
      { s with entry := none, writes := s.writes + 1 }) := by
  cases c with
  | watch | get | unwatch => exact .inl rfl
  | setNx t =>
    cases hentry : s.entry with
    | some t' => exact .inl (by simp [Server.execute, hentry])
    | none => exact .inr (.inl ⟨t, rfl, rfl, by simp [Server.execute, hentry]⟩)
  | exec watched =>
    by_cases hwatched : watched = s.writes
    · cases hentry : s.entry with
      | none => exact .inl (by simp [Server.execute, hwatched, hentry])
      | some t =>
        exact .inr (.inr ⟨t, by rw [hwatched], rfl, by simp [Server.execute, hwatched, hentry]⟩)
    · exact .inl (by simp [Server.execute, hwatched])

theorem Server.execute_later (decodeResponses : Bool) (j : Nat) (c : LockCommand) :
    s.Later (s.execute decodeResponses j c).1 := by
  rcases s.execute_cases decodeResponses j c with
    heq | ⟨t, -, -, heq⟩ | ⟨t, -, -, heq⟩
  · rw [heq]
    exact .refl s
  · rw [heq]
    exact ⟨Nat.le_succ _, fun h => absurd h (Nat.succ_ne_self _),
      fun _ hj => List.mem_cons_of_mem _ hj⟩
  · rw [heq]
    exact ⟨Nat.le_succ _, fun h => absurd h (Nat.succ_ne_self _), fun _ hj => hj⟩

end

/-! ## Programs under interference -/

/-- The precondition of a program of the caller `i` that has heard `heard`: whatever the others do
between its steps, it sends only what it may, and `Q` holds of all that it has heard in the end. -/
def wp {α : Type} (token : Nat → String) (decodeResponses : Bool) (i : Nat)
    (Q : Except CacheError α → List Heard → Server → Prop) :
    Code V α → List Heard → Server → Prop
  | .done result, heard, s => Q result heard s
  | .ask _ next, heard, s =>
    ∀ a s', s.Later s' → wp token decodeResponses i Q (next a) heard s'
  | .redis c next, heard, s => CommandOk token i s c ∧ ∀ s', s.Later s' →
      wp token decodeResponses i Q (next (s'.execute decodeResponses i c).2)
        (heard ++ [⟨c, (s'.execute decodeResponses i c).2⟩]) (s'.execute decodeResponses i c).1 ∧
      ∀ e, wp token decodeResponses i Q (next (.error e)) (heard ++ [⟨c, .error e⟩]) s'

section
variable {α β : Type} {Q : Except CacheError α → List Heard → Server → Prop} {s s' : Server}
  {heard : List Heard}

theorem wp_andThen {Q : Except CacheError β → List Heard → Server → Prop} (x : Code V α)
    (f : Except CacheError α → Code V β) :
    wp token decodeResponses i Q (x.andThen f) heard s ↔
      wp token decodeResponses i (fun r => wp token decodeResponses i Q (f r)) x heard s := by
  induction x generalizing heard s with
  | done result => rfl
  | ask q next ih => simp only [Code.andThen, wp, ih]
  | redis c next ih => simp only [Code.andThen, wp, ih]

/-- A precondition survives the steps of the others, when its postcondition does. -/
theorem wp_later (hQ : ∀ r heard s s', s.Later s' → Q r heard s → Q r heard s') {x : Code V α}
    (h : wp token decodeResponses i Q x heard s) (hlater : s.Later s') :
    wp token decodeResponses i Q x heard s' := by
  cases x with
  | done result => exact hQ _ _ _ _ hlater h
  | ask q next => exact fun a s'' hlater' => h a s'' (hlater.trans hlater')
  | redis c next =>
    exact ⟨h.1.later hlater, fun s'' hlater' => h.2 s'' (hlater.trans hlater')⟩

theorem answer_nonempty (q : Query V) : Nonempty (Answer V q) := by
  cases q with
  | read | deleteCorrupt => exact ⟨.error .unavailable⟩
  | write | load => exact ⟨none⟩
  | sleep => exact ⟨false⟩

/-- A caller can get to the end of its program, though nothing be executed any more. -/
theorem wp_ends {x : Code V α} (h : wp token decodeResponses i Q x heard s) :
    ∃ r rest, Q r (heard ++ rest) s := by
  induction x generalizing heard with
  | done result =>
    refine ⟨result, [], ?_⟩
    rw [List.append_nil]
    exact h
  | ask q next ih =>
    obtain ⟨a⟩ := answer_nonempty q
    exact ih a (h a s (.refl s))
  | redis c next ih =>
    obtain ⟨r, rest, hQ⟩ := ih (.error .unavailable) ((h.2 s (.refl s)).2 .unavailable)
    rw [List.append_assoc] at hQ
    exact ⟨r, _, hQ⟩

/-- A program that leaves the lock alone. -/
def Code.Quiet : Code V α → Prop
  | .done _ => True
  | .ask _ next => ∀ a, (next a).Quiet
  | _ => False

theorem Code.Quiet.andThen {x : Code V α} {f : Except CacheError α → Code V β} (hx : x.Quiet)
    (hf : ∀ r, (f r).Quiet) : (x.andThen f).Quiet := by
  induction x with
  | done result => exact hf result
  | ask q next ih => exact fun a => ih a (hx a)
  | redis => exact hx.elim

theorem Code.Quiet.bind {x : Code V α} {f : α → Code V β} (hx : x.Quiet)
    (hf : ∀ a, (f a).Quiet) : (x >>= f).Quiet := by
  refine hx.andThen fun r => ?_
  cases r with
  | ok a => exact hf a
  | error e => trivial

/-- A quiet program ends after steps of the others. -/
theorem Code.Quiet.wp {x : Code V α} (hx : x.Quiet)
    (hQ : ∀ r s', s.Later s' → Q r heard s') : wp token decodeResponses i Q x heard s := by
  induction x generalizing s with
  | done result => exact hQ result s (.refl s)
  | ask q next ih =>
    intro a s' hlater
    exact ih a (hx a) fun r s'' hlater' => hQ r s'' (hlater.trans hlater')
  | redis => exact hx.elim

end

/-! ## The programs of `get_or_load` -/

section
variable {failOpen : Bool} {s : Server}

theorem quiet_failed {α : Type} {value : α} (e : RedisFailure) :
    (failed failOpen value e : Code V α).Quiet := by
  cases e with
  | cancelled => trivial
  | watchError | unavailable => cases failOpen <;> trivial

theorem quiet_load : (load : Code V V).Quiet := by
  intro a
  cases a <;> trivial

theorem quiet_read : (read failOpen : Code V _).Quiet := by
  intro a
  match a with
  | .error e => exact quiet_failed e
  | .ok .missing | .ok .unreadable | .ok (.value _) => trivial
  | .ok .corrupt =>
    refine Code.Quiet.bind (fun a => ?_) fun _ => trivial
    cases a with
    | ok => trivial
    | error e => exact quiet_failed e

theorem quiet_set (value : V) : (set failOpen value).Quiet := by
  intro a
  match a with
  | none | some (.ok _) => trivial
  | some (.error e) => exact quiet_failed e

/-- Loading a value and storing it. -/
theorem quiet_loadAndSet :
    (do let value ← load; discard (set failOpen value); return value : Code V V).Quiet :=
  quiet_load.bind fun value => Code.Quiet.bind (Code.Quiet.bind (quiet_set value) fun _ => trivial)
    fun _ => trivial

theorem quiet_poll (polls : Nat) : (poll failOpen polls : Code V V).Quiet := by
  induction polls with
  | zero => exact quiet_loadAndSet
  | succ polls ih =>
    intro a
    cases a with
    | false => trivial
    | true =>
      refine quiet_read.bind fun result => ?_
      obtain ⟨available, cached⟩ := result
      cases cached with
      | some v => trivial
      | none =>
        cases available with
        | true => exact ih
        | false => exact quiet_load

/-- `_acquire_lock` sends one command; it returns `True` when the token was stored, and then the
lock was granted. -/
theorem wp_acquireLock {Q : Except CacheError (Option Bool) → List Heard → Server → Prop}
    (hacquired : ∀ s', i ∈ s'.granted → Q (.ok (some true)) [⟨.setNx (token i), .ok true⟩] s')
    (hother : ∀ r (reply : Except RedisFailure (LockReply (.setNx (token i)))) s',
      r ≠ .ok (some true) → reply ≠ .ok true → Q r [⟨.setNx (token i), reply⟩] s') :
    wp token decodeResponses i Q (acquireLock failOpen (token i) : Code V _) [] s := by
  refine ⟨rfl, fun s' hlater => ⟨?_, fun e => ?_⟩⟩
  · cases hentry : s'.entry with
    | some t =>
      simp only [Server.execute, hentry, Option.isSome_some, if_true]
      exact hother _ (.ok false) s' nofun nofun
    | none =>
      simp only [Server.execute, hentry, Option.isSome_none, Bool.false_eq_true, if_false]
      exact hacquired _ List.mem_cons_self
  · cases e with
    | cancelled => exact hother _ (.error .cancelled) s' nofun nofun
    | watchError | unavailable =>
      cases failOpen <;> exact hother _ (.error _) s' nofun nofun

theorem quiet_releaseFailed (e : RedisFailure) :
    (releaseFailed failOpen e : Code V Bool).Quiet := by
  cases e with
  | watchError => trivial
  | unavailable => exact (quiet_failed .unavailable : (failed failOpen false _ : Code V _).Quiet)
  | cancelled => exact (quiet_failed .cancelled : (failed failOpen false _ : Code V _).Quiet)

/-- A token that `GET` returns is the entry. -/
theorem decodeToken_rawOf (entry : Option String) :
    decodeToken (entry.map (rawOf decodeResponses)) = entry := by
  cases entry with
  | none => rfl
  | some t => cases decodeResponses <;> rfl

/-- `_release_lock` sends the commands of one release, and they remove no entry but the caller's
own. -/
theorem wp_releaseLock {Q : Except CacheError Bool → List Heard → Server → Prop}
    {heard : List Heard}
    (hQ : ∀ r release s', Release (token i) release → s.Later s' → Q r (heard ++ release) s') :
    wp token decodeResponses i Q (releaseLock failOpen (token i) : Code V _) heard s := by
  -- every way out comes after a whole release
  have hend : ∀ {release : List Heard} {s' : Server}, Release (token i) release → s.Later s' →
      ∀ {x : Code V Bool}, x.Quiet → wp token decodeResponses i Q x (heard ++ release) s' := by
    intro release s' hrelease hlater x hx
    exact hx.wp fun r s'' hlater' => hQ r release s'' hrelease (hlater.trans hlater')
  refine ⟨trivial, fun s₁ h₁ => ⟨⟨trivial, fun s₂ h₂ => ⟨?_, fun e => ?_⟩⟩, fun e => ?_⟩⟩
  · have hlater := h₁.trans h₂
    simp only [Server.execute, List.append_assoc, List.cons_append, List.nil_append]
    split
    · next hother =>
      refine ⟨trivial, fun s₃ h₃ => ⟨?_, fun e => ?_⟩⟩ <;>
        rw [List.append_assoc, List.cons_append, List.cons_append, List.nil_append]
      · exact hend (.foreign _ _ _ hother) (hlater.trans h₃) trivial
      · exact hend (.foreign _ _ _ hother) (hlater.trans h₃) (quiet_releaseFailed e)
    · next hown =>
      have hown := not_not.1 hown
      -- the entry is the caller's at the `GET`, and the key may have been written since the `WATCH`
      have hentry : s₂.entry = some (token i) := (decodeToken_rawOf s₂.entry).symm.trans hown
      refine ⟨⟨h₂.writes, fun _ => .inr hentry⟩, fun s₃ h₃ => ⟨?_, fun e => ?_⟩⟩ <;>
        rw [List.append_assoc, List.cons_append, List.cons_append, List.nil_append]
      · have hlater := (hlater.trans h₃).trans
          (s₃.execute_later decodeResponses i (.exec s₁.writes))
        refine hend (.own _ _ _ hown) hlater ?_
        cases (s₃.execute decodeResponses i (.exec s₁.writes)).2 with
        | ok deleted => trivial
        | error e => exact quiet_releaseFailed e
      · exact hend (.own _ _ _ hown) (hlater.trans h₃) (quiet_releaseFailed e)
  · rw [List.append_assoc, List.cons_append, List.nil_append]
    exact hend (.unread _ e) (h₁.trans h₂) (quiet_releaseFailed e)
  · exact hend (.unwatched e) h₁ (quiet_releaseFailed e)

/-- What a caller has heard when it returns or raises; a token that was stored was granted. -/
structure Finished (token : Nat → String) (i : Nat) (heard : List Heard) (s : Server) : Prop where
  course : Course (token i) heard
  granted : heard.any Heard.acquires = true → i ∈ s.granted

theorem Finished.later {heard : List Heard} {s' : Server} (hlater : s.Later s')
    (h : Finished token i heard s) : Finished token i heard s' :=
  ⟨h.course, fun hany => hlater.granted i (h.granted hany)⟩

theorem Finished.idle : Finished token i [] s := ⟨.idle, nofun⟩

theorem Finished.refused {reply : Except RedisFailure (LockReply (.setNx (token i)))}
    (hreply : reply ≠ .ok true) : Finished token i [⟨.setNx (token i), reply⟩] s := by
  refine ⟨.refused reply hreply, fun hany => ?_⟩
  match reply, hreply, hany with
  | .ok true, hreply, _ => exact absurd rfl hreply

theorem wp_underLock (hgranted : i ∈ s.granted) :
    wp token decodeResponses i (fun _ => Finished token i)
      (underLock failOpen (token i) : Code V V) [⟨.setNx (token i), .ok true⟩] s := by
  refine (wp_andThen ..).2 (quiet_loadAndSet.wp fun result s' hlater => ?_)
  refine (wp_andThen ..).2 (wp_releaseLock fun r release s'' hrelease hlater' => ?_)
  have hfinished : Finished token i (⟨.setNx (token i), .ok true⟩ :: release) s'' :=
    ⟨.held hrelease, fun _ => hlater'.granted i (hlater.granted i hgranted)⟩
  cases r with
  | ok _ | error _ => exact hfinished

/-- A caller that has sent nothing. -/
theorem wp_getOrLoad (args : Args) :
    wp token decodeResponses i (fun _ => Finished token i)
      (getOrLoad args (token i) : Code V V) [] s := by
  unfold getOrLoad
  cases args.validate with
  | error e => exact .idle
  | ok _ =>
    change wp token decodeResponses i _ (Code.andThen (read args.failOpen) _) [] s
    refine (wp_andThen ..).2 (quiet_read.wp fun r s' hlater => ?_)
    match r with
    | .error e => exact .idle
    | .ok (_, some v) => exact .idle
    | .ok (false, none) => exact quiet_load.wp fun _ _ _ => .idle
    | .ok (true, none) =>
      refine (wp_andThen ..).2
        (wp_acquireLock (fun s'' => wp_underLock) fun r reply s'' hr hreply => ?_)
      match r with
      | .error e => exact .refused hreply
      | .ok none => exact quiet_load.wp fun _ _ _ => .refused hreply
      | .ok (some false) => exact (quiet_poll _).wp fun _ _ _ => .refused hreply
      | .ok (some true) => exact absurd rfl hr

end

/-! ## Runs -/

/-- A caller may go on, with the reply that is on its way or without it. -/
def ThreadOk (token : Nat → String) (decodeResponses : Bool) (i : Nat) (s : Server)
    (heard : List Heard) : Thread V → Prop
  | .running code => wp token decodeResponses i (fun _ => Finished token i) code heard s
  | .answered c reply next =>
    wp token decodeResponses i (fun _ => Finished token i) (next reply) (heard ++ [⟨c, reply⟩]) s ∧
    ∀ e, wp token decodeResponses i (fun _ => Finished token i) (next (.error e))
      (heard ++ [⟨c, .error e⟩]) s

section
variable {s s' : Server} {heard : List Heard} {t : Thread V}

theorem wp_finished_later {x : Code V V}
    (h : wp token decodeResponses i (fun _ => Finished token i) x heard s) (hlater : s.Later s') :
    wp token decodeResponses i (fun _ => Finished token i) x heard s' := by
  refine wp_later ?_ h hlater
  exact fun _ _ _ _ => Finished.later

theorem ThreadOk.later (h : ThreadOk token decodeResponses i s heard t) (hlater : s.Later s') :
    ThreadOk token decodeResponses i s' heard t := by
  cases t with
  | running code => exact wp_finished_later h hlater
  | answered c reply next =>
    exact ⟨wp_finished_later h.1 hlater, fun e => wp_finished_later (h.2 e) hlater⟩

/-- What a caller has heard begins what it can have heard in the end. -/
theorem ThreadOk.ends (h : ThreadOk token decodeResponses i s heard t) :
    ∃ rest, Finished token i (heard ++ rest) s := by
  cases t with
  | running code =>
    obtain ⟨_, rest, hfinished⟩ := wp_ends h
    exact ⟨rest, hfinished⟩
  | answered c reply next =>
    obtain ⟨_, rest, hfinished⟩ := wp_ends h.1
    rw [List.append_assoc] at hfinished
    exact ⟨_, hfinished⟩

end

structure Inv (token : Nat → String) (decodeResponses : Bool) (s : Sys V) : Prop where
  threads : ∀ i, ThreadOk token decodeResponses i s.server (s.heard i) (s.threads i)
  late : ∀ p ∈ s.late, CommandOk token p.1 s.server p.2

section
variable {s s' : Sys V} {l : Label}

theorem Inv.start (args : Nat → Args) :
    Inv token decodeResponses (Sys.start args token : Sys V) where
  threads := fun i => wp_getOrLoad (args i)
  late := List.forall_mem_nil _

/-- The server takes a step, and one caller goes on with what it has heard. -/
theorem Inv.step (h : Inv token decodeResponses s) {server : Server} {t : Thread V}
    {heard : List Heard} {late : List (Nat × LockCommand)} (hlater : s.server.Later server)
    (ht : ThreadOk token decodeResponses i server heard t)
    (hlate : ∀ p ∈ late, CommandOk token p.1 server p.2) :
    Inv token decodeResponses ⟨server, Function.update s.threads i t,
      Function.update s.heard i heard, late⟩ where
  threads := by
    intro j
    by_cases hj : j = i
    · subst hj
      dsimp only
      rw [Function.update_self, Function.update_self]
      exact ht
    · dsimp only
      rw [Function.update_of_ne hj, Function.update_of_ne hj]
      exact (h.threads j).later hlater
  late := hlate

/-- The same for a caller that hears nothing. -/
theorem Inv.step_unheard (h : Inv token decodeResponses s) {server : Server} {t : Thread V}
    (hlater : s.server.Later server) (ht : ThreadOk token decodeResponses i server (s.heard i) t)
    (hlate : ∀ p ∈ s.late, CommandOk token p.1 server p.2) :
    Inv token decodeResponses ⟨server, Function.update s.threads i t, s.heard, s.late⟩ := by
  have hstep := h.step hlater ht hlate
  rw [Function.update_eq_self] at hstep
  exact hstep

theorem Inv.lateOk (h : Inv token decodeResponses s) {server : Server}
    (hlater : s.server.Later server) : ∀ p ∈ s.late, CommandOk token p.1 server p.2 :=
  fun p hp => (h.late p hp).later hlater

/-- A caller that waits for a command. -/
theorem Inv.command (h : Inv token decodeResponses s) {c : LockCommand}
    {next : Except RedisFailure (LockReply c) → Code V V}
    (hi : s.threads i = .running (.redis c next)) : CommandOk token i s.server c := by
  have hthread := h.threads i
  rw [hi] at hthread
  exact hthread.1

theorem Inv.next (h : Inv token decodeResponses s) (hstep : Step decodeResponses s l s') :
    Inv token decodeResponses s' := by
  have hrefl : s.server.Later s.server := .refl _
  cases hstep with
  | expire =>
    exact ⟨fun j => (h.threads j).later Server.expire_later, h.lateOk Server.expire_later⟩
  | @ask i q next a hi =>
    have hthread := h.threads i
    rw [hi] at hthread
    exact h.step_unheard hrefl (hthread a s.server hrefl) h.late
  | @execute i c next hi =>
    have hthread := h.threads i
    rw [hi] at hthread
    have hlater := s.server.execute_later decodeResponses i c
    refine h.step_unheard hlater ⟨(hthread.2 s.server hrefl).1, fun e => ?_⟩ (h.lateOk hlater)
    exact wp_finished_later ((hthread.2 s.server hrefl).2 e) hlater
  | @receive i c reply next hi =>
    have hthread := h.threads i
    rw [hi] at hthread
    exact h.step hrefl hthread.1 h.late
  | @lose i c reply next e hi =>
    have hthread := h.threads i
    rw [hi] at hthread
    exact h.step hrefl (hthread.2 e) h.late
  | @fail i c next e hi =>
    have hthread := h.threads i
    rw [hi] at hthread
    exact h.step hrefl ((hthread.2 s.server hrefl).2 e)
      (List.forall_mem_cons.2 ⟨hthread.1, h.late⟩)
  | @resend i c next hi =>
    exact { h with late := List.forall_mem_cons.2 ⟨h.command hi, h.late⟩ }
  | @late i c before after hlate =>
    have hlater := s.server.execute_later decodeResponses i c
    refine ⟨fun j => (h.threads j).later hlater, fun p hp => h.lateOk hlater p ?_⟩
    rw [hlate]
    rcases List.mem_append.1 hp with hp | hp
    · exact List.mem_append_left _ hp
    · exact List.mem_append_right _ (List.mem_cons_of_mem _ hp)

/-- Only a command, sent or late, or the expiry changes the entry and the grants; the command is one
its caller may send. -/
theorem Inv.step_cases (h : Inv token decodeResponses s) (hstep : Step decodeResponses s l s') :
    (l = .expire ∧ s'.server.granted = s.server.granted ∧ s'.server.entry = none) ∨
    (l = .other ∧ s'.server.granted = s.server.granted ∧ s'.server.entry = s.server.entry) ∨
    ∃ i c, l = .execute i c ∧ CommandOk token i s.server c ∧
      s'.server = (s.server.execute decodeResponses i c).1 := by
  cases hstep with
  | expire => exact .inl ⟨rfl, rfl, rfl⟩
  | ask | receive | lose | fail | resend => exact .inr (.inl ⟨rfl, rfl, rfl⟩)
  | @execute i c next hi => exact .inr (.inr ⟨i, c, rfl, h.command hi, rfl⟩)
  | @late i c before after hlate =>
    refine .inr (.inr ⟨i, c, rfl, h.late (i, c) ?_, rfl⟩)
    rw [hlate]
    exact List.mem_append_right _ List.mem_cons_self

end

/-- What holds in every state of a run. `granted` are the callers that the server has given the lock
to, and `heard` is what each caller has heard of the commands that it has sent. -/
structure SingleFlight (token : Nat → String) (decodeResponses : Bool) (s : Sys V) : Prop where
  /-- A release removes no entry with the token of another. -/
  release_own : ∀ {l s'}, Step decodeResponses s l s' → ∀ i watched t,
    l = .execute i (.exec watched) → s.server.entry = some t → s'.server.entry ≠ some t →
      ∀ j, t = token j → j = i
  /-- The lock is granted when no token is stored. -/
  exclusive : ∀ {l s'}, Step decodeResponses s l s' → s'.server.granted = s.server.granted ∨
    ∃ i, s'.server.granted = i :: s.server.granted ∧ s.server.entry = none ∧
      s'.server.entry = some (token i)
  /-- A token stays until it expires or its caller releases it. -/
  kept : ∀ {l s'}, Step decodeResponses s l s' → ∀ t, s.server.entry = some t →
    s'.server.entry = some t ∨ s'.server.entry = none ∧ (l = .expire ∨
      ∃ i watched, l = .execute i (.exec watched) ∧ t = token i)
  /-- The `EXEC` of a release removes the entry, when the key has not been written since its
  `WATCH`. -/
  removed : ∀ {l s'}, Step decodeResponses s l s' → ∀ i, l = .execute i (.exec s.server.writes) →
    s'.server.entry = none
  /-- `_acquire_lock` returns `True` to a caller that got the lock. -/
  acquired_granted : ∀ i, (s.heard i).any Heard.acquires = true → i ∈ s.server.granted
  /-- A release is attempted at most once, and only after an acquisition. -/
  releases : ∀ i, (s.heard i).countP Heard.releases ≤ (s.heard i).countP Heard.acquires ∧
    (s.heard i).countP Heard.acquires ≤ 1
  /-- A caller that has acquired the lock has attempted its release when it returns or raises: it
  has sent the commands of one release, and no other has sent any. -/
  released : ∀ i result, s.threads i = .running (.done result) → Course (token i) (s.heard i) ∧
    (s.heard i).countP Heard.releases = (s.heard i).countP Heard.acquires

theorem Inv.singleFlight {s : Sys V} (htoken : Function.Injective token)
    (h : Inv token decodeResponses s) : SingleFlight token decodeResponses s where
  release_own := by
    rintro l s' hstep i watched t rfl hentry hgone j rfl
    rcases h.step_cases hstep with ⟨hl, -⟩ | ⟨hl, -⟩ | ⟨i', c, hl, hok, hserver⟩
    · cases hl
    · cases hl
    · cases hl
      rw [hserver] at hgone
      rcases s.server.execute_cases decodeResponses i (.exec watched) with
        heq | ⟨_, hc, -⟩ | ⟨_, hc, -⟩
      · rw [heq] at hgone
        exact absurd hentry hgone
      · cases hc
      · cases hc
        rcases hok.2 rfl with hnone | hown
        · rw [hentry] at hnone
          cases hnone
        · rw [hentry] at hown
          exact htoken (Option.some.inj hown)
  exclusive := by
    intro l s' hstep
    rcases h.step_cases hstep with ⟨-, hsame, -⟩ | ⟨-, hsame, -⟩ | ⟨i, c, -, hok, hserver⟩
    · exact .inl hsame
    · exact .inl hsame
    · rw [hserver]
      rcases s.server.execute_cases decodeResponses i c with
        heq | ⟨t, rfl, hnone, heq⟩ | ⟨t, -, -, heq⟩
      · rw [heq]
        exact .inl rfl
      · rw [heq]
        exact .inr ⟨i, rfl, hnone, congrArg some hok⟩
      · rw [heq]
        exact .inl rfl
  kept := by
    intro l s' hstep t hentry
    rcases h.step_cases hstep with ⟨hl, -, hnone⟩ | ⟨-, -, hsame⟩ | ⟨i, c, hl, hok, hserver⟩
    · exact .inr ⟨hnone, .inl hl⟩
    · exact .inl (hsame.trans hentry)
    · rw [hserver]
      rcases s.server.execute_cases decodeResponses i c with
        heq | ⟨_, -, hnone, -⟩ | ⟨t', rfl, hsome, heq⟩
      · rw [heq]
        exact .inl hentry
      · rw [hentry] at hnone
        cases hnone
      · rw [heq]
        refine .inr ⟨rfl, .inr ⟨i, _, hl, ?_⟩⟩
        rcases hok.2 rfl with hnone | hown
        · rw [hentry] at hnone
          cases hnone
        · exact Option.some.inj (hentry.symm.trans hown)
  removed := by
    rintro l s' hstep i rfl
    rcases h.step_cases hstep with ⟨hl, -⟩ | ⟨hl, -⟩ | ⟨i', c, hl, -, hserver⟩
    · cases hl
    · cases hl
    · cases hl
      rw [hserver]
      cases hentry : s.server.entry with
      | none => simp [Server.execute, hentry]
      | some t => simp [Server.execute, hentry]
  acquired_granted := by
    intro i hany
    obtain ⟨rest, hfinished⟩ := (h.threads i).ends
    refine hfinished.granted ?_
    rw [List.any_append, hany]
    rfl
  releases := by
    intro i
    obtain ⟨rest, hfinished⟩ := (h.threads i).ends
    exact hfinished.course.counts_prefix
  released := by
    intro i result hi
    have hthread : ThreadOk token decodeResponses i s.server (s.heard i) (s.threads i) :=
      h.threads i
    rw [hi] at hthread
    exact ⟨hthread.course, hthread.course.counts.1⟩

/-- In any interleaving of callers with different tokens, with any failures and expiries. -/
theorem run_singleFlight (htoken : Function.Injective token) (args : Nat → Args) {s : Sys V}
    {labels : List Label} (hrun : Run decodeResponses (Sys.start args token) labels s) :
    SingleFlight token decodeResponses s :=
  (Lts.Run.invariant (fun h hstep => h.next hstep) hrun (Inv.start args)).singleFlight htoken

/-- Tokens of different lengths. -/
def tokenOf (i : Nat) : String := String.ofList (List.replicate i 'a')

theorem tokenOf_injective : Function.Injective tokenOf := by
  intro i j h
  have hlist := String.ofList_injective h
  simpa using congrArg List.length hlist

/-- A caller finds no value, is granted the lock, loads and stores a value, and releases the lock. -/
theorem run_singleFlight_granted :
    ∃ (labels : List Label) (s : Sys Nat),
      Run true (Sys.start (fun _ => ⟨true, true, 60, 5000, 2000, 3⟩) tokenOf) labels s ∧
      s.threads 2 = .running (.done (.ok 7)) ∧ s.server.granted = [2] ∧ s.server.entry = none ∧
      SingleFlight tokenOf true s := by
  have hread : Step true (Sys.start (fun _ => ⟨true, true, 60, 5000, 2000, 3⟩) tokenOf) .other _ :=
    .ask (q := .read) (i := 2) (.ok (.missing : Cached Nat)) rfl
  have hset := ((Lts.Run.single hread).snoc (.execute (i := 2) rfl)).snoc (.receive (i := 2) rfl)
  have hload := hset.snoc (.ask (q := .load) (i := 2) (some 7) rfl)
  have hwrite := hload.snoc (.ask (q := .write 7) (i := 2) (some (.ok ())) rfl)
  have hwatch := (hwrite.snoc (.execute (i := 2) rfl)).snoc (.receive (i := 2) rfl)
  have hget := (hwatch.snoc (.execute (i := 2) rfl)).snoc (.receive (i := 2) rfl)
  have hexec := (hget.snoc (.execute (c := .exec 1) (i := 2) rfl)).snoc (.receive (i := 2) rfl)
  exact ⟨_, _, hexec, rfl, rfl, rfl, run_singleFlight tokenOf_injective _ hexec⟩

end Ekumidayomi.Cache
