import Ekumidayomi.Lib.Run
import Ekumidayomi.Lib.SortedSet
import Ekumidayomi.Types
import Mathlib.Data.String.Basic

/-!
# Sliding-window rate limits

`core/rate_limits.py` and `auth/rate_limits.py`. A key of Redis holds the admissions of the last
window as a sorted set of their milliseconds. The script drops what has left the window, counts the
rest, and adds the request when there is room (`slidingWindow`); one run of it is one step
(`Serves`). Times are whole milliseconds. Lua computes with doubles, which are exact on them below
2^53 only, and windows beyond that are rounded there and not here.

After any sequence of requests the key holds the admissions that are still in the window
(`Holds`), so that the answers are a function of the admissions alone. A key expires when all it
holds has left the window, and the script would have dropped it anyway (`entries_live`).
-/

namespace Ekumidayomi

/-- The answer of `TIME`. -/
structure RedisTime where
  seconds : Nat
  microseconds : Nat
  deriving DecidableEq, Repr

/-- The script's `now`. -/
def RedisTime.millis (clock : RedisTime) : Int :=
  clock.seconds * 1000 + clock.microseconds / 1000

/-- A key with a sorted set. A key without entries does not exist and has no expiry. -/
structure WindowKey where
  entries : SortedSet Int String := .empty
  expiresAt : Option Int := none

/-- The key as a command sees it: Redis drops it when its expiry has passed. -/
def WindowKey.live (key : WindowKey) (now : Int) : WindowKey :=
  if key.expiresAt.any (· < now) then {} else key

/-- `ZREMRANGEBYSCORE key -inf max`, which removes the key with its last entry. -/
def WindowKey.zremrangebyscore (key : WindowKey) (max : Int) : WindowKey :=
  if (key.entries.removeThrough max).card = 0 then {}
  else { key with entries := key.entries.removeThrough max }

/-- `ZADD key score member`. -/
def WindowKey.zadd (key : WindowKey) (score : Int) (member : String) : WindowKey :=
  { key with entries := key.entries.insert score member }

/-- `PEXPIRE key milliseconds`. -/
def WindowKey.pexpire (key : WindowKey) (now milliseconds : Int) : WindowKey :=
  { key with expiresAt := some (now + milliseconds) }

/-- The script `SLIDING_WINDOW`; `none` when it raises, which it does at a limit that is not
positive. `expiring` is false for the script without its `PEXPIRE`, to compare with. -/
def slidingWindow (expiring : Bool) (key : WindowKey) (clock : RedisTime) (window limit : Int)
    (member : String) : WindowKey × Option Int :=
  let now := clock.millis
  let key := (key.live now).zremrangebyscore (now - window)
  if limit ≤ key.entries.card then
    (key, key.entries.first.map fun first => max 1 ((first.1 + window - now + 999) / 1000))
  else
    let key := key.zadd now member
    (if expiring then key.pexpire now window else key, some 0)

/-- What `sliding_window_retry_after` raises. -/
inductive RateLimitError
  | limit | window | redis | negative
  deriving DecidableEq, Repr

/-- The text of an error that is not Redis' own. -/
def RateLimitError.text : RateLimitError → Option String
  | limit => some "limit must be a positive integer"
  | window => some "window_seconds must be a positive integer"
  | negative => some "rate limiter returned an invalid retry delay"
  | redis => none

/-- A call: the time at which Redis runs its script, and the token that it brings. -/
structure LimitRequest where
  clock : RedisTime
  member : String
  deriving DecidableEq, Repr

def LimitRequest.time (r : LimitRequest) : Int := r.clock.millis

/-- `sliding_window_retry_after`. -/
def slidingWindowRetryAfter (expiring : Bool) (key : WindowKey) (limit windowSeconds : Int)
    (r : LimitRequest) : WindowKey × Except RateLimitError Int :=
  if limit < 1 then (key, .error .limit)
  else if windowSeconds < 1 then (key, .error .window)
  else
    let (key, retry) := slidingWindow expiring key r.clock (windowSeconds * 1000) limit r.member
    match retry with
    | none => (key, .error .redis)
    | some retry => (key, if retry < 0 then .error .negative else .ok retry)

/-- `rate_limit_key`, with `private_identifier` as an argument. -/
def rateLimitKey (privateIdentifier : String → String → String) (ns scope operation identity
    secret : String) (version : String := "v1") : String :=
  "ekumidayomi:" ++ ns ++ ":" ++ scope ++ ":" ++ version ++ ":limit:" ++ operation ++ ":" ++
    privateIdentifier identity secret

/-- What `enforce` raises. -/
inductive EnforceError
  | identityUnavailable
  | identityRateLimitExceeded (retryAfter : Int)
  | invalid (e : RateLimitError)
  deriving DecidableEq, Repr

/-- `enforce`, on the keys of Redis. -/
def enforce (privateIdentifier : String → String → String) (redis : String → WindowKey)
    (ns operation identity secret : String) (limit windowSeconds : Int)
    (r : LimitRequest) : (String → WindowKey) × Except EnforceError Unit :=
  let key := rateLimitKey privateIdentifier ns "auth" operation identity secret
  let (value, retry) := slidingWindowRetryAfter true (redis key) limit windowSeconds r
  (fun name => if name = key then value else redis name,
    match retry with
    | .error .redis => .error .identityUnavailable
    | .error e => .error (.invalid e)
    | .ok retry => if 0 < retry then .error (.identityRateLimitExceeded retry) else .ok ())

/-! ## Sequences of requests -/

/-- A request and its answer. -/
abbrev Served := LimitRequest × Except RateLimitError Int

/-- One call on the key. -/
def Serves (expiring : Bool) (limit windowSeconds : Int) (key : WindowKey) (e : Served)
    (key' : WindowKey) : Prop :=
  slidingWindowRetryAfter expiring key limit windowSeconds e.1 = (key', e.2)

/-- The times of the admitted requests. -/
def admissions (tr : List Served) : List Int :=
  (tr.filter fun e => e.2.toOption = some 0).map (·.1.time)

/-- The requests come at times that do not go back, each with a member of its own. -/
def Ordered (tr : List Served) : Prop :=
  tr.Pairwise fun a b => a.1.time ≤ b.1.time ∧ a.1.member ≠ b.1.member

/-- A request that comes after those of a sequence. -/
def Follows (tr : List Served) (r : LimitRequest) : Prop :=
  ∀ e ∈ tr, e.1.time ≤ r.time ∧ e.1.member ≠ r.member

section
variable {expiring : Bool} {limit windowSeconds window now : Int} {key key' : WindowKey}
  {tr : List Served} {e : Served} {r : LimitRequest}

theorem admissions_append (tr tr' : List Served) :
    admissions (tr ++ tr') = admissions tr ++ admissions tr' := by
  simp [admissions]

theorem mem_admissions {a : Int} (h : a ∈ admissions tr) : ∃ e ∈ tr, e.1.time = a := by
  obtain ⟨e, he, rfl⟩ := List.mem_map.1 h
  exact ⟨e, List.mem_of_mem_filter he, rfl⟩

theorem Ordered.of_append {tr' : List Served} (h : Ordered (tr ++ tr')) : Ordered tr :=
  (List.pairwise_append.1 h).1

theorem Ordered.follows (h : Ordered (tr ++ [e])) : Follows tr e.1 :=
  fun a ha => (List.pairwise_append.1 h).2.2 a ha e List.mem_cons_self

/-! ## What the key holds -/

/-- A key that expires does so when all that it holds has left the window. -/
def WindowKey.Lasts (window : Int) (key : WindowKey) : Prop :=
  ∀ e, key.expiresAt = some e → ∀ x ∈ key.entries.scores, x + window ≤ e

theorem WindowKey.entries_zremrangebyscore (key : WindowKey) (max : Int) :
    (key.zremrangebyscore max).entries = key.entries.removeThrough max := by
  rw [WindowKey.zremrangebyscore]
  split
  case isTrue h => exact (SortedSet.eq_empty_of_card h).symm
  case isFalse => rfl

/-- Whether the key has expired makes no difference to what is left of it in the window. -/
theorem WindowKey.Lasts.entries_live (h : key.Lasts window) (now : Int) :
    ((key.live now).zremrangebyscore (now - window)).entries =
      key.entries.removeThrough (now - window) := by
  rw [entries_zremrangebyscore, WindowKey.live]
  split
  case isTrue hexpired =>
    obtain ⟨e, he, hlt⟩ := Option.any_eq_true .. |>.1 hexpired
    refine (SortedSet.eq_empty_of_card ?_).symm
    rw [← SortedSet.length_scores, SortedSet.scores_removeThrough, List.length_eq_zero_iff,
      List.filter_eq_nil_iff]
    intro x hx
    have := h e he x hx
    have hlt : e < now := by simpa using hlt
    simp only [decide_eq_true_eq, not_lt]
    omega
  case isFalse => rfl

/-- What is left of the key in the window that ends with a request. -/
abbrev WindowKey.kept (key : WindowKey) (windowSeconds : Int) (r : LimitRequest) :
    SortedSet Int String :=
  key.entries.removeThrough (r.time - windowSeconds * 1000)

/-- The seconds until the first entry has left the window. -/
def retrySeconds (windowSeconds : Int) (r : LimitRequest) (first : Int) : Int :=
  max 1 ((first + windowSeconds * 1000 - r.time + 999) / 1000)

theorem retrySeconds_pos (windowSeconds : Int) (r : LimitRequest) (first : Int) :
    1 ≤ retrySeconds windowSeconds r first := le_max_left ..

/-- What one call does: it admits the request when there is room in the window, and else answers
when there will be. -/
theorem retryAfter_cases (expiring : Bool) (hl : 1 ≤ limit) (hw : 1 ≤ windowSeconds)
    (hlast : key.Lasts (windowSeconds * 1000)) (r : LimitRequest) :
    ((key.kept windowSeconds r).card < limit ∧ ∃ expiresAt,
      (expiring = true → expiresAt = some (r.time + windowSeconds * 1000)) ∧
      (expiring = false → expiresAt = none ∨ expiresAt = key.expiresAt) ∧
      slidingWindowRetryAfter expiring key limit windowSeconds r =
        (⟨(key.kept windowSeconds r).insert r.time r.member, expiresAt⟩, .ok 0)) ∨
    (limit ≤ (key.kept windowSeconds r).card ∧ ∃ expiresAt first,
      (expiresAt = none ∨ expiresAt = key.expiresAt) ∧
      (key.kept windowSeconds r).first = some first ∧
      slidingWindowRetryAfter expiring key limit windowSeconds r =
        (⟨key.kept windowSeconds r, expiresAt⟩, .ok (retrySeconds windowSeconds r first.1))) := by
  rw [slidingWindowRetryAfter, if_neg (by omega), if_neg (by omega), slidingWindow]
  dsimp only
  have hkept := hlast.entries_live r.time
  have hexpires : ((key.live r.time).zremrangebyscore (r.time - windowSeconds * 1000)).expiresAt =
      none ∨ ((key.live r.time).zremrangebyscore
        (r.time - windowSeconds * 1000)).expiresAt = key.expiresAt := by
    rw [WindowKey.zremrangebyscore, WindowKey.live]
    split <;> split <;> simp
  rw [show r.clock.millis = r.time from rfl]
  generalize (key.live r.time).zremrangebyscore (r.time - windowSeconds * 1000) = purged at *
  obtain ⟨entries, expiresAt⟩ := purged
  dsimp only at hkept hexpires ⊢
  subst hkept
  by_cases hfull : limit ≤ (key.entries.removeThrough (r.time - windowSeconds * 1000)).card
  · refine .inr ⟨hfull, expiresAt, ?_⟩
    rw [if_pos hfull]
    cases hfirst : (key.entries.removeThrough (r.time - windowSeconds * 1000)).first with
    | none =>
      have := SortedSet.first_eq_none_iff.1 hfirst
      omega
    | some first =>
      have hpos := retrySeconds_pos windowSeconds r first.1
      refine ⟨first, hexpires, rfl, ?_⟩
      rw [retrySeconds] at hpos ⊢
      dsimp only [Option.map_some]
      rw [if_neg (by omega)]
  · rw [if_neg hfull]
    refine .inl ⟨lt_of_not_ge hfull, ?_⟩
    cases expiring with
    | true => exact ⟨_, fun _ => rfl, nofun, rfl⟩
    | false => exact ⟨expiresAt, nofun, fun _ => hexpires, rfl⟩

/-- After the requests `tr` the key holds the admissions that a later window can still see. -/
structure Holds (expiring : Bool) (windowSeconds : Int) (tr : List Served) (key : WindowKey) :
    Prop where
  past : ∀ x ∈ key.entries.scores, ∃ e ∈ tr, e.1.time = x
  members : ∀ m ∈ key.entries.members, ∃ e ∈ tr, e.1.member = m
  lasts : key.Lasts (windowSeconds * 1000)
  forever : expiring = false → key.expiresAt = none
  scores : ∀ now, (∀ e ∈ tr, e.1.time ≤ now) →
    (key.entries.scores.filter fun x => now - windowSeconds * 1000 < x).Perm
      ((admissions tr).filter fun x => now - windowSeconds * 1000 < x)

theorem Holds.initial (expiring : Bool) (windowSeconds : Int) :
    Holds expiring windowSeconds [] {} := by
  constructor <;> simp [WindowKey.Lasts, admissions]

theorem filter_filter_of_le {a b : Int} (h : a ≤ b) (l : List Int) :
    ((l.filter fun x => a < x).filter fun x => b < x) = l.filter fun x => b < x := by
  rw [List.filter_filter]
  refine List.filter_congr fun x _ => ?_
  simp only [Bool.and_eq_left_iff_imp, decide_eq_true_eq]
  omega

/-- What is left in a later window of what is left in this one. -/
theorem Holds.scores_kept (h : Holds expiring windowSeconds tr key)
    (hfollows : ∀ e ∈ tr, e.1.time ≤ r.time) (hle : r.time ≤ now) :
    ((key.kept windowSeconds r).scores.filter fun x => now - windowSeconds * 1000 < x).Perm
      ((admissions tr).filter fun x => now - windowSeconds * 1000 < x) := by
  rw [SortedSet.scores_removeThrough, filter_filter_of_le (by omega)]
  exact h.scores now fun e he => (hfollows e he).trans hle

theorem Holds.past_kept (h : Holds expiring windowSeconds tr key) :
    ∀ x ∈ (key.kept windowSeconds r).scores, ∃ e ∈ tr, e.1.time = x := by
  intro x hx
  rw [SortedSet.scores_removeThrough] at hx
  exact h.past x (List.mem_of_mem_filter hx)

theorem Holds.notMem_kept (h : Holds expiring windowSeconds tr key) (hfollows : Follows tr r) :
    r.member ∉ (key.kept windowSeconds r).members := by
  intro hm
  obtain ⟨e, he, hmember⟩ := h.members _ (SortedSet.members_removeThrough_subset hm)
  exact (hfollows e he).2 hmember

/-- Every call keeps what the key holds. -/
theorem Holds.step (hl : 1 ≤ limit) (hw : 1 ≤ windowSeconds)
    (h : Holds expiring windowSeconds tr key) (hfollows : Follows tr e.1)
    (hstep : Serves expiring limit windowSeconds key e key') :
    Holds expiring windowSeconds (tr ++ [e]) key' := by
  obtain ⟨r, answer⟩ := e
  have htime : ∀ e ∈ tr, e.1.time ≤ r.time := fun e he => (hfollows e he).1
  have hlast : ∀ x ∈ (key.kept windowSeconds r).scores, x ≤ r.time := by
    intro x hx
    obtain ⟨e, he, rfl⟩ := h.past_kept x hx
    exact htime e he
  rcases retryAfter_cases expiring hl hw h.lasts r with
    ⟨-, expiresAt, hexpiring, hforever, heq⟩ | ⟨-, expiresAt, first, hexpires, -, heq⟩
  · -- the request is admitted: its time joins the key and the admissions
    obtain ⟨rfl, rfl⟩ := Prod.mk.inj (heq.symm.trans hstep)
    have hperm := SortedSet.scores_insert (x := r.time) (h.notMem_kept hfollows)
    refine ⟨fun x hx => ?_, fun m hm => ?_, fun t ht x hx => ?_, fun hne => ?_, fun now hnow => ?_⟩
    · rcases List.mem_cons.1 (hperm.mem_iff.1 hx) with rfl | hx
      · exact ⟨_, List.mem_append_right _ List.mem_cons_self, rfl⟩
      · obtain ⟨e, he, ht⟩ := h.past_kept x hx
        exact ⟨e, List.mem_append_left _ he, ht⟩
    · rcases List.mem_cons.1 (SortedSet.members_insert_subset hm) with rfl | hm
      · exact ⟨_, List.mem_append_right _ List.mem_cons_self, rfl⟩
      · obtain ⟨e, he, ht⟩ := h.members m (SortedSet.members_removeThrough_subset hm)
        exact ⟨e, List.mem_append_left _ he, ht⟩
    · have hx : x ≤ r.time := (List.mem_cons.1 (hperm.mem_iff.1 hx)).elim le_of_eq (hlast x)
      cases expiring with
      | true =>
        cases (hexpiring rfl).symm.trans ht
        omega
      | false =>
        have hnone := h.forever rfl
        rcases hforever rfl with he | he <;> simp_all
    · rcases hforever hne with rfl | rfl
      · rfl
      · exact h.forever hne
    · have hle : r.time ≤ now := hnow (r, _) (List.mem_append_right _ List.mem_cons_self)
      rw [admissions_append]
      refine (hperm.filter _).trans ?_
      rw [List.filter_append]
      refine List.Perm.trans ?_ List.perm_append_comm
      rw [show admissions [(r, Except.ok 0)] = [r.time] from rfl, List.filter_cons,
        List.filter_cons, List.filter_nil]
      split
      · exact (h.scores_kept htime hle).cons _
      · exact h.scores_kept htime hle
  · -- the request is refused: the key only loses what has left the window
    obtain ⟨rfl, rfl⟩ := Prod.mk.inj (heq.symm.trans hstep)
    have hnot : admissions [(r, Except.ok (retrySeconds windowSeconds r first.1))] = [] := by
      have hpos := retrySeconds_pos windowSeconds r first.1
      have hne : retrySeconds windowSeconds r first.1 ≠ 0 := by omega
      simp [admissions, Except.toOption, hne]
    refine ⟨fun x hx => ?_, fun m hm => ?_, fun t ht x hx => ?_, fun hne => ?_, fun now hnow => ?_⟩
    · obtain ⟨e, he, ht⟩ := h.past_kept x hx
      exact ⟨e, List.mem_append_left _ he, ht⟩
    · obtain ⟨e, he, ht⟩ := h.members m (SortedSet.members_removeThrough_subset hm)
      exact ⟨e, List.mem_append_left _ he, ht⟩
    · rw [SortedSet.scores_removeThrough] at hx
      rcases hexpires with rfl | rfl
      · cases ht
      · exact h.lasts t ht x (List.mem_of_mem_filter hx)
    · rcases hexpires with rfl | rfl
      · rfl
      · exact h.forever hne
    · have hle : r.time ≤ now := hnow (r, _) (List.mem_append_right _ List.mem_cons_self)
      rw [admissions_append, hnot, List.append_nil]
      exact h.scores_kept htime hle

theorem Holds.run (hl : 1 ≤ limit) (hw : 1 ≤ windowSeconds)
    (hrun : Lts.Run (Serves expiring limit windowSeconds) {} tr key) (hord : Ordered tr) :
    Holds expiring windowSeconds tr key := by
  revert hord
  refine hrun.history (I := fun tr key => Ordered tr → Holds expiring windowSeconds tr key) ?_
    fun _ => .initial expiring windowSeconds
  intro tr key e key' ih hstep hord
  exact (ih hord.of_append).step hl hw hord.follows hstep

/-! ## What the limiter answers -/

/-- The number of admissions in the window that ends at `t`: after `t - window` and not after
`t`. -/
def windowCount (windowSeconds : Int) (tr : List Served) (t : Int) : Nat :=
  (admissions tr).countP fun a => t - windowSeconds * 1000 < a ∧ a ≤ t

/-- Admissions that are not after `t` are in its window when they are after its beginning. -/
theorem windowCount_eq {t : Int} (windowSeconds : Int) (htime : ∀ e ∈ tr, e.1.time ≤ t) :
    windowCount windowSeconds tr t =
      ((admissions tr).filter fun a => t - windowSeconds * 1000 < a).length := by
  rw [windowCount, List.countP_eq_length_filter]
  congr 1
  refine List.filter_congr fun a ha => ?_
  obtain ⟨e, he, rfl⟩ := mem_admissions ha
  simp [htime e he]

theorem Holds.card_kept (h : Holds expiring windowSeconds tr key) (hfollows : Follows tr r) :
    (key.kept windowSeconds r).card = windowCount windowSeconds tr r.time := by
  have htime : ∀ e ∈ tr, e.1.time ≤ r.time := fun e he => (hfollows e he).1
  rw [windowCount_eq _ htime, ← (h.scores r.time htime).length_eq, ← SortedSet.scores_removeThrough,
    SortedSet.length_scores]

/-- A request is admitted exactly when there is room in its window. -/
theorem Holds.admits_iff (hl : 1 ≤ limit) (hw : 1 ≤ windowSeconds)
    (h : Holds expiring windowSeconds tr key) (hfollows : Follows tr r) :
    (slidingWindowRetryAfter expiring key limit windowSeconds r).2 = .ok 0 ↔
      windowCount windowSeconds tr r.time < limit := by
  rw [← h.card_kept hfollows]
  rcases retryAfter_cases expiring hl hw h.lasts r with
    ⟨hroom, expiresAt, -, -, heq⟩ | ⟨hfull, expiresAt, first, -, -, heq⟩
  · rw [heq]
    exact ⟨fun _ => hroom, fun _ => rfl⟩
  · have hpos := retrySeconds_pos windowSeconds r first.1
    rw [heq]
    constructor
    · intro h0
      have h0 := Except.ok.inj h0
      omega
    · intro hlt
      omega

/-- No window is ever over the limit. -/
theorem bounded_of_run (hl : 1 ≤ limit) (hw : 1 ≤ windowSeconds)
    (hrun : Lts.Run (Serves expiring limit windowSeconds) {} tr key) (hord : Ordered tr) (x : Int) :
    (admissions tr).countP (fun a => x ≤ a ∧ a < x + windowSeconds * 1000) ≤ limit := by
  induction hrun with
  | nil => simp [admissions]; omega
  | @snoc key key' tr e hrun hstep ih =>
    have ih := ih hord.of_append
    have hholds := Holds.run hl hw hrun hord.of_append
    have hfollows := hord.follows
    rw [admissions_append, List.countP_append]
    by_cases hadmitted : e.2 = .ok 0
    · -- what is in the interval beside the new admission was in its window
      have hroom := (hholds.admits_iff hl hw hfollows).1 ((congrArg Prod.snd hstep).trans hadmitted)
      rw [show admissions [e] = [e.1.time] by simp [admissions, hadmitted, Except.toOption],
        List.countP_singleton]
      split
      case isTrue hin =>
        have hle : (admissions tr).countP (fun a => x ≤ a ∧ a < x + windowSeconds * 1000) ≤
            windowCount windowSeconds tr e.1.time := by
          refine List.countP_mono_left fun a ha hx => ?_
          obtain ⟨e', he', rfl⟩ := mem_admissions ha
          have := (hfollows e' he').1
          simp only [decide_eq_true_eq] at hx hin ⊢
          omega
        omega
      case isFalse => omega
    · have hnone : admissions [e] = [] := by
        obtain ⟨r, answer⟩ := e
        cases answer with
        | error => rfl
        | ok n =>
          have hn : n ≠ 0 := fun h => hadmitted (h ▸ rfl)
          simp [admissions, Except.toOption, hn]
      rw [hnone]
      simpa using ih

/-- A refusal: the window is full, and the answer is the time until its first admission has left
it. -/
structure Refused (limit windowSeconds : Int) (tr : List Served) (key : WindowKey)
    (r : LimitRequest) (key' : WindowKey) (first : Int) : Prop where
  full : limit ≤ windowCount windowSeconds tr r.time
  first_mem : first ∈ (admissions tr).filter fun a => r.time - windowSeconds * 1000 < a
  first_le : ∀ a ∈ (admissions tr).filter fun a => r.time - windowSeconds * 1000 < a, first ≤ a
  members : key'.entries.members ⊆ key.entries.members

theorem Holds.refused (hl : 1 ≤ limit) (hw : 1 ≤ windowSeconds)
    (h : Holds expiring windowSeconds tr key) (hfollows : Follows tr r)
    {answer : Except RateLimitError Int}
    (hstep : slidingWindowRetryAfter expiring key limit windowSeconds r = (key', answer))
    (hne : answer ≠ .ok 0) : ∃ first, answer = .ok (retrySeconds windowSeconds r first) ∧
      Refused limit windowSeconds tr key r key' first := by
  have htime : ∀ e ∈ tr, e.1.time ≤ r.time := fun e he => (hfollows e he).1
  rcases retryAfter_cases expiring hl hw h.lasts r with
    ⟨-, expiresAt, -, -, heq⟩ | ⟨hfull, expiresAt, first, -, hfirst, heq⟩
  · exact absurd (congrArg Prod.snd (hstep.symm.trans heq)) hne
  · obtain ⟨rfl, rfl⟩ := Prod.mk.inj (heq.symm.trans hstep)
    have hperm := h.scores r.time htime
    have hle := SortedSet.first_le hfirst
    rw [SortedSet.scores_removeThrough] at hle
    refine ⟨first.1, rfl, h.card_kept hfollows ▸ hfull, hperm.mem_iff.1 hle.1, fun a ha => ?_,
      SortedSet.members_removeThrough_subset⟩
    exact hle.2 a (hperm.mem_iff.2 ha)

/-- Once the first admission has left the window there is room, and not before. -/
theorem Refused.windowCount_lt_iff {first t : Int}
    (h : Refused limit windowSeconds tr key r key' first)
    (hbound : windowCount windowSeconds tr r.time ≤ limit) (htime : ∀ e ∈ tr, e.1.time ≤ r.time)
    (hle : r.time ≤ t) :
    windowCount windowSeconds tr t < limit ↔ first + windowSeconds * 1000 ≤ t := by
  have hfull := h.full
  have hwider := windowCount_eq windowSeconds fun e he => (htime e he).trans hle
  rw [← filter_filter_of_le (by omega : r.time - windowSeconds * 1000 ≤ t - windowSeconds * 1000)]
    at hwider
  rw [windowCount_eq _ htime] at hfull hbound
  rw [hwider]
  constructor
  · intro hlt
    by_contra hearly
    have hall : ∀ a ∈ (admissions tr).filter fun a => r.time - windowSeconds * 1000 < a,
        decide (t - windowSeconds * 1000 < a) = true := by
      intro a ha
      have := h.first_le a ha
      simp only [decide_eq_true_eq]
      omega
    rw [List.filter_eq_self.2 hall] at hlt
    omega
  · intro hlate
    have hgone : ¬ (fun a => decide (t - windowSeconds * 1000 < a)) first = true := by
      simp only [decide_eq_true_eq]
      omega
    have hlt := (List.length_filter_lt_length_iff_exists
      (p := fun a => decide (t - windowSeconds * 1000 < a))).2 ⟨first, h.first_mem, hgone⟩
    omega

/-- The expiry of the key changes no answer: the script without its `PEXPIRE` gives the same
ones. -/
theorem forever_of_run (hl : 1 ≤ limit) (hw : 1 ≤ windowSeconds)
    (hrun : Lts.Run (Serves true limit windowSeconds) {} tr key) (hord : Ordered tr) :
    ∃ key₀ : WindowKey, Lts.Run (Serves false limit windowSeconds) {} tr key₀ ∧
      key₀.entries = key.entries := by
  induction hrun with
  | nil => exact ⟨{}, .nil, rfl⟩
  | @snoc key key' tr e hrun hstep ih =>
    obtain ⟨r, answer⟩ := e
    obtain ⟨key₀, hrun₀, hsame⟩ := ih hord.of_append
    have hlasts := (Holds.run hl hw hrun hord.of_append).lasts
    have hlasts₀ := (Holds.run hl hw hrun₀ hord.of_append).lasts
    have hkept : key₀.kept windowSeconds r = key.kept windowSeconds r := by
      rw [WindowKey.kept, hsame]
    rcases retryAfter_cases true hl hw hlasts r with
      ⟨hroom, _, -, -, heq⟩ | ⟨hfull, _, first, -, hfirst, heq⟩ <;>
    rcases retryAfter_cases false hl hw hlasts₀ r with
      ⟨hroom₀, _, -, -, heq₀⟩ | ⟨hfull₀, _, first₀, -, hfirst₀, heq₀⟩
    · obtain ⟨rfl, rfl⟩ := Prod.mk.inj (heq.symm.trans hstep)
      exact ⟨_, hrun₀.snoc heq₀, by rw [hkept]⟩
    · rw [hkept] at hfull₀
      omega
    · rw [hkept] at hroom₀
      omega
    · obtain ⟨rfl, rfl⟩ := Prod.mk.inj (heq.symm.trans hstep)
      obtain rfl : first = first₀ := Option.some.inj (hfirst.symm.trans (hkept ▸ hfirst₀))
      exact ⟨_, hrun₀.snoc heq₀, hkept⟩

/-- **Sliding-window limits.** After any sequence of requests on one key, at times that do not go
back: a request at `t` is admitted exactly when fewer than `limit` admissions lie in
`(t - window, t]`; no half-open interval as long as the window holds more than `limit` admissions; a
refused request adds no member and answers a positive number of seconds after which, when nothing is
admitted meanwhile, a request is admitted and a second before which it is not; and the same answers
come from keys that never expire. -/
theorem sliding_window (hl : 1 ≤ limit) (hw : 1 ≤ windowSeconds)
    (hrun : Lts.Run (Serves true limit windowSeconds) {} tr key) (hord : Ordered tr) :
    (∀ r, Follows tr r →
      ((slidingWindowRetryAfter true key limit windowSeconds r).2 = .ok 0 ↔
        windowCount windowSeconds tr r.time < limit)) ∧
    (∀ x : Int,
      (admissions tr).countP (fun a => x ≤ a ∧ a < x + windowSeconds * 1000) ≤ limit) ∧
    (∀ r key' answer, Follows tr r →
      slidingWindowRetryAfter true key limit windowSeconds r = (key', answer) → answer ≠ .ok 0 →
      ∃ n, answer = .ok n ∧ 1 ≤ n ∧ key'.entries.members ⊆ key.entries.members ∧
        ∀ others key'' r', Lts.Run (Serves true limit windowSeconds) key' others key'' →
          Ordered (tr ++ [(r, answer)] ++ others) → admissions others = [] →
          Follows (tr ++ [(r, answer)] ++ others) r' →
          (r'.time = r.time + 1000 * n →
            (slidingWindowRetryAfter true key'' limit windowSeconds r').2 = .ok 0) ∧
          (1 < n → r'.time = r.time + 1000 * (n - 1) →
            (slidingWindowRetryAfter true key'' limit windowSeconds r').2 ≠ .ok 0)) ∧
    ∃ key₀, Lts.Run (Serves false limit windowSeconds) {} tr key₀ := by
  have hholds := Holds.run hl hw hrun hord
  refine ⟨fun r hfollows => hholds.admits_iff hl hw hfollows, bounded_of_run hl hw hrun hord, ?_, ?_⟩
  · intro r key' answer hfollows hstep hne
    obtain ⟨first, rfl, hrefused⟩ := hholds.refused hl hw hfollows hstep hne
    have hpos := retrySeconds_pos windowSeconds r first
    refine ⟨_, rfl, hpos, hrefused.members, fun others key'' r' hothers hall hnone hlater => ?_⟩
    have hserves : Serves true limit windowSeconds key
        (r, .ok (retrySeconds windowSeconds r first)) key' := hstep
    have hall' := (hrun.snoc hserves).append hothers
    have hsame : admissions (tr ++ [(r, .ok (retrySeconds windowSeconds r first))] ++ others) =
        admissions tr := by
      have hne : retrySeconds windowSeconds r first ≠ 0 := by omega
      have hlast : admissions [(r, .ok (retrySeconds windowSeconds r first))] = [] := by
        simp [admissions, Except.toOption, hne]
      rw [admissions_append, admissions_append, hnone, hlast, List.append_nil, List.append_nil]
    have htime : ∀ e ∈ tr, e.1.time ≤ r.time := fun e he => (hfollows e he).1
    obtain ⟨hle, -⟩ := hlater (r, .ok (retrySeconds windowSeconds r first))
      (List.mem_append_left _ (List.mem_append_right _ List.mem_cons_self))
    have hbound : windowCount windowSeconds tr r.time ≤ limit := by
      have hx := bounded_of_run hl hw hrun hord (r.time - windowSeconds * 1000 + 1)
      rw [windowCount]
      refine le_trans (Int.ofNat_le.2 (List.countP_mono_left fun a _ ha => ?_)) hx
      simp only [decide_eq_true_eq] at ha ⊢
      omega
    have hadmits := (Holds.run hl hw hall' hall).admits_iff hl hw hlater
    rw [windowCount, hsame, ← windowCount,
      hrefused.windowCount_lt_iff hbound htime hle] at hadmits
    have hin := (List.mem_filter.1 hrefused.first_mem).2
    simp only [decide_eq_true_eq] at hin
    rw [retrySeconds] at hpos ⊢
    refine ⟨fun ht => hadmits.2 ?_, fun hn ht h0 => ?_⟩
    · omega
    · have := hadmits.1 h0
      omega
  · obtain ⟨key₀, hrun₀, -⟩ := forever_of_run hl hw hrun hord
    exact ⟨key₀, hrun₀⟩

end

/-- One request a second: the second one within it is refused. -/
theorem sliding_window_second : ∃ key,
    Lts.Run (Serves true 1 1) {} [(⟨⟨0, 0⟩, "a"⟩, .ok 0)] key ∧
      (slidingWindowRetryAfter true key 1 1 ⟨⟨0, 500000⟩, "b"⟩).2 ≠ .ok 0 := by
  have hrun : Lts.Run (Serves true 1 1) {} [(⟨⟨0, 0⟩, "a"⟩, .ok 0)] _ := .single rfl
  have hfollows : Follows [(⟨⟨0, 0⟩, "a"⟩, .ok 0)] ⟨⟨0, 500000⟩, "b"⟩ := by
    simp [Follows, LimitRequest.time, RedisTime.millis]
  refine ⟨_, hrun, fun h => ?_⟩
  have hroom := ((sliding_window (by decide) (by decide) hrun (List.pairwise_singleton _ _)).1 _
    hfollows).1 h
  exact absurd hroom (by decide)

end Ekumidayomi
