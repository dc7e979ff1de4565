import Ekumidayomi.Auth.Oidc
import Ekumidayomi.Auth.Runs

/-!
# Handshakes are used once

Every attempt in the store belongs to a handshake that was begun and that no callback has answered
yet (`Oidc.Handshakes`): a callback takes its attempt out of the store and starts with it, and
states are drawn once. So the callbacks answer distinct handshakes, each with the provider and the
browser that began it. What a callback commits for a link or a reauthentication concerns the user
and the session of the attempt only (`Op.ActsFor`), which are those of the handshake.
-/

namespace Ekumidayomi

open Transact

/-- The write concerns the user and the session. -/
def Op.ActsFor (userId sessionId : UUID) (db : Db) : Op → Prop
  | .insertIdentity row => row.userId = userId
  | .setLastLogin id _ => ∀ x, db.identity id = some x → x.userId = userId
  | .setAuthenticated id _ => id = sessionId
  | .addEvent _ | .addAudit _ => True
  | _ => False

/-- The handshake is the one that the callback answers. -/
structure Begun.Answers (b : Begun) (attempt : StoredAttempt) (r : CallbackRequest) : Prop where
  binding : b.request.binding = attempt.toAttempt
  stored : b.attempt = attempt
  state : b.request.state = r.state
  provider : b.request.provider = r.provider
  browser : b.request.browser = r.browser

/-- A handshake that is no login was begun by somebody. -/
theorem Begun.Answers.actor {b : Begun} {attempt : StoredAttempt} {r : CallbackRequest}
    (h : b.Answers attempt r) (hintent : attempt.intent ≠ .login) :
    ∃ actor, b.request.actor = some actor ∧ attempt.actorId = some actor.userId ∧
      attempt.sessionId = some actor.sessionId := by
  have hbound := attempt.bound
  rw [Attempt.Bound, if_neg hintent] at hbound
  rw [← h.binding] at hbound ⊢
  cases hactor : b.request.actor with
  | none => simp [BeginRequest.binding, hactor] at hbound
  | some actor => simp [BeginRequest.binding, hactor]

/-! ## The store -/

section
variable {sv : Services} {oidc : OidcSettings} {ns : String} {redis redis' : Redis}
  {attempt : StoredAttempt}

theorem Redis.mem_of_get {key : String} {now : Time} (h : redis.get key now = some attempt) :
    ∃ e ∈ redis, e.key = key ∧ e.value = attempt := by
  obtain ⟨e, he, hvalue⟩ := Option.map_eq_some_iff.1 h
  have hkey : e.key = key ∧ now < e.expiresAt := by simpa using List.find?_some he
  exact ⟨e, List.mem_of_find?_eq_some he, hkey.1, hvalue⟩

theorem AttemptStore.consume_ok {state browser : String} {provider : ProviderName} {now : Time}
    (h : AttemptStore.consume sv ns redis state browser provider now = (.ok attempt, redis')) :
    (∃ e ∈ redis, e.key = AttemptStore.key sv ns state ∧ e.value = attempt) ∧
      attempt.provider = provider ∧ attempt.browserHash = stateHash sv browser ∧
      redis' = redis.filter (·.key ≠ AttemptStore.key sv ns state) := by
  simp only [AttemptStore.consume, Redis.getdel] at h
  split at h
  · cases h
  · split at h
    · cases h
    case h_2 found hfound =>
      split at h
      · cases h
      case isFalse hchecks =>
        cases h
        simp only [ne_eq, decide_not, Bool.or_eq_true, Bool.not_eq_true', decide_eq_false_iff_not,
          not_or, not_not] at hchecks
        exact ⟨Redis.mem_of_get hfound, hchecks.1, hchecks.2, rfl⟩

theorem AttemptStore.consume_subset {state browser : String} {provider : ProviderName}
    {now : Time} : (AttemptStore.consume sv ns redis state browser provider now).2 ⊆ redis := by
  simp only [AttemptStore.consume, Redis.getdel]
  split
  · exact List.Subset.refl _
  · split
    · exact List.filter_subset_self _
    · split <;> exact List.filter_subset_self _

/-- A handshake that has begun is in the store under its state. -/
theorem begin_ok {r : BeginRequest} {now : Time}
    (h : «begin» sv ns oidc redis r now = .ok (attempt, redis')) :
    attempt.toAttempt = r.binding ∧ attempt.browserHash = stateHash sv r.browser ∧
      ∀ e ∈ redis', e ∈ redis ∨ (e.key = AttemptStore.key sv ns r.state ∧ e.value = attempt) := by
  simp only [«begin», bind, Except.bind, pure, Except.pure] at h
  split at h
  · cases h
  · split at h
    · cases h
    case h_2 built hbuilt =>
      split at h
      · cases h
      case h_2 stored hstored =>
        cases h
        rw [AttemptStore.create] at hstored
        split at hstored
        · cases hstored
        case h_2 store hset =>
          cases hstored
          rw [Redis.setNx] at hset
          obtain ⟨-, hstore⟩ := Option.ite_none_left_eq_some.1 hset
          rw [BeginRequest.attempt] at hbuilt
          split at hbuilt
          · cases hbuilt
            refine ⟨rfl, rfl, fun e he => ?_⟩
            rw [← Option.some.inj hstore] at he
            rcases List.mem_cons.1 he with rfl | he
            · exact .inr ⟨rfl, rfl⟩
            · exact .inl (List.mem_of_mem_filter he)
          · cases hbuilt

/-- Texts without a collision have keys of their own. -/
theorem AttemptStore.key_inj {V : Set String} (hinj : Set.InjOn (stateHash sv) V) {s s' : String}
    (hs : s ∈ V) (hs' : s' ∈ V) (h : AttemptStore.key sv ns s = AttemptStore.key sv ns s') :
    s = s' := by
  rw [AttemptStore.key, AttemptStore.key] at h
  exact hinj hs hs' (String.append_right_inj _ |>.1 h)

end

/-! ## What a callback commits -/

/-- The writes of the transaction concern the user and the session of the attempt. -/
def ActsFor {sv : Services} (attempt : Attempt) (c : Ctx (schema sv)) (db : Db) : Prop :=
  ∀ userId sessionId, attempt.actorId = some userId → attempt.sessionId = some sessionId →
    ∀ op : Op, op ∈ c.buf → op.ActsFor userId sessionId db

/-- What a thread commits: a service by one of its exits, a callback for the actor of its
attempt. -/
def routeCommits (sv : Services) (settings : AuthSettings) :
    RouteCall → Ctx (schema sv) → Db → Prop
  | .service call, c, db => Commits sv settings call c db
  | .callback attempt _, c, db => attempt.intent ≠ .login → ActsFor attempt.toAttempt c db

section
variable {sv : Services} {settings : AuthSettings} {oidc : OidcSettings} {c : Ctx (schema sv)}

/-- Evidence concerns nobody's account. -/
theorem actsFor_of_core {userId sessionId : UUID} {db : Db}
    (h : ∀ op ∈ core c.buf, op.ActsFor userId sessionId db) :
    ∀ op : Op, op ∈ c.buf → op.ActsFor userId sessionId db := by
  intro op hop
  cases he : op.isEvidence with
  | false => exact h op ((mem_core he).2 hop)
  | true =>
    cases op with
    | addEvent | addAudit => trivial
    | _ => cases he

/-- A `finish` for somebody concerns the user and the session of the attempt. -/
theorem wp_finish_actsFor {identity : Identity} {attempt : Attempt} {actor : Option Actor}
    {cid : String} (hgo : Goes {} [] c) (hintent : attempt.intent ≠ .login) :
    wp (ActsFor attempt) Notes (fun _ _ => True) Fails
      (finish sv settings identity attempt actor cid) c := by
  -- a commit that writes no user
  have hleave : ∀ ops (actor : Actor) c', core c'.buf = ops → on .users ops = [] →
      some actor.userId = attempt.actorId → some actor.sessionId = attempt.sessionId →
      (∀ db : Db, db.AdminsVerified → c'.Sees db →
        ∀ op ∈ ops, op.ActsFor actor.userId actor.sessionId db) →
      wp (ActsFor attempt) Notes (fun _ _ => True) Fails
        (do commit; return AuthResult.done : Tx sv AuthResult) c' := by
    intro ops actor c' hcore hon huser hsession hacts
    rw [wp_bind, wp_commit]
    refine ⟨fun db hv hs => ⟨fun userId sessionId hu hse => ?_, fun id u hu => ?_⟩, trivial⟩
    · cases huser.trans hu
      cases hsession.trans hse
      exact actsFor_of_core (hcore ▸ hacts db hv hs)
    · exact hv id u (view_user_eq hcore hon id ▸ hu)
  refine wp_finish hgo (fun _ _ _ hlogin => absurd hlogin hintent) ?_ ?_
  · intro external a c' hgo' _ _ huser hsession hexternal
    refine wp_finishReauthenticate (Clean.initial.goes hgo') hgo'.buf hexternal ?_
    intro own t lastLoginAt c'' _ hcore _ howner
    refine hleave _ a c'' hcore rfl huser hsession fun db hv hs op hop => ?_
    simp only [List.mem_cons, List.not_mem_nil, or_false] at hop
    rcases hop with rfl | rfl
    · exact howner db hv hs
    · rfl
  · intro external a c' hgo' _ _ huser hsession hlock
    refine wp_finishLink (Clean.initial.goes hgo') hgo'.buf hlock ?_
    intro row now c'' _ hcore hattached _
    refine hleave _ a c'' hcore rfl huser hsession fun db _ _ op hop => ?_
    rw [List.mem_singleton.1 hop]
    exact hattached.user

/-- The end of `completeHandshake`, with the actor of the session if it is no login. -/
theorem wp_exchanged {attempt : StoredAttempt} {r : CallbackRequest} {actor : Option Actor}
    {c : Ctx (schema sv)} (hgo : Goes {} [] c) :
    wp (routeCommits sv settings (.callback attempt r)) Notes (fun _ _ => True) (fun _ _ => True)
      (match r.exchange with
        | .failed => throw .externalLoginFailed
        | .raised => throw .unexpected
        | .unencodable provider =>
          if provider ≠ attempt.provider then throw .externalLoginFailed else throw .unicodeError
        | .identity identity =>
          finish sv settings identity attempt.toAttempt actor r.correlationId : Tx sv AuthResult)
      c := by
  split
  · trivial
  · trivial
  · split <;> trivial
  case h_4 identity _ =>
    by_cases hintent : attempt.intent = .login
    · have hmeets : Meets sv settings (.finish identity attempt.toAttempt actor r.correlationId)
          (finish sv settings identity attempt.toAttempt actor r.correlationId) c :=
        meets_finish hgo
      refine wp_mono (wp_commit_mono hmeets ?_) (fun _ _ h => h) fun _ _ _ => trivial
      exact fun _ _ _ hne => absurd hintent hne
    · refine wp_mono (wp_commit_mono (wp_finish_actsFor hgo hintent) ?_) (fun _ _ h => h)
        fun _ _ _ => trivial
      exact fun _ _ h _ => h

theorem wp_completeHandshake {attempt : StoredAttempt} {r : CallbackRequest} :
    wp (routeCommits sv settings (.callback attempt r)) Notes (fun _ _ => True) (fun _ _ => True)
      (completeHandshake sv settings oidc attempt r) {} := by
  rw [completeHandshake]
  refine wp_guard (fun _ => trivial) fun _ => ?_
  dsimp only
  by_cases hintent : attempt.intent = .login
  · rw [if_pos hintent, wp_bind, wp_pure]
    exact wp_exchanged (.refl _)
  · rw [if_neg hintent, wp_bind]
    exact wp_resolve (fun _ _ => trivial) fun actor c' hc' => wp_exchanged hc'

/-- The record of a failed handshake is committed alone. -/
theorem wp_recordFailedHandshake {attempt : StoredAttempt} {r : CallbackRequest}
    {E : Error → Ctx (schema sv) → Prop} (hE : ∀ c', E .valueError c') :
    wp (routeCommits sv settings (.callback attempt r)) Notes (fun _ _ => True) E
      (recordFailedHandshake sv attempt r.correlationId) c := by
  rw [recordFailedHandshake, wp_bind]
  show wp _ Notes _ _ (_ >>= fun _ => commit) c.release
  rw [wp_bind]
  refine wp_record (hE _) fun row c' hc' => ?_
  rw [wp_commit]
  refine ⟨fun db hv _ => ⟨fun _ userId sessionId _ _ => actsFor_of_core ?_, fun id u hu => ?_⟩,
    trivial⟩
  · rw [hc'.buf]
    exact List.forall_mem_nil _
  · refine hv id u ?_
    rw [Ctx.view, hc'.buf] at hu
    exact hu

theorem wp_callback {attempt : StoredAttempt} {r : CallbackRequest} :
    wp (routeCommits sv settings (.callback attempt r)) Notes (fun _ _ => True) (fun _ _ => True)
      (callback sv settings oidc attempt r) {} := by
  rw [callback, wp_tryCatch]
  refine wp_mono wp_completeHandshake (fun _ _ h => h) fun e c _ => ?_
  split
  · rw [wp_bind]
    exact wp_mono (wp_recordFailedHandshake fun _ => trivial) (fun _ _ _ => trivial) fun _ _ h => h
  · trivial

end

/-! ## Runs of the routes -/

namespace Oidc

/-- The calls of the threads, in the order in which they were started. -/
def World.calls {sv : Services} (w : World sv) : List RouteCall := w.sys.threads.map (·.call)

/-- The texts of an act that are hashed. -/
def Act.texts {sv : Services} : Act sv → List String
  | .begins r => [r.state, r.browser]
  | .callback r => [r.state, r.browser]
  | _ => []

/-- The routes before their first request. -/
structure Initial {sv : Services} (w : World sv) : Prop where
  redis : w.redis = []
  begun : w.begun = []
  threads : w.sys.threads = []
  admins : w.sys.db.AdminsVerified
  drawn : ∀ id, w.sys.db.Uses id → id ∈ w.sys.drawn

/-- Two callbacks with states of their own. -/
def Distinct (x y : RouteCall) : Prop :=
  ∀ a r a' r', x = .callback a r → y = .callback a' r' → r.state ≠ r'.state

/-- Every attempt in the store belongs to a handshake that no callback has answered, and the
callbacks answer handshakes with states of their own. -/
structure Handshakes {sv : Services} (ns : String) (V : Set String) (w : World sv) : Prop where
  texts : ∀ b ∈ w.begun, b.request.state ∈ V ∧ b.request.browser ∈ V
  made : ∀ b ∈ w.begun, b.attempt.toAttempt = b.request.binding ∧
    b.attempt.browserHash = stateHash sv b.request.browser
  stored : ∀ e ∈ w.redis, ∃ b ∈ w.begun, e.key = AttemptStore.key sv ns b.request.state ∧
    e.value = b.attempt ∧ ∀ a r, .callback a r ∈ w.calls → r.state ≠ b.request.state
  bound : ∀ a r, .callback a r ∈ w.calls → ∃ b ∈ w.begun, b.Answers a r
  once : w.calls.Pairwise Distinct

section
variable {sv : Services} {settings : AuthSettings} {oidc : OidcSettings} {ns : String}
  {V : Set String} {w w' : World sv} {a : Act sv}

/-- The threads take a step of theirs, or none. -/
theorem Step.sys (h : Step sv settings oidc ns w a w') :
    w'.sys = w.sys ∨ ∃ a', Transact.Step (code sv settings oidc) w.sys a' w'.sys := by
  cases h with
  | begins | refused | rejected | lose => exact .inl rfl
  | callback => exact .inr ⟨_, .start⟩
  | serve _ hstep | thread _ hstep => exact .inr ⟨_, hstep⟩

/-- Only a callback that has consumed an attempt starts a callback. -/
theorem Step.calls (h : Step sv settings oidc ns w a w') :
    (∀ x r, .callback x r ∈ w'.calls ↔ .callback x r ∈ w.calls) ∧
      (w.calls.Pairwise Distinct → w'.calls.Pairwise Distinct) ∨
    ∃ x r, a = .callback r ∧ w'.calls = w.calls ++ [.callback x r] := by
  cases h with
  | begins | refused | rejected | lose => exact .inl ⟨fun _ _ => Iff.rfl, fun h => h⟩
  | @callback r x redis _ => exact .inr ⟨x, r, rfl, List.map_append⟩
  | @serve call sys _ hstep =>
    have heq : sys.threads.map (·.call) = w.calls ++ [.service call] := hstep.calls_eq
    refine .inl ⟨fun x r => ?_, fun hold => ?_⟩
    · simp [World.calls, heq]
    · rw [World.calls, heq]
      refine List.pairwise_append.2 ⟨hold, List.pairwise_singleton _ _, ?_⟩
      rintro y _ z hz x r x' r' _ rfl
      cases List.mem_singleton.1 hz
  | @thread a sys hne hstep =>
    have hnone : a.started = [] := by
      cases a with
      | start call => exact absurd rfl (hne call)
      | _ => rfl
    have heq : sys.threads.map (·.call) = w.calls := by
      rw [hstep.calls_eq, hnone, List.append_nil]
      rfl
    refine .inl ⟨fun x r => ?_, fun hold => ?_⟩
    · simp [World.calls, heq]
    · rwa [World.calls, heq]

theorem Handshakes.initial (h0 : Initial w) : Handshakes ns V w where
  texts := by simp [h0.begun]
  made := by simp [h0.begun]
  stored := by simp [h0.redis]
  bound := by simp [World.calls, h0.threads]
  once := by simp [World.calls, h0.threads]

/-- A step that answers no handshake, with what it leaves of the store and of the begun ones. -/
theorem Handshakes.kept (h : Handshakes ns V w) {redis : Redis}
    {sys : Transact.Sys (schema sv) RouteCall Error AuthResult}
    (hredis : redis ⊆ w.redis)
    (hcalls : ∀ x r, .callback x r ∈ sys.threads.map (·.call) ↔ .callback x r ∈ w.calls)
    (honce : (sys.threads.map (·.call)).Pairwise Distinct) :
    Handshakes ns V { w with redis, sys } where
  texts := h.texts
  made := h.made
  stored := by
    intro e he
    obtain ⟨b, hb, hkey, hvalue, hfree⟩ := h.stored e (hredis he)
    exact ⟨b, hb, hkey, hvalue, fun x r hx => hfree x r ((hcalls x r).1 hx)⟩
  bound := fun x r hx => h.bound x r ((hcalls x r).1 hx)
  once := honce

/-- Every step keeps the handshakes. -/
theorem Handshakes.step (hinj : Set.InjOn (stateHash sv) V) (htexts : ∀ x ∈ a.texts, x ∈ V)
    (h : Handshakes ns V w) (hstep : Step sv settings oidc ns w a w') : Handshakes ns V w' := by
  have hcalls := hstep.calls
  cases hstep with
  | @begins r attempt redis hfresh hbegin =>
    obtain ⟨hbinding, hbrowser, hredis⟩ := begin_ok hbegin
    have htext := List.forall_mem_cons.1 htexts
    refine ⟨?_, ?_, ?_, ?_, h.once⟩
    · rw [List.forall_mem_append, List.forall_mem_singleton]
      exact ⟨h.texts, htext.1, htext.2 _ List.mem_cons_self⟩
    · rw [List.forall_mem_append, List.forall_mem_singleton]
      exact ⟨h.made, hbinding, hbrowser⟩
    · intro e he
      rcases hredis e he with hold | ⟨hkey, hvalue⟩
      · obtain ⟨b, hb, hrest⟩ := h.stored e hold
        exact ⟨b, List.mem_append_left _ hb, hrest⟩
      · refine ⟨_, List.mem_append_right _ List.mem_cons_self, hkey, hvalue, fun x r' hx => ?_⟩
        obtain ⟨b, hb, hanswers⟩ := h.bound x r' hx
        exact hanswers.state ▸ hfresh b hb
    · intro x r' hx
      obtain ⟨b, hb, hanswers⟩ := h.bound x r' hx
      exact ⟨b, List.mem_append_left _ hb, hanswers⟩
  | refused => exact h
  | @callback r attempt redis hconsume =>
    obtain ⟨⟨e, he, hkey, hvalue⟩, hprovider, hbrowser, rfl⟩ := AttemptStore.consume_ok hconsume
    obtain ⟨b, hb, hbkey, hbvalue, hfree⟩ := h.stored e he
    obtain ⟨htext, hrest⟩ := List.forall_mem_cons.1 htexts
    obtain ⟨hmade, hhash⟩ := h.made b hb
    have hattempt : b.attempt = attempt := hbvalue.symm.trans hvalue
    have hstate : b.request.state = r.state :=
      AttemptStore.key_inj hinj (h.texts b hb).1 htext (hbkey.symm.trans hkey)
    have hanswers : b.Answers attempt r :=
      { stored := hattempt
        binding := by rw [← hmade, hattempt]
        state := hstate
        provider := by
          rw [← hprovider, ← hattempt, hmade]
          rfl
        browser := by
          refine hinj (h.texts b hb).2 (hrest _ List.mem_cons_self) ?_
          rw [← hhash, hattempt, hbrowser] }
    have heq : (w.enter sv settings oidc (w.redis.filter (·.key ≠ AttemptStore.key sv ns r.state))
        attempt r).calls = w.calls ++ [.callback attempt r] := List.map_append
    refine ⟨h.texts, h.made, ?_, ?_, ?_⟩
    · intro e' he'
      obtain ⟨hold, hne⟩ := List.mem_filter.1 he'
      obtain ⟨b', hb', hkey', hvalue', hfree'⟩ := h.stored e' hold
      refine ⟨b', hb', hkey', hvalue', fun x r' hx hsame => ?_⟩
      rw [heq, List.mem_append, List.mem_singleton] at hx
      rcases hx with hx | hx
      · exact hfree' x r' hx hsame
      · cases hx
        rw [hkey', hsame] at hne
        simp at hne
    · intro x r' hx
      rw [heq, List.mem_append, List.mem_singleton] at hx
      rcases hx with hx | hx
      · exact h.bound x r' hx
      · cases hx
        exact ⟨b, hb, hanswers⟩
    · rw [heq]
      refine List.pairwise_append.2 ⟨h.once, List.pairwise_singleton _ _, ?_⟩
      rintro y hy z hz x r₁ x' r₂ rfl rfl
      cases List.mem_singleton.1 hz
      exact hstate ▸ hfree x r₁ hy
  | @rejected r e redis hconsume =>
    have hsub : (AttemptStore.consume sv ns w.redis r.state r.browser r.provider w.sys.clock).2 ⊆
      w.redis := AttemptStore.consume_subset
    rw [hconsume] at hsub
    exact h.kept hsub (fun _ _ => Iff.rfl) h.once
  | lose => exact h.kept (List.filter_subset_self _) (fun _ _ => Iff.rfl) h.once
  | serve | thread =>
    rcases hcalls with ⟨hsame, honce⟩ | ⟨x, r, ha, -⟩
    · exact h.kept (List.Subset.refl _) hsame (honce h.once)
    · cases ha

/-- Two callbacks with one state are one. -/
theorem Handshakes.once_eq (h : Handshakes ns V w) {i j : Nat} {x x' : StoredAttempt}
    {r r' : CallbackRequest} (hi : w.calls[i]? = some (.callback x r))
    (hj : w.calls[j]? = some (.callback x' r')) (hstate : r.state = r'.state) : i = j := by
  obtain ⟨hilt, hi⟩ := List.getElem?_eq_some_iff.1 hi
  obtain ⟨hjlt, hj⟩ := List.getElem?_eq_some_iff.1 hj
  have hpair := List.pairwise_iff_getElem.1 h.once
  rcases Nat.lt_trichotomy i j with hlt | heq | hlt
  · exact absurd hstate (hpair i j hilt hjlt hlt x r x' r' hi hj)
  · exact heq
  · exact absurd hstate.symm (hpair j i hjlt hilt hlt x' r' x r hj hi)

theorem Handshakes.run {w₀ : World sv} {tr : List (Act sv)} (h0 : Initial w₀)
    (hinj : Set.InjOn (stateHash sv) V) (htexts : ∀ a ∈ tr, ∀ x ∈ a.texts, x ∈ V)
    (hrun : Lts.Run (Step sv settings oidc ns) w₀ tr w) : Handshakes ns V w := by
  induction hrun with
  | nil => exact .initial h0
  | snoc _ hstep ih =>
    rw [List.forall_mem_append, List.forall_mem_singleton] at htexts
    exact (ih htexts.1).step hinj htexts.2 hstep

/-- Every thread meets what is asked of its call. -/
abbrev Good (sv : Services) (settings : AuthSettings)
    (s : Transact.Sys (schema sv) RouteCall Error AuthResult) : Prop :=
  Transact.Good (routeCommits sv settings) Notes (fun _ _ _ => True) (fun _ _ _ => True) s

theorem code_meets (call : RouteCall) : wp (routeCommits sv settings call) Notes
    (fun _ _ => True) (fun _ _ => True) (code sv settings oidc call) {} := by
  cases call with
  | service call =>
    exact wp_mono (Ekumidayomi.code_meets sv settings call) (fun _ _ h => h) fun _ _ _ => trivial
  | callback attempt r => exact wp_callback

theorem good_of_run {w₀ : World sv} {tr : List (Act sv)} (h0 : Initial w₀)
    (hrun : Lts.Run (Step sv settings oidc ns) w₀ tr w) : Good sv settings w.sys := by
  refine hrun.invariant (I := fun w => Good sv settings w.sys) (fun hg hstep => ?_)
    (.initial h0.threads h0.admins h0.drawn)
  rcases hstep.sys with heq | ⟨a', hstep⟩
  · rwa [heq]
  · exact hg.step code_meets hstep

end

/-- **Handshakes are single-use and bound.** In every state of every run of the routes, whatever
texts the callbacks bring, the callbacks that have consumed an attempt and go on to `finish` answer
distinct handshakes begun before, each with the provider, the state and the browser secret of its
own. When such a callback commits for a link or a reauthentication, its writes concern the user and
the session of the actor who began the handshake. Assumed is that no two texts of the run have one
hash. -/
theorem handshakes_single_use (sv : Services) (settings : AuthSettings) (oidc : OidcSettings)
    (ns : String) {V : Set String} (hinj : Set.InjOn (stateHash sv) V) {w₀ w : World sv}
    {tr : List (Act sv)} (h0 : Initial w₀) (htexts : ∀ a ∈ tr, ∀ x ∈ a.texts, x ∈ V)
    (hrun : Lts.Run (Step sv settings oidc ns) w₀ tr w) :
    ∃ origin : Nat → Nat,
      Set.InjOn origin {i | ∃ x r, w.calls[i]? = some (.callback x r)} ∧
      ∀ i x r, w.calls[i]? = some (.callback x r) →
        ∃ b, w.begun[origin i]? = some b ∧ b.Answers x r ∧
          (x.intent ≠ .login → ∃ actor, b.request.actor = some actor ∧
            ∀ w', Step sv settings oidc ns w (.thread (.commit i)) w' →
              ∃ t, w.sys.threads[i]? = some t ∧ w'.sys.db = t.ctx.view w.sys.db ∧
                ∀ op : Op, op ∈ t.ctx.buf →
                  op.ActsFor actor.userId actor.sessionId w.sys.db) := by
  have hand := Handshakes.run h0 hinj htexts hrun
  have hgood := good_of_run h0 hrun
  have hexists : ∀ i : Nat, ∃ k : Nat, ∀ x r, w.calls[i]? = some (.callback x r) →
      ∃ b, w.begun[k]? = some b ∧ b.Answers x r := by
    intro i
    by_cases hcall : ∃ x r, w.calls[i]? = some (.callback x r)
    · obtain ⟨x, r, hcall⟩ := hcall
      obtain ⟨b, hb, hanswers⟩ := hand.bound x r (List.mem_of_getElem? hcall)
      obtain ⟨k, hk⟩ := List.mem_iff_getElem?.1 hb
      refine ⟨k, fun x' r' hcall' => ⟨b, hk, ?_⟩⟩
      cases hcall.symm.trans hcall'
      exact hanswers
    · exact ⟨0, fun x r hx => absurd ⟨x, r, hx⟩ hcall⟩
  choose origin horigin using hexists
  refine ⟨origin, ?_, fun i x r hcall => ?_⟩
  · rintro i ⟨x, r, hi⟩ j ⟨x', r', hj⟩ heq
    obtain ⟨b, hb, hanswers⟩ := horigin i x r hi
    obtain ⟨b', hb', hanswers'⟩ := horigin j x' r' hj
    cases hb.symm.trans (heq ▸ hb')
    exact hand.once_eq hi hj (hanswers.state.symm.trans hanswers'.state)
  · obtain ⟨b, hb, hanswers⟩ := horigin i x r hcall
    refine ⟨b, hb, hanswers, fun hintent => ?_⟩
    obtain ⟨actor, hactor, huser, hsession⟩ := hanswers.actor hintent
    refine ⟨actor, hactor, fun w' hstep => ?_⟩
    cases hstep with
    | thread _ hstep =>
      obtain ⟨t, ht, hcommits, hdb⟩ := Transact.Good.commit hgood hstep
      have htcall : t.call = .callback x r := by simpa [World.calls, ht] using hcall
      rw [htcall] at hcommits
      exact ⟨t, ht, hdb, hcommits hintent _ _ huser hsession⟩

end Oidc

namespace OidcFixture

open AuthFixture

/-- The secret of a browser. -/
def browser : String := String.ofList (List.replicate 43 'y')

/-- The digest of the secret. -/
def browserDigest : Bytes :=
  [221, 1, 204, 180, 226, 208, 89, 137, 119, 73, 4, 49, 73, 134, 164, 61, 240, 21, 75, 29, 193, 228,
    143, 82, 216, 94, 25, 188, 253, 116, 171, 13]

/-- The services as they answer on the secret as well. -/
def services : Services :=
  { AuthFixture.services with
    sha256 := fun data =>
      if data = encode browser then browserDigest else AuthFixture.services.sha256 data }

theorem attemptSeconds_range : 120 ≤ 600 ∧ 600 ≤ 900 := by
  decide

def oidc : OidcSettings :=
  { enabled := fun _ => true, redirectUri := fun _ => "https://api.example.com/callback"
    attemptSeconds_range }

/-- She begins to link her identity at Google. -/
def request : BeginRequest :=
  { provider := .google, intent := .link, actor := some actor, browser, nonce := "n", verifier := "v"
    attemptId := 7, state := token }

/-- The attempt that goes into the store. -/
def attempt : StoredAttempt :=
  { toAttempt := request.binding, attemptId := 7, browserHash := stateHash services browser
    nonce := "n", verifier := "v", redirectUri := "https://api.example.com/callback", startedAt := 0
    bound := by decide }

/-- She comes back with the code. -/
def answer : CallbackRequest :=
  { provider := .google, state := token, browser, secret := some token, code := some "code"
    exchange := .identity
      { provider := .google, subject := "ada", email := none, emailVerified := false }
    correlationId := "c-1" }

/-- The entry of the attempt in the store. -/
def entry : RedisEntry :=
  { key := AttemptStore.key services "test" token, value := attempt, expiresAt := 1 + seconds 600 }

/-- The routes before she begins. -/
def idle : Oidc.World services := { sys := { db, clock := 1, drawn := db.ids } }

theorem idle_initial : Oidc.Initial idle where
  redis := rfl
  begun := rfl
  threads := rfl
  admins := fun _ u hu => by
    obtain rfl := List.mem_singleton.1 (Store.mem_of_get hu)
    exact fun _ => rfl
  drawn := fun _ hid => Db.mem_ids hid

/-- The routes when she has begun. -/
def waiting : Oidc.World services := { idle with redis := [entry], begun := [⟨request, attempt⟩] }

theorem waiting_step : Oidc.Step services {} oidc "test" idle (.begins request) waiting :=
  .begins (List.forall_mem_nil _) rfl

theorem answered_step : Oidc.Step services {} oidc "test" waiting (.callback answer)
    (waiting.enter services {} oidc [] attempt answer) := by
  have hget : Redis.get [entry] (AttemptStore.key services "test" token) 1 = some attempt := by
    rw [Redis.get, List.find?_cons_of_pos]
    · rfl
    · simp [entry, seconds]
  have hlength : boundedLength token = true ∧ boundedLength browser = true := by decide
  refine .callback ?_
  simp only [AttemptStore.consume, Redis.getdel]
  rw [show waiting.redis = [entry] from rfl, show waiting.sys.clock = 1 from rfl,
    show answer.state = token from rfl, show answer.browser = browser from rfl, hget]
  simp [hlength, entry, answer, attempt, request, BeginRequest.binding]

/-- Her secret and her state have hashes of their own. -/
theorem hash_injOn : Set.InjOn (stateHash services) {token, browser} := by
  have hne : stateHash services token ≠ stateHash services browser := by decide
  rintro x (rfl | rfl) y (rfl | rfl) heq
  · rfl
  · exact absurd heq hne
  · exact absurd heq.symm hne
  · rfl

end OidcFixture

/-- Her callback answers the handshake that she began, and acts for her. -/
theorem Oidc.handshakes_single_use_linked : ∃ b,
    (OidcFixture.waiting.enter OidcFixture.services {} OidcFixture.oidc [] OidcFixture.attempt
      OidcFixture.answer).begun[0]? = some b ∧
    b.Answers OidcFixture.attempt OidcFixture.answer ∧
    b.request.actor = some AuthFixture.actor := by
  obtain ⟨origin, -, hall⟩ := Oidc.handshakes_single_use OidcFixture.services {} OidcFixture.oidc
    "test" OidcFixture.hash_injOn OidcFixture.idle_initial
    (by simp [Oidc.Act.texts, OidcFixture.request, OidcFixture.answer])
    ((Lts.Run.single OidcFixture.waiting_step).snoc OidcFixture.answered_step)
  obtain ⟨b, hb, hanswers, hactor⟩ := hall 0 OidcFixture.attempt OidcFixture.answer rfl
  have horigin : origin 0 = 0 := by
    obtain ⟨hlt, -⟩ := List.getElem?_eq_some_iff.1 hb
    exact Nat.lt_one_iff.1 hlt
  rw [horigin] at hb
  exact ⟨b, hb, hanswers, by cases hb; rfl⟩

end Ekumidayomi
