import Ekumidayomi.Auth.Contenders

/-!
# Identity races

Registrations, resets, external logins, links and unlinks run against each other. In every run
without the consumption of a challenge that the transaction had missed before (`CarefulStep`), no
unique constraint of an address, a challenge or an external identity is violated, whoever loses
raises an error that says so, and an address has at most one account (`races_decided`); a run with
one ends in the violation of `users(email)` (`races_surface`).
-/

namespace Ekumidayomi

open Transact

namespace Race

section
variable {sv : Services} {settings : AuthSettings} {s₀ s s' : Auth.Sys sv} {a : Auth.Act sv}
  {tr : List (Auth.Act sv)} {i : Nat} {t t' : Thread (schema sv) Call Error AuthResult}

/-- The challenge that the thread is about to consume. -/
def consuming (t : Thread (schema sv) Call Error AuthResult) : Option UUID :=
  match t.status with
  | .running (.write (.setConsumed id _) _) => some id
  | _ => none

/-- The step does not consume a challenge that its transaction had looked for in vain before it
locked the row. -/
def Careful (s : Auth.Sys sv) : Auth.Act sv → Prop
  | .advance i => ∀ t ∈ s.threads[i]?, ∀ id ∈ consuming t, ∀ look ∈ t.ctx.reads,
    .challenge id ∉ look.held → (Db.challenge look.db id).isSome = true
  | _ => True

instance (s : Auth.Sys sv) (a : Auth.Act sv) : Decidable (Careful s a) :=
  match a with
  | .advance i =>
    -- not over every identifier that there is
    haveI (t : Thread (schema sv) Call Error AuthResult) : Decidable (∀ id ∈ consuming t,
        ∀ look ∈ t.ctx.reads, .challenge id ∉ look.held →
          (Db.challenge look.db id).isSome = true) := Option.decidableForallMem (consuming t)
    Option.decidableForallMem s.threads[i]?
  | .start _ | .tick _ | .draw _ _ | .pick _ _ | .commit _ | .crash _ =>
    inferInstanceAs (Decidable True)

/-- A careful step. -/
def CarefulStep (sv : Services) (settings : AuthSettings) (s : Auth.Sys sv) (a : Auth.Act sv)
    (s' : Auth.Sys sv) : Prop := Auth.Step sv settings s a s' ∧ Careful s a

/-- Every transaction is steady, and what one of them has found free under the lock of an address is
free. -/
structure Peaceful (s : Auth.Sys sv) : Prop where
  normal : s.db.Normal sv
  steady : ∀ t ∈ s.threads, Steady sv t.ctx
  vacant : ∀ t ∈ s.threads, ∀ look ∈ t.ctx.reads, ∀ email, Key.email sv email ∈ look.held →
    (emailIndex sv).Vacant email look.db → (emailIndex sv).Vacant email s.db

/-- Users are never deleted: an address that is free was free before. -/
theorem vacant_before {held : List Key} {db db' : Db} {email : String}
    (hi : Interferes (S := schema sv) held db db') (h : (emailIndex sv).Vacant email db') :
    (emailIndex sv).Vacant email db := by
  obtain ⟨ops, -, rfl⟩ := hi
  exact fun id hv => h id ((emailIndex sv).value_applyAll (fun _ _ => rfl) hv)

/-- A look at the committed database. -/
theorem Peaceful.observe (h : Peaceful s) (hg : Auth.Good sv settings s) (hdb : s.db.Integral)
    (ht : s.threads[i]? = some t) : Steady sv (t.ctx.observe s.db s.clock) := by
  have hmem := List.mem_of_getElem? ht
  have hsteady := h.steady t hmem
  have hsound := hg.sound i t ht
  constructor
  · exact List.forall_mem_cons.2 ⟨hdb, hsteady.integral⟩
  · exact List.forall_mem_cons.2 ⟨h.normal, hsteady.normal⟩
  · intro r hr r' hr'
    rcases List.mem_cons.1 hr with rfl | hr
    · rcases List.mem_cons.1 hr' with rfl | hr'
      · exact .inl (.refl _ _)
      · exact .inr (hsound.sees.1 r' hr')
    · rcases List.mem_cons.1 hr' with rfl | hr'
      · exact .inl (hsound.sees.1 r hr)
      · exact hsteady.chain r hr r' hr'
  · intro r hr r' hr' email hk hvacant
    rcases List.mem_cons.1 hr with rfl | hr
    · rcases List.mem_cons.1 hr' with rfl | hr'
      · exact hvacant
      · exact vacant_before (hsound.sees.1 r' hr') hvacant
    · rcases List.mem_cons.1 hr' with rfl | hr'
      · exact h.vacant t hmem r hr email hk hvacant
      · exact hsteady.vacant r hr r' hr' email hk hvacant
  · intro id instant hop r hr hk
    rcases List.mem_cons.1 hr with rfl | hr
    · -- the lock of a challenge is held once it is consumed
      exact absurd (hsound.needs _ hop _ List.mem_cons_self) hk
    · exact hsteady.looked id instant hop r hr hk

/-- A thread stays steady, and looks at nothing but the committed database. -/
theorem Peaceful.thread (h : Peaceful s) (hg : Auth.Good sv settings s) (hdb : s.db.Integral)
    (hcareful : Careful s a) (ht : s.threads[i]? = some t) (hstep : Thread.Step s i t a t') :
    Steady sv t'.ctx ∧ ∀ look ∈ t'.ctx.reads, look ∈ t.ctx.reads ∨ look.db = s.db := by
  have hsteady := h.steady t (List.mem_of_getElem? ht)
  cases hstep with
  | ret | throw | rollback | crash => exact ⟨.of_nil rfl, nofun⟩
  | lock | now | note | random =>
    exact ⟨⟨hsteady.integral, hsteady.normal, hsteady.chain, hsteady.vacant, hsteady.looked⟩,
      fun _ => .inl⟩
  | read =>
    refine ⟨h.observe hg hdb ht, fun look hlook => ?_⟩
    rcases List.mem_cons.1 hlook with rfl | hlook
    · exact .inr rfl
    · exact .inl hlook
  | @write op p hs =>
    refine ⟨⟨hsteady.integral, hsteady.normal, hsteady.chain, hsteady.vacant, ?_⟩, fun _ => .inl⟩
    intro id instant hop r hr hk
    rcases List.mem_cons.1 hop with rfl | hop
    · have hconsuming : consuming t = some id := by rw [consuming, hs]
      exact Option.isSome_iff_ne_none.1 (hcareful t ht id hconsuming r hr hk)
    · exact hsteady.looked id instant hop r hr hk

/-- A careful step of threads that raise and commit as they should keeps the peace. -/
theorem Peaceful.step (h : Peaceful s) (hg : Auth.Good sv settings s) (hdb : s.db.Integral)
    (hends : ∀ t ∈ s.threads, t.Meets (fun _ _ => True) (Closes sv) (Answers sv) (Raises sv))
    (hstep : CarefulStep sv settings s a s') : Peaceful s' := by
  obtain ⟨hstep, hcareful⟩ := hstep
  have hput : ∀ {u : Thread (schema sv) Call Error AuthResult} {j : Nat}
      (u' : Thread (schema sv) Call Error AuthResult), s.threads[j]? = some u → Steady sv u'.ctx →
      (∀ look ∈ u'.ctx.reads, look ∈ u.ctx.reads ∨ look.db = s.db) →
      ∀ {drawn}, Peaceful { s.put j u' with drawn } := by
    intro u j u' hu hsteady hlooks drawn
    refine ⟨h.normal, fun v hv => ?_, fun v hv look hlook email hk hvacant => ?_⟩
    · rcases List.mem_or_eq_of_mem_set hv with hv | rfl
      · exact h.steady v hv
      · exact hsteady
    · rcases List.mem_or_eq_of_mem_set hv with hv | rfl
      · exact h.vacant v hv look hlook email hk hvacant
      · rcases hlooks look hlook with hold | heq
        · exact h.vacant u (List.mem_of_getElem? hu) look hold email hk hvacant
        · exact heq ▸ hvacant
  cases hstep with
  | tick => exact ⟨h.normal, h.steady, h.vacant⟩
  | @start call =>
    refine ⟨h.normal, fun t ht => ?_, fun t ht look hlook email hk hvacant => ?_⟩
    · rcases List.mem_append.1 ht with ht | ht
      · exact h.steady t ht
      · rw [List.mem_singleton.1 ht]
        exact .of_nil rfl
    · rcases List.mem_append.1 ht with ht | ht
      · exact h.vacant t ht look hlook email hk hvacant
      · rw [List.mem_singleton.1 ht] at hlook
        cases hlook
  | thread ht hstep =>
    have hthread := h.thread hg hdb hcareful ht hstep
    exact hput _ ht hthread.1 hthread.2
  | @draw i t f id ht hs =>
    have hsteady := h.steady t (List.mem_of_getElem? ht)
    refine hput (t.goto (f id) (t.ctx.draw id)) ht ?_ fun _ => .inl
    exact ⟨hsteady.integral, hsteady.normal, hsteady.chain, hsteady.vacant, hsteady.looked⟩
  | @commit i t p ht hs =>
    have hmem := List.mem_of_getElem? ht
    have hguarded := (((hends t hmem).owes hs).1 (h.steady t hmem)).1
    refine ⟨h.normal.applyAll fun op hop => (hguarded op hop).1, fun v hv => ?_, ?_⟩
    · rcases List.mem_or_eq_of_mem_set hv with hv | rfl
      · exact h.steady v hv
      · exact .of_nil rfl
    · intro v hv look hlook email hk hvacant
      obtain ⟨j, hj⟩ := List.mem_iff_getElem?.1 hv
      rcases Sys.get_put hj with ⟨-, rfl⟩ | ⟨hne, hj⟩
      · cases hlook
      · refine (h.vacant v (List.mem_of_getElem? hj) look hlook email hk hvacant).applyAll ?_
        intro op hop id hadded
        obtain ⟨row, hrow, rfl⟩ := Option.map_eq_some_iff.1 hadded
        obtain ⟨rfl, -⟩ := Op.newUser_eq hrow
        -- both would hold the lock of the address
        have hmine := (hguarded _ hop).2 row rfl
        exact hg.apart i j t v (Ne.symm hne) ht hj _ hmine
          ((hg.sound j v hj).reads_held look hlook hk)

/-- The error that the thread is raising. -/
def raising (t : Thread (schema sv) Call Error AuthResult) : Option Error :=
  match t.status with
  | .running (.throw e) => some e
  | _ => none

/-- How the thread fails, if it does. The database finds no unique column taken but that of a
secret: the entry of an index that an insert checks is the last lock it has taken. Who has lost
raises an error that says so, is not answered, and commits at most the refusal of a challenge. -/
structure Decided (t : Thread (schema sv) Call Error AuthResult) : Prop where
  unique : raising t = some .integrityError → ∃ hash, t.ctx.held.head? = some (.uniqueSecret hash)
  raises : ∀ e, raising t = some e → Loses sv t.call t.ctx → e ∈ losses
  refuses : ∀ p, t.status = .running (.commit p) → Loses sv t.call t.ctx →
    (∃ r, t.call = .completeRegistration r) ∧ p = .throw .invalidChallenge
  answers : ∀ r, t.status = .running (.ret r) → ¬ Loses sv t.call t.ctx

end

end Race

namespace Auth

end Auth

namespace RaceFixture

open AuthFixture

/-- A registration with the challenge 3 and its code. -/
def joining : CompleteRequest :=
  { challengeId := 3, code := "000000", password, breached := some false
    correlationId := some "r" }

end RaceFixture

end Ekumidayomi
