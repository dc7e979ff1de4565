import Ekumidayomi.Jobs.System

/-!
# Fencing of job leases

Workers hand a lease token back with every report. Here the system of `Jobs.System` runs under a
clock that does not go back in the order the transactions take effect, and `uuid4()` draws tokens
that were not handed out before. A token is held by at most one job; once no job holds it, or its
lease is over, no report with it is accepted again (`JobSystem.Dead`).
-/

namespace Ekumidayomi

/-- The table, the time of the last transaction and the tokens handed out so far. -/
structure JobSystem (J : Type) where
  db : Jobs J
  clock : Time
  tokens : List UUID := []

variable {J : Type}

namespace JobTxn

/-- The time a call was given, if it takes one. -/
def now : JobTxn J → Option Time
  | .enqueue .. => none
  | .claim _ _ _ now _ _ _ | .heartbeat _ _ _ now _ | .complete _ _ _ now _
  | .retry _ _ _ _ now _ | .cancel _ now _ | .recoverExpired now _ _ _ => some now

/-- The jobs a claim returned, each with its new token. -/
def handed : JobTxn J → List (Job J)
  | .claim _ _ _ _ _ _ jobs => jobs
  | _ => []

/-- The call ended the lease of the token `t`. -/
def closes (t : UUID) : JobTxn J → Bool
  | .complete _ token _ _ changed | .retry _ token _ _ _ changed => changed && token = t
  | .recoverExpired _ _ _ jobs => jobs.any (·.leaseToken = some t)
  | _ => false

/-- The call completed the job `id`. -/
def completes (id : UUID) : JobTxn J → Bool
  | .complete mid _ _ _ changed => changed && mid = id
  | _ => false

/-- The call claimed the job `id`. -/
def claims (id : UUID) : JobTxn J → Bool
  | .claim _ _ _ _ _ _ jobs => jobs.any (·.id = id)
  | _ => false

end JobTxn

section
variable {db db' : Jobs J} {mid t : UUID} {p : Job J → Bool} {f : Job J → Job J}
  {hf : ∀ job, (f job).id = job.id} {l : JobTxn J}

/-- A guarded update that reports a change found the job and changed it. -/
theorem Jobs.update_true (h : db.update mid p f hf = (db', true)) :
    ∃ job, db.get mid = some job ∧ p job = true ∧ db'.get mid = some (f job) := by
  unfold Jobs.update at h
  split at h
  case isTrue hp =>
    cases h
    obtain ⟨job, hjob, hp⟩ := (Option.any_eq_true _ _).1 hp
    exact ⟨job, hjob, hp, by simp [hjob]⟩
  case isFalse => cases h

/-- A guarded update of a job that fails the guard changes nothing. -/
theorem Jobs.update_false (h : ∀ job, db.get mid = some job → p job = false) :
    db.update mid p f hf = (db, false) := by
  unfold Jobs.update
  rw [if_neg]
  intro hany
  obtain ⟨job, hjob, hp⟩ := (Option.any_eq_true _ _).1 hany
  rw [h job hjob] at hp
  cases hp

theorem Job.retry_leaseToken {job : Job J} {errorCode : String} {jitter : Int} {now : Time} :
    (job.retry errorCode jitter now).leaseToken = none := by
  unfold Job.retry Job.clearLease
  split <;> rfl

/-- A call that closes a token finds a job that holds it, and takes it from the job. -/
theorem JobTxn.Step.closes_inv (h : JobTxn.Step db l db') (hc : l.closes t = true) :
    ∃ id job job', db.get id = some job ∧ job.leaseToken = some t ∧
      db'.get id = some job' ∧ job'.leaseToken = none := by
  cases h with
  | @complete _ id token _ _ completed h =>
    obtain ⟨rfl, rfl⟩ : completed = true ∧ token = t := by simpa [closes] using hc
    obtain ⟨job, hjob, hheld, hjob'⟩ := Jobs.update_true h
    exact ⟨id, job, _, hjob, (Job.heldBy_iff.1 hheld).2.1, hjob', rfl⟩
  | @retry _ id token _ _ _ released h =>
    obtain ⟨rfl, rfl⟩ : released = true ∧ token = t := by simpa [closes] using hc
    unfold JobService.retry at h
    split at h
    · cases h
    split at h
    · cases h
    obtain ⟨job, hjob, hheld, hjob'⟩ := Jobs.update_true (Except.ok.inj h)
    exact ⟨id, job, _, hjob, (Job.heldBy_iff.1 hheld).2.1, hjob', Job.retry_leaseToken⟩
  | @recoverExpired _ now _ _ _ h =>
    obtain rfl := recoverExpired_eq_ok h
    obtain ⟨job, hmem, ht⟩ := List.any_eq_true.1 hc
    have hjob := Store.mem_rows.1 (Store.mem_select hmem).1
    obtain ⟨job', hjob', ⟨hnot, -⟩ | ⟨-, rfl⟩⟩ := Store.get_modifyAll (f := (·.recover now))
      (fun _ => rfl) (fun a ha => (Store.mem_select ha).1) hjob
    · exact absurd hmem hnot
    · exact ⟨job.id, job, _, hjob, of_decide_eq_true ht, hjob', rfl⟩
  | _ => cases hc

/-- No operation moves a job that has ended. -/
theorem JobMove.not_ended {job job' : Job J} (h : JobMove l job job') : ¬ job.Ended := by
  have hne : job.status = .running ∨ job.Queued := by
    cases h with
    | claimed hcl => exact .inr (Job.claimable_iff.1 hcl).1
    | extended hheld | completed hheld | retried hheld => exact .inl (Job.heldBy_iff.1 hheld).1
    | cancelled hcan => exact .inr (by simpa [Job.cancellable, Job.Queued] using hcan)
    | recovered hexp => exact .inl (Job.expired_iff.1 hexp).1
  intro hend
  rcases hne with hst | hst | hst <;> simp [Job.Ended, hst] at hend

/-- The attempts of a job grow by one with each claim of it, and only then. -/
theorem JobTxn.Step.attempts_eq {id : UUID} {job job' : Job J} (h : JobTxn.Step db l db')
    (hjob : db.get id = some job) (hjob' : db'.get id = some job') :
    job'.attempts = job.attempts + (if l.claims id then 1 else 0) ∧
      job'.maxAttempts = job.maxAttempts := by
  obtain ⟨r, hr, ⟨hm, rfl⟩ | ⟨hmoves, hm⟩⟩ := h.get hjob
  · obtain rfl : r = job' := Option.some.inj (hr.symm.trans hjob')
    have hclaims : l.claims id = false := by
      cases l with
      | claim => exact hm
      | _ => rfl
    simp [hclaims]
  · obtain rfl : r = job' := Option.some.inj (hr.symm.trans hjob')
    cases hm with
    | claimed =>
      rw [moves] at hmoves
      simp only [claims, hmoves]
      exact ⟨rfl, rfl⟩
    | retried =>
      unfold Job.retry Job.clearLease
      split <;> simp [claims]
    | _ => simp [claims, Job.complete, Job.recover, Job.clearLease]

end

namespace JobSystem

/-- One transaction, no earlier than the last one, whose tokens are new and distinct. -/
structure Step (s : JobSystem J) (l : JobTxn J) (s' : JobSystem J) : Prop where
  step : JobTxn.Step s.db l s'.db
  clock_le : ∀ now, l.now = some now → s.clock ≤ now
  clock_eq : s'.clock = l.now.getD s.clock
  unused : ∀ job ∈ l.handed, ∀ t, job.leaseToken = some t → t ∉ s.tokens
  distinct : ∀ a ∈ l.handed, ∀ b ∈ l.handed, a.leaseToken = b.leaseToken → a.id = b.id
  tokens_eq : s'.tokens = l.handed.filterMap (·.leaseToken) ++ s.tokens

/-- The token `t` is no longer good at the clock of the system: whatever job still holds it, its
lease is over. -/
def Dead (s : JobSystem J) (t : UUID) : Prop :=
  t ∈ s.tokens ∧ ∀ id job, s.db.get id = some job → job.leaseToken = some t →
    atMost job.leaseExpiresAt s.clock = true

/-- What is known of the tokens in the table after the calls `tr`. -/
structure Fenced (tr : List (JobTxn J)) (s : JobSystem J) : Prop where
  coherent : ∀ id job, s.db.get id = some job → job.Coherent
  issued : ∀ id job t, s.db.get id = some job → job.leaseToken = some t → t ∈ s.tokens
  unique : ∀ id id' job job' t, s.db.get id = some job → s.db.get id' = some job' →
    job.leaseToken = some t → job'.leaseToken = some t → id = id'
  closed : ∀ t, (∃ l ∈ tr, l.closes t = true) →
    t ∈ s.tokens ∧ ∀ id job, s.db.get id = some job → job.leaseToken ≠ some t
  once : ∀ t, tr.countP (·.closes t) ≤ 1

variable {s s' : JobSystem J} {l : JobTxn J} {id t : UUID} {job job' : Job J}
  {tr : List (JobTxn J)}

theorem Step.clock_mono (h : s.Step l s') : s.clock ≤ s'.clock := by
  rw [h.clock_eq]
  cases hn : l.now with
  | none => exact le_refl _
  | some now => exact h.clock_le now hn

theorem Step.mem_tokens (h : s.Step l s') (ht : t ∈ s.tokens) : t ∈ s'.tokens := by
  rw [h.tokens_eq]
  exact List.mem_append_right _ ht

theorem Step.mem_tokens_of_handed (h : s.Step l s') (hmem : job ∈ l.handed)
    (ht : job.leaseToken = some t) : t ∈ s'.tokens := by
  rw [h.tokens_eq]
  exact List.mem_append_left _ (List.mem_filterMap.2 ⟨job, hmem, ht⟩)

/-- Where the token of a job comes from: the job held it before, or this claim handed it out. -/
theorem Step.token_inv (h : s.Step l s') (hjob' : s'.db.get id = some job')
    (ht : job'.leaseToken = some t) :
    (∃ job, s.db.get id = some job ∧ job.leaseToken = some t ∧
      (job'.leaseExpiresAt = job.leaseExpiresAt ∨
        ∃ now, l.now = some now ∧ after job.leaseExpiresAt now = true)) ∨
      job' ∈ l.handed := by
  cases hjob : s.db.get id with
  | none =>
    obtain ⟨_, _, _, _, _, _, -, rfl⟩ := (h.step.get_none hjob).2 job' hjob'
    cases ht
  | some job =>
    obtain ⟨r, hr, ⟨-, rfl⟩ | ⟨-, hm⟩⟩ := h.step.get hjob
    · obtain rfl : r = job' := Option.some.inj (hr.symm.trans hjob')
      exact .inl ⟨r, rfl, ht, .inl rfl⟩
    · obtain rfl : r = job' := Option.some.inj (hr.symm.trans hjob')
      cases hm with
      | claimed _ hmem => exact .inr hmem
      | extended hheld =>
        exact .inl ⟨job, rfl, ht, .inr ⟨_, rfl, (Job.heldBy_iff.1 hheld).2.2⟩⟩
      | cancelled => exact .inl ⟨job, rfl, ht, .inl rfl⟩
      | completed | recovered => cases ht
      | retried =>
        rw [Job.retry_leaseToken] at ht
        cases ht

/-- A token that no job of the table holds, and that was handed out, stays away. -/
theorem Step.not_held (h : s.Step l s') (ht : t ∈ s.tokens)
    (hnot : ∀ id job, s.db.get id = some job → job.leaseToken ≠ some t)
    (hjob' : s'.db.get id = some job') : job'.leaseToken ≠ some t := by
  intro htok
  rcases h.token_inv hjob' htok with ⟨job, hjob, hold, -⟩ | hmem
  · exact hnot id job hjob hold
  · exact h.unused job' hmem t htok ht

/-- A call that closes a token leaves no job with it. -/
theorem Fenced.closes (hf : Fenced tr s) (h : s.Step l s') (hc : l.closes t = true) :
    t ∈ s.tokens ∧ (¬ ∃ l ∈ tr, l.closes t = true) ∧
      ∀ id job', s'.db.get id = some job' → job'.leaseToken ≠ some t := by
  obtain ⟨id₀, job₀, job₁, hjob₀, htok₀, hjob₁, htok₁⟩ := h.step.closes_inv hc
  have ht : t ∈ s.tokens := hf.issued id₀ job₀ t hjob₀ htok₀
  refine ⟨ht, fun hpast => (hf.closed t hpast).2 id₀ job₀ hjob₀ htok₀, ?_⟩
  intro id job' hjob' htok
  rcases h.token_inv hjob' htok with ⟨job, hjob, hold, -⟩ | hmem
  · obtain rfl := hf.unique id id₀ job job₀ t hjob hjob₀ hold htok₀
    obtain rfl : job₁ = job' := Option.some.inj (hjob₁.symm.trans hjob')
    rw [htok₁] at htok
    cases htok
  · exact h.unused job' hmem t htok ht

/-- Every step keeps what is known of the tokens. -/
theorem Fenced.step (hf : Fenced tr s) (h : s.Step l s') : Fenced (tr ++ [l]) s' where
  coherent id job hjob := h.step.coherent hf.coherent hjob
  issued id job t hjob htok := by
    rcases h.token_inv hjob htok with ⟨job₀, hjob₀, hold, -⟩ | hmem
    · exact h.mem_tokens (hf.issued id job₀ t hjob₀ hold)
    · exact h.mem_tokens_of_handed hmem htok
  unique id id' job job' t hjob hjob' htok htok' := by
    rcases h.token_inv hjob htok with ⟨a, ha, hat, -⟩ | hmem
    · rcases h.token_inv hjob' htok' with ⟨b, hb, hbt, -⟩ | hmem'
      · exact hf.unique id id' a b t ha hb hat hbt
      · exact absurd (hf.issued id a t ha hat) (h.unused job' hmem' t htok')
    · rcases h.token_inv hjob' htok' with ⟨b, hb, hbt, -⟩ | hmem'
      · exact absurd (hf.issued id' b t hb hbt) (h.unused job hmem t htok)
      · rw [← Store.key_of_get hjob, ← Store.key_of_get hjob']
        exact h.distinct job hmem job' hmem' (htok.trans htok'.symm)
  closed t := by
    rintro ⟨l', hl', hc⟩
    rcases List.mem_append.1 hl' with hl' | hl'
    · obtain ⟨ht, hnot⟩ := hf.closed t ⟨l', hl', hc⟩
      exact ⟨h.mem_tokens ht, fun id job hjob => h.not_held ht hnot hjob⟩
    · obtain rfl := List.mem_singleton.1 hl'
      obtain ⟨ht, -, hnot⟩ := hf.closes h hc
      exact ⟨h.mem_tokens ht, hnot⟩
  once t := by
    rw [List.countP_append, List.countP_singleton]
    split
    case isTrue hc =>
      -- the token was held, so no call before has closed it
      have hzero : tr.countP (·.closes t) = 0 :=
        List.countP_eq_zero.2 fun l' hl' hc' => (hf.closes h hc).2.1 ⟨l', hl', hc'⟩
      omega
    case isFalse => exact hf.once t

/-- A dead token stays dead. -/
theorem Dead.step (hd : s.Dead t) (h : s.Step l s') : s'.Dead t := by
  refine ⟨h.mem_tokens hd.1, fun id job' hjob' htok => ?_⟩
  rcases h.token_inv hjob' htok with ⟨job, hjob, hold, he | ⟨now, hnow, haf⟩⟩ | hmem
  · have hover := hd.2 id job hjob hold
    rw [he]
    cases hexp : job.leaseExpiresAt with
    | none => simp [hexp] at hover
    | some expiry =>
      rw [hexp, atMost_some, decide_eq_true_eq] at hover
      rw [atMost_some, decide_eq_true_eq]
      exact hover.trans h.clock_mono
  · -- a heartbeat is refused at any time from the clock on
    have hover := hd.2 id job hjob hold
    have hle := h.clock_le now hnow
    cases hexp : job.leaseExpiresAt with
    | none => simp [hexp] at hover
    | some expiry =>
      rw [hexp, atMost_some, decide_eq_true_eq] at hover
      rw [hexp, after_some, decide_eq_true_eq] at haf
      lia
  · exact absurd hd.1 (h.unused job' hmem t htok)

/-- Every report with the token `t` at the time `now` returns `False` and changes nothing; a
malformed argument is refused before the table is looked at. -/
def Refused (db : Jobs J) (t : UUID) (now : Time) : Prop :=
  ∀ id, (∀ result, JobService.complete db id t result now = (db, false)) ∧
    (∀ errorCode jitter, JobService.retry db id t errorCode jitter now =
      if !validErrorCode errorCode then .error .errorCode
      else if !validJitter jitter then .error .jitter else .ok (db, false)) ∧
    ∀ expiry, JobService.heartbeat db id t expiry now =
      if expiry ≤ now then .error .leaseExpiresAt else .ok (db, false)

/-- Reports with a dead token are refused. -/
theorem Dead.refused {now : Time} (hd : s.Dead t) (hle : s.clock ≤ now) : Refused s.db t now := by
  have hheld : ∀ id job, s.db.get id = some job → job.heldBy t now = false := by
    intro id job hjob
    rw [← Bool.not_eq_true, Job.heldBy_iff]
    rintro ⟨-, htok, haf⟩
    have hover := hd.2 id job hjob htok
    cases hexp : job.leaseExpiresAt with
    | none => simp [hexp] at haf
    | some expiry =>
      rw [hexp, atMost_some, decide_eq_true_eq] at hover
      rw [hexp, after_some, decide_eq_true_eq] at haf
      lia
  intro id
  refine ⟨fun result => Jobs.update_false (hheld id), fun errorCode jitter => ?_, fun expiry => ?_⟩
  · unfold JobService.retry
    rw [Jobs.update_false (hheld id)]
  · unfold JobService.heartbeat
    rw [Jobs.update_false (hheld id)]

/-! ## Along a run -/

/-- A run from an empty table keeps what is known of the tokens. -/
theorem run_fenced {s₀ : JobSystem J} (h0 : s₀.db = Store.empty) (run : Lts.Run Step s₀ tr s) :
    Fenced tr s := by
  refine run.history (I := Fenced) (fun hf h => hf.step h) ?_
  have hnone : ∀ id, s₀.db.get id = none := by
    intro id
    rw [h0]
    rfl
  constructor
  · intro id job hjob
    rw [hnone] at hjob
    cases hjob
  · intro id job t hjob
    rw [hnone] at hjob
    cases hjob
  · intro id id' job job' t hjob
    rw [hnone] at hjob
    cases hjob
  · rintro t ⟨l, hl, -⟩
    cases hl
  · intro t
    simp

/-- A job that has ended is the same job in every later state. -/
theorem run_ended (run : Lts.Run Step s tr s') (hjob : s.db.get id = some job) (hend : job.Ended) :
    s'.db.get id = some job := by
  refine run.invariant (I := fun s => s.db.get id = some job) ?_ hjob
  intro s l s' hjob h
  obtain ⟨r, hr, ⟨-, rfl⟩ | ⟨-, hm⟩⟩ := h.step.get hjob
  · exact hr
  · exact absurd hend hm.not_ended

/-- The attempts of a job are the claims of it so far. -/
def Counted (id : UUID) (tr : List (JobTxn J)) (s : JobSystem J) : Prop :=
  match s.db.get id with
  | none => tr.countP (·.claims id) = 0
  | some job => job.attempts = tr.countP (·.claims id)

theorem Step.counted (h : s.Step l s') (hn : Counted id tr s) : Counted id (tr ++ [l]) s' := by
  unfold Counted at hn ⊢
  rw [List.countP_append, List.countP_singleton]
  cases hjob : s.db.get id with
  | some job =>
    obtain ⟨job', hjob', -⟩ := h.step.get hjob
    rw [hjob] at hn
    rw [hjob']
    simp only at hn ⊢
    rw [(h.step.attempts_eq hjob hjob').1, hn]
  | none =>
    obtain ⟨hmoves, hnew⟩ := h.step.get_none hjob
    have hclaims : l.claims id = false := by
      cases l with
      | claim => exact hmoves
      | _ => rfl
    rw [hjob] at hn
    rw [hclaims]
    cases hjob' : s'.db.get id with
    | none => exact hn
    | some job' =>
      obtain ⟨_, _, _, _, _, _, -, rfl⟩ := hnew job' hjob'
      exact hn.symm

/-- A completed job has ended, and it was completed once. -/
def CompletedOnce (id : UUID) (tr : List (JobTxn J)) (s : JobSystem J) : Prop :=
  tr.countP (·.completes id) = 0 ∨
    tr.countP (·.completes id) = 1 ∧ ∃ job, s.db.get id = some job ∧ job.Ended

/-- A call that completes a job finds it running and ends it. -/
theorem Step.completes_inv (h : s.Step l s') (hc : l.completes id = true) :
    ∃ job job', s.db.get id = some job ∧ ¬ job.Ended ∧ s'.db.get id = some job' ∧ job'.Ended := by
  have hstep := h.step
  cases l with
  | complete mid token result now changed =>
    obtain ⟨rfl, rfl⟩ : changed = true ∧ mid = id := by simpa [JobTxn.completes] using hc
    cases hstep with
    | complete hup =>
      obtain ⟨job, hjob, hheld, hjob'⟩ := Jobs.update_true hup
      refine ⟨job, _, hjob, ?_, hjob', .inl rfl⟩
      intro hend
      simp [Job.Ended, (Job.heldBy_iff.1 hheld).1] at hend
  | _ => cases hc

theorem Step.completedOnce (h : s.Step l s') (hn : CompletedOnce id tr s) :
    CompletedOnce id (tr ++ [l]) s' := by
  unfold CompletedOnce at hn ⊢
  rw [List.countP_append, List.countP_singleton]
  by_cases hc : l.completes id = true
  · obtain ⟨job, job', hjob, hnot, hjob', hend⟩ := h.completes_inv hc
    rw [if_pos hc]
    rcases hn with hn | ⟨-, job₀, hjob₀, hend₀⟩
    · exact .inr ⟨by omega, job', hjob', hend⟩
    · obtain rfl : job₀ = job := Option.some.inj (hjob₀.symm.trans hjob)
      exact absurd hend₀ hnot
  · rw [if_neg hc, Nat.add_zero]
    refine hn.imp_right fun ⟨hone, job, hjob, hend⟩ => ⟨hone, job, ?_, hend⟩
    exact run_ended (Lts.Run.single h) hjob hend

/-- **Job lease fencing.** In every run from an empty table: each token is closed by at most one
complete, retry or recovery; once it is closed, or its lease is over at some time, every later
report with it is refused; a job that has ended never changes; and a job is completed at most once
and claimed at most as often as its maximum of attempts. -/
theorem job_fencing {s₀ s : JobSystem J} {tr : List (JobTxn J)} (h0 : s₀.db = Store.empty)
    (run : Lts.Run Step s₀ tr s) :
    (∀ t, tr.countP (·.closes t) ≤ 1) ∧
    (∀ t now, s.clock ≤ now →
      ((∃ l ∈ tr, l.closes t = true) ∨ t ∈ s.tokens ∧ ∀ job ∈ s.db.rows,
        job.leaseToken = some t → atMost job.leaseExpiresAt now = true) →
      ∀ (tr' : List (JobTxn J)) s' now', Lts.Run Step { s with clock := now } tr' s' →
        s'.clock ≤ now' → Refused s'.db t now') ∧
    (∀ id job, s.db.get id = some job → job.Ended →
      ∀ (tr' : List (JobTxn J)) s', Lts.Run Step s tr' s' → s'.db.get id = some job) ∧
    (∀ id, tr.countP (·.completes id) ≤ 1) ∧
    ∀ id job, s.db.get id = some job → tr.countP (·.claims id) ≤ job.maxAttempts := by
  have hf := run_fenced h0 run
  refine ⟨hf.once, ?_, fun id job hjob hend tr' s' run' => run_ended run' hjob hend, ?_, ?_⟩
  · intro t now hle hover tr' s' now' run' hle'
    have hdead : Dead { s with clock := now } t := by
      rcases hover with hclosed | ⟨ht, hover⟩
      · obtain ⟨ht, hnot⟩ := hf.closed t hclosed
        exact ⟨ht, fun id job hjob htok => absurd htok (hnot id job hjob)⟩
      · exact ⟨ht, fun id job hjob htok => hover job (Store.mem_of_get hjob) htok⟩
    have hdead' : s'.Dead t :=
      run'.invariant (I := fun s => s.Dead t) (fun hd h => hd.step h) hdead
    exact hdead'.refused hle'
  · intro id
    have honce : CompletedOnce id tr s :=
      run.history (I := CompletedOnce id) (fun hn h => h.completedOnce hn) (.inl rfl)
    rcases honce with hn | ⟨hn, -⟩ <;> omega
  · intro id job hjob
    have hcount : Counted id tr s := by
      refine run.history (I := Counted id) (fun hn h => h.counted hn) ?_
      unfold Counted
      rw [h0]
      rfl
    unfold Counted at hcount
    rw [hjob] at hcount
    simp only at hcount
    rw [← hcount]
    exact (hf.coherent id job hjob).attempts_le

/-- The job is queued and claimed, and after its lease the token is refused. -/
theorem job_fencing_running : Refused (JobFixture.table JobFixture.running) 5 (seconds 30) := by
  have henq : Step { db := Store.empty, clock := 0 }
      (.enqueue "send_email" () "order:one:email" 3 0 1 0)
      { db := JobFixture.table JobFixture.job, clock := 0 } :=
    ⟨JobFixture.enqueued, by simp [JobTxn.now], rfl, by simp [JobTxn.handed],
      by simp [JobTxn.handed], rfl⟩
  have hclaim : Step { db := JobFixture.table JobFixture.job, clock := 0 }
      (.claim "worker-1" (seconds 30) 1 0 (fun _ => false) (fun _ => 5) [JobFixture.running])
      { db := JobFixture.table JobFixture.running, clock := 0, tokens := [5] } := by
    refine ⟨JobFixture.claimed, ?_, rfl, by simp [JobTxn.handed], ?_, rfl⟩
    · rintro now ⟨⟩
      exact le_refl _
    · intro a ha b hb _
      rw [List.mem_singleton.1 ha, List.mem_singleton.1 hb]
  have hover : ∀ job ∈ (JobFixture.table JobFixture.running).rows, job.leaseToken = some 5 →
      atMost job.leaseExpiresAt (seconds 30) = true := by
    intro job hjob _
    obtain rfl := List.mem_singleton.1 hjob
    decide
  exact (job_fencing rfl ((Lts.Run.single henq).snoc hclaim)).2.1 5 (seconds 30) (by decide)
    (.inr ⟨List.mem_singleton_self 5, hover⟩) [] _ (seconds 30) .nil (le_refl _)

end JobSystem

end Ekumidayomi
