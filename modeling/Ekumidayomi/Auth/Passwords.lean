import Ekumidayomi.Auth.Administrators
import Ekumidayomi.Auth.Along
import Ekumidayomi.Lib.Ledger

/-!
# Every password on file has been screened

The four calls that write a credential are a registration, a reset, a bootstrap and a login that
hashes the password again. The first three check the password with `validate_new_password` before
anything else is written, and the last one takes a password that has been verified against the
credential it replaces. So every hash on file is vetted: it goes back, over passwords that were
verified in between, to one that a call of the run has screened or that was there at first
(`passwords_screened`). Nothing is assumed about the hashes.
-/

namespace Ekumidayomi

open Transact

/-- `validate_new_password` accepts the password: its length is in bounds, it is neither one
character over and over nor common, and the breach checker has answered that it is not breached. -/
structure Screened (sv : Services) (breached : Option Bool) (password : String) : Prop where
  length : validLength password = true
  varied : password.toList.dedup.length ≠ 1
  uncommon : commonPasswords.contains (sv.casefold password) = false
  unbreached : breached = some false

/-- The call sets a password, which it has screened. -/
inductive Chooses (sv : Services) : Call → String → Prop
  | registration {r : CompleteRequest} : Screened sv r.breached r.password →
      Chooses sv (.completeRegistration r) r.password
  | reset {r : CompleteRequest} {correlationId : String} : Screened sv r.breached r.password →
      Chooses sv (.completeReset r correlationId) r.password
  | bootstrap {email password : String} {breached : Option Bool} :
      Screened sv breached password → Chooses sv (.bootstrap email password breached) password

/-- The hash that a write puts into a credential. -/
def Op.passwordHash : Op → Option String
  | .insertCredential row => some row.passwordHash
  | .setPassword _ hash => some hash
  | _ => none

/-- The password behind each hash that a login or a bootstrap writes, and that the password of a
registration, a reset or a bootstrap has been screened when anything is written. -/
def Hashing (sv : Services) : Call → Op → Prop
  | .completeRegistration r, _ => Screened sv r.breached r.password
  | .completeReset r _, _ => Screened sv r.breached r.password
  | .bootstrap _ password breached, op => Screened sv breached password ∧
      ∀ hash, op.passwordHash = some hash → ∃ salt, hash = sv.hash salt password
  | .login r, op => ∀ hash, op.passwordHash = some hash → ∃ salt, hash = sv.hash salt r.password
  | _, _ => True

section
variable {sv : Services} {settings : AuthSettings} {α β : Type} {W : Op → Prop} {Q : α → Prop}

/-! ## What the statements write -/

/-- A program emits what every write and every result satisfies. -/
theorem emits_of_forall {p : Tx sv α} (hW : ∀ op, W op) (hQ : ∀ a, Q a) : p.Emits W Q := by
  induction p with
  | ret a => exact hQ a
  | throw => trivial
  | write op p ih => exact ⟨hW op, ih⟩
  | lock k p ih | note n p ih | commit p ih | rollback p ih => exact ih
  | read f ih | now f ih | fresh f ih | random f ih => exact ih

/-- A query writes nothing. -/
theorem emits_query {f : Db → α} : (query f : Tx sv α).Emits W fun _ => True := fun _ => trivial

/-- Reading the clock writes nothing. -/
theorem emits_utcNow : (utcNow : Tx sv Time).Emits W fun _ => True := fun _ => trivial

/-- Drawing an id writes nothing. -/
theorem emits_uuid4 : (uuid4 : Tx sv UUID).Emits W fun _ => True := fun _ => trivial

/-- Drawing a text writes nothing. -/
theorem emits_randomText : (randomText : Tx sv String).Emits W fun _ => True := fun _ => trivial

/-- A locked read writes nothing. -/
theorem emits_forUpdate {get : Db → Option α} {k : Key} :
    (forUpdate get k : Tx sv (Option α)).Emits W fun _ => True := by
  refine .bind emits_query fun x _ => ?_
  cases x with
  | none => trivial
  | some => exact fun _ => trivial

/-- The flush of a row writes that row. -/
theorem emits_flushRow {get : Db → Option α} {k : Key} {op : Op} (h : W op) :
    (flushRow get k op : Tx sv Unit).Emits W fun _ => True := by
  refine .bind emits_forUpdate fun x _ => ?_
  cases x with
  | none => trivial
  | some => exact ⟨h, trivial⟩

/-- An insert writes its row once the entry is free. -/
theorem emits_insertUnique {entry row : Key} {taken : Db → Bool} {op : Op} (h : W op) :
    (insertUnique entry taken row op : Tx sv Unit).Emits W fun _ => True := by
  refine .bind (Q := fun _ => True) trivial fun _ _ => .bind emits_query fun taken _ => ?_
  exact .guard fun _ => ⟨h, trivial⟩

/-- An account is found without a write. -/
theorem emits_findUserByEmail {email : String} :
    (findUserByEmail sv email).Emits W fun _ => True := by
  rw [findUserByEmail]
  split
  · trivial
  · exact fun _ => trivial

/-- So is one that is asked for by its id. -/
theorem emits_findUserById {id : UUID} {locked : Bool} :
    (findUserById sv id locked).Emits W fun _ => True := by
  rw [findUserById]
  exact .ite (fun _ => emits_forUpdate) fun _ _ => trivial

/-- A hash is made of the password it is asked for. -/
theorem emits_hashPassword {password : String} :
    (hashPassword sv password).Emits W fun hash => ∃ salt, hash = sv.hash salt password := by
  rw [hashPassword]
  exact .guard fun _ salt => ⟨salt, rfl⟩

/-- A password that passes the checks is screened. -/
theorem emits_validateNewPassword {breached : Option Bool} {password : String} :
    (validateNewPassword sv breached password).Emits W fun _ => Screened sv breached password := by
  unfold validateNewPassword
  refine .guard fun hlength => .guard fun hcommon => ?_
  simp only [Bool.not_eq_true', Bool.not_eq_false, Bool.or_eq_true, decide_eq_true_eq,
    not_or, Bool.not_eq_true] at hlength hcommon
  match breached with
  | none | some true => trivial
  | some false =>
    exact { length := hlength, varied := hcommon.1, uncommon := hcommon.2, unbreached := rfl }

/-- The end of `resolve`, which writes nothing. -/
theorem emits_resolved (result : Option (AuthSession × User)) :
    Prog.Emits W (fun _ => True) (match result with
      | none => throw .authenticationRequired
      | some (row, user) =>
        match Role.ofValue user.role with
        | none => throw .authenticationRequired
        | some role => pure { userId := user.id, sessionId := row.id, role
                              authenticatedAt := row.authenticatedAt } : Tx sv Actor) := by
  split
  · trivial
  · split <;> trivial

/-- A session is resolved without a write. -/
theorem emits_resolve {secret : Option String} {hint : Option UUID} :
    (resolve sv secret hint).Emits W fun _ => True := by
  unfold resolve
  split
  case h_1 => trivial
  case h_2 secret =>
    refine .guard fun _ => .bind emits_utcNow fun now _ => ?_
    dsimp only
    split
    · refine .bind (Q := (· = none)) rfl fun hinted hnone => ?_
      rw [hnone]
      exact .bind emits_query fun result _ => emits_resolved result
    · refine .bind emits_query fun hinted _ => ?_
      cases hinted with
      | none => exact .bind emits_query fun result _ => emits_resolved result
      | some found => exact emits_resolved (some found)

/-- So is one that may be absent. -/
theorem emits_resolveOrNone {secret : Option String} {hint : Option UUID} :
    (resolveOrNone sv secret hint).Emits W fun _ => True :=
  .tryCatch (.bind emits_resolve fun _ _ => trivial) fun _ => .ite (fun _ => trivial) fun _ => trivial

section
variable (hW : ∀ op, op.passwordHash = none → W op)
include hW

/-- A new customer has no credential yet. -/
theorem emits_createCustomer {email : String} :
    (createCustomer sv email).Emits W fun _ => True := by
  rw [createCustomer]
  split
  · trivial
  · exact .bind emits_uuid4 fun id _ => .bind (emits_insertUnique (hW _ rfl)) fun _ _ => trivial

/-- An audit record carries no hash. -/
theorem emits_record {actor : AuditActor} {action targetType : String} {targetId : UUID}
    {outcome : AuditOutcome} {metadata : List (String × AuditValue)} {correlationId : String} :
    (record sv actor action targetType targetId outcome metadata correlationId).Emits W
      fun _ => True := by
  rw [record]
  exact .guard fun _ _ _ => ⟨hW _ rfl, trivial⟩

/-- Nor does a session. -/
theorem emits_issue {user : User} : (issue sv settings user).Emits W fun _ => True := by
  rw [issue]
  refine .guard fun _ => .bind emits_randomText fun secret _ => .bind emits_utcNow fun now _ => ?_
  exact .bind emits_uuid4 fun id _ => .bind (emits_insertUnique (hW _ rfl)) fun _ _ => trivial

/-- A revocation writes no hash. -/
theorem emits_revokeEach {userId : UUID} {sessionId : Option UUID} {now : Time}
    {ids : List UUID} : (revokeEach sv userId sessionId now ids).Emits W fun _ => True := by
  induction ids with
  | nil => trivial
  | cons id ids ih =>
    rw [revokeEach]
    intro db
    exact .ite (fun _ => ⟨hW _ rfl, ih⟩) fun _ => ih

/-- Nor does that of all sessions of a user. -/
theorem emits_revoke {userId : UUID} {sessionId : Option UUID} :
    (revoke sv userId sessionId).Emits W fun _ => True :=
  fun _ _ => emits_revokeEach hW

end

/-! ## The calls that set a password -/

/-- A login hashes the password it was given. -/
theorem emits_login {r : LoginRequest} :
    (login sv settings r).Emits (Hashing sv (.login r)) fun _ => True := by
  have hW : ∀ op, op.passwordHash = none → Hashing sv (.login r) op := by
    intro op hop hash hhash
    rw [hop] at hhash
    cases hhash
  rw [login]
  refine .bind (Q := fun _ => True) (.tryCatch emits_findUserByEmail fun _ => ?_) fun found _ => ?_
  · exact .ite (fun _ => trivial) fun _ => trivial
  cases found with
  | none => trivial
  | some found =>
    refine .bind emits_findUserById fun user _ => ?_
    cases user with
    | none => trivial
    | some user =>
      refine .bind emits_query fun credential _ => ?_
      cases credential with
      | none => trivial
      | some credential =>
        refine .guard fun _ => .bind (Q := fun _ => True) trivial fun _ _ => .guard fun _ => ?_
        have hissue : (issueSession sv settings r user).Emits (Hashing sv (.login r))
            fun _ => True := by
          refine .bind (emits_issue hW) fun secret _ => ?_
          refine .ite (fun _ => .bind emits_resolveOrNone fun previous _ => ?_) fun _ => trivial
          cases previous with
          | none => trivial
          | some previous => exact .bind (emits_revoke hW) fun _ _ => trivial
        rw [startSession]
        refine .ite (fun _ => .bind emits_hashPassword fun hash hhash => ?_) fun _ => hissue
        refine .bind (emits_flushRow ?_) fun _ _ => hissue
        rintro _ ⟨⟩
        exact hhash

/-- A bootstrap hashes the password it was given, which it has screened. -/
theorem emits_bootstrap {email password : String} {breached : Option Bool} :
    (bootstrap sv email password breached).Emits (Hashing sv (.bootstrap email password breached))
      fun _ => True := by
  rw [bootstrap]
  refine .bind (Q := fun _ => True) trivial fun _ _ => .bind emits_findUserByEmail fun found _ => ?_
  cases found with
  | some existing => exact .guard fun _ => trivial
  | none =>
    refine .bind emits_query fun _ _ => .guard fun _ => ?_
    refine .bind emits_validateNewPassword fun _ hscreened => ?_
    have hW : ∀ op, op.passwordHash = none →
        Hashing sv (.bootstrap email password breached) op := by
      intro op hop
      refine ⟨hscreened, fun hash hhash => ?_⟩
      rw [hop] at hhash
      cases hhash
    refine .bind (emits_createCustomer hW) fun user _ => .bind emits_utcNow fun now _ => ?_
    refine .bind emits_hashPassword fun hash hhash => .bind (emits_record hW) fun _ _ => ?_
    refine ⟨hW _ rfl, hW _ rfl, ⟨hscreened, ?_⟩, trivial⟩
    rintro _ ⟨⟩
    exact hhash

/-- Every call writes the hashes that are asked of it, and screens a new password first. -/
theorem code_hashing (sv : Services) (settings : AuthSettings) (call : Call) :
    (Auth.code sv settings call).Emits (Hashing sv call) fun _ => True := by
  cases call with
  | login r => exact emits_login
  | bootstrap email password breached => exact emits_bootstrap
  | completeRegistration r =>
    refine .bind (Q := fun _ => True) ?_ fun _ _ => ?_
    · cases r.correlationId with
      | none => exact fun _ => trivial
      | some text => exact .ite (fun _ => trivial) fun _ _ => trivial
    · refine .bind emits_validateNewPassword fun _ hscreened => ?_
      exact emits_of_forall (fun _ => hscreened) fun _ => trivial
  | completeReset r correlationId =>
    refine .bind emits_validateNewPassword fun _ hscreened => ?_
    exact emits_of_forall (fun _ => hscreened) fun _ => trivial
  | _ => exact emits_of_forall (fun _ => trivial) fun _ => trivial

/-! ## What a commit puts on file -/

variable {call : Call} {c : Ctx (schema sv)} {db : Db} {ops : List Op} {op : Op} {hash : String}

/-- A write of a hash is no evidence of another one. -/
theorem Op.isEvidence_of_passwordHash (h : op.passwordHash = some hash) :
    op.isEvidence = false := by
  cases op <;> first | rfl | cases h

/-- Nor does it revoke a session. -/
theorem not_isRevoke_of_passwordHash (h : op.passwordHash = some hash) : op.isRevoke = false := by
  cases op <;> first | rfl | cases h

/-- The hash of a credential is one that was written, or was there before. -/
theorem applyAll_passwordHash {id : UUID} {x : PasswordCredential}
    (h : Db.credential ((schema sv).applyAll ops db) id = some x) :
    (∃ op ∈ ops, op.passwordHash = some x.passwordHash) ∨
      ∃ y, db.credential id = some y ∧ y.passwordHash = x.passwordHash := by
  induction ops generalizing x with
  | nil => exact .inr ⟨x, h, rfl⟩
  | cons op ops ih =>
    rcases Db.credential_apply h with ⟨rfl, -, -⟩ | ⟨y, hy, rfl | ⟨hash, rfl, rfl⟩⟩
    · exact .inl ⟨_, List.mem_cons_self, rfl⟩
    · exact (ih hy).imp_left fun h => h.imp fun _ h => ⟨List.mem_cons_of_mem _ h.1, h.2⟩
    · exact .inl ⟨_, List.mem_cons_self, rfl⟩

/-- The password behind a hash that a commit writes was screened by the call, or it is that of a
login, which has verified it against a credential on file. -/
theorem Commits.passwordHash (h : Commits sv settings call c db)
    (hhashing : ∀ op ∈ c.buf, Hashing sv call op) (hop : op ∈ c.buf)
    (hhash : op.passwordHash = some hash) :
    (∃ salt password, hash = sv.hash salt password ∧ Chooses sv call password) ∨
      ∃ r salt id x, call = .login r ∧ hash = sv.hash salt r.password ∧
        db.credential id = some x ∧ sv.verify x.passwordHash r.password = true := by
  have hwrites := hhashing op hop
  have hcore := (mem_core (Op.isEvidence_of_passwordHash hhash)).2 hop
  have hrevoke := not_isRevoke_of_passwordHash hhash
  have hnot : ∀ {revs : List Op}, (∀ op ∈ revs, op.isRevoke = true) → op ∉ revs := by
    intro revs hrevs hmem
    rw [hrevs op hmem] at hrevoke
    cases hrevoke
  obtain ⟨-, ⟨row, hguess⟩ | ⟨-, hexit⟩⟩ := h
  · rw [hguess.buf] at hcore
    obtain rfl := List.mem_singleton.1 hcore
    cases hhash
  cases hexit with
  | @issued _ _ _ row deleted hbuf =>
    rw [hbuf] at hcore
    rcases List.mem_cons.1 hcore with rfl | hcore
    · cases hhash
    · cases deleted with
      | none => cases hcore
      | some p =>
        obtain rfl := List.mem_singleton.1 hcore
        cases hhash
  | @registered r _ _ _ user _ _ salt hbuf =>
    rw [hbuf] at hcore
    simp only [List.mem_cons, List.not_mem_nil, or_false] at hcore
    rcases hcore with rfl | rfl | rfl | rfl | rfl <;> cases hhash
    exact .inl ⟨salt, _, rfl, .registration hwrites⟩
  | @loggedIn r _ _ user credential _ _ _ rehash hbuf hrevs _ _ _ hcredential hverify =>
    obtain ⟨salt, rfl⟩ := hwrites hash hhash
    exact .inr ⟨r, salt, _, credential, rfl, rfl, hcredential, hverify⟩
  | loggedOut hbuf hrevs | loggedOutAll hbuf hrevs =>
    rw [hbuf] at hcore
    exact absurd hcore (hnot hrevs)
  | @reset r _ _ _ _ user _ _ salt _ hbuf hrevs =>
    rw [hbuf] at hcore
    simp only [List.mem_cons, List.mem_append, List.not_mem_nil, or_false] at hcore
    rcases hcore with rfl | hcore | rfl | rfl
    · cases hhash
      exact .inl ⟨salt, _, rfl, .reset hwrites⟩
    · exact absurd hcore (hnot hrevs)
    all_goals cases hhash
  | accessChanged hbuf hrevs =>
    rw [hbuf] at hcore
    rcases List.mem_append.1 hcore with hcore | hcore
    · exact absurd hcore (hnot hrevs)
    · obtain rfl := List.mem_singleton.1 hcore
      cases hhash
  | bootstrapped =>
    obtain ⟨salt, rfl⟩ := hwrites.2 hash hhash
    exact .inl ⟨salt, _, rfl, .bootstrap hwrites.1⟩
  | nothing hbuf =>
    rw [hbuf] at hcore
    cases hcore
  | reauthenticated hbuf | linked hbuf | unlinked hbuf =>
    rw [hbuf] at hcore
    obtain rfl := List.mem_singleton.1 hcore
    cases hhash
  | entered hbuf | joined hbuf | confirmed hbuf =>
    rw [hbuf] at hcore
    simp only [List.mem_cons, List.not_mem_nil, or_false] at hcore
    obtain rfl | rfl | rfl | rfl | rfl := hcore <;> cases hhash

end

namespace Auth

/-- Where a hash on file comes from: it was there at first, or it is the hash of a password that a
call of the run has screened, or of the password of a login, which verified it against a hash that
comes from such. -/
inductive Vetted (sv : Services) (db₀ : Db) (tr : List (Act sv)) : String → Prop
  | first {id : UUID} {x : PasswordCredential} : db₀.credential id = some x →
      Vetted sv db₀ tr x.passwordHash
  | chosen {call : Call} {salt password : String} : .start call ∈ tr → Chooses sv call password →
      Vetted sv db₀ tr (sv.hash salt password)
  | again {r : LoginRequest} {salt hash : String} : .start (.login r) ∈ tr → Vetted sv db₀ tr hash →
      sv.verify hash r.password = true → Vetted sv db₀ tr (sv.hash salt r.password)

/-- What was vetted stays so in a longer run. -/
theorem Vetted.mono {sv : Services} {db₀ : Db} {tr tr' : List (Act sv)} {hash : String}
    (h : Vetted sv db₀ tr hash) (hsub : tr ⊆ tr') : Vetted sv db₀ tr' hash := by
  induction h with
  | first hx => exact .first hx
  | chosen hcall hchooses => exact .chosen (hsub hcall) hchooses
  | again hcall _ hverify ih => exact .again (hsub hcall) ih hverify

/-- **Every password on file has been screened.** In every run from an initial state, over any
interleaving of the calls: the hash of every credential is one that was on file at first, or that of
a password that a registration, a reset or a bootstrap of the run has screened (its length is in
bounds, it is not common, and the breach checker has answered that it is not breached), or that of
the password of a login, which has been verified against a hash of one of these kinds. -/
theorem passwords_screened (sv : Services) (settings : AuthSettings) {s₀ s : Sys sv}
    {tr : List (Act sv)} (h0 : Initial s₀) (hrun : Run sv settings s₀ tr s) :
    ∀ id x, s.db.credential id = some x → Vetted sv s₀.db tr x.passwordHash := by
  induction hrun with
  | nil => exact fun _ _ => .first
  | @snoc m s tr a hrun hstep ih =>
    have hmore : tr ⊆ tr ++ [a] := List.subset_append_left tr [a]
    intro id x hx
    by_cases hc : ∃ i, a = .commit i
    · obtain ⟨i, rfl⟩ := hc
      have hg : Good sv settings m := good_of_run h0 hrun
      have hmeets := run_along (code_meets sv settings) (Good.start h0) hrun
        (L := fun _ _ => True) (Q := fun _ _ _ => True) (E := fun _ _ _ => True)
        (G := fun call c => .start call ∈ tr ∧ ∀ op ∈ c.buf, Hashing sv call op)
        (fun call hcall => along_and hcall ((code_hashing sv settings call).along
          (List.forall_mem_nil _) fun _ _ => trivial)) (by simp [h0.threads])
      obtain ⟨t, ht, hsees, hcommits, hdb⟩ := commit_exit hg hstep
      obtain ⟨t', ht', ⟨hcall, hhashing⟩, -⟩ := Transact.Step.commit_meets hmeets hstep
      obtain rfl : t' = t := Option.some.inj (ht'.symm.trans ht)
      rw [hdb] at hx
      rcases applyAll_passwordHash hx with ⟨op, hop, hhash⟩ | ⟨y, hy, hsame⟩
      · rcases hcommits.passwordHash hhashing hop hhash with
          ⟨salt, password, hnew, hchooses⟩ | ⟨r, salt, id', z, hlogin, hnew, hz, hverify⟩
        · exact hnew ▸ .chosen (hmore hcall) hchooses
        · exact hnew ▸ .again (hmore (hlogin ▸ hcall)) ((ih id' z hz).mono hmore) hverify
      · exact hsame ▸ (ih id y hy).mono hmore
    · rw [hstep.db_eq fun i hi => hc ⟨i, hi⟩] at hx
      exact (ih id x hx).mono hmore

end Auth

namespace PasswordFixture

open AuthFixture (address password token)

/-- The sum of the characters of a text, in four digits. -/
def checksum (text : String) : List Char :=
  Hex.digits 4 (text.toList.foldr (fun c n => c.toNat + n) 0)

/-- The services with hashes of a fixed length behind their salts. Those with the salt `old` are due
to be made again. -/
def services : Services :=
  { AuthFixture.services with
    hash := fun salt password => String.ofList (salt.toList ++ '$' :: checksum password)
    verify := fun encoded password =>
      encoded.toList.dropWhile (· ≠ '$') = '$' :: checksum password
    needsRehash := fun encoded => "old$".toList.isPrefixOf encoded.toList }

/-- The database before the first call. -/
def system : Auth.Sys services := { db := {}, clock := 1, drawn := [] }

/-- The call `i` goes on by `n` statements. -/
def steps (i n : Nat) : List (Auth.Act services) := List.replicate n (.advance i)

/-- The steps of a `bootstrap` to its commit, and those of a login of the administrator. -/
def acts : List (Auth.Act services) :=
  .start (.bootstrap address password (some false)) :: steps 0 3 ++ [.draw 0 1] ++ steps 0 5 ++
    [.pick 0 "old", .advance 0, .draw 0 2] ++ steps 0 4 ++ [.commit 0] ++
  .start (.login { email := address, password }) :: steps 1 6 ++ [.pick 1 "new"] ++ steps 1 4 ++
    [.pick 1 token, .advance 1, .draw 1 3] ++ steps 1 4 ++ [.commit 1]

/-- The system after them. -/
def loggedIn : Auth.Sys services :=
  (system.execAll (Auth.code services default) acts).getD system

/-- The system takes these steps. -/
theorem loggedIn_run : Auth.Run services {} system acts loggedIn := Sys.run_of_isSome rfl

/-- An empty database is a start. -/
theorem system_initial : Auth.Initial system where
  threads := rfl
  admins := fun _ _ hu => absurd (Store.mem_of_get hu) List.not_mem_nil
  drawn := fun _ hid => Db.mem_ids hid

end PasswordFixture

/-- The hash that the login has made is vetted, while nothing was on file at first. -/
theorem Auth.passwords_screened_loggedIn :
    Auth.Vetted PasswordFixture.services PasswordFixture.system.db PasswordFixture.acts "new$084e" :=
  Auth.passwords_screened PasswordFixture.services {} PasswordFixture.system_initial
    PasswordFixture.loggedIn_run 1 { userId := 1, passwordHash := "new$084e" } rfl

end Ekumidayomi
