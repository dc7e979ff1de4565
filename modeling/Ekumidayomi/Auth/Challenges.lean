import Ekumidayomi.Auth.Runs

/-!
# Challenges are single-use

What each commit does to the challenges (`ChallengeChange`), and from it that a challenge is
consumed at most once, only with its code, and only together with the change of the account it was
issued for (`challenges_single_use`). An identifier is never drawn twice, so a challenge that a
resend has deleted does not come back.
-/

namespace Ekumidayomi

open Transact

/-- What a call may do when it has consumed a challenge: create the verified account with its
credential, or replace the password and revoke all sessions. -/
inductive Completes (sv : Services) (db db' : Db) (row : EmailChallenge) :
    Call → CompleteRequest → ChallengePurpose → Prop
  | registration {r : CompleteRequest} {userId : UUID} {user : User} {salt : String} :
      db.user userId = none → db'.user userId = some user →
      user.emailVerifiedAt.isSome = true → sv.normalizeEmail row.email = some user.email →
      db'.credential userId = some { userId, passwordHash := sv.hash salt r.password } →
      Completes sv db db' row (.completeRegistration r) r .registration
  | reset {r : CompleteRequest} {cid : String} {userId : UUID} {user : User} {salt : String} :
      db.user userId = some user → sv.normalizeEmail row.email = some user.email →
      db'.credential userId = some { userId, passwordHash := sv.hash salt r.password } →
      db'.AllRevoked userId → Completes sv db db' row (.completeReset r cid) r .passwordReset

section
variable {sv : Services} {settings : AuthSettings} {call : Call} {c : Ctx (schema sv)}
  {db : Db} {ops : List Op}

/-- What a commit does to the challenges. -/
inductive ChallengeChange (settings : AuthSettings) (c : Ctx (schema sv)) (db : Db) : Call → Prop
  | same {call : Call} : NoGuess c →
      (∀ id, Db.challenge (c.view db) id = db.challenge id) → ChallengeChange settings c db call
  | counted {call : Call} {row : EmailChallenge} : Guessed settings call c db row →
      (∀ id, Db.challenge (c.view db) id = if id = row.id then
        some { row with attempts := row.attempts + 1 } else db.challenge id) →
      ChallengeChange settings c db call
  | issued {call : Call} {row : EmailChallenge} {deleted : Option EmailChallenge} : NoGuess c →
      Issues settings c row deleted →
      (∀ id, Db.challenge (c.view db) id = if id = row.id then some row else
        if (deleted.map (·.id)) = some id then none else db.challenge id) →
      ChallengeChange settings c db call
  | consumed {call : Call} {r : CompleteRequest} {row : EmailChallenge}
      {purpose : ChallengePurpose} {t : Time} : NoGuess c →
      Completes sv db (c.view db) row call r purpose →
      Checked settings c row r.challengeId r.code purpose → db.challenge row.id = some row →
      (∀ id, Db.challenge (c.view db) id = if id = row.id then
        some { row with attempts := row.attempts + 1, consumedAt := some t } else
        db.challenge id) →
      ChallengeChange settings c db call

theorem view_challenge_eq (h : core c.buf = ops) (hon : on .challenges ops = []) (id : UUID) :
    Db.challenge (c.view db) id = db.challenge id := by
  rw [view_challenge h, hon]
  rfl

theorem view_challenge_counted {row : EmailChallenge} {n : Nat} (h : core c.buf = ops)
    (hon : on .challenges ops = [.setAttempts row.id n]) (hrow : db.challenge row.id = some row)
    (id : UUID) :
    Db.challenge (c.view db) id =
      if id = row.id then some { row with attempts := n } else db.challenge id := by
  rw [view_challenge h, hon]
  simp only [applyOps_cons, applyOps_nil, Db.challenge, Op.apply, Store.get_modify] at hrow ⊢
  split
  case isTrue hid =>
    rw [hid, hrow]
    rfl
  case isFalse => rfl

theorem view_challenge_consumed {row : EmailChallenge} {n : Nat} {t : Time} (h : core c.buf = ops)
    (hon : on .challenges ops = [.setConsumed row.id t, .setAttempts row.id n])
    (hrow : db.challenge row.id = some row) (id : UUID) :
    Db.challenge (c.view db) id =
      if id = row.id then some { row with attempts := n, consumedAt := some t }
      else db.challenge id := by
  rw [view_challenge h, hon]
  simp only [applyOps_cons, applyOps_nil, Db.challenge, Op.apply, Store.get_modify] at hrow ⊢
  split
  case isTrue hid =>
    rw [hid, hrow]
    rfl
  case isFalse => rfl

theorem challenge_eq_none (hs : c.Sees db) {id : UUID} (hid : id ∈ c.drawn) :
    db.challenge id = none := by
  by_contra hne
  exact hs.2 id hid (.inr (.inr (.inr (.inl hne))))

theorem credential_eq_none (hs : c.Sees db) {id : UUID} (hid : id ∈ c.drawn) :
    db.credential id = none := by
  by_contra hne
  exact hs.2 id hid (.inr (.inl hne))

theorem view_challenge_issued {row : EmailChallenge} {deleted : Option EmailChallenge}
    (h : core c.buf = .insertChallenge row :: (deleted.map Op.deleteChallenge).toList)
    (hnew : db.challenge row.id = none) (id : UUID) :
    Db.challenge (c.view db) id = if id = row.id then some row else
      if (deleted.map (·.id)) = some id then none else db.challenge id := by
  rw [view_challenge h]
  have hrest : ∀ id, (applyOps (on .challenges (deleted.map Op.deleteChallenge).toList) db).challenge
      id = if (deleted.map (·.id)) = some id then none else db.challenge id := by
    intro id
    cases deleted with
    | none => rfl
    | some p =>
      show (db.challenges.erase p.id).get id = _
      simp only [Store.get_erase, Option.map_some, Option.some.injEq, eq_comm, Db.challenge]
  have htable : (Op.insertChallenge row).table = .challenges := rfl
  rw [← hrest, on_cons, if_pos htable, applyOps_cons]
  split
  case isTrue hid =>
    subst hid
    refine Store.get_insert_self ((hrest row.id).trans ?_)
    rw [hnew, ite_self]
  case isFalse hid => exact Store.get_insert_ne (Ne.symm hid)

/-- The credential that a transaction inserts for a user it has created. -/
theorem view_credential_new {row : PasswordCredential} (h : core c.buf = ops)
    (hon : on .credentials ops = [.insertCredential row]) (hnew : db.credential row.userId = none) :
    Db.credential (c.view db) row.userId = some row := by
  rw [view_credential h, hon]
  exact Store.get_insert_self hnew

/-- The credential whose password a transaction replaces. -/
theorem view_credential_replaced {userId : UUID} {hash : String} {row : PasswordCredential}
    (h : core c.buf = ops) (hon : on .credentials ops = [.setPassword userId hash])
    (hrow : db.credential userId = some row) :
    Db.credential (c.view db) userId = some { userId, passwordHash := hash } := by
  have hid : row.userId = userId := Store.key_of_get hrow
  rw [view_credential h, hon]
  simp only [applyOps_cons, applyOps_nil, Db.credential, Op.apply, Store.get_modify] at hrow ⊢
  rw [if_pos trivial, hrow, ← hid]
  rfl

/-- The writes of a reset to the challenges. -/
theorem on_reset {userId id : UUID} {hash : String} {t : Time} {n : Nat} {revs : List Op}
    (h : ∀ op ∈ revs, op.isRevoke = true) :
    on .challenges (.setPassword userId hash :: (revs ++ [.setConsumed id t, .setAttempts id n])) =
      [.setConsumed id t, .setAttempts id n] := by
  simp [on_revokes h, Op.table]

theorem Commits.challenges (h : Commits sv settings call c db) (hv : db.AdminsVerified)
    (hs : c.Sees db) : ChallengeChange settings c db call := by
  obtain ⟨-, ⟨row, hguess⟩ | ⟨hguess, hexit⟩⟩ := h
  · exact .counted hguess (view_challenge_counted hguess.buf rfl hguess.there)
  · cases hexit with
    | nothing hbuf | reauthenticated hbuf | bootstrapped hbuf | entered hbuf | joined hbuf
    | linked hbuf | confirmed hbuf | unlinked hbuf =>
      exact .same hguess (view_challenge_eq hbuf rfl)
    | issued hbuf hissues =>
      exact .issued hguess hissues (view_challenge_issued hbuf (challenge_eq_none hs hissues.drawn))
    | @registered r _ _ _ user _ verifiedAt salt hbuf hchecked hnew hemail =>
      have hrow := hchecked.sure db hv hs
      rw [← hchecked.key] at hrow
      have hnone := user_eq_none hs hnew.drawn
      have huser : Db.user (c.view db) user.id =
          some { user with emailVerifiedAt := some verifiedAt } := by
        rw [view_user_new hbuf rfl hnone, if_pos rfl]
      have hcred : Db.credential (c.view db) user.id =
          some { userId := user.id, passwordHash := sv.hash salt r.password } :=
        view_credential_new hbuf rfl (credential_eq_none hs hnew.drawn)
      exact .consumed hguess (.registration hnone huser rfl hemail hcred) hchecked hrow
        (view_challenge_consumed hbuf rfl hrow)
    | loggedIn hbuf hrevs hrehash =>
      refine .same hguess (view_challenge_eq hbuf ?_)
      rcases hrehash with rfl | ⟨hash, rfl⟩ <;> simp [on_revokes hrevs, Op.table]
    | loggedOut hbuf hrevs | loggedOutAll hbuf hrevs =>
      exact .same hguess (view_challenge_eq hbuf (on_revokes hrevs (by decide)))
    | @reset r _ _ _ _ user _ _ salt _ hbuf hrevs hchecked _ hemail huser hcred hrevoked =>
      have hrow := hchecked.sure db hv hs
      rw [← hchecked.key] at hrow
      have hnew : Db.credential (c.view db) user.id =
          some { userId := user.id, passwordHash := sv.hash salt r.password } :=
        view_credential_replaced hbuf (by simp [on_revokes hrevs, Op.table]) hcred
      exact .consumed hguess (.reset huser hemail hnew hrevoked) hchecked hrow
        (view_challenge_consumed hbuf (on_reset hrevs) hrow)
    | accessChanged hbuf hrevs =>
      exact .same hguess (view_challenge_eq hbuf (by simp [on_revokes hrevs, Op.table]))

/-! ## A challenge is consumed once -/

/-- The challenge is there, and consumed. -/
def Db.Consumed (db : Db) (id : UUID) : Prop :=
  ∃ x, db.challenge id = some x ∧ x.consumedAt.isSome = true

/-- A challenge that the transaction has not drawn was there before, and stays consumed. -/
theorem ChallengeChange.back (h : ChallengeChange settings c db call) {id : UUID}
    {x : EmailChallenge} (hid : id ∉ c.drawn) (hx : Db.challenge (c.view db) id = some x) :
    ∃ y, db.challenge id = some y ∧ (y.consumedAt.isSome = true → x.consumedAt.isSome = true) := by
  cases h with
  | same _ hview => exact ⟨x, hview id ▸ hx, fun h => h⟩
  | @counted row hguess hview =>
    rw [hview] at hx
    split at hx
    case isTrue heq =>
      cases hx
      exact ⟨row, heq ▸ hguess.there, fun h => h⟩
    case isFalse => exact ⟨x, hx, fun h => h⟩
  | issued _ hissues hview =>
    rw [hview] at hx
    split at hx
    case isTrue heq => exact absurd hissues.drawn (heq ▸ hid)
    case isFalse => exact ⟨x, (Option.ite_none_left_eq_some.1 hx).2, fun h => h⟩
  | @consumed _ row _ _ _ _ _ hrow hview =>
    rw [hview] at hx
    split at hx
    case isTrue heq =>
      cases hx
      exact ⟨row, heq ▸ hrow, fun _ => rfl⟩
    case isFalse => exact ⟨x, hx, fun h => h⟩

/-- What is known of the code that a call has brought for a challenge: it is a code of the
challenge, for the purpose of the call, and the transaction has found the challenge open. -/
structure Accepted (settings : AuthSettings) (c : Ctx (schema sv)) (db : Db) (row : EmailChallenge)
    (r : CompleteRequest) (purpose : ChallengePurpose) : Prop where
  there : db.challenge r.challengeId = some row
  purpose : row.purpose = purpose.value
  unconsumed : row.consumedAt = none
  attempts : row.attempts < settings.challengeAttempts
  live : ∃ instant, ReadAt c instant ∧ instant < row.expiresAt
  code : codeDigest sv.hmac row r.code settings = some row.codeHash

/-- A commit that consumes a challenge. -/
theorem ChallengeChange.consumes (h : ChallengeChange settings c db call)
    {id : UUID} (hbefore : ¬ db.Consumed id) (hafter : Db.Consumed (c.view db) id) :
    ∃ r row purpose, r.challengeId = id ∧ Accepted settings c db row r purpose ∧
      Completes sv db (c.view db) row call r purpose := by
  obtain ⟨x, hx, hconsumed⟩ := hafter
  cases h with
  | same _ hview => exact absurd ⟨x, hview id ▸ hx, hconsumed⟩ hbefore
  | @counted row hguess hview =>
    rw [hview] at hx
    split at hx
    case isTrue heq =>
      cases hx
      exact absurd ⟨row, heq ▸ hguess.there, hconsumed⟩ hbefore
    case isFalse => exact absurd ⟨x, hx, hconsumed⟩ hbefore
  | issued _ hissues hview =>
    rw [hview] at hx
    split at hx
    case isTrue =>
      cases hx
      simp [hissues.unconsumed] at hconsumed
    case isFalse =>
      exact absurd ⟨x, (Option.ite_none_left_eq_some.1 hx).2, hconsumed⟩ hbefore
  | @consumed r row purpose _ _ hcompletes hchecked hrow hview =>
    rw [hview] at hx
    split at hx
    case isTrue heq =>
      obtain ⟨reading, hreading, hlive⟩ := hchecked.live
      refine ⟨r, row, purpose, hchecked.key.symm.trans heq.symm, ?_, hcompletes⟩
      exact
        { there := hchecked.key ▸ hrow, purpose := hchecked.purpose
          unconsumed := hchecked.unconsumed, attempts := hchecked.attempts
          live := ⟨_, ⟨reading, hreading, rfl⟩, hlive⟩, code := hchecked.code }
    case isFalse => exact absurd ⟨x, hx, hconsumed⟩ hbefore

/-- An account change of a registration or a reset consumes its challenge. -/
theorem consumed_of_written {row : EmailChallenge} {t : Time} {n : Nat} (h : core c.buf = ops)
    (hon : on .challenges ops = [.setConsumed row.id t, .setAttempts row.id n])
    (hrow : db.challenge row.id = some row) (hnone : row.consumedAt = none) :
    ¬ db.Consumed row.id ∧ Db.Consumed (c.view db) row.id := by
  refine ⟨fun ⟨x, hx, hconsumed⟩ => ?_, ?_⟩
  · rw [hrow] at hx
    cases hx
    simp [hnone] at hconsumed
  · exact ⟨_, by rw [view_challenge_consumed h hon hrow, if_pos rfl], rfl⟩

theorem Commits.registration_consumes {r : CompleteRequest} {id : UUID}
    (h : Commits sv settings (.completeRegistration r) c db) (hv : db.AdminsVerified)
    (hs : c.Sees db) (hnone : db.user id = none) (hnew : Db.user (c.view db) id ≠ none) :
    ¬ db.Consumed r.challengeId ∧ Db.Consumed (c.view db) r.challengeId := by
  obtain ⟨-, ⟨row, hguess⟩ | ⟨-, hexit⟩⟩ := h
  · rw [view_user_eq hguess.buf rfl] at hnew
    exact absurd hnone hnew
  · cases hexit with
    | nothing hbuf =>
      rw [view_user_eq hbuf rfl] at hnew
      exact absurd hnone hnew
    | issued _ _ hbegins => cases hbegins
    | registered hbuf hchecked =>
      have hrow := hchecked.sure db hv hs
      rw [← hchecked.key] at hrow ⊢
      exact consumed_of_written hbuf rfl hrow hchecked.unconsumed

theorem Commits.reset_consumes {r : CompleteRequest} {cid hash : String} {id : UUID}
    (h : Commits sv settings (.completeReset r cid) c db) (hv : db.AdminsVerified)
    (hs : c.Sees db) (hset : .setPassword id hash ∈ c.buf) :
    ¬ db.Consumed r.challengeId ∧ Db.Consumed (c.view db) r.challengeId := by
  have hcore : Op.setPassword id hash ∈ core c.buf := (mem_core rfl).2 hset
  obtain ⟨-, ⟨row, hguess⟩ | ⟨-, hexit⟩⟩ := h
  · rw [hguess.buf] at hcore
    simp at hcore
  · cases hexit with
    | nothing hbuf =>
      rw [hbuf] at hcore
      cases hcore
    | issued _ _ hbegins => cases hbegins
    | reset hbuf hrevs hchecked =>
      have hrow := hchecked.sure db hv hs
      rw [← hchecked.key] at hrow ⊢
      exact consumed_of_written hbuf (on_reset hrevs) hrow hchecked.unconsumed

end

namespace Auth

section
variable {sv : Services} {settings : AuthSettings} {m n n' s : Sys sv} {tr : List (Act sv)}
  {i : Nat} {id : UUID}

/-- The step commits the challenge as consumed. -/
def Consumes (n n' : Sys sv) (id : UUID) : Prop := ¬ n.db.Consumed id ∧ n'.db.Consumed id

/-- A challenge whose identifier is spent was there before, and stays consumed. -/
theorem challenge_back (hg : Good sv settings n) {a : Act sv} (hstep : Step sv settings n a n')
    (hspent : n.Spent id) {x : EmailChallenge} (hx : n'.db.challenge id = some x) :
    ∃ y, n.db.challenge id = some y ∧
      (y.consumedAt.isSome = true → x.consumedAt.isSome = true) := by
  by_cases hc : ∃ i, a = .commit i
  · obtain ⟨i, rfl⟩ := hc
    obtain ⟨t, ht, hsees, hcommits, hdb⟩ := commit_exit hg hstep
    rw [hdb] at hx
    exact (hcommits.challenges hg.valid hsees).back (hspent.2 t (List.mem_of_getElem? ht)) hx
  · rw [hstep.db_eq fun i hi => hc ⟨i, hi⟩] at hx
    exact ⟨x, hx, fun h => h⟩

theorem run_challenge_back (hg : Good sv settings m) (hrun : Run sv settings m tr s)
    (hspent : m.Spent id) {x : EmailChallenge} (hx : s.db.challenge id = some x) :
    ∃ y, m.db.challenge id = some y ∧
      (y.consumedAt.isSome = true → x.consumedAt.isSome = true) := by
  induction hrun generalizing x with
  | nil => exact ⟨x, hx, fun h => h⟩
  | snoc hrun hstep ih =>
    have hspent' := hrun.invariant (I := (·.Spent id)) (fun hs hstep => hstep.spent hs) hspent
    obtain ⟨y, hy, hxy⟩ := challenge_back (hg.forward hrun) hstep hspent' hx
    obtain ⟨z, hz, hyz⟩ := ih hy
    exact ⟨z, hz, fun h => hxy (hyz h)⟩

end

/-- **Challenges are single-use, bound to their purpose and atomic with the account change.** In
every run, over any interleaving and with threads that fail, roll back or crash at any point: a
challenge is committed as consumed at most once; whoever does so has brought its code for its
purpose, and found it before its expiry with attempts left; the same commit creates the verified
account with its credential, or replaces the password and revokes all sessions; and no registration
creates an account, and no reset replaces a password, without consuming its challenge. -/
theorem challenges_single_use (sv : Services) (settings : AuthSettings) {s₀ : Sys sv}
    (h0 : Initial s₀) :
    (∀ {tr tr' n n' k k' i j id}, Run sv settings s₀ tr n → Step sv settings n (.commit i) n' →
      Consumes n n' id → Run sv settings n' tr' k → Step sv settings k (.commit j) k' →
      ¬ Consumes k k' id) ∧
    (∀ {tr n n' i}, Run sv settings s₀ tr n → Step sv settings n (.commit i) n' →
      ∃ t, n.threads[i]? = some t ∧
        (∀ id, Consumes n n' id → ∃ r row purpose, r.challengeId = id ∧
          Accepted settings t.ctx n.db row r purpose ∧
          Completes sv n.db n'.db row t.call r purpose) ∧
        (∀ r userId, t.call = .completeRegistration r → n.db.user userId = none →
          n'.db.user userId ≠ none → Consumes n n' r.challengeId) ∧
        (∀ r cid userId hash, t.call = .completeReset r cid →
          .setPassword userId hash ∈ t.ctx.buf → Consumes n n' r.challengeId)) := by
  refine ⟨?_, ?_⟩
  · rintro tr tr' n n' k k' i j id hn hstep ⟨-, x, hx, hconsumed⟩ hrun hstep' ⟨hbefore, y, hy, -⟩
    have hg : Good sv settings n' := good_of_run h0 (hn.snoc hstep)
    have hspent : n'.Spent id := hg.spent (.inr (.inr (.inr (.inl (by simp [hx])))))
    -- the challenge is there in the state before the second commit, and consumed since the first
    have hspent' := hrun.invariant (I := (·.Spent id)) (fun hs hstep => hstep.spent hs) hspent
    obtain ⟨z, hz, -⟩ := challenge_back (hg.forward hrun) hstep' hspent' hy
    obtain ⟨x', hx', hstays⟩ := run_challenge_back hg hrun hspent hz
    obtain rfl : x' = x := Option.some.inj (hx'.symm.trans hx)
    exact hbefore ⟨z, hz, hstays hconsumed⟩
  · intro tr n n' i hn hstep
    have hg : Good sv settings n := good_of_run h0 hn
    obtain ⟨t, ht, hsees, hcommits, hdb⟩ := commit_exit hg hstep
    refine ⟨t, ht, ?_, ?_, ?_⟩
    · rintro id ⟨hbefore, hafter⟩
      rw [hdb] at hafter ⊢
      exact (hcommits.challenges hg.valid hsees).consumes hbefore hafter
    · intro r userId hcall hnone hnew
      rw [hcall] at hcommits
      rw [hdb] at hnew
      rw [Consumes, hdb]
      exact hcommits.registration_consumes hg.valid hsees hnone hnew
    · intro r cid userId hash hcall hset
      rw [hcall] at hcommits
      rw [Consumes, hdb]
      exact hcommits.reset_consumes hg.valid hsees hset

end Auth

namespace AuthFixture

/-- The database with her challenge. -/
def challenged : Db := { challenges := ⟨[challenge], by simp [Table.Keyed]⟩ }

/-- What she sends with a code. -/
def request (code : String) : CompleteRequest :=
  { challengeId := 3, code, password, breached := some false, correlationId := some "c-1" }

/-- The steps of her registration, up to its commit. -/
def registerActs : List (Auth.Act services) :=
  .start (.completeRegistration (request "951757")) :: steps 0 10 ++ [.draw 0 21] ++ steps 0 5 ++
    [.pick 0 "salt", .advance 0, .draw 0 22] ++ steps 0 3

/-- The system before the commit. -/
def registering : Auth.Sys services :=
  ((system challenged).execAll (Auth.code services keyed) registerActs).getD (system challenged)

/-- The system after it. -/
def registered : Auth.Sys services :=
  (registering.exec (Auth.code services keyed) (.commit 0)).getD registering

theorem registering_run : Auth.Run services keyed (system challenged) registerActs registering :=
  Sys.run_of_isSome (by decide +kernel)

theorem registered_step : Auth.Step services keyed registering (.commit 0) registered :=
  Sys.step_of_isSome rfl

theorem registered_consumes : Auth.Consumes registering registered 3 := by
  have hbefore : registering.db.challenge 3 = some challenge := rfl
  have hafter : registered.db.challenge 3 =
      some { challenge with attempts := 1, consumedAt := some 1 } := rfl
  refine ⟨fun ⟨x, hx, hconsumed⟩ => ?_, _, hafter, rfl⟩
  rw [hbefore] at hx
  cases hx
  cases hconsumed

end AuthFixture

/-- Her challenge is consumed with its code, by the registration that creates her account. -/
theorem Auth.challenges_single_use_registered :
    ∃ t, AuthFixture.registering.threads[0]? = some t ∧ ∃ r row purpose, r.challengeId = 3 ∧
      Accepted AuthFixture.keyed t.ctx AuthFixture.registering.db row r purpose ∧
      Completes AuthFixture.services AuthFixture.registering.db AuthFixture.registered.db row t.call r
        purpose := by
  obtain ⟨t, ht, hconsumes, -⟩ := (Auth.challenges_single_use AuthFixture.services AuthFixture.keyed
    (AuthFixture.system_initial (by decide))).2 AuthFixture.registering_run
    AuthFixture.registered_step
  exact ⟨t, ht, hconsumes 3 AuthFixture.registered_consumes⟩

end Ekumidayomi
