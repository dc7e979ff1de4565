import Ekumidayomi.Auth.Guesses
import Ekumidayomi.Auth.EmailHandler
import Ekumidayomi.Auth.Initiation
import Ekumidayomi.Auth.Schemas

/-!
# The emailed code verifies

A challenge is issued, mailed and verified by processes that have their own settings. Each derives
what it needs from the identifier and the purpose of the row and the key of its version: the code
that is mailed (`mailedCode`) and the digest that is compared. So whatever the active key has
become, the mailed code is the one whose digest was stored, as long as the settings map the version
of the row to the same key (`emailed_code_verifies`). The identity services run here with settings
for each call (`Processes`).
-/

namespace Ekumidayomi

open Transact

/-! ## Codes -/

section
variable {hmac : Bytes → Bytes → Bytes} {settings : AuthSettings} {row : EmailChallenge}
  {purpose : ChallengePurpose} {key : Bytes} {id : UUID} {code code' : String}

/-- The message whose digest the code is made of. -/
def deliverMessage (id : UUID) (purpose : ChallengePurpose) : Bytes :=
  encode ("deliver:" ++ uuidStr id ++ ":" ++ purpose.value)

/-- The message whose digest is stored. -/
def verifyMessage (id : UUID) (purpose : ChallengePurpose) (code : String) : Bytes :=
  encode ("verify:" ++ uuidStr id ++ ":" ++ purpose.value ++ ":" ++ code)

/-- The code of a challenge under a key. -/
def mailedCode (hmac : Bytes → Bytes → Bytes) (key : Bytes) (id : UUID)
    (purpose : ChallengePurpose) : String :=
  let digits := Nat.toDigits 10
    (Framing.ofBigEndian (hmac key (deliverMessage id purpose)) % 1000000)
  String.ofList (List.replicate (6 - digits.length) '0' ++ digits)

theorem deriveCode_eq (hpurpose : ChallengePurpose.ofValue row.purpose = some purpose)
    (hkey : keyBytes settings row.keyVersion = some key) :
    deriveCode hmac row settings = some (mailedCode hmac key row.id purpose) := by
  rw [deriveCode, hpurpose, hkey]
  rfl

theorem codeDigest_eq (hpurpose : ChallengePurpose.ofValue row.purpose = some purpose)
    (hkey : keyBytes settings row.keyVersion = some key) :
    codeDigest hmac row code settings =
      some (hexdigest (hmac key (verifyMessage row.id purpose code))) := by
  rw [codeDigest, hpurpose, hkey]
  rfl

/-- A version with a key is one of the configured names. -/
theorem contains_of_keyBytes {version : String} (hkey : keyBytes settings version = some key) :
    settings.challengeKeys.contains version = true := by
  obtain ⟨entry, hfind, -⟩ := Option.map_eq_some_iff.1 hkey
  exact List.any_eq_true.2 ⟨entry, List.mem_of_find?_eq_some hfind,
    by simpa using List.find?_some hfind⟩

/-- Different codes have different messages. -/
theorem verifyMessage_inj (h : verifyMessage id purpose code = verifyMessage id purpose code') :
    code = code' :=
  (String.append_right_inj _).1 (encode_inj h)

/-- A code is six digits. Residues below 100000 are padded. -/
theorem isCode_mailedCode : isCode (mailedCode hmac key id purpose) = true := by
  let residue := Framing.ofBigEndian (hmac key (deliverMessage id purpose)) % 1000000
  have hlength : (Nat.toDigits 10 residue).length ≤ 6 :=
    (Nat.length_toDigits_le_iff (by decide) (by decide)).2 (Nat.mod_lt _ (by decide))
  have hdigit : ∀ c ∈ Nat.toDigits 10 residue, isDigit c = true := by
    intro c hc
    have hc := Nat.isDigit_of_mem_toDigits (by decide) (by decide) hc
    simp only [Char.isDigit, isDigit, Bool.and_eq_true, decide_eq_true_eq] at hc ⊢
    exact ⟨hc.1, hc.2⟩
  rw [isCode, mailedCode, String.toList_ofList, Bool.and_eq_true, beq_iff_eq, List.length_append,
    List.length_replicate, List.all_eq_true]
  refine ⟨Nat.sub_add_cancel hlength, fun c hc => ?_⟩
  rcases List.mem_append.1 hc with hc | hc
  · rw [List.eq_of_mem_replicate hc]
    rfl
  · exact hdigit c hc

/-- A code is accepted in a body beside a challenge and a password. -/
theorem VerifyInput.validate_code {F : Type} {floats : Python.Floats F}
    {parse : String → Option UUID} {challengeId password : String}
    (hcode : isCode code = true) (hid : parse challengeId = some id)
    (hpassword : HasLength 15 128 password) :
    ∃ body, VerifyInput.validate floats parse (.dict [
        (.str (Unicode.ofString "challenge_id"), .str (Unicode.ofString challengeId)),
        (.str (Unicode.ofString "code"), .str (Unicode.ofString code)),
        (.str (Unicode.ofString "password"), .str (Unicode.ofString password))]) = some body ∧
      body.challengeId = id ∧ body.code = code := by
  refine ⟨{ challengeId := id, code, password := ⟨password, hpassword⟩, code_pattern := hcode },
    ?_, rfl, rfl⟩
  have hfields : modelFields floats ["challenge_id", "code", "password"] (.dict [
        (.str (Unicode.ofString "challenge_id"), .str (Unicode.ofString challengeId)),
        (.str (Unicode.ofString "code"), .str (Unicode.ofString code)),
        (.str (Unicode.ofString "password"), .str (Unicode.ofString password))]) =
      some [.str (Unicode.ofString challengeId), .str (Unicode.ofString code),
        .str (Unicode.ofString password)] := rfl
  rw [VerifyInput.validate, hfields]
  simp only [Option.bind_eq_bind, Option.bind_some, strField, boundedField,
    Unicode.asString_ofString, hid, hpassword, hcode, dif_pos]
  rfl

end

/-! ## Verification -/

section
variable {sv : Services} {settings : AuthSettings} {o : Oracle (schema sv)}
  {h h' : Here (schema sv)} {row x : EmailChallenge} {purpose : ChallengePurpose} {code : String}
  {cid : Option String}

/-- The program refuses. -/
theorem alone_refuseChallenge (o : Oracle (schema sv)) (h : Here (schema sv)) (α : Type) (id : UUID)
    (purpose : ChallengePurpose) (cid : Option String) :
    ∃ e h', (refuseChallenge sv id purpose cid : Tx sv α).alone o h = (.error e, h') := by
  obtain ⟨text, h₁, hcid, -, -⟩ := alone_correlation (o := o) (h := h) cid
  rw [refuseChallenge, Prog.alone_bind, hcid]
  dsimp only
  rw [Prog.alone_bind]
  cases hvalid : validCorrelationId text with
  | false => exact ⟨_, _, by rw [alone_record_refused hvalid]⟩
  | true => exact ⟨_, _, by rw [alone_record hvalid]; rfl⟩

/-- A challenge that is there is checked as it is. -/
theorem alone_consumeChallenge (hrow : Db.challenge h.view row.id = some row) :
    (consumeChallenge sv settings row.id code purpose cid).alone o h =
      (checkChallenge sv settings row code purpose cid).alone o h := by
  have hlocked : (forUpdate (·.challenge row.id) (.challenge row.id) : Tx sv _).alone o h =
      (.ok (some row), h) := by
    rw [forUpdate, Prog.alone_bind, alone_query, hrow]
    dsimp only
    rw [Prog.alone_bind, alone_lock]
    dsimp only
    rw [alone_query, hrow]
  rw [consumeChallenge, Prog.alone_bind, alone_query, hrow]
  dsimp only
  rw [lockEmail, Prog.alone_bind, alone_lock]
  dsimp only
  rw [Prog.alone_bind, hlocked]

/-- Before its expiry and with attempts left, a challenge is consumed with the code of its
digest. -/
theorem alone_checkChallenge (hpurpose : row.purpose = purpose.value) (hnew : row.consumedAt = none)
    (hlive : o.clock h.count < row.expiresAt) (hleft : row.attempts < settings.challengeAttempts)
    (hdigest : codeDigest sv.hmac row code settings = some row.codeHash) :
    ∃ h', (checkChallenge sv settings row code purpose cid).alone o h =
      (.ok { row with
        attempts := row.attempts + 1, consumedAt := some (o.clock (h.count + 1)) }, h') := by
  rw [checkChallenge, if_neg (by simp [hpurpose, hnew]), Prog.alone_bind, alone_utcNow]
  dsimp only
  rw [if_neg (by simp [Int.not_le.2 hlive, Nat.not_le.2 hleft]), Prog.alone_bind, alone_write]
  dsimp only
  rw [hdigest]
  dsimp only
  rw [if_neg (not_not.2 rfl)]
  exact ⟨_, rfl⟩

/-- A challenge is consumed with a code of its digest only. -/
theorem digest_of_alone_checkChallenge
    (haccept : (checkChallenge sv settings row code purpose cid).alone o h = (.ok x, h')) :
    codeDigest sv.hmac row code settings = some row.codeHash := by
  have hrefuse : ∀ h₁, (refuseChallenge sv row.id purpose cid : Tx sv _).alone o h₁ ≠
    (.ok x, h') := by
    intro h₁ hok
    obtain ⟨e, h₂, he⟩ := alone_refuseChallenge o h₁ EmailChallenge row.id purpose cid
    rw [he] at hok
    cases hok
  rw [checkChallenge] at haccept
  split at haccept
  · exact absurd haccept (hrefuse _)
  rw [Prog.alone_bind, alone_utcNow] at haccept
  dsimp only at haccept
  split at haccept
  · exact absurd haccept (hrefuse _)
  rw [Prog.alone_bind, alone_write] at haccept
  dsimp only at haccept
  cases hdigest : codeDigest sv.hmac row code settings with
  | none =>
    rw [hdigest] at haccept
    cases haccept
  | some computed =>
    rw [hdigest] at haccept
    dsimp only at haccept
    split at haccept
    · exact absurd haccept (hrefuse _)
    case isFalse heq => rw [Decidable.not_not.1 heq]

end

/-! ## Processes -/

namespace Processes

/-- The program of a call in a process with these settings. -/
def code (sv : Services) (process : AuthSettings × Call) : Tx sv AuthResult :=
  Auth.code sv process.1 process.2

/-- The identity services of any number of processes against one database. -/
abbrev Sys (sv : Services) := Transact.Sys (schema sv) (AuthSettings × Call) Error AuthResult

abbrev Step (sv : Services) := Transact.Step (S := schema sv) (code sv)

abbrev Run (sv : Services) := Lts.Run (Step sv)

/-- A system before its first call. -/
structure Initial {sv : Services} (s : Sys sv) : Prop where
  threads : s.threads = []
  admins : s.db.AdminsVerified
  drawn : ∀ id, s.db.Uses id → id ∈ s.drawn

abbrev Good {sv : Services} (s : Sys sv) : Prop :=
  Transact.Good (fun process => Commits sv process.1 process.2) Notes (fun _ _ _ => True)
    (fun _ => Fails) s

section
variable {sv : Services} {s₀ s s' m n : Sys sv}
  {tr : List (Transact.Act (schema sv) (AuthSettings × Call))}
  {i : Nat} {id : UUID} {x y : EmailChallenge}

theorem meets (sv : Services) (process : AuthSettings × Call) :
    wp (Commits sv process.1 process.2) Notes (fun _ _ => True) Fails (code sv process) {} :=
  code_meets sv process.1 process.2

theorem Good.forward (hg : Good s) (hrun : Run sv s tr s') : Good s' :=
  Transact.Good.run (meets sv) hg hrun

theorem good_of_run (h0 : Initial s₀) (hrun : Run sv s₀ tr s) : Good s :=
  Good.forward (.initial h0.threads h0.admins h0.drawn) hrun

/-- What a commit does to the challenges, under the settings of its process. -/
theorem commit_challenges (hg : Good s) (hstep : Step sv s (.commit i) s') :
    ∃ t, s.threads[i]? = some t ∧ t.ctx.Sees s.db ∧
      ChallengeChange t.call.1 t.ctx s.db t.call.2 ∧ s'.db = t.ctx.view s.db := by
  obtain ⟨t, ht, hcommits, hdb⟩ := Transact.Good.commit hg hstep
  have hsees := (hg.sound i t ht).sees
  exact ⟨t, ht, hsees, hcommits.challenges hg.valid hsees, hdb⟩

/-- A commit changes the counters of a challenge that it has not drawn, and nothing else of it. -/
theorem kept_of_change {settings : AuthSettings} {c : Ctx (schema sv)} {db : Db} {call : Call}
    (h : ChallengeChange settings c db call) (hid : id ∉ c.drawn)
    (hx : Db.challenge (c.view db) id = some x) :
    ∃ y, db.challenge id = some y ∧
      x = { y with attempts := x.attempts, consumedAt := x.consumedAt } := by
  cases h with
  | same _ hview => exact ⟨x, hview id ▸ hx, rfl⟩
  | @counted row hguess hview =>
    rw [hview] at hx
    split at hx
    case isTrue heq =>
      cases hx
      exact ⟨row, heq ▸ hguess.there, rfl⟩
    case isFalse => exact ⟨x, hx, rfl⟩
  | issued _ hissues hview =>
    rw [hview] at hx
    split at hx
    case isTrue heq => exact absurd hissues.drawn (heq ▸ hid)
    case isFalse => exact ⟨x, (Option.ite_none_left_eq_some.1 hx).2, rfl⟩
  | @consumed _ row _ _ _ _ _ hrow hview =>
    rw [hview] at hx
    split at hx
    case isTrue heq =>
      cases hx
      exact ⟨row, heq ▸ hrow, rfl⟩
    case isFalse => exact ⟨x, hx, rfl⟩

theorem step_kept (hg : Good n) {a : Transact.Act (schema sv) (AuthSettings × Call)}
    (hstep : Step sv n a s) (hspent : n.Spent id) (hx : s.db.challenge id = some x) :
    ∃ y, n.db.challenge id = some y ∧
      x = { y with attempts := x.attempts, consumedAt := x.consumedAt } := by
  by_cases hc : ∃ i, a = .commit i
  · obtain ⟨i, rfl⟩ := hc
    obtain ⟨t, ht, -, hchange, hdb⟩ := commit_challenges hg hstep
    rw [hdb] at hx
    exact kept_of_change hchange (hspent.2 t (List.mem_of_getElem? ht)) hx
  · rw [hstep.db_eq fun i hi => hc ⟨i, hi⟩] at hx
    exact ⟨x, hx, rfl⟩

/-- A challenge whose identifier is spent was there before, with the same code. -/
theorem run_kept (hg : Good n) (hrun : Run sv n tr m) (hspent : n.Spent id)
    (hx : m.db.challenge id = some x) :
    ∃ y, n.db.challenge id = some y ∧
      x = { y with attempts := x.attempts, consumedAt := x.consumedAt } := by
  induction hrun generalizing x with
  | nil => exact ⟨x, hx, rfl⟩
  | snoc hrun hstep ih =>
    have hspent' := hrun.invariant (I := (·.Spent id)) (fun hs hstep => hstep.spent hs) hspent
    obtain ⟨y, hy, hxy⟩ := step_kept (hg.forward hrun) hstep hspent' hx
    obtain ⟨z, hz, hyz⟩ := ih hy
    refine ⟨z, hz, ?_⟩
    rw [hyz] at hxy
    exact hxy

/-- A challenge that a commit brings in has the code of its digest, under the active key of the
process. -/
theorem issued_coded (hg : Good n) (hstep : Step sv n (.commit i) s)
    (hnew : n.db.challenge id = none) (hx : s.db.challenge id = some x) :
    ∃ t, n.threads[i]? = some t ∧ Coded sv.hmac t.call.1 x := by
  obtain ⟨t, ht, -, hchange, hdb⟩ := commit_challenges hg hstep
  have hid : x.id = id := Store.key_of_get hx
  subst hid
  obtain ⟨deleted, hissues⟩ := hchange.inserted hnew (hdb ▸ hx)
  exact ⟨t, ht, hissues.coded⟩

end

end Processes

/-! ## The mailed code -/

/-- The text of a challenge email. -/
def emailText (purpose : ChallengePurpose) (code : String) : String :=
  "Your " ++ purpose.words ++ " code is " ++ code ++ ".\n" ++
    "It expires shortly. If you did not request it, ignore this message."

/-- The text of a challenge email is short. -/
theorem lengthIn_emailText {purpose : ChallengePurpose} {code : String}
    (hcode : isCode code = true) : lengthIn 1 131072 (emailText purpose code) = true := by
  rw [isCode, Bool.and_eq_true, beq_iff_eq] at hcode
  simp only [emailText, lengthIn, String.toList_append, List.length_append, hcode.1]
  cases purpose <;> decide

section
variable {emailStr : String → Option String} {casefold : String → String}
  {hmac : Bytes → Bytes → Bytes} {settings : AuthSettings} {row : EmailChallenge}
  {purpose : ChallengePurpose} {key : Bytes} {deliveryId : UUID} {code address again : String}

/-- The email of a challenge. -/
def challengeEmail (deliveryId : UUID) (address : String) (purpose : ChallengePurpose)
    (code : String) : OutgoingEmail :=
  { deliveryId, recipients := [address], subject := challengeSubject purpose
    textBody := emailText purpose code }

/-- It is valid where its address is accepted. -/
theorem validate_challengeEmail (haddress : emailStr address = some again)
    (hcode : isCode code = true) :
    (challengeEmail deliveryId address purpose code).validate emailStr casefold =
      some (challengeEmail deliveryId again purpose code) := by
  have hsubject : (lengthIn 1 200 (challengeSubject purpose) &&
      !(strip isSpace (challengeSubject purpose).toList).isEmpty &&
      (challengeSubject purpose).toList.all fun c => c ≠ '\r' && c ≠ '\n' && c.toNat ≠ 0) = true := by
    cases purpose <;> rfl
  simp only [challengeEmail, OutgoingEmail.validate, List.mapM_cons, List.mapM_nil, haddress,
    hsubject, lengthIn_emailText hcode]
  rfl

/-- The email is built where the key of its version is configured. -/
theorem buildEmail_eq (hpurpose : ChallengePurpose.ofValue row.purpose = some purpose)
    (hkey : keyBytes settings row.keyVersion = some key)
    (haddress : emailStr row.email = some address) :
    buildEmail emailStr casefold hmac settings row deliveryId =
      some (challengeEmail deliveryId address purpose (mailedCode hmac key row.id purpose)) := by
  rw [buildEmail, hpurpose, deriveCode_eq hpurpose hkey]
  exact validate_challengeEmail haddress isCode_mailedCode

/-- The one request of the email. -/
def challengeRequest (resend : ResendSettings) (deliveryId : UUID) (address : String)
    (purpose : ChallengePurpose) (code : String) : EmailRequest :=
  { key := String.ofList (requestKeyChars deliveryId 0)
    body := emailBody resend.sender address (challengeSubject purpose) (emailText purpose code)
      none }

/-- Its body fits where the texts in it are short. -/
theorem length_challengeRequest_lt {resend : ResendSettings}
    (h : 24 * (resend.sender.toList.length + address.toList.length +
      (challengeSubject purpose).toList.length + (emailText purpose code).toList.length) + 256 <
        256 ^ 8) :
    (challengeRequest resend deliveryId address purpose code).body.length < 256 ^ 8 := by
  have hle := length_emailBody_le resend.sender address (challengeSubject purpose)
    (emailText purpose code)
  dsimp only [challengeRequest]
  omega

theorem emailRequests_challengeEmail (resend : ResendSettings) :
    emailRequests resend (challengeEmail deliveryId address purpose code) =
      [challengeRequest resend deliveryId address purpose code] := by
  simp only [emailRequests, challengeEmail, List.mapIdx_cons, List.mapIdx_nil, challengeRequest]

end

/-- Two different messages have one digest under the key. -/
def Collision (hmac : Bytes → Bytes → Bytes) (key message message' : Bytes) : Prop :=
  message ≠ message' ∧ hmac key message = hmac key message'

/-- What the settings of any process that map the version of the row to `key` make of the challenge
in the database `db`: an email that is prepared has the code in its text, one is prepared while the
challenge is live and its address is accepted, and the code is what consumes the challenge. -/
structure Verifies (sv : Services) (key : Bytes) (purpose : ChallengePurpose) (code : String)
    (row : EmailChallenge) (db : Db) : Prop where
  purposed : row.purpose = purpose.value
  mailed : ∀ later, keyBytes later row.keyVersion = some key →
    ∀ (emailStr : String → Option String) (casefold : String → String) (resend : ResendSettings)
      (now : Time) (event : DomainEvent) (prepared : PreparedDelivery EmailSubmission),
      challengeOf event = some row.id →
      AuthChallengeEmailHandler.prepare emailStr casefold sv.hmac later resend db.challenge now
        event = some (.prepared prepared) →
      ∃ outgoing, outgoing.textBody = emailText purpose code ∧
        ResendEmailSender.prepare emailStr casefold sv.hmac resend outgoing = some prepared.payload
  prepares : ∀ later, keyBytes later row.keyVersion = some key →
    ∀ (emailStr : String → Option String) (casefold : String → String) (resend : ResendSettings)
      (now : Time) (event : DomainEvent) (address again : String),
      challengeOf event = some row.id → row.consumedAt = none → now < row.expiresAt →
      emailStr row.email = some address → emailStr address = some again →
      (challengeRequest resend event.eventId again purpose code).body.length < 256 ^ 8 →
      ∃ prepared, AuthChallengeEmailHandler.prepare emailStr casefold sv.hmac later resend
          db.challenge now event = some (.prepared prepared) ∧
        prepared.payload.requests = [challengeRequest resend event.eventId again purpose code]
  consumes : ∀ later, keyBytes later row.keyVersion = some key →
    ∀ (cid : Option String) (o : Oracle (schema sv)) (h : Here (schema sv)),
      Db.challenge h.view row.id = some row → row.consumedAt = none →
      o.clock h.count < row.expiresAt → row.attempts < later.challengeAttempts →
      ∃ h', (consumeChallenge sv later row.id code purpose cid).alone o h = (.ok { row with
        attempts := row.attempts + 1, consumedAt := some (o.clock (h.count + 1)) }, h')
  others : ∀ later, keyBytes later row.keyVersion = some key →
    ∀ (other : String) (purpose' : ChallengePurpose) (cid : Option String) (o : Oracle (schema sv))
      (h h' : Here (schema sv)) (x : EmailChallenge), Db.challenge h.view row.id = some row →
      (consumeChallenge sv later row.id other purpose' cid).alone o h = (.ok x, h') →
      other = code ∨
        Collision sv.hmac key (verifyMessage row.id purpose other) (verifyMessage row.id purpose code)

/-- A row whose digest is that of its code verifies with the code. -/
theorem verifies_of_digest {sv : Services} {key : Bytes} {row : EmailChallenge} {db : Db}
    {purpose : ChallengePurpose} (hpurpose : ChallengePurpose.ofValue row.purpose = some purpose)
    (hdigest : row.codeHash = hexdigest (sv.hmac key
      (verifyMessage row.id purpose (mailedCode sv.hmac key row.id purpose))))
    (hrow : db.challenge row.id = some row) :
    Verifies sv key purpose (mailedCode sv.hmac key row.id purpose) row db where
  purposed := ChallengePurpose.eq_value hpurpose
  mailed := by
    intro later hkey emailStr casefold resend now event prepared hevent hprepared
    simp only [AuthChallengeEmailHandler.prepare, hevent, hrow] at hprepared
    split at hprepared
    · cases hprepared
    split at hprepared
    · cases hprepared
    split at hprepared
    · cases hprepared
    obtain ⟨snapshot, hmail, hprepared⟩ := Option.bind_eq_some_iff.1 hprepared
    obtain ⟨submission, hsubmission, hprepared⟩ := Option.bind_eq_some_iff.1 hprepared
    cases hprepared
    rw [buildEmail, hpurpose, deriveCode_eq hpurpose hkey] at hmail
    simp only [Option.bind_eq_bind, Option.bind_some] at hmail
    obtain ⟨recipients, rfl⟩ := OutgoingEmail.of_validate hmail
    exact ⟨_, rfl, hsubmission⟩
  prepares := by
    intro later hkey emailStr casefold resend now event address again hevent hnew hlive haddress
      hagain hfits
    have hvalid : (challengeEmail event.eventId address purpose
        (mailedCode sv.hmac key row.id purpose)).validate emailStr casefold = some _ :=
      validate_challengeEmail hagain isCode_mailedCode
    obtain ⟨bytes, hbytes⟩ : ∃ bytes, canonical (emailRequests resend (challengeEmail event.eventId
        again purpose (mailedCode sv.hmac key row.id purpose))) = some bytes := by
      refine ⟨_, canonical_eq_some fun q hq => ?_⟩
      rw [emailRequests_challengeEmail, List.mem_singleton] at hq
      exact hq ▸ hfits
    have hsubmission : ResendEmailSender.prepare emailStr casefold sv.hmac resend _ = some _ :=
      ResendEmailSender.prepare_eq hvalid hbytes
    refine ⟨_, AuthChallengeEmailHandler.prepare_eq hevent hrow ?_ (by simp [hpurpose])
      (by simp [contains_of_keyBytes hkey]) (buildEmail_eq hpurpose hkey haddress) hsubmission,
      emailRequests_challengeEmail resend⟩
    simp [hnew, hlive]
  consumes := by
    intro later hkey cid o h hthere hnew hlive hleft
    rw [alone_consumeChallenge hthere]
    refine alone_checkChallenge (ChallengePurpose.eq_value hpurpose) hnew hlive hleft ?_
    rw [codeDigest_eq hpurpose hkey, hdigest]
  others := by
    intro later hkey other purpose' cid o h h' x hthere haccept
    rw [alone_consumeChallenge hthere] at haccept
    have haccepted := digest_of_alone_checkChallenge haccept
    rw [codeDigest_eq hpurpose hkey, hdigest] at haccepted
    have hdigests := hexdigest_inj (Option.some.inj haccepted)
    by_cases hsame : other = mailedCode sv.hmac key row.id purpose
    · exact .inl hsame
    · exact .inr ⟨fun hmessages => hsame (verifyMessage_inj hmessages), hdigests⟩

/-- **The emailed code verifies.** In every run of processes with any settings, a challenge that a
commit brings in has the code that its process derives, of six digits that the body of a
verification accepts. Whatever settings are in force later, while they map the version of the
challenge to the key it was issued under: an email that is prepared for the challenge has the code in
its text, and one is prepared while the challenge is live and its address is accepted; the code
consumes the challenge for its purpose, before its expiry and with attempts left; and no other code
does, unless its message and that of the code have one digest. -/
theorem emailed_code_verifies (sv : Services) {s₀ n n' : Processes.Sys sv}
    {tr : List (Transact.Act (schema sv) (AuthSettings × Call))} {i : Nat} {id : UUID}
    {issued : EmailChallenge} (h0 : Processes.Initial s₀) (hrun : Processes.Run sv s₀ tr n)
    (hissue : Processes.Step sv n (.commit i) n') (hnew : n.db.challenge id = none)
    (hissued : n'.db.challenge id = some issued) :
    ∃ t key purpose code, n.threads[i]? = some t ∧
      storedText 32 t.call.1.activeChallengeKey = some issued.keyVersion ∧
      keyBytes t.call.1 t.call.1.activeChallengeKey = some key ∧
      deriveCode sv.hmac (issued.named t.call.1) t.call.1 = some code ∧ isCode code = true ∧
      (∀ {F : Type} (floats : Python.Floats F) (parse : String → Option UUID)
        (challengeId password : String), parse challengeId = some id →
        HasLength 15 128 password → ∃ body, VerifyInput.validate floats parse (.dict [
          (.str (Unicode.ofString "challenge_id"), .str (Unicode.ofString challengeId)),
          (.str (Unicode.ofString "code"), .str (Unicode.ofString code)),
          (.str (Unicode.ofString "password"), .str (Unicode.ofString password))]) = some body ∧
        body.challengeId = id ∧ body.code = code) ∧
      ∀ {tr' m row}, Processes.Run sv n' tr' m → m.db.challenge id = some row →
        row.keyVersion = issued.keyVersion ∧ Verifies sv key purpose code row m.db := by
  have hg := Processes.good_of_run h0 hrun
  have hg' := hg.step (Processes.meets sv) hissue
  obtain ⟨t, ht, hcoded⟩ := Processes.issued_coded hg hissue hnew hissued
  have hid : issued.id = id := Store.key_of_get hissued
  have hspent : n'.Spent id := hg'.spent (.inr (.inr (.inr (.inl (by rw [hissued]; nofun)))))
  obtain ⟨code, hcode, hdigest⟩ := Option.bind_eq_some_iff.1 hcoded.digest
  obtain ⟨purpose, hpurpose, hderived⟩ := Option.bind_eq_some_iff.1 hcode
  obtain ⟨key, hkey, -⟩ := Option.bind_eq_some_iff.1 hderived
  obtain rfl : mailedCode sv.hmac key issued.id purpose = code :=
    Option.some.inj ((deriveCode_eq hpurpose hkey).symm.trans hcode)
  rw [codeDigest_eq hpurpose hkey] at hdigest
  have hhash : issued.codeHash = hexdigest (sv.hmac key (verifyMessage issued.id purpose
    (mailedCode sv.hmac key issued.id purpose))) := (Option.some.inj hdigest).symm
  refine ⟨t, key, purpose, mailedCode sv.hmac key issued.id purpose, ht, hcoded.version, hkey, hcode,
    isCode_mailedCode, ?_, ?_⟩
  · intro F floats parse challengeId password hparse hpassword
    exact VerifyInput.validate_code isCode_mailedCode hparse hpassword
  · intro tr' m row hlater hrow
    obtain ⟨y, hy, hkept⟩ := Processes.run_kept hg' hlater hspent hrow
    obtain rfl : issued = y := Option.some.inj (hissued.symm.trans hy)
    have hrowid : row.id = issued.id := by rw [hkept]
    have hrowhash : row.codeHash = issued.codeHash := by rw [hkept]
    have hrowpurpose : row.purpose = issued.purpose := by rw [hkept]
    refine ⟨by rw [hkept], ?_⟩
    rw [← hrowid]
    refine verifies_of_digest (hrowpurpose ▸ hpurpose) ?_ ?_
    · rw [hrowhash, hrowid, hhash]
    · rw [hrowid, hid, hrow]

namespace MailFixture

open AuthFixture

/-- The digest that the code of the challenge 3 is made of, under the key of `keyed`. -/
def deliverMac : Bytes :=
  [254, 111, 50, 73, 232, 199, 40, 4, 239, 165, 19, 235, 199, 67, 29, 200, 106, 25, 126, 201, 128,
    126, 141, 64, 66, 147, 27, 150, 139, 111, 247, 77]

/-- The services as they answer on what is mailed too. -/
def mailServices : Services :=
  { services with hmac := fun key message =>
      if message = deliverMessage 3 .registration then deliverMac else services.hmac key message }

/-- The steps of a call to the commit that issues the challenge 3. -/
def issueActs : List (Transact.Act (schema mailServices) (AuthSettings × Call)) :=
  [.start (keyed, .beginRegistration address none), .draw 0 10, .draw 0 11, .advance 0, .draw 0 12] ++
    List.replicate 6 (.advance 0) ++ [.draw 0 3, .draw 0 13, .advance 0, .advance 0, .draw 0 14] ++
    List.replicate 5 (.advance 0)

/-- The system before the first call. -/
def idle : Processes.Sys mailServices := { db := {}, clock := 1 }

/-- The system before the commit. -/
def issuing : Processes.Sys mailServices :=
  (idle.execAll (Processes.code mailServices) issueActs).getD idle

/-- The system after it. -/
def mailed : Processes.Sys mailServices :=
  (issuing.exec (Processes.code mailServices) (.commit 0)).getD issuing

/-- The challenge of the commit. -/
def issued : EmailChallenge :=
  { AuthFixture.challenge with createdAt := 1, expiresAt := 1 + seconds 600 }

theorem idle_initial : Processes.Initial idle where
  threads := rfl
  admins := nofun
  drawn := by
    rintro id (h | h | h | h | h) <;> exact absurd rfl h

/-- The steps can be taken, and the commit after them. -/
theorem steps_isSome : (idle.execAll (Processes.code mailServices) issueActs).isSome = true ∧
    (issuing.exec (Processes.code mailServices) (.commit 0)).isSome = true := by
  decide +kernel

theorem issuing_run : Processes.Run mailServices idle issueActs issuing :=
  Sys.run_of_isSome steps_isSome.1

theorem mailed_step : Processes.Step mailServices issuing (.commit 0) mailed :=
  Sys.step_of_isSome steps_isSome.2

/-- The event that the commit announces it with. -/
def mailEvent : DomainEvent :=
  { eventId := 13, eventType := challengeEmailEvent, aggregateType := "email_challenge"
    aggregateId := 3, aggregateVersion := 1, occurredAt := 1
    payload := [("challenge_id", .str (Unicode.ofString (uuidStr 3)))] }

/-- The settings of the provider. -/
def resend : ResendSettings :=
  { sender := "shop@example.com", fingerprintKey := "ffffffffffffffffffffffffffffffff" }

theorem challengeOf_mailEvent : challengeOf mailEvent = some 3 := by
  rfl

theorem short_request :
    (challengeRequest resend 13 address .registration "951757").body.length < 256 ^ 8 :=
  length_challengeRequest_lt (by decide)

/-- Draws for a verification that runs alone, one second after the email. -/
def oracle : Oracle (schema mailServices) :=
  { clock := fun _ => seconds 1, id := fun n => BitVec.ofNat 128 (20 + n), text := fun _ => "" }

end MailFixture

open MailFixture in
/-- The challenge of a registration is mailed with its code once it has been committed, that code
consumes it, and zeros do not. -/
theorem emailed_code_verifies_registration :
    (∃ prepared, AuthChallengeEmailHandler.prepare some (fun s => s) mailServices.hmac
        AuthFixture.keyed resend mailed.db.challenge 2 mailEvent = some (.prepared prepared) ∧
      prepared.payload.requests =
        [challengeRequest resend 13 AuthFixture.address .registration "951757"]) ∧
    (∃ x h', (consumeChallenge mailServices AuthFixture.keyed 3 "951757" .registration none).alone
      oracle { db := mailed.db } = (.ok x, h')) ∧
    ∀ x h', (consumeChallenge mailServices AuthFixture.keyed 3 "000000" .registration none).alone
      oracle { db := mailed.db } ≠ (.ok x, h') := by
  have hnew : issuing.db.challenge 3 = none := by decide +kernel
  have hissued : mailed.db.challenge 3 = some issued := by decide +kernel
  obtain ⟨t, key, purpose, code, ht, -, hkey, hcode, -, -, hverifies⟩ := emailed_code_verifies
    mailServices idle_initial issuing_run mailed_step hnew hissued
  obtain ⟨-, hverifies⟩ := hverifies .nil hissued
  -- the call was started with the settings of the fixture
  have hsettings : t.call.1 = AuthFixture.keyed := by
    rcases run_calls issuing_run (List.mem_of_getElem? ht) with ⟨u, hu, -⟩ | hstart
    · cases hu
    · simp only [issueActs, List.mem_append, List.mem_cons, List.mem_replicate, List.not_mem_nil,
        Transact.Act.start.injEq, reduceCtorEq, and_false, or_false] at hstart
      rw [hstart]
  rw [hsettings] at hkey hcode
  obtain rfl : "951757" = code := by
    have hderived : deriveCode mailServices.hmac (issued.named AuthFixture.keyed) AuthFixture.keyed =
        some "951757" := by decide +kernel
    exact Option.some.inj (hderived.symm.trans hcode)
  obtain rfl : .registration = purpose := by
    have hpurpose : ChallengePurpose.registration.value = purpose.value := hverifies.purposed
    cases purpose
    · rfl
    · exact absurd hpurpose (by decide)
  refine ⟨?_, ?_, ?_⟩
  · exact hverifies.prepares AuthFixture.keyed hkey some (fun s => s) resend 2 mailEvent
      AuthFixture.address AuthFixture.address challengeOf_mailEvent rfl (by decide) rfl rfl
      short_request
  · obtain ⟨h', hok⟩ := hverifies.consumes AuthFixture.keyed hkey none oracle { db := mailed.db }
      hissued rfl (by decide) (by decide)
    exact ⟨_, h', hok⟩
  · intro x h' hok
    rcases hverifies.others AuthFixture.keyed hkey "000000" .registration none oracle
      { db := mailed.db } h' x hissued hok with hsame | ⟨-, hdigests⟩
    · exact absurd hsame (by decide)
    · have hapart : mailServices.hmac [] (verifyMessage 3 .registration "000000") ≠
          mailServices.hmac [] (verifyMessage 3 .registration "951757") := by decide +kernel
      exact hapart hdigests

end Ekumidayomi
