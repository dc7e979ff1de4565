import Ekumidayomi.Auth.Challenge
import Ekumidayomi.Email.Resend
import Ekumidayomi.Outbox.LeasedWorker

/-!
# The handler of challenge emails

`auth/email_handler.py`. What `prepare` reads besides the event is an argument: the challenge that
its transaction finds under an identifier, the clock, and the settings of the process, which may be
others at the next attempt.
-/

namespace Ekumidayomi

section
variable (emailStr : String → Option String) (casefold : String → String)
  (hmac : Bytes → Bytes → Bytes)

/-- The subject of a challenge email. -/
def challengeSubject : ChallengePurpose → String
  | .registration => "Ẹkúmidáyọ̀mí verification code"
  | .passwordReset => "Ẹkúmidáyọ̀mí password reset code"

/-- `purpose.value.replace("_", " ")`. -/
def ChallengePurpose.words (purpose : ChallengePurpose) : String :=
  String.ofList (purpose.value.toList.map fun c => if c = '_' then ' ' else c)

/-- `_build_email`; `none` when the code cannot be derived or the message is not valid. -/
def buildEmail (settings : AuthSettings) (challenge : EmailChallenge) (deliveryId : UUID) :
    Option OutgoingEmail := do
  let purpose ← ChallengePurpose.ofValue challenge.purpose
  let code ← deriveCode hmac challenge settings
  OutgoingEmail.validate emailStr casefold
    { deliveryId
      recipients := [challenge.email]
      subject := challengeSubject purpose
      textBody := "Your " ++ purpose.words ++ " code is " ++ code ++ ".\n" ++
        "It expires shortly. If you did not request it, ignore this message." }

/-- The challenge a well-formed event names. -/
def challengeOf (event : DomainEvent) : Option UUID :=
  match event.payload.find? (·.1 = "challenge_id") with
  | some (_, .str raw) =>
    match (Unicode.asString raw).bind parseUUID with
    | some id =>
      if event.eventType ≠ challengeEmailEvent ∨ event.aggregateType ≠ "email_challenge" ∨
          event.aggregateId ≠ id then none
      else some id
    | none => none
  | _ => none

/-- `AuthChallengeEmailHandler.prepare`; `none` when it raises. -/
def AuthChallengeEmailHandler.prepare (settings : AuthSettings) (resend : ResendSettings)
    (challenge : UUID → Option EmailChallenge) (now : Time) (event : DomainEvent) :
    Option (Preparation EmailSubmission) :=
  match challengeOf event with
  | none => some (.outcome { kind := .permanent, code := "invalid_challenge_event" })
  | some id =>
    match challenge id with
    | none => some (.outcome { kind := .skipped, code := "challenge_unavailable" })
    | some row =>
      if row.consumedAt.isSome ∨ row.expiresAt ≤ now then
        some (.outcome { kind := .skipped, code := "challenge_unavailable" })
      else if (ChallengePurpose.ofValue row.purpose).isNone then
        some (.outcome { kind := .permanent, code := "invalid_challenge_purpose" })
      else if !settings.challengeKeys.contains row.keyVersion then
        some (.outcome { kind := .blocked, code := "challenge_key_missing" })
      else do
        let outgoing ← buildEmail emailStr casefold hmac settings row event.eventId
        let submission ← ResendEmailSender.prepare emailStr casefold hmac resend outgoing
        return .prepared
          { payload := submission, fingerprint := submission.fingerprint
            expiresAt := row.expiresAt }

variable {emailStr casefold hmac} in
/-- A challenge that can still be used is delivered. -/
theorem AuthChallengeEmailHandler.prepare_eq {settings : AuthSettings} {resend : ResendSettings}
    {challenge : UUID → Option EmailChallenge} {now : Time} {event : DomainEvent} {id : UUID}
    {row : EmailChallenge} {outgoing : OutgoingEmail} {submission : EmailSubmission}
    (hid : challengeOf event = some id) (hrow : challenge id = some row)
    (hready : ¬ (row.consumedAt.isSome ∨ row.expiresAt ≤ now))
    (hpurpose : ¬ (ChallengePurpose.ofValue row.purpose).isNone)
    (hversion : ¬ (!settings.challengeKeys.contains row.keyVersion))
    (hmail : buildEmail emailStr casefold hmac settings row event.eventId = some outgoing)
    (hsub : ResendEmailSender.prepare emailStr casefold hmac resend outgoing = some submission) :
    AuthChallengeEmailHandler.prepare emailStr casefold hmac settings resend challenge now event =
      some (.prepared ⟨submission, submission.fingerprint, row.expiresAt⟩) := by
  simp only [AuthChallengeEmailHandler.prepare, hid, hrow]
  rw [if_neg hready, if_neg hpurpose, if_neg hversion, hmail]
  simp only [Option.bind_eq_bind, Option.bind_some, hsub]
  rfl

end

end Ekumidayomi
