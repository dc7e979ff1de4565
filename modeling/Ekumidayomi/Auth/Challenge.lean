import Ekumidayomi.Text
import Ekumidayomi.Lib.Framing

/-!
# Email challenges and their codes

The policy of `auth/settings.py`, the rows of `auth/challenge_model.py` and the two texts of
`auth/challenges.py` that depend on a key: the code that is mailed and the digest that is stored.
`hmac` is HMAC-SHA256.
-/

namespace Ekumidayomi

/-- `ChallengePurpose`. -/
inductive ChallengePurpose
  | registration | passwordReset
  deriving DecidableEq, Repr

/-- The value of a purpose, as it is stored. -/
def ChallengePurpose.value : ChallengePurpose → String
  | .registration => "registration"
  | .passwordReset => "password_reset"

/-- `ChallengePurpose(value)`; `none` when it raises. -/
def ChallengePurpose.ofValue (value : String) : Option ChallengePurpose :=
  if value = "registration" then some .registration
  else if value = "password_reset" then some .passwordReset
  else none

@[simp] theorem ChallengePurpose.ofValue_value (purpose : ChallengePurpose) :
    ChallengePurpose.ofValue purpose.value = some purpose := by
  cases purpose <;> rfl

/-- A value names no other purpose than its own. -/
theorem ChallengePurpose.eq_value {value : String} {purpose : ChallengePurpose}
    (h : ChallengePurpose.ofValue value = some purpose) : value = purpose.value := by
  unfold ChallengePurpose.ofValue at h
  split at h
  · cases h
    assumption
  · split at h
    · cases h
      assumption
    · cases h

/-- `EmailChallenge`. -/
structure EmailChallenge where
  id : UUID
  email : String
  purpose : String
  keyVersion : String
  codeHash : String
  attempts : Nat := 0
  createdAt : Time
  expiresAt : Time
  consumedAt : Option Time := none
  deriving DecidableEq, Repr

/-- `AuthSettings`, with its field bounds and the checks of its keys. The strings of a validated model
hold no lone surrogates. -/
structure AuthSettings where
  sessionSeconds : Nat := 604800
  challengeSeconds : Nat := 600
  challengeAttempts : Nat := 5
  resendSeconds : Nat := 60
  recentAuthSeconds : Nat := 300
  challengeKeys : Dict := []
  activeChallengeKey : String := "v1"
  sessionSeconds_range : 300 ≤ sessionSeconds ∧ sessionSeconds ≤ 2592000 := by decide
  challengeSeconds_range : 120 ≤ challengeSeconds ∧ challengeSeconds ≤ 900 := by decide
  challengeAttempts_range : 1 ≤ challengeAttempts ∧ challengeAttempts ≤ 10 := by decide
  resendSeconds_range : 30 ≤ resendSeconds ∧ resendSeconds ≤ 300 := by decide
  recentAuthSeconds_range : 60 ≤ recentAuthSeconds ∧ recentAuthSeconds ≤ 900 := by decide
  active_configured : challengeKeys = [] ∨ challengeKeys.contains activeChallengeKey = true := by
    decide
  keys_long : (challengeKeys.all fun key => 32 ≤ key.2.toList.length) = true := by decide

instance : Inhabited AuthSettings := ⟨{}⟩

/-- `key_bytes`; `none` when it raises `EmailVerificationUnavailableError`. -/
def keyBytes (settings : AuthSettings) (version : String) : Option Bytes :=
  (settings.challengeKeys.find? (·.1 = version)).map fun key => encode key.2

/-- `derive_code`: six digits. -/
def deriveCode (hmac : Bytes → Bytes → Bytes) (challenge : EmailChallenge)
    (settings : AuthSettings) : Option String := do
  let purpose ← ChallengePurpose.ofValue challenge.purpose
  let key ← keyBytes settings challenge.keyVersion
  let message := encode ("deliver:" ++ uuidStr challenge.id ++ ":" ++ purpose.value)
  let digits := Nat.toDigits 10 (Framing.ofBigEndian (hmac key message) % 1000000)
  return String.ofList (List.replicate (6 - digits.length) '0' ++ digits)

/-- `code_digest`. -/
def codeDigest (hmac : Bytes → Bytes → Bytes) (challenge : EmailChallenge) (code : String)
    (settings : AuthSettings) : Option String := do
  let purpose ← ChallengePurpose.ofValue challenge.purpose
  let key ← keyBytes settings challenge.keyVersion
  return hexdigest (hmac key (encode ("verify:" ++ uuidStr challenge.id ++ ":" ++ purpose.value ++
    ":" ++ code)))

/-- The challenge before it is stored: it names its key as the settings do. -/
def EmailChallenge.named (challenge : EmailChallenge) (settings : AuthSettings) : EmailChallenge :=
  { challenge with keyVersion := settings.activeChallengeKey }

/-- The stored digest is that of the code which is mailed, under the active key of the settings, and
the stored version is the name of that key. -/
structure Coded (hmac : Bytes → Bytes → Bytes) (settings : AuthSettings)
    (challenge : EmailChallenge) : Prop where
  version : storedText 32 settings.activeChallengeKey = some challenge.keyVersion
  digest : (deriveCode hmac (challenge.named settings) settings).bind
    (codeDigest hmac (challenge.named settings) · settings) = some challenge.codeHash

end Ekumidayomi
