import Ekumidayomi.Auth.Contests

/-!
# The workflows that race

Registrations, resets, external logins, links and unlinks, each taken through its statements with
the rules of `Auth.Contests` (`contest_beginRegistration` to `contest_unlink`). Each inserts under
the lock it has looked under, but for one path: `consume_challenge` locks the address of a challenge
only when its first look finds it (`Approaches`), and a challenge that is committed between that
look and the next is consumed without the lock.
-/

namespace Ekumidayomi

open Transact

namespace Race

/-! ## Consuming a challenge -/

section
variable {sv : Services} {settings : AuthSettings} {r : CompleteRequest} {c c' : Ctx (schema sv)}

/-- An error on the way to a challenge: a refusal may be committed before it goes on. -/
def Refuses (sv : Services) (call : Call) (e : Error) (c : Ctx (schema sv)) : Prop :=
  Raises sv call e c ∧ (e = .invalidChallenge → Closes sv call c)

/-- The program refuses a challenge as the call should. -/
abbrev Consumes {α : Type} (call : Call) (Q : α → Ctx (schema sv) → Prop) (p : Tx sv α)
    (c : Ctx (schema sv)) : Prop :=
  along (fun _ _ => True) (Closes sv call) Q (Refuses sv call) p c

/-- The transaction has consumed the challenge that it read, unconsumed, in the look `look`. In a
steady run it had locked the address of the challenge before. -/
structure Accepts (c : Ctx (schema sv)) (id : UUID) (row : EmailChallenge)
    (look : Read (schema sv)) : Prop where
  read : look ∈ c.reads
  found : Db.challenge look.db id = some row
  fresh : row.consumedAt = none
  held : look.held ⊆ c.held
  locked : ∀ c', c.Follows c' → Steady sv c' → .email sv row.email ∈ look.held

/-- A registration that has accepted its challenge and found the address free does not lose. -/
theorem Accepts.safe {id : UUID} {row : EmailChallenge} {look free : Read (schema sv)}
    (h : Accepts c id row look) (hfree : free ∈ c'.reads) (hk : .email sv row.email ∈ free.held)
    (hvacant : (emailIndex sv).Vacant row.email free.db) (hc : c.Follows c')
    (hs : Steady sv c') : ¬ LosesRegistration c' id := by
  rintro ⟨seen, hseen, row', hrow', hfinds⟩
  have hemail : row'.email = row.email :=
    hs.one_email (hc.le.reads h.read) hseen h.found hrow'
  rw [hemail] at hfinds
  rcases hfinds with hspent | ⟨-, htaken⟩
  · have hconsumed := hspent.2 look (hc.le.reads h.read) (h.locked c' hc hs) row h.found
    rw [h.fresh] at hconsumed
    cases hconsumed
  · exact htaken.2 free hfree hk hvacant

end

/-! ## Requests for a challenge -/

section
variable {sv : Services} {settings : AuthSettings} {c : Ctx (schema sv)}

end

/-! ## External logins -/

section
variable {sv : Services} {settings : AuthSettings} {call : Call} {identity : Identity}
  {cid : String} {c : Ctx (schema sv)}

variable {attempt : Attempt} {external : Option ExternalIdentity}
  {look : Read (schema sv)}

end

/-! ## What a registration commits -/

section
variable {sv : Services} {settings : AuthSettings} {α β : Type}

/-- The program stays in its transaction. -/
abbrev Stays (p : Tx sv α) : Prop :=
  p.Only (fun _ => True) (fun _ => True) (fun _ => True)

/-- A program that owes nothing stays in its transaction. -/
theorem Stays.of_plain {p : Tx sv α} (h : Ledger.IsPlain p) : Stays p :=
  h.mono (fun _ _ => trivial) (fun _ _ => trivial) fun _ _ => trivial

end

end Race

end Ekumidayomi
