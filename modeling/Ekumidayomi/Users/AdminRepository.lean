import Ekumidayomi.Audit.Query
import Ekumidayomi.Lib.Alone

/-!
# Paged queries beside commits

`list_users` of `users/admin_repository.py`. It and `query_records` count first and read a page
after, and rows that are committed in between are on the page but not in the count. `Page` then
refuses its own numbers. This happens when the rows counted do not fill a page and more rows have
been committed since than stand before the page (`paged_queries_return_iff`).
-/

namespace Ekumidayomi.Users

open Transact

/-- A row of `users`, with the `created_at` of `TimestampMixin`. -/
structure UserRow extends User where
  createdAt : Time
  deriving DecidableEq, Repr

/-- The rows and the order of the two statements of `list_users`, given the normalized address. -/
def userListing (role : Option Role) (isActive : Option Bool) (email : Option String) :
    Listing UserRow where
  conditions := List.flatten [
    whenGiven role fun role row => row.role = role.value,
    whenGiven isActive fun isActive row => row.isActive = isActive,
    whenGiven email fun email row => row.email = email]
  before := newestFirst UserRow.createdAt (·.id)

/-- `list_users` up to its count statement. -/
def listUsers (sv : Services) (actor : Actor) (role : Option Role) (isActive : Option Bool)
    (email : Option String) : Tx sv (Listing UserRow) := do
  let _ ← authorize sv actor .usersRead none false
  match email with
  | none => return userListing role isActive none
  | some email =>
    match sv.normalizeEmail email with
    | none => throw .invalidEmail
    | some email => return userListing role isActive (some email)

/-- The two statements of `list_users` select by the role, the activity and the normalized
address. -/
theorem yields_listUsers {sv : Services} {actor : Actor} {role : Option Role}
    {isActive : Option Bool} {email : Option String} {o : Oracle (schema sv)}
    {h : Here (schema sv)} :
    (listUsers sv actor role isActive email).Yields o h
      (fun listing _ => listing = userListing role isActive (email.bind sv.normalizeEmail))
      fun _ _ => True := by
  rw [listUsers.eq_def, Prog.yields_bind]
  refine Prog.Yields.mono (Q := fun _ _ => True) (E := fun _ _ => True) ?_ (fun _ h' _ => ?_)
    fun _ _ _ => trivial
  · unfold Prog.Yields
    split <;> trivial
  · cases email with
    | none => rfl
    | some email =>
      cases hnormal : sv.normalizeEmail email with
      | none =>
        dsimp only
        rw [hnormal]
        trivial
      | some normalized =>
        dsimp only
        rw [hnormal]
        show _ = userListing role isActive (sv.normalizeEmail email)
        rw [hnormal]

/-- From its authorization on, `list_users` returns a page beside commits exactly when the rows
counted fill it, or the rows it selects that were committed since are no more than the offset. -/
theorem yields_listUsers_page {sv : Services} {actor : Actor} {role : Option Role}
    {isActive : Option Bool} {email : Option String} {o : Oracle (schema sv)}
    {h : Here (schema sv)} {request : PageRequest} {table : List UserRow}
    {acts : List (Listing.Act UserRow)} {s : Listing.State UserRow}
    {result : Except PageError (Page UserRow)} (hdone : s.reader = .done result) :
    (listUsers sv actor role isActive email).Yields o h
      (fun listing _ => listing = userListing role isActive (email.bind sv.normalizeEmail) ∧
        (Lts.Run (Listing.Step listing request) { table } acts s →
          ∃ acts₁ acts₂ acts₃, acts = acts₁ ++ .count :: (acts₂ ++ .rows :: acts₃) ∧
            ((∃ page, result = .ok page) ↔
              request.pageSize ≤ listing.count (table ++ Listing.committed acts₁) ∨
                listing.count (Listing.committed acts₂) ≤ request.offset)))
      fun _ _ => True := by
  refine yields_listUsers.mono (fun listing _ hlisting => ⟨hlisting, fun hrun => ?_⟩)
    fun _ _ _ => trivial
  exact Listing.run_page_iff hrun hdone

end Ekumidayomi.Users

namespace Ekumidayomi

/-- The paged queries. -/
inductive PagedQuery
  | queryRecords (filters : Audit.AuditFilters)
  | listUsers (role : Option Role) (isActive : Option Bool) (email : Option String)

namespace PagedQuery

def Row : PagedQuery → Type
  | queryRecords _ => AuditRecord
  | listUsers .. => Users.UserRow

def listing : (query : PagedQuery) → Listing query.Row
  | queryRecords filters => filters.listing
  | listUsers role isActive email => Users.userListing role isActive email

end PagedQuery

/-- In every run beside commits of new rows, a paged query returns a page exactly when the rows
counted fill a page, or the rows it selects that were committed since are no more than the
offset. -/
theorem paged_queries_return_iff (query : PagedQuery) (request : PageRequest)
    (table : List query.Row) (acts : List (Listing.Act query.Row)) (s : Listing.State query.Row)
    (result : Except PageError (Page query.Row))
    (hrun : Lts.Run (Listing.Step query.listing request) { table } acts s)
    (hdone : s.reader = .done result) :
    ∃ acts₁ acts₂ acts₃, acts = acts₁ ++ .count :: (acts₂ ++ .rows :: acts₃) ∧
      ((∃ page, result = .ok page) ↔
        request.pageSize ≤ query.listing.count (table ++ Listing.committed acts₁) ∨
          query.listing.count (Listing.committed acts₂) ≤ request.offset) :=
  Listing.run_page_iff hrun hdone

/-- A record is committed before the count, and another before the page of one row. -/
theorem paged_queries_return_iff_first :
    ∃ acts₁ acts₂ acts₃,
      [.commit [Audit.signIn 1 5], .count, .commit [Audit.signIn 2 6], .rows] =
        acts₁ ++ .count :: (acts₂ ++ .rows :: acts₃) ∧
      ((∃ page, (PagedQuery.queryRecords {}).listing.page { pageSize := 1 }
          ([] ++ [Audit.signIn 1 5]) ([] ++ [Audit.signIn 1 5] ++ [Audit.signIn 2 6]) = .ok page) ↔
        1 ≤ (PagedQuery.queryRecords {}).listing.count ([] ++ Listing.committed acts₁) ∨
          (PagedQuery.queryRecords {}).listing.count (Listing.committed acts₂) ≤ 0) :=
  paged_queries_return_iff (.queryRecords {}) { pageSize := 1 } [] _ _ _
    (Listing.run_commits ..) rfl

/-- A record that is committed after the count of an empty table is on the first page, and it is
more than were counted. -/
theorem committed_record_raises :
    ¬ ∀ (query : PagedQuery) (request : PageRequest) (table : List query.Row)
      (acts : List (Listing.Act query.Row)) (s : Listing.State query.Row)
      (result : Except PageError (Page query.Row)),
      Lts.Run (Listing.Step query.listing request) { table } acts s → s.reader = .done result →
        ∃ page, result = .ok page := by
  intro hreturns
  have hpage := hreturns (.queryRecords {}) {} [] _ _ _
    (Listing.run_commits _ _ [] [] [Audit.signIn 1 5]) rfl
  have hroom := Listing.page_ok_iff.1 hpage
  revert hroom
  decide

end Ekumidayomi
