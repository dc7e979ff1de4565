import Ekumidayomi.Auth.Transactions
import Ekumidayomi.Pages

/-!
# Queries on audit records

`AuditFilters` and `query_records` of `audit/service.py`. On a table that does not change, the pages
of a query are the records that match, cut in their order (`query_records_partition`).
-/

namespace Ekumidayomi.Audit

/-- The pattern `[a-z][a-z0-9]*(?:[._:-][a-z0-9]+)*`, matched in full. -/
def isAuditName (s : String) : Bool :=
  match s.toList.splitOnP fun c => c == '.' || c == '_' || c == ':' || c == '-' with
  | [] => false
  | first :: rest =>
    (first.head?.any isLower) && ((first :: rest).all fun part =>
      !part.isEmpty && part.all fun c => isLower c || isDigit c)

/-- `_validate_name`: whether it does not raise. -/
def validName (maximum : Nat) (value : String) : Bool := value.length ≤ maximum && isAuditName value

/-- An action or a target type that `record` accepts. -/
abbrev AuditName := { value : String // validName 100 value = true }

/-- What the checks of `AuditFilters` raise. -/
inductive FilterError
  | name (field : String)
  | correlationId
  | naive
  | dateRange
  | interval
  deriving DecidableEq, Repr

def FilterError.text : FilterError → String
  | name field => field ++ " must use 1-100 safe lowercase characters"
  | correlationId => "correlation_id must use 1-128 safe characters"
  | naive => "datetime must be timezone-aware"
  | dateRange => "date value out of range"
  | interval => "occurred_from must not be after occurred_to"

/-- `AuditFilters`, with the checks of `__post_init__`. -/
structure AuditFilters where
  action : Option String := none
  actorKind : Option ActorKind := none
  actorId : Option UUID := none
  targetType : Option String := none
  targetId : Option UUID := none
  outcome : Option AuditOutcome := none
  correlationId : Option String := none
  occurredFrom : Option Time := none
  occurredTo : Option Time := none
  action_valid : ∀ value ∈ action, validName 100 value = true := by simp
  targetType_valid : ∀ value ∈ targetType, validName 100 value = true := by simp
  correlationId_valid : ∀ value ∈ correlationId, validCorrelationId value = true := by simp
  interval : ∀ first ∈ occurredFrom, ∀ last ∈ occurredTo, first ≤ last := by simp

namespace AuditFilters

/-- The instants of the years 1 to 9999. -/
def inRange (t : Time) : Bool := -62135596800000000 ≤ t && t < 253402300800000000

/-- `require_utc`. A `datetime` is the instant it denotes, and a naive one denotes none. -/
def requireUtc : Option Time → Except FilterError Time
  | none => .error .naive
  | some t => if inRange t then .ok t else .error .dateRange

/-- The constructor of `AuditFilters`. -/
def create (action : Option String) (actorKind : Option ActorKind) (actorId : Option UUID)
    (targetType : Option String) (targetId : Option UUID) (outcome : Option AuditOutcome)
    (correlationId : Option String) (occurredFrom occurredTo : Option (Option Time)) :
    Except FilterError AuditFilters :=
  if haction : ¬ ∀ value ∈ action, validName 100 value = true then .error (.name "action")
  else if htarget : ¬ ∀ value ∈ targetType, validName 100 value = true then
    .error (.name "target_type")
  else if hcorrelation : ¬ ∀ value ∈ correlationId, validCorrelationId value = true then
    .error .correlationId
  else do
    let occurredFrom ← occurredFrom.mapM requireUtc
    let occurredTo ← occurredTo.mapM requireUtc
    if hinterval : ∀ first ∈ occurredFrom, ∀ last ∈ occurredTo, first ≤ last then
      return {
        action, actorKind, actorId, targetType, targetId, outcome, correlationId, occurredFrom
        occurredTo
        action_valid := Decidable.not_not.1 haction
        targetType_valid := Decidable.not_not.1 htarget
        correlationId_valid := Decidable.not_not.1 hcorrelation
        interval := hinterval }
    else throw .interval

theorem mapM_requireUtc {instant : Option Time} (h : ∀ t ∈ instant, inRange t = true) :
    (instant.map some).mapM requireUtc = .ok instant := by
  cases instant with
  | none => rfl
  | some t =>
    show (requireUtc (some t)).map some = _
    rw [requireUtc, if_pos (h t rfl)]
    rfl

variable (filters : AuditFilters)

/-- The constructor returns every value of the type, from its own fields. -/
theorem create_self (hfrom : ∀ t ∈ filters.occurredFrom, inRange t = true)
    (hto : ∀ t ∈ filters.occurredTo, inRange t = true) :
    create filters.action filters.actorKind filters.actorId filters.targetType filters.targetId
      filters.outcome filters.correlationId (filters.occurredFrom.map some)
      (filters.occurredTo.map some) = .ok filters := by
  rw [create, dif_neg (not_not.2 filters.action_valid), dif_neg (not_not.2 filters.targetType_valid),
    dif_neg (not_not.2 filters.correlationId_valid), mapM_requireUtc hfrom, mapM_requireUtc hto]
  dsimp only [bind, Except.bind]
  rw [dif_pos filters.interval]
  rfl

/-- `_conditions`. -/
def conditions : List (AuditRecord → Bool) :=
  List.flatten [
    whenGiven filters.action fun action row => row.action = action,
    whenGiven filters.actorKind fun kind row => row.actorKind = kind,
    whenGiven filters.actorId fun id row => row.actorId = some id,
    whenGiven filters.targetType fun type row => row.targetType = type,
    whenGiven filters.targetId fun id row => row.targetId = id,
    whenGiven filters.outcome fun outcome row => row.outcome = outcome,
    whenGiven filters.correlationId fun id row => row.correlationId = id,
    whenGiven filters.occurredFrom fun first row => first ≤ row.occurredAt,
    whenGiven filters.occurredTo fun last row => row.occurredAt ≤ last]

/-- The rows and the order of the two statements of `query_records`. -/
def listing : Listing AuditRecord where
  conditions := filters.conditions
  before := newestFirst AuditRecord.occurredAt AuditRecord.id

/-- The record is one of those the filters ask for. -/
structure Matches (row : AuditRecord) : Prop where
  action : ∀ value ∈ filters.action, row.action = value
  actorKind : ∀ value ∈ filters.actorKind, row.actorKind = value
  actorId : ∀ value ∈ filters.actorId, row.actorId = some value
  targetType : ∀ value ∈ filters.targetType, row.targetType = value
  targetId : ∀ value ∈ filters.targetId, row.targetId = value
  outcome : ∀ value ∈ filters.outcome, row.outcome = value
  correlationId : ∀ value ∈ filters.correlationId, row.correlationId = value
  occurredFrom : ∀ value ∈ filters.occurredFrom, value ≤ row.occurredAt
  occurredTo : ∀ value ∈ filters.occurredTo, row.occurredAt ≤ value

/-- The conditions of the statements select the records that match. -/
theorem selects_iff {row : AuditRecord} :
    filters.listing.selects row = true ↔ filters.Matches row := by
  rw [Listing.selects, listing, conditions]
  simp only [List.all_flatten, List.all_cons, List.all_nil, Bool.and_true, Bool.and_eq_true,
    all_whenGiven, decide_eq_true_eq]
  constructor
  · rintro ⟨h1, h2, h3, h4, h5, h6, h7, h8, h9⟩
    exact ⟨h1, h2, h3, h4, h5, h6, h7, h8, h9⟩
  · rintro ⟨h1, h2, h3, h4, h5, h6, h7, h8, h9⟩
    exact ⟨h1, h2, h3, h4, h5, h6, h7, h8, h9⟩

end AuditFilters

/-- `query_records`, on the records committed at its count and at its page statement. -/
def queryRecords (filters : AuditFilters) (pageRequest : PageRequest)
    (atCount atRows : List AuditRecord) : Except PageError (Page AuditRecord) :=
  filters.listing.page pageRequest atCount atRows

/-- The items of the pages from 1 to `total`. -/
def items (pages : Nat → Page AuditRecord) (total : Nat) : List AuditRecord :=
  (List.range' 1 total).flatMap fun n => (pages n).items

/-- The pages cut the records that match into `total` pages, each record once and in the order of
the query. Those after the last are empty, a page announces a next one exactly when it is not empty,
and the API takes every page as it is. -/
structure Partition (filters : AuditFilters) (table : List AuditRecord)
    (pages : Nat → Page AuditRecord) (total : Nat) : Prop where
  total_pages : ∀ n, 1 ≤ n → (pages n).totalPages = total
  matching : ∀ row, row ∈ items pages total ↔ row ∈ table ∧ filters.Matches row
  newest : (items pages total).Pairwise (Newer AuditRecord.occurredAt AuditRecord.id)
  later : ∀ n, total < n → (pages n).items = []
  has_next : ∀ n, 1 ≤ n → ((pages n).hasNext = true ↔ (pages (n + 1)).items ≠ [])
  from_domain : ∀ n, ∃ api, Api.Page.fromDomain (pages n) = .ok api ∧
    api.items = (pages n).items ∧ api.pagination = .ofPage (pages n)

/-- On a table that does not change, the pages of a query partition the records that match. -/
theorem query_records_partition (table : List AuditRecord) (hids : (table.map (·.id)).Nodup)
    (filters : AuditFilters) (pageSize : Nat) (hsize : 1 ≤ pageSize ∧ pageSize ≤ 100) :
    ∃ pages total,
      (∀ n (hn : 1 ≤ n), queryRecords filters
        { page := n, pageSize, page_pos := hn, pageSize_range := hsize } table table =
          .ok (pages n)) ∧ Partition filters table pages total := by
  obtain ⟨pages, hpages⟩ := filters.listing.exists_pages table pageSize hsize
  let sorted := filters.listing.ordered table
  let total := Paging.count pageSize sorted.length
  have hslice : ∀ n, 1 ≤ n → (pages n).items = Paging.slice pageSize sorted (n - 1) :=
    fun n hn => (hpages n hn).2.1
  have hnonempty : ∀ n, 1 ≤ n → ((pages n).items ≠ [] ↔ n ≤ total) := by
    intro n hn
    rw [hslice n hn, Paging.slice_ne_nil_iff hsize.1, ← Paging.lt_count_iff hsize.1]
    omega
  have hitems : items pages total = sorted := by
    rw [items, List.range'_eq_map_range, List.flatMap_map]
    refine Eq.trans ?_ (Paging.flatMap_slice_count hsize.1 sorted)
    refine List.flatMap_congr fun n _ => ?_
    rw [hslice (1 + n) (Nat.le_add_right 1 n), Nat.add_sub_cancel_left]
  refine ⟨pages, total, fun n hn => (hpages n hn).1, ?_⟩
  constructor
  case total_pages => exact fun n hn => (hpages n hn).2.2.2
  case matching =>
    intro row
    rw [hitems, Listing.mem_ordered, filters.selects_iff]
  case newest =>
    rw [hitems]
    exact Listing.ordered_newer hids rfl
  case later =>
    intro n hn
    exact Decidable.not_not.1 fun hne => Nat.not_lt.2 ((hnonempty n (by omega)).1 hne) hn
  case has_next =>
    intro n hn
    rw [hnonempty (n + 1) (Nat.le_add_left 1 n), Page.hasNext, decide_eq_true_eq,
      (hpages n hn).2.2.1, (hpages n hn).2.2.2]
    exact Iff.rfl
  case from_domain => exact fun n => Api.Page.fromDomain_ok (pages n)

/-- A record of a sign-in at the instant `t`. -/
def signIn (id : UUID) (t : Time) : AuditRecord where
  id
  actorKind := .system
  actorId := none
  action := "identity.login_succeeded"
  targetType := "user"
  targetId := 7
  outcome := .succeeded
  occurredAt := t
  correlationId := "request-1"
  metadata := []

theorem query_records_partition_three :
    ∃ pages total,
      (∀ n (hn : 1 ≤ n), queryRecords { actorKind := some .system }
        { page := n, pageSize := 2, page_pos := hn } [signIn 1 5, signIn 2 5, signIn 3 4]
          [signIn 1 5, signIn 2 5, signIn 3 4] = .ok (pages n)) ∧
      Partition { actorKind := some .system } [signIn 1 5, signIn 2 5, signIn 3 4] pages total :=
  query_records_partition _ (by decide) _ 2 (by decide)

end Ekumidayomi.Audit
