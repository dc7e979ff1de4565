import Ekumidayomi.Types
import Ekumidayomi.Lib.Paging
import Ekumidayomi.Lib.Run
import Mathlib.Data.List.Sort

/-!
# Pages of results

`PageRequest` and `Page` of `core/types.py`, the page of the API of `api/schemas.py`, and the two
statements that a paged query comes to (`Listing`): one counts the rows that it selects, and one
reads a page of them in its order. Each statement sees the rows that were committed when it began,
and other transactions commit new ones at any time (`Listing.Step`).
-/

namespace Ekumidayomi

/-! ## Page requests and pages -/

/-- What the checks of pages raise. -/
inductive PageError
  | page | pageSize | totalItems | itemsPageSize | itemsTotalItems
  deriving DecidableEq, Repr

def PageError.text : PageError → String
  | page => "page must be at least 1"
  | pageSize => "page_size must be between 1 and 100"
  | totalItems => "total_items must be non-negative"
  | itemsPageSize => "items cannot exceed page_size"
  | itemsTotalItems => "items cannot exceed total_items"

/-- `PageRequest`, with the checks of `__post_init__`. -/
structure PageRequest where
  page : Nat := 1
  pageSize : Nat := 20
  page_pos : 1 ≤ page := by decide
  pageSize_range : 1 ≤ pageSize ∧ pageSize ≤ 100 := by decide

/-- The constructor of `PageRequest`. -/
def PageRequest.create (page pageSize : Int) : Except PageError PageRequest :=
  if hpage : page < 1 then .error .page
  else if hsize : 1 ≤ pageSize ∧ pageSize ≤ 100 then
    .ok { page := page.toNat, pageSize := pageSize.toNat
          page_pos := by omega, pageSize_range := by omega }
  else .error .pageSize

/-- `offset`. It is unbounded as `page` is; that it fits the integers of `OFFSET` is left to the
driver. -/
def PageRequest.offset (request : PageRequest) : Nat := (request.page - 1) * request.pageSize

/-- `Page` of the domain, with the checks of `__post_init__`. -/
structure Page (α : Type) extends PageRequest where
  items : List α
  totalItems : Nat
  items_pageSize : items.length ≤ pageSize
  items_totalItems : items.length ≤ totalItems

/-- The constructor of `Page`. -/
def Page.create {α : Type} (items : List α) (totalItems page pageSize : Int) :
    Except PageError (Page α) := do
  let request ← PageRequest.create page pageSize
  if htotal : totalItems < 0 then throw .totalItems
  else if hsize : request.pageSize < items.length then throw .itemsPageSize
  else if hitems : totalItems < items.length then throw .itemsTotalItems
  else return { request with
    items, totalItems := totalItems.toNat, items_pageSize := Nat.not_lt.1 hsize
    items_totalItems := by omega }

section
variable {α : Type}

/-- `total_pages`. -/
def Page.totalPages (page : Page α) : Nat := (page.totalItems + page.pageSize - 1) / page.pageSize

/-- `has_previous`. -/
def Page.hasPrevious (page : Page α) : Bool := page.page > 1

/-- `has_next`. -/
def Page.hasNext (page : Page α) : Bool := page.page < page.totalPages

/-- A request is created from its own numbers. -/
theorem PageRequest.create_self (request : PageRequest) :
    PageRequest.create request.page request.pageSize = .ok request := by
  have hpage := request.page_pos
  have hsize := request.pageSize_range
  rw [PageRequest.create, dif_neg (by omega), dif_pos (by omega)]
  rfl

/-- The page with these items, when there is one. -/
def Page.of (request : PageRequest) (items : List α) (total : Nat)
    (hsize : items.length ≤ request.pageSize) (htotal : items.length ≤ total) : Page α :=
  { request with
    items, totalItems := total, items_pageSize := hsize, items_totalItems := htotal }

/-- No more items than the size of the request are a page of it unless they are more than the
total. -/
theorem Page.create_request {request : PageRequest} {items : List α} {total : Nat}
    (hsize : items.length ≤ request.pageSize) :
    Page.create items total request.page request.pageSize =
      if h : items.length ≤ total then .ok (.of request items total hsize h)
      else .error .itemsTotalItems := by
  rw [Page.create, PageRequest.create_self]
  dsimp only [bind, Except.bind]
  rw [dif_neg (by omega), dif_neg (by omega)]
  by_cases h : items.length ≤ total
  · rw [dif_neg (by omega), dif_pos h]
    rfl
  · rw [dif_pos (by omega), dif_neg h]
    rfl

end

/-! ## Pages of the API -/

namespace Api

/-- What the schemas of pages raise: the fields that are out of range, or the text of a
validator. -/
inductive PageError
  | fields (names : List String)
  | validator (text : String)
  deriving DecidableEq, Repr

/-- `PageMeta`, with the ranges of its fields and the checks of `validate_derived_values`. -/
structure PageMeta where
  page : Int
  pageSize : Int
  totalItems : Int
  totalPages : Int
  hasPrevious : Bool
  hasNext : Bool
  page_pos : 1 ≤ page
  pageSize_range : 1 ≤ pageSize ∧ pageSize ≤ 100
  totalItems_nonneg : 0 ≤ totalItems
  totalPages_eq : totalPages = (totalItems + pageSize - 1) / pageSize
  hasPrevious_eq : hasPrevious = decide (page > 1)
  hasNext_eq : hasNext = decide (page < totalPages)

/-- The fields of `PageMeta` that are out of their range. -/
def outOfRange (page pageSize totalItems totalPages : Int) : List String :=
  (if page < 1 then ["page"] else []) ++
    (if pageSize < 1 ∨ 100 < pageSize then ["page_size"] else []) ++
    (if totalItems < 0 then ["total_items"] else []) ++
    (if totalPages < 0 then ["total_pages"] else [])

theorem outOfRange_eq_nil {page pageSize totalItems totalPages : Int} :
    outOfRange page pageSize totalItems totalPages = [] ↔
      1 ≤ page ∧ (1 ≤ pageSize ∧ pageSize ≤ 100) ∧ 0 ≤ totalItems ∧ 0 ≤ totalPages := by
  have hfield : ∀ {p : Prop} [Decidable p] {name : String},
      (if p then [name] else []) = [] ↔ ¬ p := by
    intro p _ name
    by_cases hp : p <;> simp [hp]
  rw [outOfRange, List.append_eq_nil_iff, List.append_eq_nil_iff, List.append_eq_nil_iff, hfield,
    hfield, hfield, hfield]
  omega

/-- The constructor of `PageMeta`. -/
def PageMeta.create (page pageSize totalItems totalPages : Int) (hasPrevious hasNext : Bool) :
    Except PageError PageMeta :=
  if hrange : outOfRange page pageSize totalItems totalPages ≠ [] then
    .error (.fields (outOfRange page pageSize totalItems totalPages))
  else if htotal : totalPages ≠ (totalItems + pageSize - 1) / pageSize then
    .error (.validator "total_pages does not match total_items and page_size")
  else if hprevious : hasPrevious ≠ decide (page > 1) then
    .error (.validator "has_previous does not match page")
  else if hnext : hasNext ≠ decide (page < (totalItems + pageSize - 1) / pageSize) then
    .error (.validator "has_next does not match page and total_pages")
  else
    have hrange := outOfRange_eq_nil.1 (Decidable.not_not.1 hrange)
    have htotal := Decidable.not_not.1 htotal
    .ok { page, pageSize, totalItems, totalPages, hasPrevious, hasNext
          page_pos := hrange.1
          pageSize_range := hrange.2.1
          totalItems_nonneg := hrange.2.2.1
          totalPages_eq := htotal
          hasPrevious_eq := Decidable.not_not.1 hprevious
          hasNext_eq := htotal ▸ Decidable.not_not.1 hnext }

/-- Metadata is created from its own numbers. -/
theorem PageMeta.create_self (m : PageMeta) :
    PageMeta.create m.page m.pageSize m.totalItems m.totalPages m.hasPrevious m.hasNext =
      .ok m := by
  have hpages : 0 ≤ m.totalPages := by
    rw [m.totalPages_eq]
    have hsize := m.pageSize_range
    have htotal := m.totalItems_nonneg
    exact Int.ediv_nonneg (by omega) (by omega)
  have hrange := outOfRange_eq_nil.2 ⟨m.page_pos, m.pageSize_range, m.totalItems_nonneg, hpages⟩
  rw [PageMeta.create, dif_neg (not_not.2 hrange), dif_neg (not_not.2 m.totalPages_eq),
    dif_neg (not_not.2 m.hasPrevious_eq), dif_neg (not_not.2 (m.totalPages_eq ▸ m.hasNext_eq))]

/-- `Page` of the API, with the checks of `validate_item_count`. -/
structure Page (α : Type) where
  items : List α
  pagination : PageMeta
  items_pageSize : items.length ≤ pagination.pageSize
  items_totalItems : items.length ≤ pagination.totalItems

/-- The constructor of `Page`, given items that are instances of their schema. -/
def Page.create {α : Type} (items : List α) (pagination : PageMeta) : Except PageError (Page α) :=
  if hsize : pagination.pageSize < items.length then
    .error (.validator "items cannot exceed page_size")
  else if htotal : pagination.totalItems < items.length then
    .error (.validator "items cannot exceed total_items")
  else .ok { items, pagination, items_pageSize := Int.not_lt.1 hsize
             items_totalItems := Int.not_lt.1 htotal }

/-- A page is created from its own items and metadata. -/
theorem Page.create_self {α : Type} (page : Page α) :
    Page.create page.items page.pagination = .ok page := by
  rw [Page.create, dif_neg (Int.not_lt.2 page.items_pageSize),
    dif_neg (Int.not_lt.2 page.items_totalItems)]

/-- `Page.from_domain`. -/
def Page.fromDomain {α : Type} (page : Ekumidayomi.Page α) : Except PageError (Page α) := do
  let pagination ← PageMeta.create page.page page.pageSize page.totalItems page.totalPages
    page.hasPrevious page.hasNext
  Page.create page.items pagination

/-- The metadata of a page of the domain. -/
def PageMeta.ofPage {α : Type} (page : Ekumidayomi.Page α) : PageMeta where
  page := page.page
  pageSize := page.pageSize
  totalItems := page.totalItems
  totalPages := page.totalPages
  hasPrevious := page.hasPrevious
  hasNext := page.hasNext
  page_pos := by exact_mod_cast page.page_pos
  pageSize_range := by exact_mod_cast page.pageSize_range
  totalItems_nonneg := by omega
  totalPages_eq := by
    have hsize := page.pageSize_range
    rw [Ekumidayomi.Page.totalPages, Int.natCast_ediv]
    congr 1
    omega
  hasPrevious_eq := decide_eq_decide.2 (by omega)
  hasNext_eq := decide_eq_decide.2 (by omega)

/-- Every page of the domain is one of the API, with the same items and numbers. -/
theorem Page.fromDomain_ok {α : Type} (page : Ekumidayomi.Page α) :
    ∃ api, Page.fromDomain page = .ok api ∧ api.items = page.items ∧
      api.pagination = .ofPage page := by
  have hsize : (page.items.length : Int) ≤ page.pageSize := by exact_mod_cast page.items_pageSize
  have htotal : (page.items.length : Int) ≤ page.totalItems := by
    exact_mod_cast page.items_totalItems
  let api : Page α := ⟨page.items, .ofPage page, hsize, htotal⟩
  refine ⟨api, bind_ok_iff.2 ⟨.ofPage page, ?_, ?_⟩, rfl, rfl⟩
  · exact PageMeta.create_self (.ofPage page)
  · exact Page.create_self api

end Api

/-! ## Paged queries -/

/-- What a paged query selects and the order it puts the rows in. -/
structure Listing (Row : Type) where
  conditions : List (Row → Bool)
  before : Row → Row → Bool

section
variable {Row : Type} {instant : Row → Time} {id : Row → UUID} {a b : Row}

/-- The condition that is appended when the value `is not None`. -/
def whenGiven {α : Type} (value : Option α) (condition : α → Row → Bool) : List (Row → Bool) :=
  value.toList.map condition

theorem all_whenGiven {α : Type} {value : Option α} {condition : α → Row → Bool} :
    (whenGiven value condition).all (· a) = true ↔ ∀ x ∈ value, condition x a = true := by
  cases value <;> simp [whenGiven]

/-- `order_by(instant.desc(), id.desc())`. -/
def newestFirst (instant : Row → Time) (id : Row → UUID) (a b : Row) : Bool :=
  instant b < instant a || (instant a = instant b && id b ≤ id a)

/-- The strict order of newest first. -/
def Newer (instant : Row → Time) (id : Row → UUID) (a b : Row) : Prop :=
  instant b < instant a ∨ instant a = instant b ∧ id b < id a

theorem newestFirst_iff : newestFirst instant id a b = true ↔
    instant b < instant a ∨ instant a = instant b ∧ id b ≤ id a := by
  simp [newestFirst]

theorem newer_of_before (h : newestFirst instant id a b = true) (hne : id a ≠ id b) :
    Newer instant id a b :=
  (newestFirst_iff.1 h).imp_right fun h => ⟨h.1, BitVec.lt_of_le_ne h.2 hne.symm⟩

instance : Std.Total (newestFirst instant id · · = true) where
  total a b := by
    rw [newestFirst_iff, newestFirst_iff]
    rcases Int.lt_trichotomy (instant a) (instant b) with hlt | heq | hgt
    · exact .inr (.inl hlt)
    · exact (BitVec.le_total (id b) (id a)).imp (fun h => .inr ⟨heq, h⟩) fun h => .inr ⟨heq.symm, h⟩
    · exact .inl (.inl hgt)

instance : IsTrans Row (newestFirst instant id · · = true) where
  trans a b c hab hbc := by
    rw [newestFirst_iff] at hab hbc ⊢
    rcases hab with hab | ⟨hab, hid⟩
    · rcases hbc with hbc | ⟨hbc, -⟩
      · exact .inl (Int.lt_trans hbc hab)
      · exact .inl (hbc ▸ hab)
    · rcases hbc with hbc | ⟨hbc, hid'⟩
      · exact .inl (hab ▸ hbc)
      · exact .inr ⟨hab.trans hbc, BitVec.le_trans hid' hid⟩

end

namespace Listing

variable {Row : Type} (listing : Listing Row) (request : PageRequest)

/-- `where(*conditions)`. -/
def selects (row : Row) : Bool := listing.conditions.all (· row)

/-- The count statement. -/
def count (table : List Row) : Nat := table.countP listing.selects

/-- The rows that the query selects, in its order. -/
def ordered (table : List Row) : List Row :=
  (table.filter listing.selects).insertionSort (listing.before · ·)

/-- The page statement, with its `limit` and `offset`. -/
def rows (table : List Row) : List Row :=
  ((listing.ordered table).drop request.offset).take request.pageSize

/-- The page of the two statements, each on the rows that are committed when it begins. -/
def page (atCount atRows : List Row) : Except PageError (Page Row) :=
  Page.create (listing.rows request atRows) (listing.count atCount) request.page request.pageSize

section
variable {listing request} {table atCount atRows : List Row}

theorem length_ordered : (listing.ordered table).length = listing.count table := by
  rw [ordered, List.length_insertionSort, count, List.countP_eq_length_filter]

theorem length_rows : (listing.rows request table).length =
    min request.pageSize (listing.count table - request.offset) := by
  rw [rows, List.length_take, List.length_drop, length_ordered]

/-- What the query returns, when it does not raise. -/
theorem page_eq : listing.page request atCount atRows =
    if h : (listing.rows request atRows).length ≤ listing.count atCount then
      .ok (.of request (listing.rows request atRows) (listing.count atCount)
        (by rw [length_rows]; omega) h)
    else .error .itemsTotalItems :=
  Page.create_request _

/-- The page is refused when it is longer than the number of rows counted before. -/
theorem page_ok_iff : (∃ result, listing.page request atCount atRows = .ok result) ↔
    request.pageSize ≤ listing.count atCount ∨
      listing.count atRows ≤ listing.count atCount + request.offset := by
  have hlength : (listing.rows request atRows).length ≤ listing.count atCount ↔
      request.pageSize ≤ listing.count atCount ∨
        listing.count atRows ≤ listing.count atCount + request.offset := by
    rw [length_rows]
    omega
  rw [page_eq, ← hlength]
  by_cases h : (listing.rows request atRows).length ≤ listing.count atCount <;> simp [h]

/-! ### On a table that does not change -/

/-- The page of the rows that the query selects. -/
theorem page_self (listing : Listing Row) (request : PageRequest) (table : List Row) :
    ∃ result, listing.page request table table = .ok result ∧
      result.items = listing.rows request table ∧ result.toPageRequest = request ∧
      result.totalItems = listing.count table := by
  have hlength : (listing.rows request table).length ≤ listing.count table := by
    rw [length_rows]
    omega
  rw [page_eq, dif_pos hlength]
  exact ⟨_, rfl, rfl, rfl, rfl⟩

/-- The pages of one size are the slices of the selected rows, and each knows how many there are. -/
theorem exists_pages (listing : Listing Row) (table : List Row) (pageSize : Nat)
    (hsize : 1 ≤ pageSize ∧ pageSize ≤ 100) :
    ∃ pages : Nat → Page Row, ∀ n (hn : 1 ≤ n),
      listing.page { page := n, pageSize, page_pos := hn, pageSize_range := hsize } table table =
        .ok (pages n) ∧
      (pages n).items = Paging.slice pageSize (listing.ordered table) (n - 1) ∧
      (pages n).page = n ∧
      (pages n).totalPages = Paging.count pageSize (listing.ordered table).length := by
  have hpage : ∀ n (hn : 1 ≤ n), ∃ page, listing.page
      { page := n, pageSize, page_pos := hn, pageSize_range := hsize } table table = .ok page ∧
      page.items = Paging.slice pageSize (listing.ordered table) (n - 1) ∧ page.page = n ∧
      page.totalPages = Paging.count pageSize (listing.ordered table).length := by
    intro n hn
    obtain ⟨page, hpage, hitems, hrequest, htotal⟩ := listing.page_self
      { page := n, pageSize, page_pos := hn, pageSize_range := hsize } table
    refine ⟨page, hpage, hitems, congrArg PageRequest.page hrequest, ?_⟩
    rw [Page.totalPages, htotal, congrArg PageRequest.pageSize hrequest, length_ordered]
    rfl
  choose pages hpages using hpage
  refine ⟨fun n => if hn : 1 ≤ n then pages n hn else pages 1 (Nat.le_refl 1), fun n hn => ?_⟩
  dsimp only
  rw [dif_pos hn]
  exact hpages n hn

theorem mem_ordered {row : Row} :
    row ∈ listing.ordered table ↔ row ∈ table ∧ listing.selects row = true := by
  rw [ordered, List.mem_insertionSort, List.mem_filter]

/-- In a table without two rows of one identifier, the order of the query is strict. -/
theorem ordered_newer {instant : Row → Time} {id : Row → UUID} (hids : (table.map id).Nodup)
    (hbefore : listing.before = newestFirst instant id) :
    (listing.ordered table).Pairwise (Newer instant id) := by
  have hperm : (listing.ordered table).Perm (table.filter listing.selects) :=
    List.perm_insertionSort _ _
  have hdistinct : ((listing.ordered table).map id).Nodup :=
    (hperm.map id).nodup_iff.2 (hids.sublist (List.filter_sublist.map id))
  have hsorted : (listing.ordered table).Pairwise (newestFirst instant id · ·) := by
    rw [ordered, hbefore]
    exact List.pairwise_insertionSort _ _
  exact (hsorted.and (List.pairwise_map.1 hdistinct)).imp fun h => newer_of_before h.1 h.2

end

/-! ### The statements in a run -/

/-- How far the query has come. -/
inductive Reader (Row : Type)
  | waiting
  | counted (totalItems : Nat)
  | done (result : Except PageError (Page Row))

/-- The committed rows, and the query. -/
structure State (Row : Type) where
  table : List Row
  reader : Reader Row := .waiting

/-- Others commit new rows, or the query executes a statement. -/
inductive Act (Row : Type)
  | commit (rows : List Row)
  | count
  | rows

inductive Step : State Row → Act Row → State Row → Prop
  | commit {s : State Row} (rows : List Row) :
      Step s (.commit rows) { s with table := s.table ++ rows }
  | count {s : State Row} : s.reader = .waiting →
      Step s .count { s with reader := .counted (listing.count s.table) }
  | rows {s : State Row} {totalItems : Nat} : s.reader = .counted totalItems →
      Step s .rows { s with reader := .done (Page.create (listing.rows request s.table) totalItems
        request.page request.pageSize) }

/-- The rows that are committed in a run. -/
def committed (acts : List (Act Row)) : List Row :=
  acts.flatMap fun
    | .commit rows => rows
    | _ => []

variable {listing request} {table : List Row}

theorem committed_append (acts acts' : List (Act Row)) :
    committed (acts ++ acts') = committed acts ++ committed acts' := List.flatMap_append

/-- The reader stands where its statements have brought it, each on the rows committed by then. -/
def Reader.Stands (listing : Listing Row) (request : PageRequest) (table : List Row)
    (acts : List (Act Row)) : Reader Row → Prop
  | .waiting => True
  | .counted totalItems => ∃ acts₁ acts₂, acts = acts₁ ++ .count :: acts₂ ∧
      totalItems = listing.count (table ++ committed acts₁)
  | .done result => ∃ acts₁ acts₂ acts₃, acts = acts₁ ++ .count :: (acts₂ ++ .rows :: acts₃) ∧
      result = listing.page request (table ++ committed acts₁)
        (table ++ committed acts₁ ++ committed acts₂)

/-- Later commits do not change what the query has read. -/
theorem Reader.Stands.append {acts : List (Act Row)} {reader : Reader Row}
    (h : reader.Stands listing request table acts) (act : Act Row) :
    reader.Stands listing request table (acts ++ [act]) := by
  cases reader with
  | waiting => trivial
  | counted totalItems =>
    obtain ⟨acts₁, acts₂, rfl, htotal⟩ := h
    exact ⟨acts₁, acts₂ ++ [act], by simp, htotal⟩
  | done result =>
    obtain ⟨acts₁, acts₂, acts₃, rfl, hresult⟩ := h
    exact ⟨acts₁, acts₂, acts₃ ++ [act], by simp, hresult⟩

theorem step_stands {acts : List (Act Row)} {act : Act Row} {s s' : State Row}
    (h : s.table = table ++ committed acts ∧ s.reader.Stands listing request table acts)
    (hstep : Step listing request s act s') :
    s'.table = table ++ committed (acts ++ [act]) ∧
      s'.reader.Stands listing request table (acts ++ [act]) := by
  obtain ⟨htable, hreader⟩ := h
  cases hstep with
  | commit rows =>
    refine ⟨?_, hreader.append _⟩
    simp [htable, committed]
  | count hwaiting =>
    refine ⟨by simp [htable, committed], acts, [], rfl, ?_⟩
    rw [htable]
  | rows hcounted =>
    rw [hcounted] at hreader
    obtain ⟨acts₁, acts₂, rfl, rfl⟩ := hreader
    refine ⟨by simp [htable, committed], acts₁, acts₂, [], by simp, ?_⟩
    rw [page, htable, committed_append, List.append_assoc]
    rfl

/-- In every run, what the query returns is the page of the rows at its two statements. -/
theorem run_stands {acts : List (Act Row)} {s : State Row}
    (h : Lts.Run (Step listing request) { table } acts s) :
    s.reader.Stands listing request table acts :=
  (h.history (I := fun acts s => s.table = table ++ committed acts ∧
    s.reader.Stands listing request table acts) step_stands ⟨by simp [committed], trivial⟩).2

/-- Others may commit rows before the count and before the page statement. -/
theorem run_commits (listing : Listing Row) (request : PageRequest)
    (table before after : List Row) :
    Lts.Run (Step listing request) { table } [.commit before, .count, .commit after, .rows]
      { table := table ++ before ++ after
        reader := .done (listing.page request (table ++ before) (table ++ before ++ after)) } :=
  (((Lts.Run.nil.snoc (.commit before)).snoc (.count rfl)).snoc (.commit after)).snoc (.rows rfl)

theorem count_append (rows : List Row) :
    listing.count (table ++ rows) = listing.count table + listing.count rows := List.countP_append

/-- In every run, the query returns a page exactly when the rows counted fill a page, or those
committed since are no more than the rows before the page. -/
theorem run_page_iff {acts : List (Act Row)} {s : State Row} {result : Except PageError (Page Row)}
    (h : Lts.Run (Step listing request) { table } acts s) (hdone : s.reader = .done result) :
    ∃ acts₁ acts₂ acts₃, acts = acts₁ ++ .count :: (acts₂ ++ .rows :: acts₃) ∧
      ((∃ page, result = .ok page) ↔
        request.pageSize ≤ listing.count (table ++ committed acts₁) ∨
          listing.count (committed acts₂) ≤ request.offset) := by
  have hstands := run_stands h
  rw [hdone] at hstands
  obtain ⟨acts₁, acts₂, acts₃, hacts, rfl⟩ := hstands
  refine ⟨acts₁, acts₂, acts₃, hacts, ?_⟩
  rw [page_ok_iff, count_append (committed acts₂), Nat.add_le_add_iff_left]

end Listing

end Ekumidayomi
