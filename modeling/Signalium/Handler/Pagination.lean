import Signalium.Handler.Listing
import Signalium.Lib.Pages

/-!
# Walking through the list

A client that calls `ListSignalMessages` with one limit and the offsets 0, limit,
2·limit and so on, until a page is empty, on a table that nobody writes to meanwhile.

The order of the list is strict, so each page is a window of one and the same list of
rows, and the windows tile it (`Pages.flatten_count`).  The client gets every row that
matches exactly once, in order, with every page full but the last; and `Count` has told
it the number of rows from the first page on (`list_walk_partition`).
-/

namespace Signalium

open Tables

/-! ## Rows that match -/

/-- The row is not deleted and meets the filters of the request. -/
structure ListRequest.Matches (lower : Char → Char) (req : ListRequest) (r : Row) : Prop where
  notDeleted : r.deletedAt = none
  q : ∀ q ∈ req.q, ilike lower r.content ("%" ++ q ++ "%") = true
  status : ∀ s ∈ req.status, some r.status = s
  attempts : ∀ n ∈ req.attempts, r.attempts = n
  createdAtFrom : ∀ d ∈ req.createdAtFrom, d ≤ r.createdAt
  createdAtTo : ∀ d ∈ req.createdAtTo, r.createdAt < d

/-- The filters in the types of the database: an `int`, and instants in microseconds. -/
def ListRequest.received (req : ListRequest) : ListRequest :=
  { req with
    attempts := intPtrToInt32 req.attempts
    createdAtFrom := tsTzArg req.createdAtFrom
    createdAtTo := tsTzArg req.createdAtTo }

/-- The filters are values of those types. -/
structure ListRequest.Representable (req : ListRequest) : Prop where
  attempts : ∀ n ∈ req.attempts, -2147483648 ≤ n ∧ n ≤ 2147483647
  createdAtFrom : ∀ d ∈ req.createdAtFrom, d ≠ zeroTime ∧ d % 1000 = 0
  createdAtTo : ∀ d ∈ req.createdAtTo, d ≠ zeroTime ∧ d % 1000 = 0

theorem tsTzArg_eq_self {v : Option Int} (h : ∀ d ∈ v, d ≠ zeroTime ∧ d % 1000 = 0) :
    tsTzArg v = v := by
  cases v with
  | none => rfl
  | some d =>
      have hd := h d rfl
      rw [tsTzArg, if_neg hd.1, tsTz]
      congr 1
      omega

theorem ListRequest.Representable.received_eq {req : ListRequest} (h : req.Representable) :
    req.received = req := by
  rw [ListRequest.received, intPtrToInt32_eq_self_iff.mpr h.attempts,
    tsTzArg_eq_self h.createdAtFrom, tsTzArg_eq_self h.createdAtTo]

/-- `WHERE` selects the rows that match. -/
theorem ListRequest.listWhere_iff {lower : Char → Char} {req : ListRequest} {r : Row} :
    req.filters.listWhere lower r = true ↔ req.received.Matches lower r := by
  simp only [ListFilters.listWhere, Bool.and_eq_true, Option.all_eq_true, decide_eq_true_eq]
  constructor
  · rintro ⟨⟨⟨⟨⟨hdeleted, hq⟩, hstatus⟩, hattempts⟩, hfrom⟩, hto⟩
    exact ⟨hdeleted, hq, hstatus, hattempts, hfrom, hto⟩
  · rintro ⟨hdeleted, hq, hstatus, hattempts, hfrom, hto⟩
    exact ⟨⟨⟨⟨⟨hdeleted, hq⟩, hstatus⟩, hattempts⟩, hfrom⟩, hto⟩

/-! ## The walk -/

/-- The request for the page with number `k`. -/
def ListRequest.page (req : ListRequest) (limit k : Nat) : ListRequest :=
  { req with
    limit := some limit
    offset := some ((k * limit : Nat) : Int) }

/-- The walk from the first page on, on the table `t`, through at most `fuel` pages: the
pages before the first empty one, and that one. -/
def listWalk (lower : Char → Char) (t : Messages) (req : ListRequest) (limit fuel : Nat) :
    Option (List SignalMessageList × SignalMessageList) :=
  Pages.walk (fun answer => answer.items.isEmpty)
    (fun k => listSignalMessages lower (req.page limit k) (some t) (some t)) fuel 0

variable {lower : Char → Char} {t : Messages} {req : ListRequest} {limit k : Nat}

/-- The filters of a page are those of the request, but for its place in the list. -/
theorem ListRequest.page_filters (hlimit : 0 < limit) (hlimit' : limit ≤ 2147483647)
    (hoffset : k * limit ≤ 2147483647) :
    (req.page limit k).filters =
      { req.filters with limit := limit, offset := ((k * limit : Nat) : Int) } := by
  have hsize : toInt32 limit = limit := toInt32_eq_self_iff.mpr (by omega)
  have hskip : toInt32 ((k * limit : Nat) : Int) = ((k * limit : Nat) : Int) :=
    toInt32_eq_self_iff.mpr (by omega)
  have hpos : ¬ (limit : Int) ≤ 0 := by omega
  have hnonneg : ¬ ((k * limit : Nat) : Int) < 0 := by omega
  rw [ListRequest.filters, ListRequest.filters, ListRequest.page]
  simp only [coalescePositive, coalesceNonNegative, if_neg hpos, if_neg hnonneg, hsize, hskip]

/-- The page with number `k`, where its offset is an `int32`. -/
theorem listSignalMessages_page (hlimit : 0 < limit) (hlimit' : limit ≤ 2147483647)
    (hoffset : k * limit ≤ 2147483647) (hstatus : req.status ≠ some none)
    (hcount : (t.listed lower req.filters).length ≤ 2147483647) :
    listSignalMessages lower (req.page limit k) (some t) (some t) =
      .ok ⟨(Pages.page limit k (t.listed lower req.filters)).map Row.info,
        (t.listed lower req.filters).length⟩ := by
  -- The place in the list is not part of the `WHERE` clause.
  have hlisted : t.listed lower
      { req.filters with limit := limit, offset := ((k * limit : Nat) : Int) } =
        t.listed lower req.filters := rfl
  rw [listSignalMessages_eq, ListRequest.page_filters hlimit hlimit' hoffset, hlisted, if_pos]
  · rfl
  · refine ⟨⟨hstatus, ?_, ?_⟩, ?_⟩
    · exact Int.natCast_nonneg limit
    · exact Int.natCast_nonneg (k * limit)
    · exact Int.ofNat_le.mpr hcount

/-! ## The partition -/

/-- What the pages of a walk have to do with the rows they were made from. -/
structure ListPartition (lower : Char → Char) (t : Messages) (req : ListRequest) (limit : Nat)
    (pages : List SignalMessageList) (last : SignalMessageList) (rows : List Row) : Prop where
  items : pages.flatMap SignalMessageList.items = rows.map Row.info
  matching : ∀ r, r ∈ rows ↔ r ∈ t ∧ req.received.Matches lower r
  representable : req.Representable → ∀ r, r ∈ rows ↔ r ∈ t ∧ req.Matches lower r
  order : rows.Pairwise fun r r' =>
    r'.createdAt < r.createdAt ∨ r.createdAt = r'.createdAt ∧ r.id < r'.id
  full : ∀ answer ∈ pages.dropLast, answer.items.length = limit
  ended : last.items = []
  total : ∀ answer ∈ pages ++ [last], answer.total = rows.length

/-- The pages of the list of rows that match are a partition of it. -/
theorem listPartition_of_pages {rows : List Row} (hrows : rows = t.listed lower req.filters)
    (hlimit : 0 < limit) {reply : Nat → SignalMessageList}
    (hitems : ∀ k, (reply k).items = (Pages.page limit k rows).map Row.info)
    (htotal : ∀ k, (reply k).total = rows.length) :
    ListPartition lower t req limit ((List.range (Pages.count limit rows.length)).map reply)
      (reply (Pages.count limit rows.length)) rows := by
  have hmatching : ∀ r, r ∈ rows ↔ r ∈ t ∧ req.received.Matches lower r := by
    intro r
    rw [hrows, Messages.mem_listed, ListRequest.listWhere_iff]
  constructor
  case items =>
    rw [List.flatMap_map]
    calc (List.range (Pages.count limit rows.length)).flatMap (fun k => (reply k).items)
        = (List.range (Pages.count limit rows.length)).flatMap
            fun k => (Pages.page limit k rows).map Row.info := by simp only [hitems]
      _ = ((List.range (Pages.count limit rows.length)).map
            fun k => Pages.page limit k rows).flatten.map Row.info := by
          rw [← List.flatMap_def, List.map_flatMap]
      _ = rows.map Row.info := by rw [Pages.flatten_count hlimit]
  case matching => exact hmatching
  case representable =>
    intro hrep
    rw [hrep.received_eq] at hmatching
    exact hmatching
  case order =>
    rw [hrows]
    exact Messages.listed_pairwise lower t req.filters
  case full =>
    intro answer hanswer
    rw [← List.map_dropLast, List.mem_map] at hanswer
    obtain ⟨k, hk, rfl⟩ := hanswer
    rw [hitems, List.length_map]
    exact Pages.length_page_of_lt hlimit (Pages.mem_dropLast_range.mp hk)
  case ended =>
    rw [hitems, (Pages.page_eq_nil_iff hlimit).mpr le_rfl]
    rfl
  case total =>
    intro answer hanswer
    rcases List.mem_append.mp hanswer with hanswer | hanswer
    · obtain ⟨k, _, rfl⟩ := List.mem_map.mp hanswer
      exact htotal k
    · rw [List.mem_singleton.mp hanswer]
      exact htotal _

/-- The walk ends with the first empty page, and the pages before it partition the rows
that match.  Which rows match is said of the filters as the database receives them, and of
the filters of the request themselves only where their values are representable.  The last
hypothesis on the limit says that the offset of that page is an `int32`, so that all are. -/
theorem list_walk_partition (hlimit : 0 < limit) (hlimit' : limit ≤ 2147483647)
    (hstatus : req.status ≠ some none)
    (hoffset : Pages.count limit (t.listed lower req.filters).length * limit ≤ 2147483647)
    {fuel : Nat} (hfuel : Pages.count limit (t.listed lower req.filters).length < fuel) :
    ∃ pages last, listWalk lower t req limit fuel = some (pages, last) ∧
      ∃ rows, ListPartition lower t req limit pages last rows := by
  generalize hrows : t.listed lower req.filters = rows at hoffset hfuel
  have hcount : rows.length ≤ 2147483647 := ((Pages.count_le_iff hlimit).mp le_rfl).trans hoffset
  let reply (k : Nat) : SignalMessageList :=
    ⟨(Pages.page limit k rows).map Row.info, rows.length⟩
  have hanswer : ∀ k ≤ Pages.count limit rows.length,
      listSignalMessages lower (req.page limit k) (some t) (some t) = .ok (reply k) := by
    intro k hk
    have hskip : k * limit ≤ 2147483647 := (Nat.mul_le_mul_right limit hk).trans hoffset
    rw [listSignalMessages_page hlimit hlimit' hskip hstatus (hrows ▸ hcount), hrows]
  have hempty : (reply (Pages.count limit rows.length)).items.isEmpty = true := by
    rw [List.isEmpty_iff, List.map_eq_nil_iff]
    exact (Pages.page_eq_nil_iff hlimit).mpr le_rfl
  have hfull : ∀ k < Pages.count limit rows.length, (reply k).items.isEmpty = false := by
    intro k hk
    rw [List.isEmpty_eq_false_iff, ne_eq, List.map_eq_nil_iff, Pages.page_eq_nil_iff hlimit]
    exact Nat.not_le.mpr hk
  have hwalk : listWalk lower t req limit fuel =
      some ((List.range (Pages.count limit rows.length)).map reply,
        reply (Pages.count limit rows.length)) := by
    rw [List.range_eq_range']
    exact Pages.walk_eq hanswer hempty hfull (Nat.zero_le _) hfuel
  exact ⟨_, _, hwalk, rows, listPartition_of_pages hrows.symm hlimit (fun _ => rfl) fun _ => rfl⟩

/-- A message accepted at the given instant. -/
def messageAt (now : Int) (id : UUID) (externalId : String) : Row :=
  { plainParams with externalId := externalId }.row now id

/-- Three messages, two of them of one instant. -/
def threeMessages : Messages :=
  ⟨[messageAt 5 "id-2" "ext-1", messageAt 9 "id-3" "ext-2", messageAt 5 "id-1" "ext-3"], by
    constructor <;> simp [messageAt, InsertParams.row, Row.key, plainParams, ExactlyOneTarget]⟩

/-- Two by two: a full page, a page with the third message, and an empty one. -/
theorem threeMessages_walk :
    listWalk id threeMessages {} 2 3 =
        some ([⟨[(messageAt 9 "id-3" "ext-2").info, (messageAt 5 "id-1" "ext-3").info], 3⟩,
          ⟨[(messageAt 5 "id-2" "ext-1").info], 3⟩], ⟨[], 3⟩) ∧
      ∃ pages last, listWalk id threeMessages {} 2 3 = some (pages, last) ∧
        ∃ rows, ListPartition id threeMessages {} 2 pages last rows :=
  ⟨by decide, list_walk_partition (by decide) (by decide) (by decide) (by decide) (by decide)⟩

end Signalium
