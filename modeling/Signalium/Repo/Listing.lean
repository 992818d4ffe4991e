import Mathlib.Data.List.Sort
import Mathlib.Data.String.Basic
import Signalium.Repo.Statements

/-!
# The list queries

`List` and `Count` of `internal/repo/queries/signal_messages.sql`.  Their filters
are written out twice; they select the same rows (`ListFilters.countWhere_eq`).

`List` orders by `created_at`, the newest row first, and rows of one instant by
their id.  No two rows have the same id, so the rows that match are in one order
only, whatever the order in which the table has them (`Messages.mem_listed`,
`Messages.listed_pairwise`).

`lower` is the case folding of the database's locale, which `ILIKE` compares by.
-/

namespace Signalium

open Tables

/-! ## `ILIKE` -/

/-- A text against a `LIKE` pattern, up to `lower`: `%` stands for any characters, `_`
for one, and a backslash takes the character after it as it is.  A pattern that ends in
a backslash has no meaning; no pattern below does. -/
def likeMatch (lower : Char → Char) : List Char → List Char → Bool
  | [], text => text.isEmpty
  | '%' :: pattern, text => text.tails.any fun rest => likeMatch lower pattern rest
  | '_' :: pattern, text =>
      match text with
      | [] => false
      | _ :: rest => likeMatch lower pattern rest
  | '\\' :: c :: pattern, text =>
      match text with
      | [] => false
      | d :: rest => lower c = lower d && likeMatch lower pattern rest
  | c :: pattern, text =>
      match text with
      | [] => false
      | d :: rest => lower c = lower d && likeMatch lower pattern rest

/-- `text ILIKE pattern`. -/
def ilike (lower : Char → Char) (text pattern : String) : Bool :=
  likeMatch lower pattern.toList text.toList

example : ilike Char.toLower "Hello World" "%lo_w%" = true := by decide

/-! ## Filters -/

/-- `time.Time{}`, in nanoseconds since 1970. -/
def zeroTime : Int := -62135596800000000000

/-- `tsTz`: the zero time is `NULL`, any other instant is known in microseconds. -/
def tsTzArg (t : Option Int) : Option Int :=
  match t with
  | some d => if d = zeroTime then none else some (tsTz d)
  | none => none

/-- `ListFilters`.  A status outside of the enum is `some none`. -/
structure ListFilters where
  q : Option String
  status : Option (Option SignalMessageStatus)
  attempts : Option Int
  createdAtFrom : Option Int
  createdAtTo : Option Int
  limit : Int
  offset : Int
deriving DecidableEq, Repr

/-- The `WHERE` clause of `List`.  A filter that is `NULL` lets every row through. -/
def ListFilters.listWhere (lower : Char → Char) (f : ListFilters) (r : Row) : Bool :=
  r.deletedAt = none &&
  (f.q.all fun q => ilike lower r.content ("%" ++ q ++ "%")) &&
  (f.status.all fun s => some r.status = s) &&
  (f.attempts.all fun n => r.attempts = n) &&
  ((tsTzArg f.createdAtFrom).all fun d => d ≤ r.createdAt) &&
  ((tsTzArg f.createdAtTo).all fun d => r.createdAt < d)

/-- The `WHERE` clause of `Count`. -/
def ListFilters.countWhere (lower : Char → Char) (f : ListFilters) (r : Row) : Bool :=
  r.deletedAt = none &&
  (f.q.all fun q => ilike lower r.content ("%" ++ q ++ "%")) &&
  (f.status.all fun s => some r.status = s) &&
  (f.attempts.all fun n => r.attempts = n) &&
  ((tsTzArg f.createdAtFrom).all fun d => d ≤ r.createdAt) &&
  ((tsTzArg f.createdAtTo).all fun d => r.createdAt < d)

/-- The two clauses select the same rows. -/
theorem ListFilters.countWhere_eq (lower : Char → Char) (f : ListFilters) :
    f.countWhere lower = f.listWhere lower := rfl

/-! ## Order -/

/-- `ORDER BY created_at DESC, signal_message_id ASC`. -/
def Row.ListedBefore (r r' : Row) : Prop :=
  r'.createdAt < r.createdAt ∨ r.createdAt = r'.createdAt ∧ r.id ≤ r'.id

instance (r r' : Row) : Decidable (r.ListedBefore r') := inferInstanceAs (Decidable (_ ∨ _))

instance : Std.Total Row.ListedBefore := ⟨fun r r' => by
  rcases lt_trichotomy r.createdAt r'.createdAt with h | h | h
  · exact Or.inr (Or.inl h)
  · exact (le_total r.id r'.id).imp (fun hid => Or.inr ⟨h, hid⟩) fun hid => Or.inr ⟨h.symm, hid⟩
  · exact Or.inl (Or.inl h)⟩

instance : IsTrans Row Row.ListedBefore := ⟨fun a b c hab hbc => by
  rcases hab with hab | ⟨hab, hid⟩
  · rcases hbc with hbc | ⟨hbc, _⟩
    · exact Or.inl (hbc.trans hab)
    · exact Or.inl (hbc ▸ hab)
  · rcases hbc with hbc | ⟨hbc, hid'⟩
    · exact Or.inl (hab ▸ hbc)
    · exact Or.inr ⟨hab.trans hbc, hid.trans hid'⟩⟩

/-- The rows that match, in the order of the list. -/
def Messages.listed (lower : Char → Char) (t : Messages) (f : ListFilters) : List Row :=
  (t.rows.filter (f.listWhere lower)).insertionSort Row.ListedBefore

theorem Messages.mem_listed {lower : Char → Char} {t : Messages} {f : ListFilters} {r : Row} :
    r ∈ t.listed lower f ↔ r ∈ t ∧ f.listWhere lower r = true := by
  rw [Messages.listed, (List.perm_insertionSort _ _).mem_iff, List.mem_filter]
  rfl

theorem Messages.length_listed (lower : Char → Char) (t : Messages) (f : ListFilters) :
    (t.listed lower f).length = t.rows.countP (f.listWhere lower) := by
  rw [Messages.listed, List.length_insertionSort, List.countP_eq_length_filter]

/-- The newest row first, rows of one instant by their id, and no row twice. -/
theorem Messages.listed_pairwise (lower : Char → Char) (t : Messages) (f : ListFilters) :
    (t.listed lower f).Pairwise fun r r' =>
      r'.createdAt < r.createdAt ∨ r.createdAt = r'.createdAt ∧ r.id < r'.id := by
  have hsorted : (t.listed lower f).Pairwise Row.ListedBefore := List.pairwise_insertionSort _ _
  have hrows : t.rows.Pairwise fun r r' => r.id ≠ r'.id := by
    have hkeys := t.valid.primaryKey
    rw [List.map_map] at hkeys
    exact List.pairwise_map.mp hkeys
  have hne : (t.listed lower f).Pairwise fun r r' => r.id ≠ r'.id :=
    ((List.perm_insertionSort _ _).pairwise_iff Ne.symm).mpr (hrows.filter _)
  refine (hsorted.and hne).imp fun h => ?_
  exact h.1.imp_right fun heq => ⟨heq.1, lt_of_le_of_ne heq.2 h.2⟩

/-! ## The queries -/

/-- The largest `int` of the database. -/
def maxInt32 : Int := 2147483647

/-- The arguments `List` can be executed with: the status is one, and neither `LIMIT` nor
`OFFSET` is negative. -/
def ListFilters.Executable (f : ListFilters) : Prop :=
  f.status ≠ some none ∧ 0 ≤ f.limit ∧ 0 ≤ f.offset

instance (f : ListFilters) : Decidable f.Executable := inferInstanceAs (Decidable (_ ∧ _))

/-- `Messages.List`; `none` is an error of the database. -/
def Messages.list (lower : Char → Char) (t : Messages) (f : ListFilters) :
    Option (List SignalMessage) :=
  if f.Executable then
    some ((((t.listed lower f).drop f.offset.toNat).take f.limit.toNat).map rowToDomain)
  else none

/-- `Messages.Count`.  The cast of the count to `int` fails above its largest value. -/
def Messages.count (lower : Char → Char) (t : Messages) (f : ListFilters) : Option Int :=
  let counted : Int := t.rows.countP (f.countWhere lower)
  if f.status ≠ some none ∧ counted ≤ maxInt32 then some counted else none

/-- `Count` counts the rows that `List` lists. -/
theorem Messages.count_eq (lower : Char → Char) (t : Messages) (f : ListFilters) :
    t.count lower f =
      if f.status ≠ some none ∧ ((t.listed lower f).length : Int) ≤ maxInt32 then
        some ((t.listed lower f).length : Int)
      else none := by
  rw [Messages.length_listed, ← ListFilters.countWhere_eq]
  rfl

end Signalium
