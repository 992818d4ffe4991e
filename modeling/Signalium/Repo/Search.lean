import Signalium.Lib.Patterns
import Signalium.Repo.Listing

/-!
# The search text

`List` and `Count` put the search text `q` between two percent signs and hand the
whole to `ILIKE`.  A text without the characters that mean something in a pattern
is then searched for as it is, up to case.

Nothing in `q` is escaped, so any other text is a pattern of its own.  A percent
sign or an underscore stands for other characters, a backslash disappears, and a
last backslash takes the closing percent sign with it.  Each of them lets a text
through that does not contain `q`: the filter is a search for `q` in the contents
of every table exactly when `q` has none of them (`q_search_iff`).
-/

namespace Signalium

open Patterns Tables

/-! ## The meaning of a pattern -/

/-- The atoms of a `LIKE` pattern. -/
def atoms : List Char → List (Atom Char)
  | [] => []
  | '%' :: pattern => .any :: atoms pattern
  | '_' :: pattern => .one :: atoms pattern
  | '\\' :: c :: pattern => .lit c :: atoms pattern
  | c :: pattern => .lit c :: atoms pattern

theorem likeMatch_iff {lower : Char → Char} {pattern text : List Char} :
    likeMatch lower pattern text = true ↔ Matches lower (atoms pattern) text := by
  induction pattern using atoms.induct generalizing text with
  | case1 => simp [likeMatch, atoms, matches_nil]
  | case2 pattern ih => simp [likeMatch, atoms, matches_any, ih]
  | case3 pattern ih => cases text <;> simp [likeMatch, atoms, matches_one, ih]
  | case4 c pattern ih => cases text <;> simp [likeMatch, atoms, matches_lit, ih]
  | case5 c pattern hany hone hesc ih =>
      cases text <;> simp [likeMatch, atoms, matches_lit, ih]

/-- What the two clauses ask of a content. -/
theorem ilike_iff {lower : Char → Char} {content q : String} :
    ilike lower content ("%" ++ q ++ "%") = true ↔
      Matches lower (.any :: atoms (q.toList ++ ['%'])) content.toList := by
  rw [ilike, likeMatch_iff, String.toList_append, String.toList_append]
  rfl

/-! ## Texts without wildcards -/

/-- A character that means itself in a pattern. -/
def PlainChar (c : Char) : Prop := c ≠ '%' ∧ c ≠ '_' ∧ c ≠ '\\'

instance (c : Char) : Decidable (PlainChar c) := inferInstanceAs (Decidable (_ ∧ _))

/-- A text that is searched for as it is. -/
def PlainText (q : String) : Prop := ∀ c ∈ q.toList, PlainChar c

instance (q : String) : Decidable (PlainText q) := List.decidableBAll PlainChar q.toList

/-- The text stands in the content in one piece, up to case. -/
def Contains (lower : Char → Char) (q content : String) : Prop :=
  q.toList.map lower <:+: content.toList.map lower

instance (lower : Char → Char) (q content : String) : Decidable (Contains lower q content) :=
  inferInstanceAs (Decidable (_ <:+: _))

theorem atoms_cons_plain {c : Char} (hc : PlainChar c) (pattern : List Char) :
    atoms (c :: pattern) = .lit c :: atoms pattern := by
  rw [atoms]
  · exact hc.1
  · exact hc.2.1
  · intro _ _ h
    exact absurd h hc.2.2

theorem atoms_plain {q : List Char} (h : ∀ c ∈ q, PlainChar c) :
    atoms (q ++ ['%']) = q.map .lit ++ [.any] := by
  induction q with
  | nil => rfl
  | cons c q ih =>
      rw [List.cons_append, atoms_cons_plain (h c List.mem_cons_self),
        ih fun c' hc' => h c' (List.mem_cons_of_mem c hc')]
      rfl

/-- A plain text is found where it stands, and nowhere else. -/
theorem PlainText.ilike_iff_contains {q : String} (h : PlainText q) (lower : Char → Char)
    (content : String) :
    ilike lower content ("%" ++ q ++ "%") = true ↔ Contains lower q content := by
  rw [ilike_iff, atoms_plain h, matches_between]
  rfl

/-! ## Texts with wildcards -/

section Wildcards

variable {lower : Char → Char} {d : Char} {q : List Char}

/-- A search text matches a text that is no longer than itself. -/
theorem length_least_le (d : Char) (q : List Char) :
    (least d (atoms (q ++ ['%']))).length ≤ q.length := by
  induction q using atoms.induct with
  | case1 => exact Nat.le_refl 0
  | case2 q ih => exact Nat.le_succ_of_le ih
  | case3 q ih => exact Nat.succ_le_succ ih
  | case4 c q ih => exact Nat.le_succ_of_le (Nat.succ_le_succ ih)
  | case5 c q hany hone hesc ih =>
      by_cases hc : c = '\\'
      · -- The last character escapes the closing percent sign.
        cases q with
        | nil =>
            subst hc
            exact Nat.le_refl 1
        | cons c' q => exact absurd rfl (hesc c' q hc)
      · rw [List.cons_append, atoms_cons_plain ⟨hany, hone, hc⟩]
        exact Nat.succ_le_succ ih

/-- Where that text is the search text itself, every character means itself. -/
theorem plain_of_least (hany : lower '%' ≠ lower '\\') (hone : lower d ≠ lower '_')
    (h : q.map lower = (least d (atoms (q ++ ['%']))).map lower) : ∀ c ∈ q, PlainChar c := by
  have hlength := congrArg List.length h
  rw [List.length_map, List.length_map] at hlength
  induction q using atoms.induct with
  | case1 => simp
  | case2 q ih =>
      have hle := length_least_le d q
      rw [List.cons_append, atoms, least, List.length_cons] at hlength
      omega
  | case3 q ih =>
      rw [List.cons_append, atoms, least, List.map_cons, List.map_cons, List.cons.injEq] at h
      exact absurd h.1.symm hone
  | case4 c q ih =>
      have hle := length_least_le d q
      rw [List.cons_append, List.cons_append, atoms, least, List.length_cons, List.length_cons,
        List.length_cons] at hlength
      omega
  | case5 c q hany' hone' hesc ih =>
      by_cases hc : c = '\\'
      · cases q with
        | nil =>
            subst hc
            exact absurd (List.cons.inj h).1.symm hany
        | cons c' q => exact absurd rfl (hesc c' q hc)
      · have hplain : PlainChar c := ⟨hany', hone', hc⟩
        rw [List.cons_append, atoms_cons_plain hplain, least] at h hlength
        have hrest := ih (List.cons.inj h).2 (Nat.succ.inj hlength)
        exact List.forall_mem_cons.mpr ⟨hplain, hrest⟩

/-- A folding that tells the percent sign from the backslash tells one of them from the
underscore. -/
theorem exists_not_underscore (hfold : lower '%' ≠ lower '\\') : ∃ d, lower d ≠ lower '_' := by
  by_cases h : lower '%' = lower '_'
  · exact ⟨'\\', fun h' => hfold (h.trans h'.symm)⟩
  · exact ⟨'%', h⟩

/-- A search text that is not plain finds a content it does not stand in. -/
theorem exists_found_not_contains (hfold : lower '%' ≠ lower '\\') {q : String}
    (h : ¬ PlainText q) : ∃ content, ilike lower content ("%" ++ q ++ "%") = true ∧
      ¬ Contains lower q content := by
  obtain ⟨d, hd⟩ := exists_not_underscore hfold
  refine ⟨String.ofList (least d (atoms (q.toList ++ ['%']))), ?_, fun hin => h ?_⟩
  · rw [ilike_iff, String.toList_ofList]
    exact .any [] (least_matches lower d _)
  · rw [Contains, String.toList_ofList] at hin
    have hlength : ((least d (atoms (q.toList ++ ['%']))).map lower).length ≤
        (q.toList.map lower).length := by
      rw [List.length_map, List.length_map]
      exact length_least_le d q.toList
    exact plain_of_least hfold hd (hin.eq_of_length_le hlength)

end Wildcards

/-! ## The search -/

/-- The filters beside the search text. -/
def ListFilters.others (f : ListFilters) : ListFilters := { f with q := none }

/-- The rows a search is for, in the order of the list: those that pass the other filters
and contain the text. -/
def Messages.searched (lower : Char → Char) (t : Messages) (f : ListFilters) (q : String) :
    List Row :=
  (t.rows.filter fun r =>
    f.others.listWhere lower r && decide (Contains lower q r.content)).insertionSort
      Row.ListedBefore

/-- `List` and `Count` search for a text. -/
structure SubstringSearch (lower : Char → Char) (t : Messages) (f : ListFilters) (q : String) :
    Prop where
  list : t.list lower f =
    if f.Executable then
      some ((((t.searched lower f q).drop f.offset.toNat).take f.limit.toNat).map rowToDomain)
    else none
  count : t.count lower f =
    if f.status ≠ some none ∧ ((t.searched lower f q).length : Int) ≤ maxInt32 then
      some ((t.searched lower f q).length : Int)
    else none

/-- The clause of the search text stands beside the clauses of the other filters. -/
theorem ListFilters.listWhere_eq {f : ListFilters} {q : String} (hq : f.q = some q)
    (lower : Char → Char) (r : Row) :
    f.listWhere lower r =
      (f.others.listWhere lower r && ilike lower r.content ("%" ++ q ++ "%")) := by
  simp only [ListFilters.listWhere, ListFilters.others, hq, Option.all_some, Option.all_none,
    Bool.and_true]
  ac_rfl

theorem Messages.listed_eq_searched {lower : Char → Char} {f : ListFilters} {q : String}
    (hq : f.q = some q) (h : PlainText q) (t : Messages) :
    t.listed lower f = t.searched lower f q := by
  rw [Messages.listed, Messages.searched]
  refine congrArg (List.insertionSort Row.ListedBefore) (List.filter_congr fun r _ => ?_)
  rw [ListFilters.listWhere_eq hq, Bool.eq_iff_iff, Bool.and_eq_true, Bool.and_eq_true,
    h.ilike_iff_contains, decide_eq_true_eq]

/-- A message with a content. -/
def messageWith (content : String) : Row := { plainParams with content := content }.row 0 "id-1"

/-- A table with that message alone. -/
def tableWith (content : String) : Messages :=
  ⟨[messageWith content], by
    constructor <;>
      simp [messageWith, InsertParams.row, Row.key, plainParams, ExactlyOneTarget]⟩

/-- A search with no other filter. -/
def searchFor (q : String) : ListFilters where
  q := some q
  status := none
  attempts := none
  createdAtFrom := none
  createdAtTo := none
  limit := 50
  offset := 0

/-- A content that is found and does not contain the text is listed, and not searched
for. -/
theorem tableWith_not_search {lower : Char → Char} {q content : String}
    (hfound : ilike lower content ("%" ++ q ++ "%") = true) (hnot : ¬ Contains lower q content) :
    ¬ SubstringSearch lower (tableWith content) (searchFor q) q := by
  intro h
  have hothers : (searchFor q).others.listWhere lower (messageWith content) = true := rfl
  have hwhere : (searchFor q).listWhere lower (messageWith content) = true := by
    rw [ListFilters.listWhere_eq rfl, hothers, Bool.true_and]
    exact hfound
  have hlisted : (tableWith content).listed lower (searchFor q) = [messageWith content] := by
    rw [Messages.listed, tableWith, List.filter_cons_of_pos hwhere, List.filter_nil]
    rfl
  have hsearched : (tableWith content).searched lower (searchFor q) q = [] := by
    rw [Messages.searched, tableWith, List.filter_cons_of_neg, List.filter_nil]
    · rfl
    · rw [hothers, Bool.true_and, decide_eq_true_eq]
      exact hnot
  have hcount := h.count
  rw [Messages.count_eq, hlisted, hsearched] at hcount
  simp [searchFor, maxInt32] at hcount

/-- **The search text.**  The filter searches every table for `q`, beside whatever other
filters, exactly when `q` has no percent sign, no underscore and no backslash. -/
theorem q_search_iff {lower : Char → Char} (hfold : lower '%' ≠ lower '\\') (q : String) :
    (∀ (t : Messages) (f : ListFilters), f.q = some q → SubstringSearch lower t f q) ↔
      PlainText q := by
  constructor
  · intro hall
    by_contra h
    obtain ⟨content, hfound, hnot⟩ := exists_found_not_contains hfold h
    exact tableWith_not_search hfound hnot (hall (tableWith content) (searchFor q) rfl)
  · intro h t f hq
    constructor
    · rw [Messages.list, Messages.listed_eq_searched hq h]
    · rw [Messages.count_eq, Messages.listed_eq_searched hq h]

/-- A word is searched for. -/
theorem word_searched : PlainText "eggs" ∧ ∀ (t : Messages) (f : ListFilters),
    f.q = some "eggs" → SubstringSearch Char.toLower t f "eggs" :=
  ⟨by decide, (q_search_iff (by decide) "eggs").mpr (by decide)⟩

/-- `100%` finds a thousand eggs. -/
theorem percent_finds_more :
    (tableWith "1000 Eggs").list Char.toLower (searchFor "100%") =
        some [rowToDomain (messageWith "1000 Eggs")] ∧
      (tableWith "1000 Eggs").count Char.toLower (searchFor "100%") = some 1 ∧
      ¬ Contains Char.toLower "100%" "1000 Eggs" ∧
      ¬ SubstringSearch Char.toLower (tableWith "1000 Eggs") (searchFor "100%") "100%" := by
  have hnot : ¬ Contains Char.toLower "100%" "1000 Eggs" := by decide
  exact ⟨by decide, by decide, hnot, tableWith_not_search (by decide) hnot⟩

end Signalium
