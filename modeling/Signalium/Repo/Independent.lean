import Signalium.Repo.Statements

/-!
# Claim and reap at one instant

`ClaimPending` and `MarkTimedOut` both select on `status`, `deleted_at` and
`timeout_at`, with conditions that are written out twice.  They divide the rows
by the deadline: the claim wants it ahead of `now()`, the reaper behind it.  A
claim leaves the deadline alone and the reaper writes a status no claim
selects, so neither statement moves a row into or out of what the other
selects, although the claimed row is `SENDING` afterwards, a status the reaper
looks for.

Hence the two commute at every instant, in what they return and in what they
leave behind, and a reaper that runs where another one has just run finds
nothing to do (`claim_reap_independent`).
-/

namespace Signalium

open Tables

/-! ## What the reaper selects -/

/-- The rows `MarkTimedOut` flips. -/
def Messages.overdue (t : Messages) (now : Int) : List Row := t.rows.filter fun r => r.Overdue now

/-- `Messages.MarkTimedOut`: how many rows the statement has flipped, and the table. -/
def Messages.markTimedOutRows (t : Messages) (now : Int) : Nat × Messages :=
  ((t.overdue now).length, t.markTimedOut now)

/-- A row whose deadline is ahead is not overdue. -/
theorem Row.not_overdue {now : Int} {r : Row} (h : ∀ d ∈ r.timeoutAt, now < d) :
    ¬ r.Overdue now := by
  rintro ⟨_, _, d, hd, hle⟩
  have hlt := h d hd
  omega

/-- No row is eligible for a claim and overdue. -/
theorem Row.Claimable.not_overdue {now : Int} {r : Row} (h : r.Claimable now) :
    ¬ r.Overdue now :=
  Row.not_overdue h.2.2.2

/-- A claim leaves the deadline alone, so the claimed row is not overdue either. -/
theorem Row.Claimable.claim_not_overdue {now : Int} {r : Row} (lease : Int)
    (h : r.Claimable now) : ¬ (r.claim now lease).Overdue now :=
  Row.not_overdue (r := r.claim now lease) h.2.2.2

theorem Row.markTimedOut_not_claimable (now : Int) (r : Row) :
    ¬ (r.markTimedOut now).Claimable now := by
  simp [Row.Claimable, Row.markTimedOut]

theorem Row.markTimedOut_not_overdue (now : Int) (r : Row) :
    ¬ (r.markTimedOut now).Overdue now := by
  simp [Row.Overdue, Row.markTimedOut]

/-! ## One after the other -/

/-- `ClaimPending` as the worker sees it: with no eligible row it claims nothing and
the table stays. -/
def Messages.claimRow (t : Messages) (now lease : Int) (locked : List UUID) :
    Option Row × Messages :=
  match t.claimPending now lease locked with
  | some (r, t') => (some r, t')
  | none => (none, t)

/-- What a claim and a reap at one instant give together. -/
structure ClaimAndReap where
  claimed : Option Row
  flipped : List Row
  count : Nat
  table : Messages

/-- `ClaimPending`, then `MarkTimedOut`. -/
def Messages.claimThenReap (t : Messages) (now lease : Int) (locked : List UUID) :
    ClaimAndReap :=
  let (claimed, t₁) := t.claimRow now lease locked
  let (count, t₂) := t₁.markTimedOutRows now
  ⟨claimed, t₁.overdue now, count, t₂⟩

/-- `MarkTimedOut`, then `ClaimPending`. -/
def Messages.reapThenClaim (t : Messages) (now lease : Int) (locked : List UUID) :
    ClaimAndReap :=
  let (count, t₁) := t.markTimedOutRows now
  let (claimed, t₂) := t₁.claimRow now lease locked
  ⟨claimed, t.overdue now, count, t₂⟩

/-- The reaper leaves the rows a claim selects from alone, and so the row it picks. -/
theorem Messages.claimCandidate_markTimedOut (t : Messages) (now : Int) (locked : List UUID) :
    (t.markTimedOut now).claimCandidate now locked = t.claimCandidate now locked := by
  refine congrArg (firstBy fun r : Row => r.nextAttemptAt) (filter_updateWhere fun r _ hover => ?_)
  have hover : r.Overdue now := of_decide_eq_true hover
  have hclaim : ¬ r.Claimable now := fun hc => hc.not_overdue hover
  exact ⟨by simp [hclaim], by simp [Row.markTimedOut_not_claimable now r]⟩

section Claimed

variable {t : Messages} {now : Int} {locked : List UUID} {c : Row}

/-- The row a claim writes, found by its id, is overdue neither before nor after. -/
theorem Messages.claimed_not_overdue (hc : t.claimCandidate now locked = some c) (lease : Int)
    {r : Row} (hr : r ∈ t) (hid : r.id = c.id) :
    ¬ r.Overdue now ∧ ¬ (r.claim now lease).Overdue now := by
  obtain ⟨hmem, hclaimable, _⟩ := Messages.claimCandidate_mem hc
  rw [t.row_unique hr hmem hid]
  exact ⟨hclaimable.not_overdue, hclaimable.claim_not_overdue lease⟩

/-- A claim leaves the rows the reaper selects alone. -/
theorem Messages.overdue_claim (hc : t.claimCandidate now locked = some c) (lease : Int) :
    Messages.overdue
      (t.update (fun r => r.id = c.id) (Row.claim now lease) (Row.claim_key now lease)) now =
      t.overdue now := by
  refine filter_updateWhere fun r hr hid => ?_
  simpa using Messages.claimed_not_overdue hc lease hr (of_decide_eq_true hid)

/-- The two `UPDATE`s commute. -/
theorem Messages.markTimedOut_claim (hc : t.claimCandidate now locked = some c) (lease : Int) :
    Messages.markTimedOut
      (t.update (fun r => r.id = c.id) (Row.claim now lease) (Row.claim_key now lease)) now =
      (t.markTimedOut now).update (fun r => r.id = c.id) (Row.claim now lease)
        (Row.claim_key now lease) := by
  refine Table.ext (updateWhere_comm (fun r hr hid => ?_) fun r hr hover => ?_)
  · simpa using Messages.claimed_not_overdue hc lease hr (of_decide_eq_true hid)
  · have hne : r.id ≠ c.id := fun hid =>
      (Messages.claimed_not_overdue hc lease hr hid).1 (of_decide_eq_true hover)
    exact ⟨decide_eq_false hne, decide_eq_false hne⟩

end Claimed

theorem Messages.claimThenReap_eq (t : Messages) (now lease : Int) (locked : List UUID) :
    t.claimThenReap now lease locked = t.reapThenClaim now lease locked := by
  simp only [Messages.claimThenReap, Messages.reapThenClaim, Messages.claimRow,
    Messages.claimPending, Messages.markTimedOutRows, Messages.claimCandidate_markTimedOut]
  cases hc : t.claimCandidate now locked with
  | none => rfl
  | some c =>
      simp only [Option.map_some, Messages.overdue_claim hc lease,
        Messages.markTimedOut_claim hc lease]

/-! ## One reaper after another -/

/-- Nothing is overdue where the reaper has just been. -/
theorem Messages.overdue_markTimedOut (t : Messages) (now : Int) :
    (t.markTimedOut now).overdue now = [] := by
  refine List.filter_eq_nil_iff.mpr fun r' hr' => ?_
  obtain ⟨r, _, rfl⟩ := mem_updateWhere.mp hr'
  by_cases hover : r.Overdue now
  · simp [hover, Row.markTimedOut_not_overdue now r]
  · simp [hover]

/-- With nothing overdue the reaper flips nothing, however often it runs. -/
theorem Messages.markTimedOut_iterate {t : Messages} {now : Int} (h : t.overdue now = [])
    (n : Nat) : (fun t => t.markTimedOut now)^[n] t = t := by
  have hfix : t.markTimedOut now = t := Table.ext (updateWhere_eq_self h)
  induction n with
  | zero => rfl
  | succ n ih => rw [Function.iterate_succ_apply, hfix, ih]

/-- **Claim and reap are independent.**  At every instant and for every table, no
row is eligible for the claim and overdue; the two statements in either order
claim the same row, flip the same rows, count them alike and leave the same
table; and after one run of the reaper, however many more run at that instant,
nothing is flipped. -/
theorem claim_reap_independent (t : Messages) (now lease : Int) (locked : List UUID) :
    (∀ r ∈ t, ¬ (r.Claimable now ∧ r.Overdue now)) ∧
    t.claimThenReap now lease locked = t.reapThenClaim now lease locked ∧
    ∀ n, (fun t => t.markTimedOut now)^[n] (t.markTimedOut now) = t.markTimedOut now ∧
      ((fun t => t.markTimedOut now)^[n] (t.markTimedOut now)).markTimedOutRows now =
        (0, t.markTimedOut now) := by
  refine ⟨fun r _ h => h.1.not_overdue h.2, t.claimThenReap_eq now lease locked, fun n => ?_⟩
  have hnone := t.overdue_markTimedOut now
  have hfix := Messages.markTimedOut_iterate hnone
  refine ⟨hfix n, ?_⟩
  rw [hfix n, Messages.markTimedOutRows, hnone, List.length_nil]
  exact congrArg (Prod.mk 0) (hfix 1)

end Signalium
