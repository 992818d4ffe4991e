import Signalium.Lib.Runs
import Signalium.Worker.Steps

/-!
# The operator's calls

`UpdateSignalMessage` and `ResendSignalMessage` are the two calls by which an
operator writes a row.  The first one sets the status to any of five, all but
`SENDING`, and leaves `next_attempt_at` alone.  The second one makes the row due
at once, if its status is one of the three from which a message is sent again.

A row that is `SENDING` is under a lease until `next_attempt_at`.  Either call
keeps it alone, but not both together: a status set to `FAILED` opens the row to
`ResendSignalMessage`.  Over any sequence of calls the lease is kept exactly
when no `Resend` before its end meets the row in one of the three statuses with
its `timeout_at` still ahead (`operators_respect_lease_iff`).
-/

namespace Signalium

open Runs Tables

/-! ## The handlers -/

/-- The errors of the repository a handler tells apart. -/
inductive RepoError where
  | notFound
  | database
deriving DecidableEq, Repr

/-- The Conjure errors of the handlers of messages. -/
inductive HandlerError where
  | invalidSignalMessage (field reason : String)
  | signalMessageNotFound (id : String)
  | internalServiceError
deriving DecidableEq, Repr

/-- `mapToConjureError` on the errors of the repository. -/
def mapToConjureError : RepoError → HandlerError
  | .notFound => .signalMessageNotFound ""
  | .database => .internalServiceError

/-- `notFoundOrInternal`. -/
def notFoundOrInternal (id : UUID) : RepoError → HandlerError
  | .notFound => .signalMessageNotFound id
  | e => mapToConjureError e

/-- `GetByID`.  `reached` says whether the database answers. -/
def Messages.getByID (t : Messages) (id : UUID) (reached : Bool) :
    Except RepoError SignalMessage :=
  if reached then
    match t.rows.find? fun r => r.id = id ∧ r.deletedAt = none with
    | some r => .ok (rowToDomain r)
    | none => .error .notFound
  else .error .database

/-- `isOperatorAssignableStatus`.  A value outside of the enum is `none`. -/
def isOperatorAssignableStatus : Option SignalMessageStatus → Bool
  | some .pending | some .sent | some .failed | some .permanentFailed | some .timedOut => true
  | some .sending => false
  | none => false

/-- `UpdateSignalMessage`: the answer and the table after it. -/
def updateSignalMessage (now : Int) (t : Messages) (id : UUID)
    (status : Option SignalMessageStatus) (reply : DbReply) :
    Except HandlerError SignalMessage × Messages :=
  match status, isOperatorAssignableStatus status, reply with
  | some target, true, .committed =>
      let t' := t.updateStatus now id target
      ((t'.getByID id true).mapError (notFoundOrInternal id), t')
  | some target, true, .ackLost => (.error .internalServiceError, t.updateStatus now id target)
  | some _, true, .unreached => (.error .internalServiceError, t)
  | _, _, _ =>
      (.error (.invalidSignalMessage "status"
        "must be one of PENDING, SENT, FAILED, PERMANENT_FAILED, TIMED_OUT"), t)

/-- `ResendSignalMessage`: a lookup, the statement, and a lookup for the answer. -/
def resendSignalMessage (now : Int) (t : Messages) (id : UUID) (found : Bool) (reply : DbReply)
    (echoed : Bool) : Except HandlerError SignalMessage × Messages :=
  match t.getByID id found, reply with
  | .error e, _ => (.error (notFoundOrInternal id e), t)
  | .ok _, .unreached => (.error (mapToConjureError .database), t)
  | .ok _, .ackLost => (.error (mapToConjureError .database), t.resend now id)
  | .ok _, .committed =>
      let t' := t.resend now id
      ((t'.getByID id echoed).mapError (notFoundOrInternal id), t')

/-- A call of an operator, with what becomes of its database calls. -/
inductive OperatorCall where
  | updateSignalMessage (status : Option SignalMessageStatus) (reply : DbReply)
  | resendSignalMessage (found : Bool) (reply : DbReply) (echoed : Bool)
deriving DecidableEq, Repr

/-- The answer to a call on the row `id`, and the table after it. -/
def OperatorCall.serve (now : Int) (t : Messages) (id : UUID) :
    OperatorCall → Except HandlerError SignalMessage × Messages
  | .updateSignalMessage status reply => Signalium.updateSignalMessage now t id status reply
  | .resendSignalMessage found reply echoed =>
      Signalium.resendSignalMessage now t id found reply echoed

variable {now : Int} {t : Messages} {id : UUID} {r : Row}

/-- The table after `UpdateSignalMessage`. -/
theorem updateSignalMessage_table (now : Int) (t : Messages) (id : UUID)
    (status : Option SignalMessageStatus) (reply : DbReply) :
    (updateSignalMessage now t id status reply).2 = t ∨
      ∃ target, status = some target ∧ target ≠ .sending ∧
        (updateSignalMessage now t id status reply).2 =
          (Stmt.updateStatus id target).run now t := by
  cases status with
  | none => exact Or.inl rfl
  | some target =>
      by_cases hs : target = .sending
      · subst hs
        exact Or.inl rfl
      · have ha : isOperatorAssignableStatus (some target) = true := by
          cases target <;> first | rfl | exact absurd rfl hs
        cases reply with
        | committed => exact Or.inr ⟨target, rfl, hs, by simp only [updateSignalMessage, ha]; rfl⟩
        | ackLost => exact Or.inr ⟨target, rfl, hs, by simp only [updateSignalMessage, ha]; rfl⟩
        | unreached => exact Or.inl (by simp only [updateSignalMessage, ha])

/-- A row that is not deleted is found. -/
theorem Messages.getByID_of_mem (hr : r ∈ t) (hid : r.id = id) (hdel : r.deletedAt = none) :
    ∃ m, t.getByID id true = .ok m := by
  unfold Messages.getByID
  rw [if_pos rfl]
  split
  · exact ⟨_, rfl⟩
  · next hnone =>
      have hne := List.find?_eq_none.mp hnone r hr
      simp [hid, hdel] at hne

/-- The table after `ResendSignalMessage`. -/
theorem resendSignalMessage_table (now : Int) (t : Messages) (id : UUID) (found echoed : Bool)
    (reply : DbReply) :
    (resendSignalMessage now t id found reply echoed).2 = t ∨
      found = true ∧ reply ≠ .unreached ∧
        (resendSignalMessage now t id found reply echoed).2 = (Stmt.resend id).run now t := by
  unfold resendSignalMessage
  split
  · exact Or.inl rfl
  · exact Or.inl rfl
  · next hget => exact Or.inr ⟨by cases found <;> [cases hget; rfl], nofun, rfl⟩
  · next hget => exact Or.inr ⟨by cases found <;> [cases hget; rfl], nofun, rfl⟩

/-- `ResendSignalMessage` of a row that is there executes its statement. -/
theorem resendSignalMessage_executes (echoed : Bool) {reply : DbReply} (hr : r ∈ t)
    (hid : r.id = id) (hdel : r.deletedAt = none) (hreply : reply ≠ .unreached) :
    (resendSignalMessage now t id true reply echoed).2 = (Stmt.resend id).run now t := by
  obtain ⟨m, hm⟩ := Messages.getByID_of_mem hr hid hdel
  unfold resendSignalMessage
  rw [hm]
  cases reply with
  | committed => rfl
  | ackLost => rfl
  | unreached => exact absurd rfl hreply

/-! ## One row under the operator's calls -/

/-- The clock and the table while operators call on one row. -/
structure Console where
  now : Int
  table : Messages

/-- A step: the clock, a call on the row, or a statement of anybody on other
rows. -/
inductive ConsoleLabel where
  | advance (dt : Nat)
  | call (c : OperatorCall)
  | elsewhere (st : Stmt)
deriving Repr

/-- One step.  A statement that writes the row `id` is not enabled. -/
def Console.step (id : UUID) (s : Console) : ConsoleLabel → Option Console
  | .advance dt => some { s with now := s.now + dt }
  | .call c => some { s with table := (c.serve s.now s.table id).2 }
  | .elsewhere st =>
      if ∀ r ∈ s.table, r.id = id → st.effect s.now s.table r = r then
        some { s with table := st.run s.now s.table }
      else none

/-- `ClaimPending` does not return the row `id` at any time before `lease`. -/
def LeaseKept (id : UUID) (lease : Int) (s : Console) : Prop :=
  ∀ t duration locked row t', s.now ≤ t → t < lease →
    s.table.claimPending t duration locked = some (row, t') → row.id ≠ id

/-- A `Resend` that reaches the row before the end of its lease does not find it
in a status from which it is sent again with its `timeout_at` ahead. -/
def NoEarlyResend (id : UUID) (lease : Int) (s : Console) : ConsoleLabel → Prop
  | .call (.resendSignalMessage true reply _) =>
      reply ≠ .unreached → s.now < lease →
        ∀ r ∈ s.table, r.id = id → r.status.Resendable → ∃ t ∈ r.timeoutAt, t ≤ s.now
  | _ => True

instance (id : UUID) (lease : Int) (s : Console) (a : ConsoleLabel) :
    Decidable (NoEarlyResend id lease s a) :=
  match a with
  | .call (.resendSignalMessage true _ _) => inferInstanceAs (Decidable (_ → _))
  | .call (.resendSignalMessage false _ _) | .call (.updateSignalMessage _ _) | .advance _
  | .elsewhere _ => isTrue trivial

/-- The row cannot be claimed before `lease`, whatever its status: the lease has
ended, or the row is not due before its end, or its time is up. -/
def Leased (id : UUID) (lease : Int) (s : Console) : Prop :=
  ∃ r ∈ s.table, r.id = id ∧ r.deletedAt = none ∧
    (lease ≤ s.now ∨ lease ≤ r.nextAttemptAt ∨ ∃ t ∈ r.timeoutAt, t ≤ s.now)

variable {lease : Int} {s s' : Console} {a : ConsoleLabel}

/-- What a step can do to the row. -/
inductive ConsoleMove (id : UUID) (s : Console) (r : Row) :
    ConsoleLabel → Console → Row → Prop where
  | advanced {dt : Nat} : ConsoleMove id s r (.advance dt) { s with now := s.now + dt } r
  | unchanged {a : ConsoleLabel} {t' : Messages} :
      ConsoleMove id s r a { s with table := t' } r
  | updated {target : SignalMessageStatus} {reply : DbReply} {t' : Messages} :
      ConsoleMove id s r (.call (.updateSignalMessage (some target) reply))
        { s with table := t' } (r.updateStatus s.now target)
  | resent {reply : DbReply} {echoed : Bool} {t' : Messages} : r.status.Resendable →
      reply ≠ .unreached →
      ConsoleMove id s r (.call (.resendSignalMessage true reply echoed)) { s with table := t' }
        (r.resend s.now)

theorem Console.step_move (h : s.step id a = some s') (hr : r ∈ s.table) (hid : r.id = id)
    (hdel : r.deletedAt = none) :
    ∃ r' ∈ s'.table, r'.id = id ∧ r'.deletedAt = none ∧ ConsoleMove id s r a s' r' := by
  cases a with
  | advance dt => cases h; exact ⟨r, hr, hid, hdel, .advanced⟩
  | elsewhere st =>
      simp only [Console.step] at h
      split at h
      · next hkeep =>
          cases h
          have hmem := st.effect_mem s.now hr
          rw [hkeep r hr hid] at hmem
          exact ⟨r, hmem, hid, hdel, .unchanged⟩
      · cases h
  | call c =>
      cases h
      cases c with
      | updateSignalMessage status reply =>
          simp only [OperatorCall.serve]
          rcases updateSignalMessage_table s.now s.table id status reply
            with hsame | ⟨target, rfl, _, hrun⟩
          · exact ⟨r, by rw [hsame]; exact hr, hid, hdel, .unchanged⟩
          · have hmem := (Stmt.updateStatus id target).effect_mem s.now hr
            rw [← hrun, Stmt.effect, if_pos ⟨hid, hdel⟩] at hmem
            exact ⟨_, hmem, hid, hdel, .updated⟩
      | resendSignalMessage found reply echoed =>
          simp only [OperatorCall.serve]
          rcases resendSignalMessage_table s.now s.table id found echoed reply
            with hsame | ⟨rfl, hreply, hrun⟩
          · exact ⟨r, by rw [hsame]; exact hr, hid, hdel, .unchanged⟩
          · have hmem := (Stmt.resend id).effect_mem s.now hr
            rw [← hrun, Stmt.effect] at hmem
            split at hmem
            · next hs => exact ⟨_, hmem, hid, hdel, .resent hs.2 hreply⟩
            · exact ⟨r, hmem, hid, hdel, .unchanged⟩

theorem Leased.leaseKept (h : Leased id lease s) : LeaseKept id lease s := by
  intro t duration locked row t' hnow hlt hclaim hrow
  obtain ⟨r, hr, hid, _, hlease⟩ := h
  obtain ⟨c, hc, he⟩ := Option.map_eq_some_iff.mp hclaim
  cases he
  obtain ⟨hct, ⟨_, _, hdue, htime⟩, _⟩ := Messages.claimCandidate_mem hc
  cases s.table.row_unique hct hr (hrow.trans hid.symm)
  rcases hlease with h | h | ⟨u, hu, hle⟩
  · omega
  · omega
  · have := htime u hu
    omega

/-- Calls that do not send the row again early keep it under its lease. -/
theorem Leased.step (h : Leased id lease s) (hs : s.step id a = some s')
    (hok : NoEarlyResend id lease s a) : Leased id lease s' := by
  obtain ⟨r, hr, hid, hdel, hlease⟩ := h
  obtain ⟨r', hr', hid', hdel', hm⟩ := Console.step_move hs hr hid hdel
  refine ⟨r', hr', hid', hdel', ?_⟩
  cases hm with
  | @advanced dt =>
      rcases hlease with h | h | ⟨u, hu, hle⟩
      · exact Or.inl (by show lease ≤ s.now + dt; omega)
      · exact Or.inr (Or.inl h)
      · exact Or.inr (Or.inr ⟨u, hu, by show u ≤ s.now + dt; omega⟩)
  | unchanged => exact hlease
  | updated => exact hlease
  | resent hstatus hreply =>
      by_cases hlt : s.now < lease
      · exact Or.inr (Or.inr (hok hreply hlt r hr hid hstatus))
      · exact Or.inl (not_lt.mp hlt)

/-- A row that is eligible is returned to a worker if the other rows are held by
others. -/
theorem LeaseKept.not_claimable (h : LeaseKept id lease s) (hlt : s.now < lease) (hr : r ∈ s.table)
    (hid : r.id = id) : ¬ r.Claimable s.now := by
  intro hc
  let others := (s.table.rows.map fun r => r.id).filter fun i => i ≠ id
  have hfree : r.id ∉ others := by simp [others, hid]
  obtain ⟨c, hcand⟩ := Messages.exists_claimCandidate hr hc hfree
  obtain ⟨hct, _, hcfree⟩ := Messages.claimCandidate_mem hcand
  have hcid : c.id = id := by
    by_contra hne
    exact hcfree (List.mem_filter.mpr ⟨List.mem_map.mpr ⟨c, hct, rfl⟩, by simpa using hne⟩)
  have hclaim : s.table.claimPending s.now 0 others = some (c.claim s.now 0, s.table.update
      (fun r => r.id = c.id) (Row.claim s.now 0) (Row.claim_key s.now 0)) := by
    rw [Messages.claimPending, hcand, Option.map_some]
  exact h s.now 0 others _ _ le_rfl hlt hclaim hcid

/-- A `Resend` that finds the row open before the end of the lease gives it up. -/
theorem LeaseKept.noEarlyResend (hL : Leased id lease s) (hs : s.step id a = some s')
    (h : LeaseKept id lease s') : NoEarlyResend id lease s a := by
  unfold NoEarlyResend
  split
  · next reply echoed =>
      intro hreply hlt r hr hid hstatus
      obtain ⟨r₀, hr₀, hid₀, hdel, _⟩ := hL
      cases s.table.row_unique hr hr₀ (hid.trans hid₀.symm)
      cases hs
      have hmem := (Stmt.resend id).effect_mem s.now hr
      rw [← resendSignalMessage_executes echoed hr hid hdel hreply, Stmt.effect,
        if_pos ⟨hid, hstatus⟩] at hmem
      by_contra hnone
      have hahead : ∀ t ∈ r.timeoutAt, s.now < t := fun t ht =>
        not_le.mp fun hle => hnone ⟨t, ht, hle⟩
      exact h.not_claimable hlt hmem hid ⟨hdel, Or.inl rfl, le_rfl, hahead⟩
  · trivial

/-- No statement of the outbox deletes a row. -/
theorem Outbox.deletedAt_none {cfg : WorkerConfig} {s : Outbox} {tr : List Label}
    (h : Run (Outbox.step cfg) Outbox.init tr s) : ∀ r ∈ s.table, r.deletedAt = none := by
  refine h.invariant (I := fun s => ∀ r ∈ s.table, r.deletedAt = none) (by intro r hr; cases hr) ?_
  intro s a s' ih _ hs r' hr'
  rcases Outbox.mem_step hs hr' with ⟨r, hr, rfl⟩ | ⟨_, _, _, rfl, _⟩
  · rcases Outbox.effect_step cfg a hr with he | ⟨_, _, he⟩
    · rw [he]; exact ih r hr
    · rw [he.deletedAt_eq]; exact ih r hr
  · rfl

/-- From any reachable state and for any row of it, say one that is `SENDING`
under a lease, along any sequence of calls of operators on the row, while workers
and the reaper leave it alone: `ClaimPending` does not return the row before the
`next_attempt_at` it had exactly when no `Resend` before then reaches the row
while it is `FAILED`, `TIMED_OUT` or `PERMANENT_FAILED` and its `timeout_at` has
not passed. -/
theorem operators_respect_lease_iff {cfg : WorkerConfig} {o : Outbox} {tr₀ : List Label}
    {tr : List ConsoleLabel} (ho : Run (Outbox.step cfg) Outbox.init tr₀ o) (hr : r ∈ o.table)
    (hrun : Run (Console.step r.id) ⟨o.now, o.table⟩ tr s) :
    Always (Console.step r.id) ⟨o.now, o.table⟩ tr (LeaseKept r.id r.nextAttemptAt) ↔
      RunOf (Console.step r.id) (NoEarlyResend r.id r.nextAttemptAt) ⟨o.now, o.table⟩ tr s :=
  hrun.always_iff_kept (K := Leased r.id r.nextAttemptAt)
    ⟨r, hr, rfl, Outbox.deletedAt_none ho r hr, Or.inr (Or.inl le_rfl)⟩
    (fun _ h => h.leaseKept) (fun _ _ _ h _ hs hok => h.step hs hok)
    fun _ _ _ h _ hs hkept => hkept.noEarlyResend h hs

/-- A message has just been claimed. -/
def claimedTrace : List Label := [.insert "m-1" plainParams, .claim [] .committed]

/-- The row of `claimedTrace`: `SENDING`, under a lease of five minutes. -/
def claimedRow : Row := (plainParams.row 0 "m-1").claim 0 defaultConfig.leaseDuration

/-- An operator tries to send the message again while it is `SENDING`, then sets
it back to `PENDING`. -/
def setBackCalls : List ConsoleLabel :=
  [.advance 1000000000, .call (.resendSignalMessage true .committed true),
    .call (.updateSignalMessage (some .sending) .committed),
    .call (.updateSignalMessage (some .pending) .committed), .advance 1000000000]

/-- A row that is set back to `PENDING` stays under its lease. -/
theorem setBack_respects_lease :
    ∃ o s, Run (Outbox.step defaultConfig) Outbox.init claimedTrace o ∧ claimedRow ∈ o.table ∧
      claimedRow.status = .sending ∧ o.now < claimedRow.nextAttemptAt ∧
      Run (Console.step "m-1") ⟨o.now, o.table⟩ setBackCalls s ∧
      (s.table.rows.map fun r => r.status) = [.pending] ∧
      Always (Console.step "m-1") ⟨o.now, o.table⟩ setBackCalls
        (LeaseKept "m-1" claimedRow.nextAttemptAt) := by
  refine ⟨_, _, run_of_exec rfl, List.mem_singleton_self _, rfl, by decide, run_of_exec rfl, rfl,
    ?_⟩
  have ho : Run (Outbox.step defaultConfig) Outbox.init claimedTrace _ := run_of_exec rfl
  exact (operators_respect_lease_iff (r := claimedRow) ho (List.mem_singleton_self _)
    (run_of_exec rfl)).mpr (runOf_of_execOf rfl)

/-- An operator sets the message to `FAILED` and sends it again. -/
def failAndResendCalls : List ConsoleLabel :=
  [.advance 1000000000, .call (.updateSignalMessage (some .failed) .committed),
    .call (.resendSignalMessage true .committed true)]

/-- After the two calls of `failAndResendCalls`, one second into a lease of five
minutes, `ClaimPending` returns the row. -/
theorem failAndResend_breaks_lease :
    ∃ o s row t', Run (Outbox.step defaultConfig) Outbox.init claimedTrace o ∧
      claimedRow ∈ o.table ∧ claimedRow.status = .sending ∧
      Run (Console.step "m-1") ⟨o.now, o.table⟩ failAndResendCalls s ∧
      s.now < claimedRow.nextAttemptAt ∧
      s.table.claimPending s.now defaultConfig.leaseDuration [] = some (row, t') ∧
      row.id = "m-1" ∧
      ¬ Always (Console.step "m-1") ⟨o.now, o.table⟩ failAndResendCalls
        (LeaseKept "m-1" claimedRow.nextAttemptAt) := by
  refine ⟨_, _, _, _, run_of_exec rfl, List.mem_singleton_self _, rfl, run_of_exec rfl, by decide,
    rfl, rfl, fun h => ?_⟩
  exact h.last (run_of_exec rfl) 1000000000 defaultConfig.leaseDuration [] _ _ le_rfl (by decide)
    rfl rfl

end Signalium
