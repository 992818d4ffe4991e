import Signalium.Worker.SingleFlight

/-!
# Terminal statuses under the workers and the reaper

`SENT`, `PERMANENT_FAILED` and `TIMED_OUT` are meant to last until an operator
steps in.  `ClaimPending` and `MarkTimedOut` test the status of a row and keep
them.  `MarkSent` and `MarkFailed` test nothing: a dispatch marks the row it
claimed whatever has become of it meanwhile.  So a terminal status lasts along a
run exactly when no mark that reaches the database meets a row with another
terminal status (`terminal_absorbing_iff`).

Within its lease a dispatch meets such a row in one case only, after the reaper
has timed it out.  Where dispatches start promptly and no mark comes later than
the deadline of its row, terminal statuses last
(`terminalAbsorbing_of_prompt`).
-/

namespace Signalium

open Runs Tables

variable {cfg : WorkerConfig} {s s' : Outbox} {a : Label} {d : Dispatch} {r r' : Row} {delay : Nat}

/-- A row with a terminal status keeps it through every part of the run in which
no operator calls on it. -/
def TerminalAbsorbing (cfg : WorkerConfig) (tr : List Label) : Prop :=
  ∀ tr₁ tr₂ tr₃ s₁ s₂, tr = tr₁ ++ tr₂ ++ tr₃ → Run (Outbox.step cfg) Outbox.init tr₁ s₁ →
    Run (Outbox.step cfg) s₁ tr₂ s₂ → ∀ r ∈ s₁.table, r.status.isTerminal = true →
      (∀ a ∈ tr₂, a.operates? ≠ some r.id) → ∀ r' ∈ s₂.table, r'.id = r.id → r'.status = r.status

/-- The statement is a mark that replaces the terminal status of the row by
another status. -/
def Stmt.Overwrites (r : Row) : Stmt → Prop
  | .markSent id _ => r.id = id ∧ (r.status = .timedOut ∨ r.status = .permanentFailed)
  | .markFailed id _ _ =>
      r.id = id ∧ (r.status = .sent ∨ r.status = .timedOut ∨
        r.status = .permanentFailed ∧ r.attempts < r.maxAttempts)
  | _ => False

instance (r : Row) (st : Stmt) : Decidable (st.Overwrites r) :=
  match st with
  | .markSent _ _ | .markFailed _ _ _ => inferInstanceAs (Decidable (_ ∧ _))
  | .insert _ _ | .claimPending _ _ | .markTimedOut | .resend _ | .updateStatus _ _ =>
      inferInstanceAs (Decidable False)

/-- No mark of the step overwrites a terminal status. -/
def MarksOpen (cfg : WorkerConfig) (s : Outbox) (a : Label) : Prop :=
  ∀ st ∈ s.stmt? cfg a, ∀ r ∈ s.table, ¬ st.Overwrites r

instance (cfg : WorkerConfig) (s : Outbox) (a : Label) : Decidable (MarksOpen cfg s a) :=
  inferInstanceAs (Decidable (∀ st ∈ s.stmt? cfg a, _))

/-! ## One statement -/

theorem Stmt.Overwrites.isTerminal {st : Stmt} (h : st.Overwrites r) :
    r.status.isTerminal = true := by
  cases st with
  | markSent id resultId => rcases h with ⟨_, hs | hs⟩ <;> · rw [hs]; rfl
  | markFailed id lastError next => rcases h with ⟨_, hs | hs | ⟨hs, _⟩⟩ <;> · rw [hs]; rfl
  | _ => cases h

theorem Row.Claimable.not_terminal {now : Int} (h : r.Claimable now) :
    r.status.isTerminal = false := by
  rcases h.2.1 with hs | ⟨hs, _⟩ <;> · rw [hs]; rfl

theorem Row.Overdue.not_terminal {now : Int} (h : r.Overdue now) :
    r.status.isTerminal = false := by
  rcases h.2.1 with hs | hs | hs <;> · rw [hs]; rfl

/-- A statement other than an operator's call on the row changes a terminal
status exactly when it overwrites it. -/
theorem Stmt.effect_status_iff {now : Int} {t : Messages} {st : Stmt} (hr : r ∈ t)
    (hterm : r.status.isTerminal = true) (hresend : st ≠ .resend r.id)
    (hupdate : ∀ status, st ≠ .updateStatus r.id status) :
    (st.effect now t r).status = r.status ↔ ¬ st.Overwrites r := by
  cases st with
  | insert id p => simp [Stmt.effect, Stmt.Overwrites]
  | claimPending lease locked =>
      have hstep := (Stmt.claimPending lease locked).effect_step now hr
      refine ⟨fun _ h => h, fun _ => ?_⟩
      generalize (Stmt.claimPending lease locked).effect now t r = r' at hstep
      cases hstep with
      | unchanged => rfl
      | claimed _ hc => rw [hc.not_terminal] at hterm; cases hterm
  | markTimedOut =>
      refine ⟨fun _ h => h, fun _ => ?_⟩
      simp only [Stmt.effect]
      split
      · next ho => rw [ho.not_terminal] at hterm; cases hterm
      · rfl
  | markSent id resultId =>
      by_cases hid : r.id = id
      · rcases SignalMessageStatus.isTerminal_iff.mp hterm with hs | hs | hs <;>
          simp [Stmt.effect, Stmt.Overwrites, Row.markSent, hid, hs]
      · simp [Stmt.effect, Stmt.Overwrites, hid]
  | markFailed id lastError next =>
      by_cases hid : r.id = id
      · by_cases hlim : r.maxAttempts ≤ r.attempts <;>
          rcases SignalMessageStatus.isTerminal_iff.mp hterm with hs | hs | hs <;>
            simp [Stmt.effect, Stmt.Overwrites, Row.markFailed, hid, hs, hlim, lt_of_not_ge]
      · simp [Stmt.effect, Stmt.Overwrites, hid]
  | resend id =>
      have hid : r.id ≠ id := by rintro rfl; exact hresend rfl
      simp [Stmt.effect, Stmt.Overwrites, hid]
  | updateStatus id status =>
      have hid : r.id ≠ id := by rintro rfl; exact hupdate _ rfl
      simp [Stmt.effect, Stmt.Overwrites, hid]

/-! ## Runs -/

/-- A step whose marks are open keeps terminal statuses. -/
theorem MarksOpen.effect_status (h : MarksOpen cfg s a) (hr : r ∈ s.table)
    (hterm : r.status.isTerminal = true) (hop : a.operates? ≠ some r.id) :
    (s.effect cfg a r).status = r.status := by
  unfold Outbox.effect
  cases hst : s.stmt? cfg a with
  | none => rfl
  | some st =>
      have hex := Outbox.stmt?_executes hst
      refine (Stmt.effect_status_iff hr hterm ?_ ?_).mpr (h st hst r hr)
      · rintro rfl
        rw [hex.resend_inv] at hop
        exact hop rfl
      · rintro status rfl
        rw [hex.updateStatus_inv] at hop
        exact hop rfl

/-- Marks are not an operator's calls. -/
theorem Executes.operates?_eq_none {st : Stmt} (hex : Executes cfg s a st)
    (h : st.Overwrites r) : a.operates? = none := by
  cases st with
  | markSent id resultId =>
      obtain ⟨_, _, _, _, _, rfl, _⟩ := hex.markSent_inv
      rfl
  | markFailed id lastError next =>
      obtain ⟨_, _, _, _, rfl, _⟩ := hex.markFailed_inv
      rfl
  | _ => cases h

/-- Along a run whose marks are open, a terminal row keeps its status. -/
theorem terminal_kept {tr : List Label} (hrun : RunOf (Outbox.step cfg) (MarksOpen cfg) s tr s')
    (hr : r ∈ s.table) (hterm : r.status.isTerminal = true)
    (hop : ∀ a ∈ tr, a.operates? ≠ some r.id) :
    ∃ r' ∈ s'.table, r'.id = r.id ∧ r'.status = r.status := by
  induction hrun with
  | nil => exact ⟨r, hr, rfl, rfl⟩
  | @snoc tr m m' a _ ha hs ih =>
      obtain ⟨r₁, hr₁, hid, hstatus⟩ := ih fun b hb => hop b (List.mem_append_left _ hb)
      refine ⟨_, Outbox.effect_mem hs hr₁, by rw [Outbox.effect_id cfg a hr₁, hid], ?_⟩
      rw [ha.effect_status hr₁ (by rw [hstatus]; exact hterm) ?_, hstatus]
      rw [hid]
      exact hop a (List.mem_append_right _ (List.mem_singleton_self a))

theorem TerminalAbsorbing.of_marksOpen {tr : List Label}
    (h : RunOf (Outbox.step cfg) (MarksOpen cfg) Outbox.init tr s) : TerminalAbsorbing cfg tr := by
  intro tr₁ tr₂ tr₃ s₁ s₂ he h₁ h₂ r hr hterm hop r' hr' hid
  rw [List.append_assoc] at he
  obtain ⟨m₁, hm₁, hrest⟩ := h.split he
  cases hm₁.state_unique h₁
  obtain ⟨m₂, hm₂, _⟩ := hrest.split rfl
  cases hm₂.state_unique h₂
  obtain ⟨r₂, hr₂, hid₂, hstatus⟩ := terminal_kept hm₂ hr hterm hop
  rw [s₂.table.row_unique hr' hr₂ (hid.trans hid₂.symm), hstatus]

/-- Where terminal statuses last, no mark overwrites one. -/
theorem TerminalAbsorbing.marksOpen {tr : List Label} (h : TerminalAbsorbing cfg (tr ++ [a]))
    (hr : Run (Outbox.step cfg) Outbox.init tr s) (hs : s.step cfg a = some s') :
    MarksOpen cfg s a := by
  intro st hst r hrt hover
  have hex := Outbox.stmt?_executes hst
  have hterm := hover.isTerminal
  have hop : a.operates? ≠ some r.id := by rw [hex.operates?_eq_none hover]; exact nofun
  have hstep : Run (Outbox.step cfg) s [a] s' := .snoc .nil trivial hs
  have hkept := h tr [a] [] s s' (by simp) hr hstep r hrt hterm (by simpa using hop) _
    (Outbox.effect_mem hs hrt) (Outbox.effect_id cfg a hrt)
  have heff : s.effect cfg a r = st.effect s.now s.table r := by
    rw [Outbox.effect, Option.mem_def.mp hst]
    rfl
  rw [heff] at hkept
  refine (Stmt.effect_status_iff hrt hterm ?_ ?_).mp hkept hover
  · rintro rfl; exact hover
  · rintro status rfl; exact hover

/-- Along any run of workers, reaper and operators, terminal statuses last until
an operator's call exactly when no mark that reaches the database overwrites
one: no `MarkSent` of a row that is `TIMED_OUT` or `PERMANENT_FAILED`, and no
`MarkFailed` of a row that is `SENT`, `TIMED_OUT`, or `PERMANENT_FAILED` below
its limit. -/
theorem terminal_absorbing_iff {tr : List Label}
    (hr : Run (Outbox.step cfg) Outbox.init tr s) :
    TerminalAbsorbing cfg tr ↔ RunOf (Outbox.step cfg) (MarksOpen cfg) Outbox.init tr s := by
  refine ⟨fun h => ?_, TerminalAbsorbing.of_marksOpen⟩
  induction hr with
  | nil => exact .nil
  | @snoc tr s s' a hr _ hs ih =>
      refine .snoc (ih ?_) (h.marksOpen hr hs) hs
      intro tr₁ tr₂ tr₃ s₁ s₂ he
      exact h tr₁ tr₂ (tr₃ ++ [a]) s₁ s₂ (by rw [he]; simp)

/-- The message is claimed, sent and marked. -/
def sentTrace : List Label :=
  [.insert "m-1" plainParams, .claim [] .committed, .dispatch 0 .start,
    .dispatch 0 (.downloaded (.ok [])), .dispatch 0 .send, .advance 1000000000,
    .dispatch 0 (.sendReturned (.ok { timestamp := 1700000001 })),
    .dispatch 0 (.markSent .ackLost), .advance 50000000, .dispatch 0 (.wake true),
    .dispatch 0 (.markSent .committed), .reap]

/-- A message stays `SENT`, also when `MarkSent` is executed twice. -/
theorem sent_terminal_absorbing : TerminalAbsorbing defaultConfig sentTrace :=
  (terminal_absorbing_iff (run_of_exec rfl)).mpr (runOf_of_execOf rfl)

/-- The deadline of a message passes while it is being sent.  The reaper times it
out, then the reply comes and the worker marks the message. -/
def lateReplyTrace : List Label :=
  [.insert "m-1" { plainParams with timeoutAt := some 10000000000 }, .claim [] .committed,
    .dispatch 0 .start, .dispatch 0 (.downloaded (.ok [])), .dispatch 0 .send,
    .advance 10000000000, .reap, .dispatch 0 (.sendReturned (.ok { timestamp := 1700000001 })),
    .dispatch 0 (.markSent .committed)]

/-- The last step of `lateReplyTrace` turns a `TIMED_OUT` row into a `SENT` one. -/
theorem late_reply_not_absorbing :
    ∃ s s', Run (Outbox.step defaultConfig) Outbox.init (lateReplyTrace.take 8) s ∧
      Run (Outbox.step defaultConfig) Outbox.init lateReplyTrace s' ∧
      (s.table.rows.map fun r => r.status) = [.timedOut] ∧
      (s'.table.rows.map fun r => r.status) = [.sent] ∧
      ¬ TerminalAbsorbing defaultConfig lateReplyTrace := by
  refine ⟨_, _, run_of_exec rfl, run_of_exec rfl, rfl, rfl, fun h => ?_⟩
  have hkept := h (lateReplyTrace.take 8) (lateReplyTrace.drop 8) [] _ _ rfl (run_of_exec rfl)
    (run_of_exec rfl) _ (List.mem_singleton_self _) rfl (by decide) _
    (List.mem_singleton_self _) rfl
  cases hkept

/-! ## Marks in time -/

/-- The row a mark writes. -/
def Stmt.marks? : Stmt → Option UUID
  | .markSent id _ | .markFailed id _ _ => some id
  | _ => none

/-- The marks of the step are executed before the deadline of their row. -/
def MarksInTime (cfg : WorkerConfig) (s : Outbox) (a : Label) : Prop :=
  ∀ st ∈ s.stmt? cfg a, ∀ r ∈ s.table, st.marks? = some r.id → ∀ t ∈ r.timeoutAt, s.now < t

/-- A dispatch within its lease that marks in time overwrites nothing. -/
theorem FlightInv.marksOpen (hI : FlightInv cfg delay s) (h : MarksInTime cfg s a) :
    MarksOpen cfg s a := by
  intro st hst r hr hover
  have hex := Outbox.stmt?_executes hst
  cases st with
  | markSent id resultId =>
      obtain ⟨i, d, res, k, rep, _, _, hd, hid, hl, hp, _⟩ := hex.markSent_inv
      obtain ⟨rfl, hterm⟩ := hover
      have hf := hl.inFlight (by simp [Dispatch.finished, hp])
      rcases hI.held i d hd hf r hr hid.symm with ⟨hs, _⟩ | ⟨hs, _⟩ | ⟨t, ht, hle⟩
      · rw [hs] at hterm; simp at hterm
      · rw [hs] at hterm; simp at hterm
      · have := h _ hst r hr rfl t ht
        omega
  | markFailed id lastError next =>
      obtain ⟨i, d, jitter, rep, _, _, hd, hid, hl, hp⟩ := hex.markFailed_inv
      obtain ⟨rfl, hterm⟩ := hover
      have hf := hl.inFlight (by simp [Dispatch.finished, hp])
      rcases hI.held i d hd hf r hr hid.symm with ⟨hs, _⟩ | ⟨_, hpast⟩ | ⟨t, ht, hle⟩
      · rw [hs] at hterm; simp at hterm
      · simp [Dispatch.pastFailing, hp] at hpast
      · have := h _ hst r hr rfl t ht
        omega
  | _ => exact hover

/-- Terminal statuses last where dispatches start promptly, the lease covers
them, and no mark is later than the deadline of its row. -/
theorem terminalAbsorbing_of_prompt {tr : List Label} (hc : LeaseCovers cfg delay)
    (hr : RunOf (Outbox.step cfg) (fun s a => Prompt delay s a ∧ MarksInTime cfg s a)
      Outbox.init tr s) : TerminalAbsorbing cfg tr :=
  .of_marksOpen <| hr.mono_of_invariant flightInv_init
    (fun _ _ _ hI hok hs => hI.step hc hok.1 hs) fun _ _ hI hok => hI.marksOpen hok.2

end Signalium
