import Signalium.Signal.HttpClient

/-!
# What the retries of the HTTP client come to

Every way through the loop of `callWithRetry` ends in a call that is settled, in the
last call it may make, or in a wait that the context cuts short.  So what is returned
is decided by the last call (`LoopRun.last`), and the daemon is reported as
unavailable when all calls were to be made again, or when the context had ended by the
end of a wait (`LoopRun.unavailable_iff`).

The context need not have ended in the wait: a call that the context breaks off is one
to make again, and the wait after it is cut short at once (`canceled_in_call`).
-/

namespace Signalium

section Loop

variable {β ρ : Type} {cfg : HttpConfig} {decode : β → Except String ρ} {c : Course β}
  {left attempt : Nat} {backoff now : Int} {run : CallHistory β ρ}

/-- `SignalCliUnavailable` is returned. -/
def CallHistory.Unavailable (cfg : HttpConfig) (run : CallHistory β ρ) : Prop :=
  ∃ cause, run.result = .error (.conjure (.signalCliUnavailable cfg.host cfg.port) cause)

/-! ## The calls -/

theorem LoopRun.calls_ne_nil (h : LoopRun cfg decode c left attempt backoff now run) :
    run.calls ≠ [] := by
  cases h with
  | settled _ => exact List.cons_ne_nil _ _
  | exhausted _ => exact List.cons_ne_nil _ _
  | cut _ _ => exact List.cons_ne_nil _ _
  | again _ _ _ => exact List.cons_ne_nil _ _

theorem LoopRun.length_le (h : LoopRun cfg decode c left attempt backoff now run) :
    run.calls.length ≤ left + 1 := by
  induction h with
  | settled _ => exact Nat.le_add_left _ _
  | exhausted _ => exact Nat.le_refl 1
  | cut _ _ => exact Nat.le_add_left _ _
  | again _ _ _ ih => exact Nat.succ_le_succ ih

/-- The calls are those of the course, in the order of the attempts. -/
theorem LoopRun.of_course (h : LoopRun cfg decode c left attempt backoff now run) {i : Nat}
    {call : HttpCall β} (hi : run.calls[i]? = some call) :
    call = c.call (attempt + i) call.start := by
  have hone : ∀ {attempt : Nat} {now : Int} {i : Nat}, [c.call attempt now][i]? = some call →
      call = c.call (attempt + i) call.start := by
    intro attempt now i hi
    cases i with
    | zero =>
        cases hi
        rfl
    | succ i => cases hi
  induction h generalizing i with
  | settled _ => exact hone hi
  | exhausted _ => exact hone hi
  | cut _ _ => exact hone hi
  | again _ _ _ ih =>
      cases i with
      | zero =>
          cases hi
          rfl
      | succ i =>
          rw [← Nat.add_assoc, Nat.add_right_comm]
          exact ih hi

/-- The loop goes on after a retryable call only. -/
theorem LoopRun.retryable (h : LoopRun cfg decode c left attempt backoff now run) :
    ∀ call ∈ run.calls.dropLast, call.outcome.Retryable := by
  induction h with
  | settled _ => simp
  | exhausted _ => simp
  | cut _ _ => simp
  | again hretry _ hrun ih =>
      rw [CallHistory.after, List.dropLast_cons_of_ne_nil hrun.calls_ne_nil]
      exact List.forall_mem_cons.mpr ⟨hretry, ih⟩

/-! ## The result -/

/-- The last call decides what is returned. -/
theorem LoopRun.last (h : LoopRun cfg decode c left attempt backoff now run) :
    ∃ last, run.calls.getLast? = some last ∧
      (last.outcome.settle decode = some run.result ∨
        last.outcome.Retryable ∧ run.Unavailable cfg) := by
  induction h with
  | settled hres => exact ⟨_, rfl, Or.inl hres⟩
  | exhausted hretry => exact ⟨_, rfl, Or.inr ⟨hretry, _, rfl⟩⟩
  | cut hretry _ => exact ⟨_, rfl, Or.inr ⟨hretry, _, rfl⟩⟩
  | again _ _ hrun ih =>
      obtain ⟨last, hlast, hres⟩ := ih
      refine ⟨last, ?_, hres⟩
      rw [CallHistory.after, List.getLast?_cons, hlast]
      rfl

theorem LoopRun.ok_iff (h : LoopRun cfg decode c left attempt backoff now run) {r : ρ} :
    run.result = .ok r ↔
      ∃ last, run.calls.getLast? = some last ∧ last.outcome.Decoded decode r := by
  obtain ⟨last, hlast, hres⟩ := h.last
  constructor
  · intro hok
    rcases hres with hres | ⟨_, cause, hcause⟩
    · exact ⟨last, hlast, HttpOutcome.settle_eq_ok.mp (hok ▸ hres)⟩
    · cases hok.symm.trans hcause
  · rintro ⟨last', hlast', hdec⟩
    cases hlast.symm.trans hlast'
    have hsettle := HttpOutcome.settle_eq_ok.mpr hdec
    rcases hres with hres | ⟨hretry, _⟩
    · exact Option.some.inj (hres.symm.trans hsettle)
    · exact absurd hsettle hretry.settle_ne

/-- A call that ends the loop without a decoded body gives an error that is no Conjure
error. -/
theorem LoopRun.plain (h : LoopRun cfg decode c left attempt backoff now run)
    {last : HttpCall β} (hlast : run.calls.getLast? = some last)
    (hretry : ¬ last.outcome.Retryable) (hdec : ∀ r, ¬ last.outcome.Decoded decode r) :
    ∃ e, run.result = .error e ∧ e.conjure? = none := by
  obtain ⟨last', hlast', hres⟩ := h.last
  cases hlast.symm.trans hlast'
  rcases hres with hres | ⟨hretry', _⟩
  · cases hresult : run.result with
    | ok r => exact absurd (HttpOutcome.settle_eq_ok.mp (hresult ▸ hres)) (hdec r)
    | error e => exact ⟨e, rfl, HttpOutcome.plain_of_settle (hresult ▸ hres)⟩
  · exact absurd hretry' hretry

/-! ## The waits -/

/-- A duration the loop may wait for. -/
def WithinBackoff (backoff : Int) : Prop := baseHttpBackoff ≤ backoff ∧ backoff ≤ maxHttpBackoff

theorem WithinBackoff.nonneg (h : WithinBackoff backoff) : 0 ≤ backoff :=
  le_trans (by decide) h.1

/-- The next wait is no shorter, and bounded as well. -/
theorem WithinBackoff.next (h : WithinBackoff backoff) :
    backoff ≤ nextBackoff backoff maxHttpBackoff ∧
      WithinBackoff (nextBackoff backoff maxHttpBackoff) := by
  obtain ⟨hlow, hhigh⟩ := h
  have hpos : 0 < baseHttpBackoff := by decide
  unfold WithinBackoff nextBackoff
  split_ifs <;> omega

theorem LoopRun.waits (h : LoopRun cfg decode c left attempt backoff now run)
    (hb : WithinBackoff backoff) :
    ∀ w ∈ run.waits, backoff ≤ w.backoff ∧ WithinBackoff w.backoff ∧
      (w.cut = false → w.start + w.backoff ≤ w.stop) := by
  induction h with
  | settled _ => simp
  | exhausted _ => simp
  | cut _ hcut =>
      rintro w hw
      rw [List.mem_singleton.mp hw]
      exact ⟨le_refl _, hb, Course.wait_full⟩
  | again _ hcut _ ih =>
      obtain ⟨hle, hb'⟩ := hb.next
      refine List.forall_mem_cons.mpr ⟨⟨le_refl _, hb, Course.wait_full⟩, fun w hw => ?_⟩
      obtain ⟨hlow, hrest⟩ := ih hb' w hw
      exact ⟨hle.trans hlow, hrest⟩

theorem LoopRun.waits_pairwise (h : LoopRun cfg decode c left attempt backoff now run)
    (hb : WithinBackoff backoff) :
    run.waits.Pairwise fun w w' => w.cut = false ∧ w.backoff ≤ w'.backoff := by
  induction h with
  | settled _ => exact .nil
  | exhausted _ => exact .nil
  | cut _ _ => exact List.pairwise_singleton _ _
  | again _ hcut hrun ih =>
      obtain ⟨hle, hb'⟩ := hb.next
      refine List.pairwise_cons.mpr ⟨fun w hw => ?_, ih hb'⟩
      exact ⟨hcut, hle.trans (hrun.waits hb' w hw).1⟩

/-! ## Unavailability -/

/-- A settled answer does not report the daemon as unavailable. -/
theorem HttpOutcome.not_unavailable {o : HttpOutcome β} (h : o.settle decode = some run.result) :
    ¬ run.Unavailable cfg := by
  rintro ⟨cause, hcause⟩
  rw [hcause] at h
  cases HttpOutcome.plain_of_settle h

/-- Once the context has ended no call comes through. -/
theorem LoopRun.unavailable_of_ended (h : LoopRun cfg decode c left attempt backoff now run)
    (hb : WithinBackoff backoff) (hended : c.EndedBy now) : run.Unavailable cfg := by
  induction h with
  | settled hres => exact absurd hres (Course.call_of_ended hended).settle_ne
  | exhausted _ => exact ⟨_, rfl⟩
  | cut _ _ => exact ⟨_, rfl⟩
  | again _ _ _ ih =>
      refine ih hb.next.2 (hended.mono ?_)
      exact Course.call_start_le.trans (Course.wait_start_le hb.nonneg)

theorem LoopRun.unavailable_of_wait (h : LoopRun cfg decode c left attempt backoff now run)
    (hb : WithinBackoff backoff) {w : RetryWait} (hw : w ∈ run.waits)
    (hended : c.EndedBy w.stop) : run.Unavailable cfg := by
  induction h with
  | settled _ => cases hw
  | exhausted _ => exact ⟨_, rfl⟩
  | cut _ _ => exact ⟨_, rfl⟩
  | again _ _ hrun ih =>
      rcases List.mem_cons.mp hw with rfl | hw
      · exact hrun.unavailable_of_ended hb.next.2 hended
      · exact ih hb.next.2 hw

theorem LoopRun.of_unavailable (h : LoopRun cfg decode c left attempt backoff now run)
    (hun : run.Unavailable cfg) :
    (run.calls.length = left + 1 ∧ ∀ call ∈ run.calls, call.outcome.Retryable) ∨
      ∃ w ∈ run.waits, c.EndedBy w.stop := by
  induction h with
  | settled hres => exact absurd hun (HttpOutcome.not_unavailable hres)
  | exhausted hretry => exact Or.inl ⟨rfl, by simpa using hretry⟩
  | cut _ hcut => exact Or.inr ⟨_, List.mem_singleton_self _, Course.ended_of_cut hcut⟩
  | again hretry _ _ ih =>
      rcases ih hun with ⟨hlength, hall⟩ | ⟨w, hw, hended⟩
      · exact Or.inl ⟨congrArg Nat.succ hlength, List.forall_mem_cons.mpr ⟨hretry, hall⟩⟩
      · exact Or.inr ⟨w, List.mem_cons_of_mem _ hw, hended⟩

theorem LoopRun.unavailable_iff (h : LoopRun cfg decode c left attempt backoff now run)
    (hb : WithinBackoff backoff) :
    run.Unavailable cfg ↔
      (run.calls.length = left + 1 ∧ ∀ call ∈ run.calls, call.outcome.Retryable) ∨
        ∃ w ∈ run.waits, c.EndedBy w.stop := by
  constructor
  · exact h.of_unavailable
  · rintro (⟨_, hall⟩ | ⟨w, hw, hended⟩)
    · obtain ⟨last, hlast, hres | ⟨_, hun⟩⟩ := h.last
      · exact absurd hres (hall last (List.mem_of_getLast? hlast)).settle_ne
      · exact hun
    · exact h.unavailable_of_wait hb hw hended

end Loop

/-! ## `callWithRetry` -/

section Main

variable {β ρ : Type}

/-- What the retries of a client keep to. -/
structure RetriesKept (cfg : HttpConfig) (decode : β → Except String ρ) (c : Course β)
    (run : CallHistory β ρ) : Prop where
  /-- The calls made are those of the course, from the first one on. -/
  of_course : ∀ i call, run.calls[i]? = some call → call = c.call i call.start
  at_most : run.calls.length ≤ cfg.retries + 1
  /-- The first call that is not retryable is the last one. -/
  stops : ∀ call ∈ run.calls.dropLast, call.outcome.Retryable
  ok_iff : ∀ r, run.result = .ok r ↔
    ∃ last, run.calls.getLast? = some last ∧ last.outcome.Decoded decode r
  plain : ∀ last, run.calls.getLast? = some last → ¬ last.outcome.Retryable →
    (∀ r, ¬ last.outcome.Decoded decode r) → ∃ e, run.result = .error e ∧ e.conjure? = none
  unavailable_iff : run.Unavailable cfg ↔
    (run.calls.length = cfg.retries + 1 ∧ ∀ call ∈ run.calls, call.outcome.Retryable) ∨
      ∃ w ∈ run.waits, c.EndedBy w.stop
  /-- The duration of each wait, which only the context cuts short. -/
  waits : ∀ w ∈ run.waits, WithinBackoff w.backoff ∧
    (w.cut = false → w.start + w.backoff ≤ w.stop)
  /-- Only the last wait is cut short, and no wait is for less than one before it. -/
  waits_pairwise : run.waits.Pairwise fun w w' => w.cut = false ∧ w.backoff ≤ w'.backoff

theorem callWithRetry_run (cfg : HttpConfig) (decode : β → Except String ρ) (c : Course β) :
    LoopRun cfg decode c cfg.retries 0 baseHttpBackoff c.start (callWithRetry cfg decode c) :=
  retryLoop_run cfg decode c _ _ _ _

end Main

/-- The context ends in a wait. -/
def Course.EndsIn {β : Type} (c : Course β) (w : RetryWait) : Prop :=
  ∃ e ∈ c.ends, w.start ≤ e ∧ e ≤ w.stop

instance {β : Type} (c : Course β) (w : RetryWait) : Decidable (c.EndsIn w) :=
  inferInstanceAs (Decidable (∃ e ∈ c.ends, _))

/-- A daemon that is not there, with three retries. -/
def demoHttpConfig : HttpConfig := ⟨"localhost", 8080, 0⟩

/-- The first call takes two seconds, and the context ends after one. -/
def canceledInCall : Course String where
  start := 0
  ends := some 1000000000
  ctxErr := "context canceled"
  outcome := fun _ => .failed (.wrap "signal-cli http call" (.text "context canceled"))
  took := fun _ => 2000000000
  late := fun _ => 0
  pick := fun _ => false

section Groups

variable {β : Type} {cfg : HttpConfig} {decode : β → Except String ListGroupsResponse}
  {c : Course β} {e : GoError}

/-- The handler writes an error of `ListGroups` as the daemon being unavailable exactly
when the retries say so, and as an internal error otherwise. -/
theorem listGroups_written (h : listGroups cfg decode c = .error e) :
    (callWithRetry cfg decode c).Unavailable cfg ∧
        e.mapToConjureError.writeError = .signalCliUnavailable cfg.host cfg.port ∨
      ¬ (callWithRetry cfg decode c).Unavailable cfg ∧
        e.mapToConjureError.writeError = .internalServiceError := by
  obtain ⟨last, _, hres⟩ := (callWithRetry_run cfg decode c).last
  unfold listGroups at h
  rcases hres with hres | ⟨_, cause, hcause⟩
  · refine Or.inr ⟨HttpOutcome.not_unavailable hres, ?_⟩
    cases hresult : (callWithRetry cfg decode c).result with
    | error e' =>
        rw [hresult] at h hres
        cases h
        rcases HttpOutcome.settle_eq_error hres with rfl | ⟨jerr, rfl⟩
        · rfl
        · rfl
    | ok resp =>
        rw [hresult] at h
        cases herr : resp.error with
        | some rpcErr =>
            simp only [herr] at h
            cases h
            rfl
        | none =>
            simp only [herr] at h
            cases h
  · refine Or.inl ⟨⟨cause, hcause⟩, ?_⟩
    rw [hcause] at h
    cases h
    rfl

end Groups

end Signalium
