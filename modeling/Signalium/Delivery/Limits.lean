import Signalium.Delivery.Inserted

/-!
# The attempt limit and the deadline of a message

A request may bound the attempts and the time for its delivery.  Both bounds are `int`s
from the JSON of the client, and neither is checked from above: the first one is
converted to the `int32` of its column, the second one is multiplied by a second in
64-bit nanoseconds.

So the row has the bounds of the request exactly when the first one is an `int32` and the
second one is less than 293 years or so (`limits_kept_iff`).  Beyond, a limit may become
one attempt and a deadline an instant in the past (`unbounded_limits_wrap`).
-/

namespace Signalium

open Runs Tables

variable {svc : ServiceConfig} {cfg : WorkerConfig} {s : Pipeline} {tr : List PipelineLabel}

/-- The message has the limit of the request, and a deadline no earlier than the time it
was accepted plus the seconds of the request, in the microseconds of the database. -/
structure LimitsKept (m : CreateMessage) (r : SignalMessage) : Prop where
  maxAttempts : ∀ n ∈ m.maxAttempts, 0 < n → r.maxAttempts = n
  timeoutAt : ∀ n ∈ m.timeoutSeconds, 0 < n →
    ∃ t ∈ r.timeoutAt, tsTz (r.createdAt + n * 1000000000) ≤ t

/-- The limit is an `int32`, and the seconds are at most 2⁶³ - 1 nanoseconds. -/
structure CreateMessage.LimitsFit (m : CreateMessage) : Prop where
  maxAttempts : ∀ n ∈ m.maxAttempts, n ≤ 2147483647
  timeoutSeconds : ∀ n ∈ m.timeoutSeconds, n ≤ 9223372036

/-- Neither bound is among the columns that are written later. -/
theorem limitsKept_fixed {m : CreateMessage} {r : SignalMessage} :
    LimitsKept m r.fixed ↔ LimitsKept m r :=
  ⟨fun h => ⟨h.maxAttempts, h.timeoutAt⟩, fun h => ⟨h.maxAttempts, h.timeoutAt⟩⟩

section Row

variable {m : CreateMessage} {now n : Int} {id mid : UUID} {refs : List Attachment}

theorem CreateMessage.row_maxAttempts (hn : m.maxAttempts = some n) (hpos : 0 < n) :
    ((m.insertParams svc now mid refs).row now id).maxAttempts = toInt32 n := by
  simp only [InsertParams.row, CreateMessage.insertParams, hn, if_pos hpos]

theorem CreateMessage.row_timeoutAt (hn : m.timeoutSeconds = some n) (hpos : 0 < n) :
    ((m.insertParams svc now mid refs).row now id).timeoutAt =
      some (tsTz (now + durationSeconds n)) := by
  simp only [InsertParams.row, CreateMessage.insertParams, hn, if_pos hpos, Option.map_some]

/-- The deadline is late enough where the product does not wrap. -/
theorem tsTz_durationSeconds_iff (hpos : 0 < n) :
    tsTz (now + n * 1000000000) ≤ tsTz (now + durationSeconds n) ↔ n ≤ 9223372036 := by
  rw [tsTz, tsTz]
  rcases durationSeconds_cases hpos with ⟨hle, heq⟩ | ⟨hlt, hshort⟩
  · rw [heq]
    exact iff_of_true le_rfl hle
  · refine iff_of_false ?_ (by omega)
    omega

/-- The row of a request. -/
theorem CreateMessage.limitsKept_iff (m : CreateMessage) (now : Int) (id mid : UUID)
    (refs : List Attachment) :
    LimitsKept m (rowToDomain ((m.insertParams svc now mid refs).row now id)) ↔ m.LimitsFit := by
  constructor
  · intro h
    refine ⟨fun n hn => ?_, fun n hn => ?_⟩
    · rcases le_or_gt n 0 with hle | hpos
      · omega
      · have hkept := h.maxAttempts n hn hpos
        rw [rowToDomain, CreateMessage.row_maxAttempts hn hpos] at hkept
        exact (toInt32_eq_self_iff.mp hkept).2
    · rcases le_or_gt n 0 with hle | hpos
      · omega
      · obtain ⟨t, ht, hlate⟩ := h.timeoutAt n hn hpos
        rw [rowToDomain, CreateMessage.row_timeoutAt hn hpos] at ht
        cases ht
        exact (tsTz_durationSeconds_iff hpos).mp hlate
  · intro h
    refine ⟨fun n hn hpos => ?_, fun n hn hpos => ?_⟩
    · rw [rowToDomain, CreateMessage.row_maxAttempts hn hpos]
      exact toInt32_eq_self_iff.mpr ⟨by omega, h.maxAttempts n hn⟩
    · exact ⟨_, CreateMessage.row_timeoutAt hn hpos,
        (tsTz_durationSeconds_iff hpos).mpr (h.timeoutSeconds n hn)⟩

end Row

/-- Along any run: the row of a new message that was accepted keeps the bounds of the
request exactly when neither the conversion nor the product wraps. -/
theorem limits_kept_iff {k : Nat} {call : EnqueueCall} {rid : UUID}
    (hr : Run (Pipeline.step svc cfg) Pipeline.init tr s) (hcall : s.calls[k]? = some call)
    (hpc : call.pc = .returned (.ok { id := rid })) :
    ∃ r ∈ s.outbox.table, r.id = rid ∧
      (LimitsKept call.m (rowToDomain r) ↔ call.m.LimitsFit) := by
  obtain ⟨r, hrow, hid, mid, hby⟩ := (Pipeline.insertInv hr).accepted k call rid hcall hpc
  obtain ⟨now, refs, hcolumns⟩ := hby.columns
  refine ⟨r, hrow, hid, ?_⟩
  rw [← limitsKept_fixed, hcolumns, limitsKept_fixed]
  exact call.m.limitsKept_iff now r.id mid refs

/-- A message with an attempt limit and a number of seconds. -/
def boundedMessage (maxAttempts timeoutSeconds : Int) : CreateMessage where
  externalId := "ext-1"
  recipient := some "+380111111111"
  content := "hello"
  maxAttempts := some maxAttempts
  timeoutSeconds := some timeoutSeconds

/-- It is accepted. -/
def acceptBounded (maxAttempts timeoutSeconds : Int) : List PipelineLabel :=
  [.intake (.advance 1700000000000000000),
    .intake (.request (boundedMessage maxAttempts timeoutSeconds) []),
    .intake (.enqueue 0 (.lookup "u-1" false)), .intake (.enqueue 0 (.next false)),
    .intake (.enqueue 0 (.insert "m-1" .committed))]

/-- Three attempts within a minute. -/
theorem threeAttempts_kept :
    ∃ s, Run (Pipeline.step defaultService defaultConfig) Pipeline.init (acceptBounded 3 60) s ∧
      ∃ r ∈ s.outbox.table, r.id = "m-1" ∧
        LimitsKept (boundedMessage 3 60) (rowToDomain r) := by
  have hr : Run (Pipeline.step defaultService defaultConfig) Pipeline.init (acceptBounded 3 60) _ :=
    run_of_exec rfl
  obtain ⟨r, hrow, hid, hiff⟩ := limits_kept_iff (k := 0) hr rfl rfl
  exact ⟨_, hr, r, hrow, hid, hiff.mpr ⟨by decide, by decide⟩⟩

/-- A limit of 2³² + 1 attempts and a deadline in 9223372037 seconds: the message may be
tried once, and its deadline is some 292 years before it was accepted. -/
theorem unbounded_limits_wrap :
    ∃ s r, Run (Pipeline.step defaultService defaultConfig) Pipeline.init
        (acceptBounded 4294967297 9223372037) s ∧
      (s.calls.map EnqueueCall.pc) = [.returned (.ok { id := "m-1" })] ∧
      r ∈ s.outbox.table ∧ r.maxAttempts = 1 ∧ r.createdAt = 1700000000000000000 ∧
      r.timeoutAt = some (-7523372036709552000) ∧
      ¬ LimitsKept (boundedMessage 4294967297 9223372037) (rowToDomain r) := by
  refine ⟨_, _, run_of_exec rfl, rfl, List.mem_singleton_self _, rfl, rfl, rfl, fun h => ?_⟩
  exact absurd (h.maxAttempts 4294967297 rfl (by decide)) (by decide)

end Signalium
