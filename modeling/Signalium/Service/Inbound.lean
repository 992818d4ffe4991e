import Signalium.Lib.Firsts
import Signalium.Service.Envelope

/-!
# Capturing inbound messages

`InboundListener.handle` of `internal/service/inbound_listener.go`, and the table
`signalium.inbound_signal_messages` it writes.

After a reconnect signal-cli delivers again what it has delivered before.  The
table has one row for each pair of source and timestamp, and a second row of a pair
is dropped.  So the table depends on the first capture of each pair only, and
events that are delivered again, in whatever order, leave it as it is
(`capture_replay_idempotent`).
-/

namespace Signalium

open Tables

/-- `InsertInboundParams`. -/
structure InsertInboundParams where
  source : String
  sourceUuid : Option String
  sourceTimestamp : Int
  groupId : Option String
  content : Option String
  attachments : Json
  raw : Json
deriving Repr

/-- The columns of `UNIQUE (source, source_timestamp)`. -/
def InsertInboundParams.key (p : InsertInboundParams) : String × Int :=
  (p.source, p.sourceTimestamp)

/-- The table `signalium.inbound_signal_messages`, with the columns `Insert` sets. -/
abbrev InboundMessages := Keyed InsertInboundParams.key

/-- What `handle` inserts for an envelope. -/
def InboundEnvelope.insertParams (env : InboundEnvelope) (raw : Json) : InsertInboundParams where
  source := env.source
  sourceUuid := env.sourceUuid
  sourceTimestamp := env.timestamp
  groupId := groupIDOf env
  content := contentOf env
  attachments := marshalAttachments (attachmentsOf env)
  raw := raw

/-- The part of `handle` before `Insert`: what is inserted, if anything is. -/
def Event.toInsert (ignore : InboundIgnore) (ev : Event) : Option InsertInboundParams :=
  if ev.method ≠ "receive" then none
  else
    match parseEnvelope ev.params with
    | none => none
    | some (env, raw) =>
        if env.filtered ignore then none
        else if env.source = "" ∨ env.timestamp = 0 then none
        else some (env.insertParams raw)

/-- `handle`, with a database that answers. -/
def handle (ignore : InboundIgnore) (t : InboundMessages) (ev : Event) : InboundMessages :=
  match ev.toInsert ignore with
  | none => t
  | some p => t.insertNew p

/-- The table after a sequence of events. -/
def handleAll (ignore : InboundIgnore) (events : List Event) : InboundMessages :=
  events.foldl (handle ignore) (Keyed.empty _)

/-! ## The first event of each message -/

/-- A receive event with a well-formed envelope that is not ignored and has a source
and a timestamp. -/
structure Capturable (ignore : InboundIgnore) (ev : Event) (env : InboundEnvelope) (raw : Json) :
    Prop where
  method : ev.method = "receive"
  parsed : parseEnvelope ev.params = some (env, raw)
  kept : env.filtered ignore = false
  source : env.source ≠ ""
  timestamp : env.timestamp ≠ 0

variable {ignore : InboundIgnore} {ev : Event} {p : InsertInboundParams} {t : InboundMessages}
  {events : List Event}

theorem Event.toInsert_eq_some :
    ev.toInsert ignore = some p ↔
      ∃ env raw, Capturable ignore ev env raw ∧ p = env.insertParams raw := by
  unfold Event.toInsert
  constructor
  · intro h
    split at h
    · cases h
    next hm =>
    split at h
    · cases h
    next env raw hparse =>
    split_ifs at h with hf hkey
    cases h
    rw [not_or] at hkey
    exact ⟨env, raw, ⟨not_not.mp hm, hparse, by simpa using hf, hkey.1, hkey.2⟩, rfl⟩
  · rintro ⟨env, raw, ⟨hm, hparse, hf, hsource, htime⟩, rfl⟩
    simp [hm, hparse, hf, hsource, htime]

/-- A sequence of events is a sequence of inserts. -/
theorem foldl_handle : events.foldl (handle ignore) t =
    t.insertAll (events.filterMap (Event.toInsert ignore)) := by
  induction events generalizing t with
  | nil => rfl
  | cons ev events ih =>
      rw [List.foldl_cons, ih, List.filterMap_cons, handle]
      cases ev.toInsert ignore with
      | none => rfl
      | some p => rfl

/-- None of the events is a capture of the key. -/
def NotCaptured (ignore : InboundIgnore) (events : List Event) (key : String × Int) : Prop :=
  ∀ ev ∈ events, ∀ env raw, Capturable ignore ev env raw → (env.source, env.timestamp) ≠ key

/-- One row for each pair of source and timestamp among the events that can be
captured, and it holds what the first such event has. -/
structure CapturesFirsts (ignore : InboundIgnore) (events : List Event) (t : InboundMessages) :
    Prop where
  one : (t.rows.map InsertInboundParams.key).Nodup
  rows : ∀ p, p ∈ t ↔ ∃ before ev after env raw, events = before ++ ev :: after ∧
    Capturable ignore ev env raw ∧ p = env.insertParams raw ∧
    NotCaptured ignore before (env.source, env.timestamp)

theorem notCaptured_iff {key : String × Int} :
    NotCaptured ignore events key ↔
      key ∉ (events.filterMap (Event.toInsert ignore)).map InsertInboundParams.key := by
  constructor
  · intro h hmem
    obtain ⟨p, hp, rfl⟩ := List.mem_map.mp hmem
    obtain ⟨ev, hev, hins⟩ := List.mem_filterMap.mp hp
    obtain ⟨env, raw, hcap, rfl⟩ := Event.toInsert_eq_some.mp hins
    exact h ev hev env raw hcap rfl
  · rintro h ev hev env raw hcap rfl
    refine h (List.mem_map.mpr ⟨env.insertParams raw, List.mem_filterMap.mpr ⟨ev, hev, ?_⟩, rfl⟩)
    exact Event.toInsert_eq_some.mpr ⟨env, raw, hcap, rfl⟩

theorem handleAll_captures : CapturesFirsts ignore events (handleAll ignore events) where
  one := (handleAll ignore events).valid
  rows p := by
    rw [handleAll, foldl_handle, Keyed.mem_insertAll]
    constructor
    · rintro (hold | ⟨_, l₁, l₂, hl, hfree⟩)
      · cases hold
      · obtain ⟨before, rest, rfl, rfl, hrest⟩ := List.filterMap_eq_append_iff.mp hl
        obtain ⟨gap, ev, after, rfl, hgap, hins, _⟩ := List.filterMap_eq_cons_iff.mp hrest
        obtain ⟨env, raw, hcap, rfl⟩ := Event.toInsert_eq_some.mp hins
        refine ⟨before ++ gap, ev, after, env, raw, by simp, hcap, rfl, notCaptured_iff.mpr ?_⟩
        rw [List.filterMap_append, List.filterMap_eq_nil_iff.mpr hgap, List.append_nil]
        exact hfree
    · rintro ⟨before, ev, after, env, raw, rfl, hcap, rfl, hfirst⟩
      refine Or.inr ⟨List.not_mem_nil, before.filterMap (Event.toInsert ignore),
        after.filterMap (Event.toInsert ignore), ?_, notCaptured_iff.mp hfirst⟩
      rw [List.filterMap_append, List.filterMap_cons_some
        (Event.toInsert_eq_some.mpr ⟨env, raw, hcap, rfl⟩)]

/-- Whatever the events and whatever is ignored: the table has one row for each
pair of source and timestamp that was captured, with what the first event of the
pair has, and events of the sequence that are delivered again, in any order and
any number of times, leave it as it is. -/
theorem capture_replay_idempotent (ignore : InboundIgnore) (events : List Event) :
    CapturesFirsts ignore events (handleAll ignore events) ∧
      ∀ again : List Event, (∀ ev ∈ again, ev ∈ events) →
        handleAll ignore (events ++ again) = handleAll ignore events := by
  refine ⟨handleAll_captures, fun again hagain => ?_⟩
  rw [handleAll, handleAll, List.foldl_append, foldl_handle, foldl_handle]
  refine Keyed.insertAll_of_mem fun p hp => ?_
  obtain ⟨ev, hev, hins⟩ := List.mem_filterMap.mp hp
  refine Keyed.mem_keys_insertAll.mpr (Or.inr (List.mem_map.mpr ⟨p, ?_, rfl⟩))
  exact List.mem_filterMap.mpr ⟨ev, hagain ev hev, hins⟩

/-- A text message from one sender. -/
def textEvent (content : String) : Event where
  method := "receive"
  params := some (.obj [("envelope", .obj [("source", .str "+380111111111"),
    ("timestamp", .num "1700000001"), ("dataMessage", .obj [("message", .str content)])])])

def ignoreNothing : InboundIgnore := ⟨false, false, false, false⟩

/-- Two events with one timestamp, delivered again in the other order: the first
one stays. -/
theorem redelivered_captured_once :
    handleAll ignoreNothing ([textEvent "hello", textEvent "hi"] ++
        [textEvent "hi", textEvent "hello"]) =
      handleAll ignoreNothing [textEvent "hello", textEvent "hi"] ∧
    ((handleAll ignoreNothing [textEvent "hello", textEvent "hi"]).rows.map fun r =>
      (r.key, r.content)) = [(("+380111111111", 1700000001), some "hello")] := by
  refine ⟨(capture_replay_idempotent ignoreNothing _).2 _ fun ev hev => ?_, by decide⟩
  simpa [or_comm] using hev

end Signalium
