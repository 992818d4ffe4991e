import Signalium.Lib.Runs
import Signalium.Service.Inbound

/-!
# Stopping the inbound listener

`Start`, `Stop` and `run` of `internal/service/inbound_listener.go`.  The loop
takes an event off the channel and hands it to `handle`; `Stop` cancels the
context of the loop and waits until the loop has returned.

This context is also the one `handle` passes to `Insert`.  An event that is in
hand when `Stop` cancels is not inserted, and neither is one that the loop still
takes afterwards, where `select` finds both its cases ready and picks the event.
Nobody delivers it again.  So `Stop` loses nothing exactly when every event that
makes a new row is inserted before the cancellation (`stop_loses_nothing_iff`).
-/

namespace Signalium

open Runs Tables

/-- The settings of the listener. -/
structure ListenerConfig where
  enabled : Bool
  ignore : InboundIgnore
deriving DecidableEq, Repr

/-- Where the goroutine of `Start` is. -/
inductive ListenPc where
  /-- `Start` has not been called. -/
  | idle
  /-- At the `select` of `run`. -/
  | selecting
  /-- In `handle`. -/
  | handling (ev : Event)
  | returned

/-- The event in hand. -/
def ListenPc.inHand : ListenPc → List Event
  | .handling ev => [ev]
  | _ => []

/-- Where `Stop` is. -/
inductive StopPc where
  | idle
  | waiting
  /-- With `nil`, or because its own context is done. -/
  | returned (ok : Bool)
deriving DecidableEq, Repr

/-- The channel, the loop, `Stop` and the table. -/
structure Listener where
  events : List Event
  closed : Bool
  loop : ListenPc
  /-- The context of the loop is cancelled. -/
  cancelled : Bool
  stop : StopPc
  table : InboundMessages
  /-- History: the events for which `handle` has returned. -/
  handled : List Event

/-- History: the events that were taken off the channel. -/
def Listener.taken (s : Listener) : List Event := s.handled ++ s.loop.inHand

def Listener.init : Listener := ⟨[], false, .idle, false, .idle, Keyed.empty _, []⟩

inductive ListenLabel where
  /-- The client puts an event on the channel. -/
  | arrive (ev : Event)
  | close
  | start
  /-- `select` takes an event. -/
  | take
  /-- `select` finds the channel closed. -/
  | drainedChannel
  /-- `select` finds the context done. -/
  | done
  /-- `handle` returns; its `Insert` fails under a cancelled context. -/
  | handle
  | stop
  | drained
  | timeout

/-- One step. -/
def Listener.step (cfg : ListenerConfig) (s : Listener) : ListenLabel → Option Listener
  | .arrive ev => if s.closed then none else some { s with events := s.events ++ [ev] }
  | .close => some { s with closed := true }
  | .start =>
      match s.loop, s.stop with
      | .idle, .idle => some { s with loop := if cfg.enabled then .selecting else .idle }
      | _, _ => none
  | .take =>
      match s.loop, s.events with
      | .selecting, ev :: rest => some { s with events := rest, loop := .handling ev }
      | _, _ => none
  | .drainedChannel =>
      match s.loop, s.events, s.closed with
      | .selecting, [], true => some { s with loop := .returned }
      | _, _, _ => none
  | .done =>
      match s.loop, s.cancelled with
      | .selecting, true => some { s with loop := .returned }
      | _, _ => none
  | .handle =>
      match s.loop with
      | .handling ev =>
          some { s with
            loop := .selecting
            table := if s.cancelled then s.table else Signalium.handle cfg.ignore s.table ev
            handled := s.handled ++ [ev] }
      | _ => none
  | .stop =>
      match s.stop with
      | .idle =>
          if cfg.enabled then
            -- `cancel` is `nil` before `Start`.
            match s.loop with
            | .idle => some { s with stop := .waiting }
            | _ => some { s with stop := .waiting, cancelled := true }
          else some { s with stop := .returned true }
      | _ => none
  | .drained =>
      match s.stop, s.loop with
      | .waiting, .idle => some { s with stop := .returned true }
      | .waiting, .returned => some { s with stop := .returned true }
      | _, _ => none
  | .timeout =>
      match s.stop with
      | .waiting => some { s with stop := .returned false }
      | _ => none

variable {cfg : ListenerConfig} {s s' : Listener} {a : ListenLabel}

/-! ## What a step does -/

inductive ListenMove (cfg : ListenerConfig) (s : Listener) : ListenLabel → Listener → Prop where
  | arrive {ev : Event} : ListenMove cfg s (.arrive ev) { s with events := s.events ++ [ev] }
  | close : ListenMove cfg s .close { s with closed := true }
  | start : s.loop = .idle → s.stop = .idle →
      ListenMove cfg s .start { s with loop := if cfg.enabled then .selecting else .idle }
  | take {ev : Event} {rest : List Event} : s.loop = .selecting → s.events = ev :: rest →
      ListenMove cfg s .take { s with events := rest, loop := .handling ev }
  | drainedChannel : s.loop = .selecting →
      ListenMove cfg s .drainedChannel { s with loop := .returned }
  | done : s.loop = .selecting → s.cancelled = true →
      ListenMove cfg s .done { s with loop := .returned }
  | handle {ev : Event} : s.loop = .handling ev →
      ListenMove cfg s .handle { s with
        loop := .selecting
        table := if s.cancelled then s.table else Signalium.handle cfg.ignore s.table ev
        handled := s.handled ++ [ev] }
  | stopDisabled : s.stop = .idle → cfg.enabled = false →
      ListenMove cfg s .stop { s with stop := .returned true }
  | stop {cancelled : Bool} : s.stop = .idle → (s.cancelled = true → cancelled = true) →
      ListenMove cfg s .stop { s with stop := .waiting, cancelled }
  | drained : s.stop = .waiting → s.loop = .idle ∨ s.loop = .returned →
      ListenMove cfg s .drained { s with stop := .returned true }
  | timeout : s.stop = .waiting → ListenMove cfg s .timeout { s with stop := .returned false }

theorem Listener.step_move (h : s.step cfg a = some s') : ListenMove cfg s a s' := by
  unfold Listener.step at h
  split at h
  · split at h <;> cases h
    exact .arrive
  · cases h
    exact .close
  · split at h <;> cases h
    exact .start ‹_› ‹_›
  · split at h <;> cases h
    exact .take ‹_› ‹_›
  · split at h <;> cases h
    exact .drainedChannel ‹_›
  · split at h <;> cases h
    exact .done ‹_› ‹_›
  · split at h <;> cases h
    exact .handle ‹_›
  · split at h
    · next hstop =>
        split at h
        · split at h <;> cases h
          · exact .stop hstop id
          · exact .stop hstop fun _ => rfl
        · next hen =>
            cases h
            exact .stopDisabled hstop (by simpa using hen)
    · cases h
  · split at h <;> cases h
    · exact .drained ‹_› (Or.inl ‹_›)
    · exact .drained ‹_› (Or.inr ‹_›)
  · split at h <;> cases h
    exact .timeout ‹_›

/-! ## What is lost -/

/-- The events have their rows. -/
def Stored (ignore : InboundIgnore) (t : InboundMessages) (events : List Event) : Prop :=
  ∀ ev ∈ events, ∀ p ∈ ev.toInsert ignore, p.key ∈ t.keys

/-- Every event that was taken and can be captured has the row of its source and
timestamp. -/
def NothingLost (ignore : InboundIgnore) (s : Listener) : Prop :=
  ∀ ev ∈ s.taken, ∀ env raw, Capturable ignore ev env raw →
    ∃ r ∈ s.table, r.source = env.source ∧ r.sourceTimestamp = env.timestamp

/-- An event whose row is not in the table is inserted before the cancellation. -/
def InsertsInTime (cfg : ListenerConfig) (s : Listener) : ListenLabel → Prop
  | .handle => ∀ ev ∈ s.loop.inHand, ∀ p ∈ ev.toInsert cfg.ignore, p.key ∉ s.table.keys →
      s.cancelled = false
  | _ => True

instance (cfg : ListenerConfig) (s : Listener) : (a : ListenLabel) →
    Decidable (InsertsInTime cfg s a)
  | .handle => inferInstanceAs (Decidable (∀ ev ∈ s.loop.inHand, ∀ p ∈ ev.toInsert cfg.ignore, _))
  | .arrive _ | .close | .start | .take | .drainedChannel | .done | .stop | .drained
  | .timeout => .isTrue trivial

/-- The loop and `Stop`. -/
structure ListenInv (cfg : ListenerConfig) (s : Listener) : Prop where
  disabled : cfg.enabled = false → s.loop = .idle
  stopped : s.stop = .returned true → s.loop = .idle ∨ s.loop = .returned
  /-- Nothing is lost before the cancellation. -/
  stored : s.cancelled = false → Stored cfg.ignore s.table s.handled

theorem listenInv_init : ListenInv cfg Listener.init where
  disabled _ := rfl
  stopped h := by cases h
  stored _ _ hev := by cases hev

theorem stored_handle {ignore : InboundIgnore} {t : InboundMessages} {events : List Event}
    {ev : Event} (h : Stored ignore t events) :
    Stored ignore (Signalium.handle ignore t ev) (events ++ [ev]) := by
  intro ev' hev' p hp
  unfold Signalium.handle
  rcases List.mem_append.mp hev' with hold | hnew
  · have hkey := h ev' hold p hp
    split
    · exact hkey
    · exact Keyed.mem_keys_insertNew.mpr (Or.inl hkey)
  · cases List.mem_singleton.mp hnew
    rw [Option.mem_def.mp hp]
    exact Keyed.mem_keys_insertNew.mpr (Or.inr rfl)

/-- While the loop runs the listener is enabled, and `Stop` has not returned `nil`. -/
theorem ListenInv.running (h : ListenInv cfg s) (hidle : s.loop ≠ .idle)
    (hret : s.loop ≠ .returned) : cfg.enabled ≠ false ∧ s.stop ≠ .returned true := by
  refine ⟨fun hen => hidle (h.disabled hen), fun hst => ?_⟩
  rcases h.stopped hst with hi | hr
  · exact hidle hi
  · exact hret hr

theorem ListenInv.step (h : ListenInv cfg s) (hs : s.step cfg a = some s') : ListenInv cfg s' := by
  cases Listener.step_move hs with
  | arrive => exact ⟨h.disabled, h.stopped, h.stored⟩
  | close => exact ⟨h.disabled, h.stopped, h.stored⟩
  | start hl hstop =>
      refine ⟨fun hen => by simp [hen], fun hst => ?_, h.stored⟩
      cases hstop.symm.trans hst
  | take hl _ =>
      obtain ⟨hen, hst⟩ := h.running (by simp [hl]) (by simp [hl])
      exact ⟨fun he => absurd he hen, fun he => absurd he hst, h.stored⟩
  | drainedChannel hl =>
      obtain ⟨hen, _⟩ := h.running (by simp [hl]) (by simp [hl])
      exact ⟨fun he => absurd he hen, fun _ => Or.inr rfl, h.stored⟩
  | done hl _ =>
      obtain ⟨hen, _⟩ := h.running (by simp [hl]) (by simp [hl])
      exact ⟨fun he => absurd he hen, fun _ => Or.inr rfl, h.stored⟩
  | handle hl =>
      obtain ⟨hen, hst⟩ := h.running (by simp [hl]) (by simp [hl])
      refine ⟨fun he => absurd he hen, fun he => absurd he hst, fun hc => ?_⟩
      have hc' : s.cancelled = false := hc
      simp only [hc', Bool.false_eq_true, if_false]
      exact stored_handle (h.stored hc')
  | stopDisabled _ hen => exact ⟨h.disabled, fun _ => Or.inl (h.disabled hen), h.stored⟩
  | stop _ hmono =>
      refine ⟨h.disabled, nofun, fun hc => h.stored ?_⟩
      cases hcs : s.cancelled with
      | false => rfl
      | true => rw [hmono hcs] at hc; cases hc
  | drained _ hl => exact ⟨h.disabled, fun _ => hl, h.stored⟩
  | timeout _ => exact ⟨h.disabled, nofun, h.stored⟩

/-- What a step does to the events that have their rows. -/
theorem ListenMove.stored_iff (hm : ListenMove cfg s a s')
    (h : Stored cfg.ignore s.table s.handled) :
    Stored cfg.ignore s'.table s'.handled ↔ InsertsInTime cfg s a := by
  cases hm with
  | @handle ev hl =>
      simp only [InsertsInTime, hl, ListenPc.inHand, List.mem_singleton, forall_eq]
      cases hc : s.cancelled with
      | false => simpa using stored_handle h
      | true =>
          simp only [if_true, Bool.true_eq_false, imp_false, not_not]
          constructor
          · exact fun h' => h' ev (List.mem_append_right _ (List.mem_singleton_self ev))
          · intro hev ev' hev'
            rcases List.mem_append.mp hev' with hold | hnew
            · exact h ev' hold
            · rwa [List.mem_singleton.mp hnew]
  | _ => exact ⟨fun _ => trivial, fun _ => h⟩

/-- What was lost stays lost: the context stays cancelled. -/
theorem ListenInv.stored_back (hI : ListenInv cfg s) (hm : ListenMove cfg s a s')
    (h : Stored cfg.ignore s'.table s'.handled) : Stored cfg.ignore s.table s.handled := by
  cases hm with
  | handle hl =>
      cases hc : s.cancelled with
      | false => exact hI.stored hc
      | true =>
          intro ev hev
          simpa only [hc, if_true] using h ev (List.mem_append_left _ hev)
  | _ => exact h

theorem nothingLost_iff (hl : s.loop.inHand = []) :
    NothingLost cfg.ignore s ↔ Stored cfg.ignore s.table s.handled := by
  unfold NothingLost Stored Listener.taken
  rw [hl, List.append_nil]
  refine forall₂_congr fun ev _ => ⟨fun h p hp => ?_, fun h env raw hcap => ?_⟩
  · obtain ⟨env, raw, hcap, rfl⟩ := Event.toInsert_eq_some.mp hp
    obtain ⟨r, hr, hsource, htime⟩ := h env raw hcap
    exact Keyed.mem_keys.mpr ⟨r, hr, Prod.ext hsource htime⟩
  · obtain ⟨r, hr, hkey⟩ := Keyed.mem_keys.mp
      (h _ (Event.toInsert_eq_some.mpr ⟨env, raw, hcap, rfl⟩))
    exact ⟨r, hr, congrArg Prod.fst hkey, congrArg Prod.snd hkey⟩

/-- Whatever the events and whenever `Stop` is called: when it has returned `nil`,
no event that was taken is lost exactly when `handle` has inserted every event that
makes a new row before the cancellation. -/
theorem stop_loses_nothing_iff {tr : List ListenLabel}
    (hr : Run (Listener.step cfg) Listener.init tr s) (hstop : s.stop = .returned true) :
    NothingLost cfg.ignore s ↔
      RunOf (Listener.step cfg) (InsertsInTime cfg) Listener.init tr s := by
  have hI : ListenInv cfg s := hr.invariant listenInv_init fun _ _ _ h _ hs => h.step hs
  have hl : s.loop.inHand = [] := by
    rcases hI.stopped hstop with h | h <;> rw [h] <;> rfl
  rw [nothingLost_iff hl]
  refine hr.last_iff (P := fun s => Stored cfg.ignore s.table s.handled) (J := ListenInv cfg)
    (fun _ hev => by cases hev) listenInv_init (fun _ _ _ h _ hs => h.step hs) ?_ ?_
  · exact fun _ _ _ hI _ hs h => hI.stored_back (Listener.step_move hs) h
  · exact fun _ _ _ _ h _ hs => (Listener.step_move hs).stored_iff h

def listening : ListenerConfig := ⟨true, ignoreNothing⟩

/-- An event is inserted, and then the listener is stopped. -/
def quietStop : List ListenLabel :=
  [.start, .arrive (textEvent "hello"), .take, .handle, .stop, .done, .drained]

theorem quietStop_loses_nothing :
    ∃ s, Run (Listener.step listening) Listener.init quietStop s ∧ s.stop = .returned true ∧
      NothingLost ignoreNothing s := by
  have hr : Run (Listener.step listening) Listener.init quietStop _ := run_of_exec rfl
  exact ⟨_, hr, rfl, (stop_loses_nothing_iff hr rfl).mpr (runOf_of_execOf rfl)⟩

/-- The listener is stopped with an event in hand. -/
def stopInHand : List ListenLabel :=
  [.start, .arrive (textEvent "hello"), .take, .stop, .handle, .done, .drained]

/-- `Stop` returns `nil`, and the event that was taken has no row. -/
theorem stopInHand_loses :
    ∃ s, Run (Listener.step listening) Listener.init stopInHand s ∧ s.stop = .returned true ∧
      s.taken = [textEvent "hello"] ∧ s.table.rows = [] ∧ ¬ NothingLost ignoreNothing s := by
  have hr : Run (Listener.step listening) Listener.init stopInHand _ := run_of_exec rfl
  refine ⟨_, hr, rfl, rfl, rfl, fun h => ?_⟩
  obtain ⟨r, hrow, _⟩ := h _ (List.mem_singleton_self _) _ _ ⟨rfl, rfl, rfl, by decide, by decide⟩
  cases hrow

end Signalium
