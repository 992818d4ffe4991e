import Signalium.Lib.Places
import Signalium.Worker.Dispatch

/-!
# What a step of the outbox does

The clock, the rows and the dispatches after a step, each said once.

* A row of the new table is the effect of the step's statement on an old row,
  or a row just inserted (`Outbox.mem_step`).
* A dispatch has evolved from the one at its place, or a claim has just started
  it (`Outbox.dispatch_step`).
* Only a dispatch whose context is live executes a mark
  (`Executes.markSent_inv`, `Executes.markFailed_inv`).

The table of the outbox runs through the statements of `queueStep`
(`Outbox.refines_queue`), so what holds along every run of the statements holds
of the workers.
-/

namespace Signalium

open Runs Tables

variable {cfg : WorkerConfig} {now : Int} {s s' : Outbox} {a : Label} {d d' : Dispatch} {r r' : Row}

/-! ## Dispatches -/

/-- What one step of a dispatch can do. -/
inductive ActStep (cfg : WorkerConfig) (now : Int) (d : Dispatch) : Act → Dispatch → Prop where
  | start : d.phase = .claimed →
      ActStep cfg now d .start
        { d with phase := .downloading, deadline := some (now + cfg.perAttemptTimeout) }
  | downloadFailed {e : String} : d.phase = .downloading →
      ActStep cfg now d (.downloaded (.error e))
        { d with phase := .failing ("download attachments: " ++ e) }
  | refused {paths : List String} {e : SendParamsError} : d.phase = .downloading →
      buildSendParams cfg.account d.msg paths = .error e →
      ActStep cfg now d (.downloaded (.ok paths)) { d with phase := .failing e.text }
  | built {paths : List String} {params : SendParams} : d.phase = .downloading →
      buildSendParams cfg.account d.msg paths = .ok params →
      ActStep cfg now d (.downloaded (.ok paths)) { d with phase := .ready params }
  | send {params : SendParams} : d.phase = .ready params →
      ActStep cfg now d .send { d with phase := .sending params }
  | sendFailed {params : SendParams} {e : String} : d.phase = .sending params →
      ActStep cfg now d (.sendReturned (.error e)) { d with phase := .failing e }
  | delivered {params : SendParams} {res : SendResult} : d.phase = .sending params →
      ActStep cfg now d (.sendReturned (.ok res)) { d with phase := .marking res 0 }
  | markSent {res : SendResult} {i : Nat} {r : DbReply} : d.phase = .marking res i →
      ActStep cfg now d (.markSent r) { d with phase := d.afterMarkSent now res i r }
  | woken {res : SendResult} {i : Nat} {wakeAt : Int} : d.phase = .sleeping res i wakeAt →
      wakeAt ≤ now → ActStep cfg now d (.wake true) { d with phase := .marking res (i + 1) }
  | interrupted {res : SendResult} {i : Nat} {wakeAt : Int} : d.phase = .sleeping res i wakeAt →
      ¬ d.Live now → ActStep cfg now d (.wake false) { d with phase := .done .markSentFailed }
  | markFailed {cause : String} {jitter : Int} {r : DbReply} : d.phase = .failing cause →
      IsJitter d.msg.attempts cfg.baseBackoff jitter →
      ActStep cfg now d (.markFailed jitter r) { d with phase := d.afterMarkFailed now r }
  | crash : (∀ o, d.phase ≠ .done o) → ActStep cfg now d .crash { d with phase := .crashed }
  | cancel : ActStep cfg now d .cancel { d with cancelled := true }

theorem Dispatch.act_step {ac : Act} (h : d.act cfg now ac = some d') :
    ActStep cfg now d ac d' := by
  cases ac with
  | start =>
      simp only [Dispatch.act] at h
      split at h
      · next hp => cases h; exact .start hp
      · cases h
  | downloaded r =>
      simp only [Dispatch.act] at h
      split at h
      · next hp => cases h; exact .downloadFailed hp
      · next hp =>
          split at h
          · next hb => cases h; exact .refused hp hb
          · next hb => cases h; exact .built hp hb
      · cases h
  | send =>
      simp only [Dispatch.act] at h
      split at h
      · next hp => cases h; exact .send hp
      · cases h
  | sendReturned r =>
      simp only [Dispatch.act] at h
      split at h
      · next hp => cases h; exact .sendFailed hp
      · next hp => cases h; exact .delivered hp
      · cases h
  | markSent r =>
      simp only [Dispatch.act] at h
      split at h
      · next hp => cases h; exact .markSent hp
      · cases h
  | wake timer =>
      simp only [Dispatch.act] at h
      split at h
      · next hp =>
          split at h
          · next ht => cases h; exact .woken hp ht
          · cases h
      · next hp =>
          split at h
          · cases h
          · next hl => cases h; exact .interrupted hp hl
      · cases h
  | markFailed jitter r =>
      simp only [Dispatch.act] at h
      split at h
      · next hp =>
          split at h
          · next hj => cases h; exact .markFailed hp hj
          · cases h
      · cases h
  | crash =>
      simp only [Dispatch.act] at h
      split at h
      · cases h
      · cases h
      · next hd _ => cases h; exact .crash hd
  | cancel => cases h; exact .cancel

/-- No step of a dispatch changes its message or its history. -/
theorem ActStep.frame {ac : Act} (h : ActStep cfg now d ac d') :
    d'.msg = d.msg ∧ d'.touched = d.touched := by
  cases h <;> exact ⟨rfl, rfl⟩

/-- The deadline is set once, by the start. -/
theorem ActStep.deadline_eq {ac : Act} (h : ActStep cfg now d ac d') :
    d'.deadline = d.deadline ∨
      d.phase = .claimed ∧ d'.phase = .downloading ∧
        d'.deadline = some (now + cfg.perAttemptTimeout) := by
  cases h with
  | start hp => exact Or.inr ⟨hp, rfl, rfl⟩
  | _ => exact Or.inl rfl

theorem Dispatch.reply_ne_unreached {r : DbReply} (h : d.reply now r ≠ .unreached) :
    d.Live now ∧ d.reply now r = r := by
  unfold Dispatch.reply at h ⊢
  split at h
  · next hl => exact ⟨hl, by rw [if_pos hl]⟩
  · exact absurd rfl h

/-- A dispatch executes a mark of its own row, under a live context. -/
theorem Dispatch.stmt?_eq {ac : Act} {st : Stmt} (h : d.stmt? cfg now ac = some st) :
    d.Live now ∧
      ((∃ res i r, ac = .markSent r ∧ r ≠ .unreached ∧ d.phase = .marking res i ∧
          st = .markSent d.msg.id res.resultID) ∨
        ∃ cause jitter r, ac = .markFailed jitter r ∧ r ≠ .unreached ∧ d.phase = .failing cause ∧
          st = .markFailed d.msg.id cause
            (now + backoff d.msg.attempts cfg.maxBackoff jitter)) := by
  cases ac with
  | markSent r =>
      simp only [Dispatch.stmt?] at h
      split at h
      · next res i hp =>
          split at h
          · cases h
          · next hne =>
              cases h
              obtain ⟨hl, hr⟩ := Dispatch.reply_ne_unreached hne
              exact ⟨hl, Or.inl ⟨res, i, r, rfl, hr ▸ hne, hp, rfl⟩⟩
      · cases h
  | markFailed jitter r =>
      simp only [Dispatch.stmt?] at h
      split at h
      · next cause hp =>
          split at h
          · cases h
          · next hne =>
              cases h
              obtain ⟨hl, hr⟩ := Dispatch.reply_ne_unreached hne
              exact ⟨hl, Or.inr ⟨cause, jitter, r, rfl, hr ▸ hne, hp, rfl⟩⟩
      · cases h
  | _ => cases h

/-- How a step of the system changes the dispatch at place `i`. -/
inductive Evolves (cfg : WorkerConfig) (now : Int) (i : Nat) :
    Label → Dispatch → Dispatch → Prop where
  | idle {a : Label} {d : Dispatch} : (∀ ac, a ≠ .dispatch i ac) → a.operates? = none →
      Evolves cfg now i a d d
  | acted {ac : Act} {d d' : Dispatch} : d.act cfg now ac = some d' →
      Evolves cfg now i (.dispatch i ac) d d'
  | resent {id : UUID} {d : Dispatch} : Evolves cfg now i (.resend id) d (d.touch id)
  | updated {id : UUID} {status : SignalMessageStatus} {d : Dispatch} :
      Evolves cfg now i (.updateStatus id status) d (d.touch id)

theorem Dispatch.touch_eq (id : UUID) (d : Dispatch) :
    d.touch id = { d with touched := d.touched || d.msg.id = id } := by
  obtain ⟨m, dl, c, ph, t⟩ := d
  by_cases h : m.id = id <;> simp [Dispatch.touch, h]

theorem Evolves.msg_eq {i : Nat} (h : Evolves cfg now i a d d') : d'.msg = d.msg := by
  cases h with
  | idle _ _ => rfl
  | acted h => exact (Dispatch.act_step h).frame.1
  | resent => rw [Dispatch.touch_eq]
  | updated => rw [Dispatch.touch_eq]

/-- A step of the system changes the phase, the deadline or the context of a
dispatch only as one of its own steps. -/
theorem Evolves.cases_act {i : Nat} (h : Evolves cfg now i a d d') :
    (∃ ac, a = .dispatch i ac ∧ d.act cfg now ac = some d' ∧ ActStep cfg now d ac d') ∨
      (∀ ac, a ≠ .dispatch i ac) ∧ d'.phase = d.phase ∧ d'.deadline = d.deadline ∧
        d'.cancelled = d.cancelled := by
  cases h with
  | idle hne _ => exact Or.inr ⟨hne, rfl, rfl, rfl⟩
  | acted h => exact Or.inl ⟨_, rfl, h, Dispatch.act_step h⟩
  | resent => rw [Dispatch.touch_eq]; exact Or.inr ⟨(by intro _ h; cases h), rfl, rfl, rfl⟩
  | updated => rw [Dispatch.touch_eq]; exact Or.inr ⟨(by intro _ h; cases h), rfl, rfl, rfl⟩

/-! ## Statements -/

/-- Which step executes which statement. -/
inductive Executes (cfg : WorkerConfig) (s : Outbox) : Label → Stmt → Prop where
  | insert {id : UUID} {p : InsertParams} : Executes cfg s (.insert id p) (.insert id p)
  | claim {locked : List UUID} {r : DbReply} : r ≠ .unreached →
      Executes cfg s (.claim locked r) (.claimPending cfg.leaseDuration locked)
  | mark {i : Nat} {ac : Act} {d : Dispatch} {st : Stmt} : s.dispatches[i]? = some d →
      d.stmt? cfg s.now ac = some st → Executes cfg s (.dispatch i ac) st
  | reap : Executes cfg s .reap .markTimedOut
  | resend {id : UUID} : Executes cfg s (.resend id) (.resend id)
  | updateStatus {id : UUID} {status : SignalMessageStatus} :
      Executes cfg s (.updateStatus id status) (.updateStatus id status)

theorem Outbox.stmt?_executes {st : Stmt} (h : s.stmt? cfg a = some st) : Executes cfg s a st := by
  cases a with
  | advance dt => cases h
  | insert id p => cases h; exact .insert
  | claim locked r =>
      simp only [Outbox.stmt?] at h
      split at h
      · cases h
      · next hr => cases h; exact .claim hr
  | dispatch i ac =>
      obtain ⟨d, hd, hst⟩ := Option.bind_eq_some_iff.mp h
      exact .mark hd hst
  | reap => cases h; exact .reap
  | resend id => cases h; exact .resend
  | updateStatus id status => cases h; exact .updateStatus

/-- Only the label `insert` inserts. -/
theorem Executes.insert_inv {id : UUID} {p : InsertParams} (h : Executes cfg s a (.insert id p)) :
    a = .insert id p := by
  cases h with
  | insert => rfl
  | mark _ hst =>
      rcases (Dispatch.stmt?_eq hst).2 with ⟨_, _, _, _, _, _, he⟩ | ⟨_, _, _, _, _, _, he⟩ <;>
        cases he

/-- Only the label `claim` claims. -/
theorem Executes.claimPending_inv {lease : Int} {locked : List UUID}
    (h : Executes cfg s a (.claimPending lease locked)) :
    ∃ r, r ≠ .unreached ∧ a = .claim locked r ∧ lease = cfg.leaseDuration := by
  cases h with
  | claim hr => exact ⟨_, hr, rfl, rfl⟩
  | mark _ hst =>
      rcases (Dispatch.stmt?_eq hst).2 with ⟨_, _, _, _, _, _, he⟩ | ⟨_, _, _, _, _, _, he⟩ <;>
        cases he

/-- Only the operator's labels send a row again or override its status. -/
theorem Executes.resend_inv {id : UUID} (h : Executes cfg s a (.resend id)) : a = .resend id := by
  cases h with
  | resend => rfl
  | mark _ hst =>
      rcases (Dispatch.stmt?_eq hst).2 with ⟨_, _, _, _, _, _, he⟩ | ⟨_, _, _, _, _, _, he⟩ <;>
        cases he

theorem Executes.updateStatus_inv {id : UUID} {status : SignalMessageStatus}
    (h : Executes cfg s a (.updateStatus id status)) : a = .updateStatus id status := by
  cases h with
  | updateStatus => rfl
  | mark _ hst =>
      rcases (Dispatch.stmt?_eq hst).2 with ⟨_, _, _, _, _, _, he⟩ | ⟨_, _, _, _, _, _, he⟩ <;>
        cases he

/-- `MarkSent` is executed by a dispatch of the row that has had its reply and
whose context is live. -/
theorem Executes.markSent_inv {id : UUID} {resultId : String}
    (h : Executes cfg s a (.markSent id resultId)) :
    ∃ i d res k r, a = .dispatch i (.markSent r) ∧ r ≠ .unreached ∧ s.dispatches[i]? = some d ∧
      d.msg.id = id ∧ d.Live s.now ∧ d.phase = .marking res k ∧ resultId = res.resultID := by
  cases h with
  | @mark i ac d _ hd hst =>
      obtain ⟨hl, ⟨res, k, r, rfl, hr, hp, he⟩ | ⟨_, _, _, _, _, _, he⟩⟩ := Dispatch.stmt?_eq hst
      · cases he
        exact ⟨i, d, res, k, r, rfl, hr, hd, rfl, hl, hp, rfl⟩
      · cases he

/-- `MarkFailed` is executed by a dispatch of the row that has failed and whose
context is live. -/
theorem Executes.markFailed_inv {id : UUID} {lastError : String} {next : Int}
    (h : Executes cfg s a (.markFailed id lastError next)) :
    ∃ i d jitter r, a = .dispatch i (.markFailed jitter r) ∧ r ≠ .unreached ∧
      s.dispatches[i]? = some d ∧ d.msg.id = id ∧ d.Live s.now ∧ d.phase = .failing lastError := by
  cases h with
  | @mark i ac d _ hd hst =>
      obtain ⟨hl, ⟨_, _, _, _, _, _, he⟩ | ⟨cause, jitter, r, rfl, hr, hp, he⟩⟩ :=
        Dispatch.stmt?_eq hst
      · cases he
      · cases he
        exact ⟨i, d, jitter, r, rfl, hr, hd, rfl, hl, hp⟩

/-- A dispatch that is untouched after a step was so before, and the step was not
an operator's call on its row. -/
theorem Evolves.untouched {i : Nat} (h : Evolves cfg now i a d d') (ht : d'.touched = false) :
    d.touched = false ∧ a.operates? ≠ some d.msg.id := by
  cases h with
  | idle _ hop => exact ⟨ht, by rw [hop]; exact nofun⟩
  | acted hact => exact ⟨(Dispatch.act_step hact).frame.2 ▸ ht, nofun⟩
  | resent =>
      rw [Dispatch.touch_eq] at ht
      simp only [Bool.or_eq_false_iff, decide_eq_false_iff_not] at ht
      exact ⟨ht.1, fun h => ht.2 (Option.some.inj h).symm⟩
  | updated =>
      rw [Dispatch.touch_eq] at ht
      simp only [Bool.or_eq_false_iff, decide_eq_false_iff_not] at ht
      exact ⟨ht.1, fun h => ht.2 (Option.some.inj h).symm⟩

/-! ## Steps of the system -/

theorem Outbox.step_eq (h : s.step cfg a = some s') :
    ∃ ds, s.dispatches? cfg a = some ds ∧
      s' = ⟨s.now + a.elapsed, (s.stmt? cfg a).elim s.table (Stmt.run s.now s.table), ds⟩ := by
  obtain ⟨ds, hds, rfl⟩ := Option.map_eq_some_iff.mp h
  exact ⟨ds, hds, rfl⟩

/-- A step of a dispatch. -/
theorem Outbox.step_dispatch {i : Nat} {ac : Act} (h : s.step cfg (.dispatch i ac) = some s') :
    ∃ d d', s.dispatches[i]? = some d ∧ d.act cfg s.now ac = some d' ∧
      s'.dispatches = s.dispatches.set i d' := by
  obtain ⟨ds, hds, rfl⟩ := Outbox.step_eq h
  obtain ⟨d, hd, hmap⟩ := Option.bind_eq_some_iff.mp hds
  obtain ⟨d', hact, rfl⟩ := Option.map_eq_some_iff.mp hmap
  exact ⟨d, d', hd, hact, rfl⟩

theorem Outbox.step_now (h : s.step cfg a = some s') : s'.now = s.now + a.elapsed := by
  obtain ⟨ds, _, rfl⟩ := Outbox.step_eq h
  rfl

theorem Label.elapsed_nonneg (a : Label) : 0 ≤ a.elapsed := by
  cases a <;> simp [Label.elapsed]

theorem Outbox.step_now_le (h : s.step cfg a = some s') : s.now ≤ s'.now := by
  have := a.elapsed_nonneg
  rw [Outbox.step_now h]
  omega

theorem Outbox.step_table (h : s.step cfg a = some s') :
    s'.table = (s.stmt? cfg a).elim s.table (Stmt.run s.now s.table) := by
  obtain ⟨ds, _, rfl⟩ := Outbox.step_eq h
  rfl

/-- The row a step turns a row into. -/
def Outbox.effect (cfg : WorkerConfig) (s : Outbox) (a : Label) (r : Row) : Row :=
  (s.stmt? cfg a).elim r (Stmt.effect s.now s.table r)

/-- A step of the outbox is a step of its statement on each row. -/
theorem Outbox.effect_step (cfg : WorkerConfig) (a : Label) (hr : r ∈ s.table) :
    s.effect cfg a r = r ∨
      ∃ st, Executes cfg s a st ∧ RowStep s.now s.table st r (s.effect cfg a r) := by
  unfold Outbox.effect
  cases hst : s.stmt? cfg a with
  | none => exact Or.inl rfl
  | some st => exact Or.inr ⟨st, Outbox.stmt?_executes hst, st.effect_step s.now hr⟩

theorem Outbox.effect_fixed (cfg : WorkerConfig) (a : Label) (hr : r ∈ s.table) :
    (rowToDomain (s.effect cfg a r)).fixed = (rowToDomain r).fixed := by
  rcases Outbox.effect_step cfg a hr with h | ⟨_, _, h⟩
  · rw [h]
  · exact h.fixed_eq

theorem Outbox.effect_id (cfg : WorkerConfig) (a : Label) (hr : r ∈ s.table) :
    (s.effect cfg a r).id = r.id :=
  SignalMessage.id_eq_of_fixed (Outbox.effect_fixed cfg a hr)

theorem Outbox.effect_mem (h : s.step cfg a = some s') (hr : r ∈ s.table) :
    s.effect cfg a r ∈ s'.table := by
  rw [Outbox.step_table h]
  unfold Outbox.effect
  cases s.stmt? cfg a with
  | none => exact hr
  | some st => exact st.effect_mem s.now hr

/-- The row a claim takes. -/
theorem Outbox.claimed_mem {locked : List UUID} {c : Row}
    (h : s.step cfg (.claim locked .committed) = some s')
    (hc : s.table.claimCandidate s.now locked = some c) :
    c.claim s.now cfg.leaseDuration ∈ s'.table := by
  have hmem := Outbox.effect_mem h (Messages.claimCandidate_mem hc).1
  have he : s.effect cfg (.claim locked .committed) c = c.claim s.now cfg.leaseDuration := by
    simp [Outbox.effect, Outbox.stmt?, Stmt.effect, hc]
  exact he ▸ hmem

/-- The dispatch a claim starts. -/
theorem Outbox.claimed_dispatch {locked : List UUID} {c : Row}
    (h : s.step cfg (.claim locked .committed) = some s')
    (hc : s.table.claimCandidate s.now locked = some c) :
    s'.dispatches[s.dispatches.length]? =
      some (Dispatch.new (c.claim s.now cfg.leaseDuration)) := by
  obtain ⟨ds, hds, rfl⟩ := Outbox.step_eq h
  simp only [Outbox.dispatches?, Messages.claimPending, hc, Option.map_some,
    Option.some.injEq] at hds
  simp [← hds]

/-- The rows after a step. -/
theorem Outbox.mem_step (h : s.step cfg a = some s') (hr' : r' ∈ s'.table) :
    (∃ r ∈ s.table, r' = s.effect cfg a r) ∨
      ∃ id p, a = .insert id p ∧ r' = p.row s.now id ∧ ∀ r ∈ s.table, r.id ≠ id := by
  rw [Outbox.step_table h] at hr'
  unfold Outbox.effect
  cases hst : s.stmt? cfg a with
  | none => rw [hst] at hr'; exact Or.inl ⟨r', hr', rfl⟩
  | some st =>
      rw [hst] at hr'
      rcases Stmt.mem_run.mp hr' with hold | ⟨id, p, rfl, hp, t', hins⟩
      · exact Or.inl hold
      · exact Or.inr ⟨id, p, (Outbox.stmt?_executes hst).insert_inv, hp,
          fun r hr => Messages.insert_fresh hins hr⟩

/-- The dispatches after a step. -/
theorem Outbox.dispatch_step (h : s.step cfg a = some s') {i : Nat}
    (hd' : s'.dispatches[i]? = some d') :
    (∃ d, s.dispatches[i]? = some d ∧ Evolves cfg s.now i a d d') ∨
      ∃ locked c, a = .claim locked .committed ∧ s.table.claimCandidate s.now locked = some c ∧
        i = s.dispatches.length ∧ d' = Dispatch.new (c.claim s.now cfg.leaseDuration) := by
  obtain ⟨ds, hds, rfl⟩ := Outbox.step_eq h
  simp only at hd'
  cases a with
  | claim locked r =>
      have hidle : ∀ d, Evolves cfg s.now i (.claim locked r) d d :=
        fun d => .idle (by intro _ h; cases h) rfl
      simp only [Outbox.dispatches?, Messages.claimPending] at hds
      cases hc : s.table.claimCandidate s.now locked with
      | none =>
          rw [hc] at hds
          cases hds
          exact Or.inl ⟨d', hd', hidle d'⟩
      | some c =>
          rw [hc] at hds
          cases r with
          | committed =>
              cases hds
              rcases Places.of_snoc hd' with hold | ⟨hi, he⟩
              · exact Or.inl ⟨d', hold, hidle d'⟩
              · exact Or.inr ⟨locked, c, rfl, hc, hi, he⟩
          | ackLost => cases hds; exact Or.inl ⟨d', hd', hidle d'⟩
          | unreached => cases hds; exact Or.inl ⟨d', hd', hidle d'⟩
  | dispatch j ac =>
      obtain ⟨e, he, hmap⟩ := Option.bind_eq_some_iff.mp hds
      obtain ⟨e', hact, rfl⟩ := Option.map_eq_some_iff.mp hmap
      rcases Places.of_set hd' with ⟨rfl, rfl⟩ | ⟨hij, hd'⟩
      · exact Or.inl ⟨e, he, .acted hact⟩
      · exact Or.inl ⟨d', hd', .idle (by rintro _ ⟨⟩; exact hij rfl) rfl⟩
  | resend id =>
      cases hds
      rw [List.getElem?_map, Option.map_eq_some_iff] at hd'
      obtain ⟨d, hd, rfl⟩ := hd'
      exact Or.inl ⟨d, hd, .resent⟩
  | updateStatus id status =>
      cases hds
      rw [List.getElem?_map, Option.map_eq_some_iff] at hd'
      obtain ⟨d, hd, rfl⟩ := hd'
      exact Or.inl ⟨d, hd, .updated⟩
  | _ =>
      cases hds
      exact Or.inl ⟨d', hd', .idle (by intro _ h; cases h) rfl⟩

/-- A dispatch stays at its place. -/
theorem Outbox.dispatch_stays (h : s.step cfg a = some s') {i : Nat}
    (hd : s.dispatches[i]? = some d) :
    ∃ d', s'.dispatches[i]? = some d' ∧ Evolves cfg s.now i a d d' := by
  have hi : i < s.dispatches.length := (List.getElem?_eq_some_iff.mp hd).1
  have hi' : i < s'.dispatches.length := by
    obtain ⟨ds, hds, rfl⟩ := Outbox.step_eq h
    cases a with
    | claim locked r =>
        simp only [Outbox.dispatches?] at hds
        split at hds
        · cases hds
          simp only [List.length_append]
          omega
        · cases hds
          exact hi
    | dispatch j ac =>
        obtain ⟨e, _, hmap⟩ := Option.bind_eq_some_iff.mp hds
        obtain ⟨e', _, rfl⟩ := Option.map_eq_some_iff.mp hmap
        simpa using hi
    | resend id => cases hds; simpa using hi
    | updateStatus id status => cases hds; simpa using hi
    | _ => cases hds; exact hi
  have hd' := List.getElem?_eq_getElem hi'
  rcases Outbox.dispatch_step h hd' with ⟨d₀, hd₀, hev⟩ | ⟨_, _, _, _, hlen, _⟩
  · rw [hd] at hd₀
    cases hd₀
    exact ⟨_, hd', hev⟩
  · omega

/-! ## The row of a dispatch -/

/-- Every dispatch has its row in the table, with the columns that are fixed as
they were when it was claimed. -/
def Owned (s : Outbox) : Prop :=
  ∀ (i : Nat) (d : Dispatch), s.dispatches[i]? = some d →
    ∃ r ∈ s.table, (rowToDomain r).fixed = d.msg.fixed

theorem owned_init : Owned Outbox.init := by
  intro i d hd
  cases hd

theorem Owned.step (hO : Owned s) (h : s.step cfg a = some s') : Owned s' := by
  intro i d' hd'
  rcases Outbox.dispatch_step h hd' with ⟨d, hd, hev⟩ | ⟨locked, c, rfl, hc, _, rfl⟩
  · obtain ⟨r, hr, hfix⟩ := hO i d hd
    exact ⟨_, Outbox.effect_mem h hr, by rw [Outbox.effect_fixed cfg a hr, hfix, hev.msg_eq]⟩
  · have hct := (Messages.claimCandidate_mem hc).1
    exact ⟨_, Outbox.effect_mem h hct, by rw [Outbox.effect_fixed cfg _ hct]; rfl⟩

/-- The row of a dispatch after a step comes from its row before the step: a row
just inserted is not a dispatch's. -/
theorem Owned.row_step (hO : Owned s) (h : s.step cfg a = some s') {i : Nat}
    (hd : s.dispatches[i]? = some d) (hr' : r' ∈ s'.table) (hid : r'.id = d.msg.id) :
    ∃ r ∈ s.table, r.id = d.msg.id ∧ r' = s.effect cfg a r := by
  rcases Outbox.mem_step h hr' with ⟨r, hr, rfl⟩ | ⟨id, p, _, rfl, hfresh⟩
  · rw [Outbox.effect_id cfg a hr] at hid
    exact ⟨r, hr, hid, rfl⟩
  · obtain ⟨r, hr, hfix⟩ := hO i d hd
    exact absurd ((SignalMessage.id_eq_of_fixed hfix).trans hid.symm) (hfresh r hr)

/-- The rows of a table with the id of a dispatch have its fixed columns. -/
theorem Owned.fixed_eq (hO : Owned s) {i : Nat} (hd : s.dispatches[i]? = some d)
    (hr : r ∈ s.table) (hid : r.id = d.msg.id) : (rowToDomain r).fixed = d.msg.fixed := by
  obtain ⟨r₀, hr₀, hfix⟩ := hO i d hd
  rw [s.table.row_unique hr hr₀ (hid.trans (SignalMessage.id_eq_of_fixed hfix).symm)]
  exact hfix

/-! ## The outbox as a run of statements -/

/-- The label is not the manual override of a status. -/
def NoOverride (_ : Outbox) (a : Label) : Prop := ∀ id status, a ≠ .updateStatus id status

instance (s : Outbox) (a : Label) : Decidable (NoOverride s a) :=
  match a with
  | .updateStatus id status => isFalse fun h => h id status rfl
  | .advance _ | .insert _ _ | .claim _ _ | .dispatch _ _ | .reap | .resend _ =>
      isTrue fun _ _ h => by cases h

/-- A run of the workers without a manual override is a run of the statements. -/
theorem Outbox.refines_queue {tr : List Label}
    (h : RunOf (Outbox.step cfg) NoOverride Outbox.init tr s) :
    ∃ q, Run queueStep Messages.empty q s.table := by
  induction h with
  | nil => exact ⟨[], .nil⟩
  | @snoc tr s s' a _ ha hs ih =>
      obtain ⟨q, hq⟩ := ih
      rw [Outbox.step_table hs]
      cases hst : s.stmt? cfg a with
      | none => exact ⟨q, hq⟩
      | some st =>
          refine ⟨q ++ [(s.now, st)], .snoc hq trivial ?_⟩
          cases st with
          | updateStatus id status =>
              exact absurd (Outbox.stmt?_executes hst).updateStatus_inv (ha id status)
          | _ => rfl

end Signalium
