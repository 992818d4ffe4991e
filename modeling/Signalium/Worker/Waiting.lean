import Signalium.Worker.Steps

/-!
# How long a row waits for its claim

`ClaimPending` takes the row that has been due for longest, and sets
`next_attempt_at` of the row it takes to the end of a lease, ahead of the clock.
Every other statement that leaves a row in the queue sets the column to the
present or later, with one exception: `UpdateStatus` can put a row back that has
been due for long.  So the queued rows that are due no later than a given one
become fewer with each claim, and more only by an operator's hand.

While a row waits, the workers of all processes together claim no more rows than
were ahead of it when it began to wait and operators have put ahead since,
however many messages come in meanwhile (`claims_while_waiting`).  `SKIP LOCKED`
is the one way to pass over a row: a transaction that holds the row while another
one is claimed.  Such claims are counted apart.
-/

namespace Signalium

open Runs Tables

variable {cfg : WorkerConfig} {s s' : Outbox} {a : Label} {r r₀ r₁ : Row} {now : Int}
  {t : Messages} {st : Stmt}

/-! ## The rows ahead -/

/-- A row that the workers may still claim, now or later, without an operator. -/
def Row.Queued (r : Row) : Prop := r.deletedAt = none ∧ (r.status = .pending ∨ r.status = .sending)

instance (r : Row) : Decidable r.Queued := inferInstanceAs (Decidable (_ ∧ _))

/-- Another queued row that is due no later than `r`. -/
def Row.Ahead (r r' : Row) : Prop :=
  r'.id ≠ r.id ∧ r'.Queued ∧ r'.nextAttemptAt ≤ r.nextAttemptAt

instance (r r' : Row) : Decidable (r.Ahead r') := inferInstanceAs (Decidable (_ ∧ _))

/-- How many rows are ahead of `r`. -/
def Messages.ahead (t : Messages) (r : Row) : Nat := t.rows.countP fun r' => r.Ahead r'

theorem Row.Claimable.queued (h : r.Claimable now) : r.Queued :=
  ⟨h.1, h.2.1.imp_right And.left⟩

/-- The row a step claims. -/
def Outbox.claimed? (s : Outbox) : Label → Option Row
  | .claim locked rep =>
      if rep = .unreached then none else s.table.claimCandidate s.now locked
  | _ => none

/-- Whether a step claims a row. -/
def Outbox.claims (s : Outbox) (a : Label) : Nat := (s.claimed? a).isSome.toNat

/-- Whether a step is a manual override of a status. -/
def Outbox.overrides (_ : Outbox) : Label → Nat
  | .updateStatus _ _ => 1
  | _ => 0

/-- Whether a statement is one. -/
def Stmt.overrides : Stmt → Nat
  | .updateStatus _ _ => 1
  | _ => 0

/-- A lease of at least a microsecond, and no backoff into the past. -/
structure WorkerConfig.Forward (cfg : WorkerConfig) : Prop where
  lease : 1000 ≤ cfg.leaseDuration
  backoffs : cfg.NonnegBackoffs

/-! ## Statements -/

/-- The rows of the new table in their order: the effects on the old ones, and then the
row of an `INSERT`. -/
theorem Stmt.rows_run (st : Stmt) (now : Int) (t : Messages) :
    ∃ new, (st.run now t).rows = t.rows.map (fun r => st.effect now t r) ++ new ∧
      ∀ r ∈ new, ∃ id p, st = .insert id p ∧ r = p.row now id := by
  have hupdate : ∀ {p : Row → Bool} {f : Row → Row} (hf : ∀ r, (f r).key = r.key),
      (∀ r ∈ t.rows, st.effect now t r = if p r then f r else r) →
      st.run now t = Table.update t p f hf →
      ∃ new, (st.run now t).rows = t.rows.map (fun r => st.effect now t r) ++ new ∧
        ∀ r ∈ new, ∃ id p, st = .insert id p ∧ r = p.row now id := by
    intro p f hf he hrun
    refine ⟨[], ?_, by simp⟩
    rw [hrun, List.append_nil]
    exact List.map_congr_left fun r hr => (he r hr).symm
  cases st with
  | insert id p =>
      cases hins : t.insert now id p with
      | ok v =>
          obtain ⟨hr₀, hrows, _⟩ := Messages.insert_eq_ok hins
          refine ⟨[v.1], ?_, ?_⟩
          · simp [Stmt.run, Stmt.effect, hins, hrows]
          · intro r hr
            exact ⟨id, p, rfl, (List.mem_singleton.mp hr).trans hr₀⟩
      | error e => exact ⟨[], by simp [Stmt.run, Stmt.effect, hins], by simp⟩
  | claimPending lease locked =>
      cases hc : t.claimCandidate now locked with
      | none =>
          refine ⟨[], ?_, by simp⟩
          simp [Stmt.run, Messages.claimPending, Stmt.effect, hc]
      | some c =>
          refine hupdate (Row.claim_key now lease) (fun r _ => ?_)
            (p := fun r => r.id = c.id) (by simp [Stmt.run, Messages.claimPending, hc])
          simp [Stmt.effect, hc, eq_comm]
  | markSent id resultId =>
      exact hupdate (Row.markSent_key now resultId) (fun r _ => by simp [Stmt.effect]) rfl
  | markFailed id lastError next =>
      exact hupdate (Row.markFailed_key now lastError next) (fun r _ => by simp [Stmt.effect]) rfl
  | markTimedOut =>
      exact hupdate (Row.markTimedOut_key now) (fun r _ => by simp [Stmt.effect]) rfl
  | resend id =>
      exact hupdate (Row.resend_key now) (fun r _ => by simp [Stmt.effect]) rfl
  | updateStatus id status =>
      exact hupdate (Row.updateStatus_key now status) (fun r _ => by simp [Stmt.effect]) rfl

/-- The statement schedules nothing in the past: a lease ends later, and a retry begins
now or later. -/
structure Stmt.Forward (now : Int) (st : Stmt) : Prop where
  lease : ∀ lease locked, st = .claimPending lease locked → 1000 ≤ lease
  retry : ∀ id lastError next, st = .markFailed id lastError next → now ≤ next

theorem intervalFromDuration_pos {d : Int} (h : 1000 ≤ d) : 1000 ≤ intervalFromDuration d := by
  unfold intervalFromDuration
  rw [Int.tdiv_eq_ediv_of_nonneg (by omega)]
  omega

theorem lt_tsTz (x : Int) : x - 1000 < tsTz x := by
  unfold tsTz
  omega

/-- What a statement leaves in the queue was there before, due at the same time, or it is
due later than any row that has been due for a microsecond.  `UpdateStatus` is the
exception. -/
theorem RowStep.due (h : RowStep now t st r₀ r₁) (hst : st.Forward now)
    (hdue : r.nextAttemptAt + 1000 ≤ now) (hq : r₁.Queued) :
    r₀.Queued ∧ r₁.nextAttemptAt = r₀.nextAttemptAt ∨ r.nextAttemptAt < r₁.nextAttemptAt ∨
      ∃ status, st = .updateStatus r₀.id status := by
  cases h with
  | unchanged => exact Or.inl ⟨hq, rfl⟩
  | @claimed lease locked _ _ _ =>
      have hlease := intervalFromDuration_pos (hst.lease lease locked rfl)
      refine Or.inr (Or.inl ?_)
      simp only [Row.claim]
      omega
  | sent => simp [Row.Queued, Row.markSent] at hq
  | @failed lastError next _ =>
      have hnext := hst.retry _ lastError next rfl
      have hts := lt_tsTz next
      refine Or.inr (Or.inl ?_)
      simp only [Row.markFailed]
      omega
  | timedOut _ => simp [Row.Queued, Row.markTimedOut] at hq
  | resent _ =>
      refine Or.inr (Or.inl ?_)
      simp only [Row.resend]
      omega
  | updated _ => exact Or.inr (Or.inr ⟨_, rfl⟩)

/-- A row counts as ahead after a statement only if it did before or an operator has
overridden its status. -/
theorem Stmt.ahead_effect (hst : st.Forward now) (hdue : r.nextAttemptAt + 1000 ≤ now)
    (hr₀ : r₀ ∈ t) (h : r.Ahead (st.effect now t r₀)) :
    r.Ahead r₀ ∨ ∃ status, st = .updateStatus r₀.id status := by
  have hstep := st.effect_step now hr₀
  obtain ⟨hid, hq, hle⟩ := h
  rw [hstep.id_eq] at hid
  rcases hstep.due hst hdue hq with ⟨hq₀, he⟩ | hlt | hover
  · exact Or.inl ⟨hid, hq₀, he ▸ hle⟩
  · omega
  · exact Or.inr hover

/-- Where no status is overridden, no row is moved ahead. -/
theorem Stmt.ahead_map_le (hst : st.Forward now) (hdue : r.nextAttemptAt + 1000 ≤ now)
    {rows : List Row} (hrows : ∀ r₀ ∈ rows, r₀ ∈ t)
    (hover : ∀ r₀ ∈ rows, ∀ status, st ≠ .updateStatus r₀.id status) :
    (rows.map fun r => st.effect now t r).countP (fun r' => r.Ahead r') ≤
      rows.countP fun r' => r.Ahead r' := by
  rw [List.countP_map]
  refine List.countP_mono_left fun r₀ hr₀ hp => ?_
  simp only [Function.comp, decide_eq_true_eq] at hp ⊢
  rcases Stmt.ahead_effect hst hdue (hrows r₀ hr₀) hp with h | ⟨status, he⟩
  · exact h
  · exact absurd he (hover r₀ hr₀ status)

/-- A row that is inserted now is not ahead. -/
theorem Stmt.ahead_run (hdue : r.nextAttemptAt + 1000 ≤ now) :
    (st.run now t).ahead r =
      (t.rows.map fun r => st.effect now t r).countP fun r' => r.Ahead r' := by
  obtain ⟨new, hrows, hnew⟩ := st.rows_run now t
  have hnone : new.countP (fun r' => r.Ahead r') = 0 := by
    rw [List.countP_eq_zero]
    intro r' hr'
    obtain ⟨id, p, _, rfl⟩ := hnew r' hr'
    rw [decide_eq_true_eq]
    rintro ⟨_, _, hle⟩
    simp only [InsertParams.row] at hle
    omega
  rw [Messages.ahead, hrows, List.countP_append, hnone, Nat.add_zero]

/-- A row of the table is cut out of the list, and no other row there has its id. -/
theorem Messages.cut {c : Row} (hc : c ∈ t) :
    ∃ l₁ l₂, t.rows = l₁ ++ c :: l₂ ∧ (∀ r ∈ l₁, r ∈ t ∧ r.id ≠ c.id) ∧
      ∀ r ∈ l₂, r ∈ t ∧ r.id ≠ c.id := by
  obtain ⟨l₁, l₂, hl⟩ := List.append_of_mem hc
  have hnd : (t.rows.map fun r => r.id).Nodup := by
    have := t.valid.primaryKey
    rwa [List.map_map] at this
  rw [hl, List.map_append, List.map_cons, List.nodup_append, List.nodup_cons] at hnd
  obtain ⟨_, ⟨hright, _⟩, hleft⟩ := hnd
  refine ⟨l₁, l₂, hl, fun r hr => ⟨?_, ?_⟩, fun r hr => ⟨?_, ?_⟩⟩
  · rw [Table.mem_def, hl]
    exact List.mem_append_left _ hr
  · exact hleft _ (List.mem_map_of_mem hr) _ List.mem_cons_self
  · rw [Table.mem_def, hl]
    exact List.mem_append_right _ (List.mem_cons_of_mem c hr)
  · exact fun he => hright (he ▸ List.mem_map_of_mem hr)

/-- No statement puts a row ahead, but for the override of a status, which puts one. -/
theorem Stmt.ahead_run_le (hst : st.Forward now) (hdue : r.nextAttemptAt + 1000 ≤ now) :
    (st.run now t).ahead r ≤ t.ahead r + st.overrides := by
  rw [Stmt.ahead_run hdue]
  by_cases hover : ∃ c ∈ t, ∃ status, st = .updateStatus c.id status
  · obtain ⟨c, hc, status, rfl⟩ := hover
    -- the other rows are not concerned
    obtain ⟨l₁, l₂, hl, h₁, h₂⟩ := Messages.cut hc
    have hrest : ∀ {l : List Row}, (∀ r ∈ l, r ∈ t ∧ r.id ≠ c.id) → _ := fun h =>
      Stmt.ahead_map_le (t := t) hst hdue (fun r₀ hr₀ => (h r₀ hr₀).1)
        fun r₀ hr₀ _ he => (h r₀ hr₀).2 (by injection he with he; exact he.symm)
    have hle₁ := hrest h₁
    have hle₂ := hrest h₂
    rw [Messages.ahead, hl]
    simp only [List.map_append, List.map_cons, List.countP_append, List.countP_cons,
      Stmt.overrides]
    split_ifs <;> omega
  · push Not at hover
    have := Stmt.ahead_map_le (t := t) hst hdue (fun r₀ hr₀ => hr₀) fun r₀ hr₀ => hover r₀ hr₀
    exact this.trans (Nat.le_add_right _ _)

/-- The claim of a row that was ahead leaves one less ahead. -/
theorem Stmt.ahead_claim_lt {lease : Int} {locked : List UUID} {c : Row} (hlease : 1000 ≤ lease)
    (hdue : r.nextAttemptAt + 1000 ≤ now) (hc : t.claimCandidate now locked = some c)
    (hahead : r.Ahead c) :
    ((Stmt.claimPending lease locked).run now t).ahead r + 1 ≤ t.ahead r := by
  have hst : (Stmt.claimPending lease locked).Forward now :=
    ⟨fun _ _ he => by cases he; exact hlease, fun _ _ _ he => by cases he⟩
  have hrest : ∀ {l : List Row}, (∀ r ∈ l, r ∈ t ∧ r.id ≠ c.id) → _ := fun h =>
    Stmt.ahead_map_le (t := t) hst hdue (fun r₀ hr₀ => (h r₀ hr₀).1) fun _ _ _ he => by cases he
  -- the claimed row is counted before the claim only
  obtain ⟨l₁, l₂, hl, h₁, h₂⟩ := Messages.cut (Messages.claimCandidate_mem hc).1
  have hle₁ := hrest h₁
  have hle₂ := hrest h₂
  have heff : (Stmt.claimPending lease locked).effect now t c = c.claim now lease := by
    simp [Stmt.effect, hc]
  have hlate : ¬ r.Ahead (c.claim now lease) := by
    rintro ⟨_, _, hle⟩
    have := intervalFromDuration_pos hlease
    simp only [Row.claim] at hle
    omega
  rw [Stmt.ahead_run hdue, Messages.ahead, hl]
  simp only [List.map_append, List.map_cons, List.countP_append, List.countP_cons, heff, hahead,
    hlate, decide_true, decide_false, Bool.false_eq_true, if_true, if_false]
  omega

/-! ## Steps of the outbox -/

/-- The workers schedule nothing in the past. -/
theorem Outbox.stmt_forward (hcfg : cfg.Forward) (h : s.step cfg a = some s')
    (hst : s.stmt? cfg a = some st) : st.Forward s.now := by
  constructor
  · intro lease locked he
    subst he
    obtain ⟨_, _, _, rfl⟩ := (Outbox.stmt?_executes hst).claimPending_inv
    exact hcfg.lease
  · intro id lastError next he
    subst he
    cases Outbox.stmt?_executes hst with
    | @mark i ac d _ hd hmark =>
        obtain ⟨_, ⟨_, _, _, _, _, _, he⟩ | ⟨_, jitter, _, rfl, _, _, he⟩⟩ :=
          Dispatch.stmt?_eq hmark
        · cases he
        · cases he
          obtain ⟨d', _, hd', hact, _⟩ := Outbox.step_dispatch h
          cases hd.symm.trans hd'
          cases Dispatch.act_step hact with
          | markFailed _ hj =>
              have := hcfg.backoffs.backoff_nonneg hj
              omega

/-- The rows other transactions hold during a claim. -/
def Label.locked : Label → List UUID
  | .claim locked _ => locked
  | _ => []

/-- Whether a step claims a row while another transaction holds `r`. -/
def Outbox.passes (r : Row) (s : Outbox) (a : Label) : Nat :=
  if r.id ∈ a.locked then s.claims a else 0

/-- The row waits through the step: it is there and eligible before it, and the step
claims another row or none. -/
structure Waits (r : Row) (s : Outbox) (a : Label) : Prop where
  mem : r ∈ s.table.rows
  claimable : r.Claimable s.now
  unclaimed : ∀ c ∈ s.claimed? a, c.id ≠ r.id

instance (r : Row) (s : Outbox) (a : Label) : Decidable (Waits r s a) :=
  decidable_of_iff (r ∈ s.table.rows ∧ r.Claimable s.now ∧ ∀ c ∈ s.claimed? a, c.id ≠ r.id)
    ⟨fun h => ⟨h.1, h.2.1, h.2.2⟩, fun h => ⟨h.1, h.2, h.3⟩⟩

/-- A claim takes a row that is due no later than one that waits, unless another
transaction holds that one. -/
theorem Waits.claimed_le {c : Row} (h : Waits r s a) (hfree : r.id ∉ a.locked)
    (hc : s.claimed? a = some c) : c.nextAttemptAt ≤ r.nextAttemptAt := by
  cases a with
  | claim locked rep =>
      have hlocked : r.id ∉ locked := hfree
      simp only [Outbox.claimed?] at hc
      split at hc
      · cases hc
      · refine List.le_of_mem_argmin (f := fun r : Row => r.nextAttemptAt) ?_
          (Option.mem_def.mpr hc)
        exact List.mem_filter.mpr ⟨h.mem, by simp [h.claimable, hlocked]⟩
  | _ => cases hc

/-- The claim behind a row that a step claims. -/
theorem Outbox.claimed?_eq_some {c : Row} (hc : s.claimed? a = some c) :
    ∃ locked rep, a = .claim locked rep ∧ rep ≠ .unreached ∧
      s.table.claimCandidate s.now locked = some c := by
  cases a with
  | claim locked rep =>
      simp only [Outbox.claimed?] at hc
      split at hc
      · cases hc
      · next hrep => exact ⟨locked, rep, rfl, hrep, hc⟩
  | _ => cases hc

/-- No step puts a row ahead, but for an override, which puts one. -/
theorem Outbox.ahead_step_le (hcfg : cfg.Forward) (hdue : r.nextAttemptAt + 1000 ≤ s.now)
    (hs : s.step cfg a = some s') : s'.table.ahead r ≤ s.table.ahead r + s.overrides a := by
  rw [Outbox.step_table hs]
  cases hst : s.stmt? cfg a with
  | none => exact Nat.le_add_right _ _
  | some st =>
      have hle := Stmt.ahead_run_le (t := s.table) (Outbox.stmt_forward hcfg hs hst) hdue
      simp only [Option.elim_some]
      cases st with
      | updateStatus id status =>
          cases (Outbox.stmt?_executes hst).updateStatus_inv
          exact hle
      | _ => exact hle.trans (Nat.add_le_add_left (Nat.zero_le _) _)

/-- A step through which a row waits puts a row ahead of it only as an override, and a
claim takes one away unless the row is held. -/
theorem Waits.ahead_step (hcfg : cfg.Forward) (hdue : r.nextAttemptAt + 1000 ≤ s.now)
    (h : Waits r s a) (hs : s.step cfg a = some s') :
    s.claims a + s'.table.ahead r ≤ s.table.ahead r + (s.overrides a + s.passes r a) := by
  have hle := Outbox.ahead_step_le hcfg hdue hs
  by_cases hheld : r.id ∈ a.locked
  · have hpasses : s.passes r a = s.claims a := if_pos hheld
    omega
  · cases hc : s.claimed? a with
    | none =>
        have hnone : s.claims a = 0 := by simp [Outbox.claims, hc]
        omega
    | some c =>
        -- a row that is ahead is claimed, and goes behind
        have hdue' := h.claimed_le hheld hc
        have hne := h.unclaimed c hc
        obtain ⟨locked, rep, rfl, hrep, hcand⟩ := Outbox.claimed?_eq_some hc
        have hahead : r.Ahead c := ⟨hne, (Messages.claimCandidate_mem hcand).2.1.queued, hdue'⟩
        have hlt := Stmt.ahead_claim_lt hcfg.lease hdue hcand hahead
        have htable : s'.table =
            (Stmt.claimPending cfg.leaseDuration locked).run s.now s.table := by
          rw [Outbox.step_table hs, Outbox.stmt?, if_neg hrep, Option.elim_some]
        have hone : s.claims (.claim locked rep) = 1 := by simp [Outbox.claims, hc]
        rw [htable]
        omega

/-- Whatever the workers of all processes, the reaper, the service and the operators do: a
row that is eligible, and has been due for a microsecond, sees no more claims of other rows
than there were rows ahead of it, one for each status an operator overrides, and those made
while another transaction holds the row, for as long as it waits.  The lease is a
microsecond at least, and the backoffs are not negative. -/
theorem claims_while_waiting (hcfg : cfg.Forward) {tr : List Label}
    (hdue : r.nextAttemptAt + 1000 ≤ s.now)
    (hr : RunOf (Outbox.step cfg) (Waits r) s tr s') :
    total (Outbox.step cfg) Outbox.claims s tr ≤
      s.table.ahead r + total (Outbox.step cfg) Outbox.overrides s tr +
        total (Outbox.step cfg) (Outbox.passes r) s tr := by
  have hlater : RunOf (Outbox.step cfg)
      (fun s a => r.nextAttemptAt + 1000 ≤ s.now ∧ Waits r s a) s tr s' := by
    refine hr.mono_of_invariant (I := fun s => r.nextAttemptAt + 1000 ≤ s.now) hdue ?_
      fun _ _ hd hw => ⟨hd, hw⟩
    intro s a s' hd _ hs
    exact hd.trans (Outbox.step_now_le hs)
  have hle : total (Outbox.step cfg) Outbox.claims s tr + s'.table.ahead r ≤
      s.table.ahead r +
        total (Outbox.step cfg) (fun s a => s.overrides a + s.passes r a) s tr :=
    hlater.total_le (V := fun s => s.table.ahead r)
      fun s a s' h hs => h.2.ahead_step hcfg h.1 hs
  rw [total_add] at hle
  omega

/-- The second of two messages that come in a second apart. -/
def secondParams : InsertParams := { plainParams with externalId := "ext-2" }

/-- Both messages wait, for two seconds and for one. -/
def queuedTrace : List Label :=
  [.insert "m-1" plainParams, .advance 1000000000, .insert "m-2" secondParams,
    .advance 1000000000]

def queuedOutbox : Outbox :=
  (exec (Outbox.step defaultConfig) Outbox.init queuedTrace).getD Outbox.init

/-- A third message comes in, the first one is claimed, and then the third one, while
another transaction holds the second. -/
def claimingTrace : List Label :=
  [.insert "m-3" { plainParams with externalId := "ext-3" }, .claim [] .committed,
    .claim ["m-2"] .committed]

theorem defaultConfig_forward : defaultConfig.Forward := ⟨by decide, by decide⟩

/-- One row is ahead of the second message, and two rows are claimed while it waits, one of
them while it is held. -/
theorem second_waits_for_first :
    Run (Outbox.step defaultConfig) Outbox.init queuedTrace queuedOutbox ∧
      ∃ s', RunOf (Outbox.step defaultConfig) (Waits (secondParams.row 1000000000 "m-2"))
          queuedOutbox claimingTrace s' ∧
        queuedOutbox.table.ahead (secondParams.row 1000000000 "m-2") = 1 ∧
        total (Outbox.step defaultConfig) Outbox.claims queuedOutbox claimingTrace = 2 ∧
        total (Outbox.step defaultConfig) (Outbox.passes (secondParams.row 1000000000 "m-2"))
          queuedOutbox claimingTrace = 1 ∧
        total (Outbox.step defaultConfig) Outbox.claims queuedOutbox claimingTrace ≤
          queuedOutbox.table.ahead (secondParams.row 1000000000 "m-2") +
            total (Outbox.step defaultConfig) Outbox.overrides queuedOutbox claimingTrace +
            total (Outbox.step defaultConfig) (Outbox.passes (secondParams.row 1000000000 "m-2"))
              queuedOutbox claimingTrace := by
  have hr : RunOf (Outbox.step defaultConfig) (Waits (secondParams.row 1000000000 "m-2"))
      queuedOutbox claimingTrace _ := runOf_of_execOf rfl
  exact ⟨run_of_exec rfl, _, hr, rfl, rfl, rfl,
    claims_while_waiting defaultConfig_forward (by decide) hr⟩

end Signalium
