import Signalium.Service.Moves

/-!
# Validated requests and the constraints of the table

`validate` and the schema state the same rules twice.  For `validate` a pointer to
the empty string is an absent recipient, group or idempotency key; for the table
it is a value, since `Enqueue` passes the pointers on as they are and SQL tells
`''` from `NULL`.

So a request that `validate` accepts, and whose external id and key are new, is
inserted exactly when it has no empty recipient and no empty group, and an empty
idempotency key only if no row has one (`validated_inserts_iff`).
-/

namespace Signalium

open Runs Tables

variable {cfg : ServiceConfig} {s : Intake} {k : Nat} {call : EnqueueCall} {m : CreateMessage}
  {id mid : UUID} {refs : List Attachment}

/-! ## One target -/

theorem nonEmpty?_eq_some {v : Option String} {x : String} :
    nonEmpty? v = some x ↔ v = some x ∧ x ≠ "" := by
  cases v with
  | none => simp [nonEmpty?]
  | some y =>
      by_cases hy : y = ""
      · simp only [nonEmpty?, hy, if_true, Option.some.injEq, reduceCtorEq, false_iff]
        rintro ⟨rfl, hx⟩
        exact hx rfl
      · simp only [nonEmpty?, hy, if_false, Option.some.injEq]
        exact ⟨fun h => ⟨h, h ▸ hy⟩, And.left⟩

/-- A pointer that is set and not to the empty string is one that is not `nil`. -/
theorem isSome_nonEmpty? {v : Option String} (h : v ≠ some "") :
    (nonEmpty? v).isSome = v.isSome := by
  cases v with
  | none => rfl
  | some x =>
      have hx : x ≠ "" := fun he => h (he ▸ rfl)
      simp [nonEmpty?, hx]

/-- The table agrees with `validate` on what one target is where no pointer is to
the empty string. -/
theorem exactlyOneTarget_iff {recipient groupId : Option String}
    (h : (nonEmpty? recipient).isSome ≠ (nonEmpty? groupId).isSome) :
    ExactlyOneTarget recipient groupId ↔ recipient ≠ some "" ∧ groupId ≠ some "" := by
  unfold ExactlyOneTarget
  constructor
  · intro hone
    refine ⟨fun he => ?_, fun he => ?_⟩
    · subst he
      cases groupId with
      | none => exact h rfl
      | some g => simp at hone
    · subst he
      cases recipient with
      | none => exact h rfl
      | some v => simp at hone
  · rintro ⟨hr, hg⟩
    rw [isSome_nonEmpty? hr, isSome_nonEmpty? hg] at h
    cases hr' : recipient.isSome <;> cases hg' : groupId.isSome <;> simp_all

/-! ## The constraints -/

/-- The row of a request whose id and external id are new breaks a constraint only
by its target or its key. -/
theorem Messages.insert_ok_iff {t : Messages} {now : Int} {p : InsertParams}
    (hid : ∀ r ∈ t, r.id ≠ id) (hext : ∀ r ∈ t, r.externalId ≠ p.externalId) :
    (∃ t', t.insert now id p = .ok (p.row now id, t')) ↔
      ExactlyOneTarget p.recipient p.groupId ∧
        ∀ v, p.idempotencyKey = some v → ∀ r ∈ t, r.idempotencyKey ≠ some v := by
  have hnone : insertError? (t.rows.map Row.key) (p.row now id).key = none ↔
      ExactlyOneTarget p.recipient p.groupId ∧
        ∀ v, p.idempotencyKey = some v → ∀ r ∈ t, r.idempotencyKey ≠ some v := by
    rw [Messages.free_iff]
    constructor
    · rintro ⟨htarget, _, _, hkey⟩
      exact ⟨htarget, hkey⟩
    · rintro ⟨htarget, hkey⟩
      exact ⟨htarget, hid, hext, hkey⟩
  rw [← hnone]
  constructor
  · rintro ⟨t', ht'⟩
    exact (Messages.insert_eq_ok ht').2.2
  · intro h
    cases hins : t.insert now id p with
    | ok v =>
        obtain ⟨row, t'⟩ := v
        obtain ⟨rfl, _, _⟩ := Messages.insert_eq_ok hins
        exact ⟨t', rfl⟩
    | error e =>
        rw [Messages.insert_eq_error, h] at hins
        cases hins

/-! ## The insert of a request -/

/-- The `Insert` of the call commits, and `Enqueue` returns the id of the row. -/
def InsertSucceeds (cfg : ServiceConfig) (s : Intake) (k : Nat) (call : EnqueueCall) (id : UUID) :
    Prop :=
  ∃ s', s.enqueueStep cfg k call (.insert id .committed) = some s' ∧
    s'.calls = s.calls.set k { call with pc := .returned (.ok { id }) }

theorem insertSucceeds_iff (hpc : call.pc = .inserting mid refs)
    (hk : s.calls[k]? = some call) :
    InsertSucceeds cfg s k call id ↔
      ∃ t', s.table.insert s.now id (call.m.insertParams cfg s.now mid refs) =
        .ok ((call.m.insertParams cfg s.now mid refs).row s.now id, t') := by
  have hlt : k < s.calls.length := (List.getElem?_eq_some_iff.mp hk).1
  unfold InsertSucceeds
  cases hins : s.table.insert s.now id (call.m.insertParams cfg s.now mid refs) with
  | ok v =>
      obtain ⟨row, t'⟩ := v
      obtain ⟨rfl, _, _⟩ := Messages.insert_eq_ok hins
      simp only [Intake.enqueueStep, Intake.insert, hpc, reduceCtorEq, if_false, hins]
      exact ⟨fun _ => ⟨t', rfl⟩, fun _ => ⟨_, rfl, rfl⟩⟩
  | error e =>
      simp only [Intake.enqueueStep, Intake.insert, hpc, reduceCtorEq, if_false, hins,
        exists_false, iff_false]
      rintro ⟨s', hs', hcalls⟩
      cases hs'
      have hget := congrArg (fun l => l[k]?.map EnqueueCall.pc) hcalls
      simp only [Intake.goto, List.getElem?_set_self hlt, Option.map_some] at hget
      cases refs <;> cases hget

/-- For every request that `validate` accepts and every table in which neither its
external id nor its key, unless that is empty, is in use, and a new id from the
database: `Enqueue` does not fail in `Insert` exactly when the request has no empty
recipient and no empty group, and no row has an empty key if the request has
one. -/
theorem validated_inserts_iff (hk : s.calls[k]? = some call) (hpc : call.pc = .inserting mid refs)
    (hv : call.m.validate cfg = none) (hid : ∀ r ∈ s.table, r.id ≠ id)
    (hext : ∀ r ∈ s.table, r.externalId ≠ call.m.externalId)
    (hkey : ∀ key, nonEmpty? call.m.idempotencyKey = some key →
      ∀ r ∈ s.table, r.idempotencyKey ≠ some key) :
    InsertSucceeds cfg s k call id ↔
      (call.m.recipient ≠ some "" ∧ call.m.groupId ≠ some "") ∧
        (call.m.idempotencyKey = some "" → ∀ r ∈ s.table, r.idempotencyKey ≠ some "") := by
  rw [insertSucceeds_iff hpc hk, Messages.insert_ok_iff hid hext]
  refine and_congr (exactlyOneTarget_iff (CreateMessage.validated hv).2) ⟨fun h he => h "" he, ?_⟩
  intro h v hkv
  by_cases hempty : v = ""
  · subst hempty
    exact h hkv
  · exact hkey v (nonEmpty?_eq_some.mpr ⟨hkv, hempty⟩)

/-- A message to a group. -/
def groupMessage : CreateMessage where
  externalId := "ext-1"
  groupId := some "g-1"
  content := "hello"

/-- Its request, up to the `Insert`. -/
def groupTrace : List IntakeLabel :=
  [.request groupMessage [], .enqueue 0 (.lookup "u-1" false), .enqueue 0 (.next false)]

/-- A message to a group is inserted. -/
theorem groupMessage_inserts :
    ∃ s call, Run (Intake.step demoConfig) Intake.init groupTrace s ∧
      s.calls[0]? = some call ∧ InsertSucceeds demoConfig s 0 call "m-1" := by
  refine ⟨_, _, run_of_exec rfl, rfl, ?_⟩
  exact (validated_inserts_iff rfl rfl (by decide) (by decide) (by decide)
    fun _ _ _ hr => by cases hr).mpr (by decide)

/-- The same message with an empty recipient next to the group. -/
def emptyRecipient : List IntakeLabel :=
  [.request { groupMessage with recipient := some "" } [], .enqueue 0 (.lookup "u-1" false),
    .enqueue 0 (.next false), .enqueue 0 (.insert "m-1" .committed)]

/-- Two messages with an empty idempotency key. -/
def emptyKeys : List IntakeLabel :=
  [.request { groupMessage with idempotencyKey := some "" } [], .enqueue 0 (.lookup "u-1" false),
    .enqueue 0 (.next false), .enqueue 0 (.insert "m-1" .committed),
    .request { groupMessage with externalId := "ext-2", idempotencyKey := some "" } [],
    .enqueue 1 (.lookup "u-2" false), .enqueue 1 (.next false),
    .enqueue 1 (.insert "m-2" .committed)]

/-- An empty recipient breaks the `CHECK`, and a second empty key breaks the
`UNIQUE`, although all these requests pass `validate` and have no key to look
up. -/
theorem emptyFields_refused :
    (∃ s call, Run (Intake.step demoConfig) Intake.init emptyRecipient s ∧
      s.calls[0]? = some call ∧ call.m.validate demoConfig = none ∧
      call.pc = .returned (.error
        (.insertSignalMessage "ext-1" (.rejected .exactlyOneTarget)))) ∧
    ∃ s call, Run (Intake.step demoConfig) Intake.init emptyKeys s ∧
      s.calls[1]? = some call ∧ call.m.validate demoConfig = none ∧
      nonEmpty? call.m.idempotencyKey = none ∧
      call.pc = .returned (.error (.insertSignalMessage "ext-2" (.rejected .idempotencyKey))) :=
  ⟨⟨_, _, run_of_exec rfl, rfl, by decide, rfl⟩, _, _, run_of_exec rfl, rfl, by decide, rfl, rfl⟩

end Signalium
