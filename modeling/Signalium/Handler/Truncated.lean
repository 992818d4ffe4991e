import Signalium.Handler.Malformed

/-!
# Truncated uploads

A body that ends before its closing boundary makes `NextPart` return an error that wraps
`io.EOF`.  `Next` and `uploadAll` ask `errors.Is(err, io.EOF)`, which looks through the
wrapping, so to them a body that was cut between two parts is a body that ends there.

A truncated upload is refused exactly when the parts that did arrive, closed by a boundary,
would have been refused: for a fault of their own, or because its `INSERT` meets a row with
its external id or key, or the `CHECK` on its target (`truncated_refused_iff`).  Otherwise it
is accepted without the attachments that were lost (`lostAttachment_accepted`).
-/

namespace Signalium

open Runs

/-! ## Truncation -/

/-- The upload with a closing boundary after `n` parts. -/
def PostRequest.closed (req : PostRequest) (n : Nat) : PostRequest :=
  { req with reader := req.reader.map fun parts => parts.take n }

/-- The upload cut off after `n` parts.  `text` is what the parser has to say about it. -/
def PostRequest.cut (req : PostRequest) (n : Nat) (text : String) : PostRequest :=
  { req with reader := req.reader.map fun parts => parts.take n ++ [.failed text true] }

variable {svc : ServiceConfig} {s s' : Server} {a : ServerLabel} {req : PostRequest}
  {tr : List ServerLabel} {k : Nat} {call : EnqueueCall}

theorem partsFault?_cut (text : String) (events : List PartEvent) :
    partsFault? (events ++ [.failed text true]) = partsFault? events := by
  induction events with
  | nil => rfl
  | cons ev events ih =>
      cases ev with
      | failed text isEOF => rfl
      | part p => rw [List.cons_append, partsFault?, partsFault?, ih]

theorem formFault?_cut (text : String) (events : List PartEvent) :
    formFault? svc (events ++ [.failed text true]) = formFault? svc events := by
  cases events with
  | nil => rfl
  | cons ev events =>
      cases ev with
      | failed text isEOF => rfl
      | part p => rw [List.cons_append, formFault?, formFault?, partsFault?_cut]

/-- Nobody finds fault with the cut. -/
theorem PostRequest.fault?_cut (req : PostRequest) (n : Nat) (text : String) :
    (req.cut n text).fault? svc = (req.closed n).fault? svc := by
  rw [PostRequest.fault?, PostRequest.fault?, PostRequest.cut, PostRequest.closed]
  cases req.reader with
  | error e => rfl
  | ok events =>
      simp only [Except.map]
      rw [formFault?_cut]

/-! ## Faults and errors -/

/-- A request that comes to `Enqueue` has a fault where `Enqueue` finds one. -/
theorem PostRequest.fault?_eq_none_iff {m : CreateMessage} {rest : List PartEvent}
    (h : req.enqueueArgs = .ok (m, rest)) :
    req.fault? svc = none ↔ requestError? svc m (rest.map PartEvent.read) = none := by
  rw [PostRequest.fault?_of_args h]
  cases hv : m.validate svc with
  | some e => simp [requestError?, hv]
  | none =>
      rw [requestError?_of_valid hv, partsError?_read, Option.map_eq_none_iff, if_neg (by simp)]

/-- A call ends with the error of its request, or with that of a constraint, and succeeds
only without the first. -/
def EnqueuePc.Decided (svc : ServiceConfig) (m : CreateMessage) (parts : List PartRead) :
    EnqueuePc → Prop
  | .rollingBack _ e | .returned (.error e) =>
      requestError? svc m parts = some e ∨ ∃ c, e = .insertSignalMessage m.externalId (.rejected c)
  | .returned (.ok ⟨_, false⟩) => requestError? svc m parts = none
  | _ => True

theorem decided_rollback {m : CreateMessage} {parts : List PartRead} {e : ServiceError}
    (refs : List Attachment) (h : requestError? svc m parts = some e ∨
      ∃ c, e = .insertSignalMessage m.externalId (.rejected c)) :
    (rollback refs e).Decided svc m parts := by
  cases refs with
  | nil => exact h
  | cons ref refs => exact h

theorem EnqueueMove.decided {i : Intake} {act : EnqueueAct} {o : Objects} {t : Messages}
    {pc : EnqueuePc} (h : EnqueueMove svc i call act o t pc) (hok : act.Healthy i.table)
    (hexp : call.pc.Explained svc call.m call.parts)
    (hpc : call.pc.Decided svc call.m call.parts) : pc.Decided svc call.m call.parts := by
  cases h with
  | invalid _ hv =>
      refine Or.inl ?_
      rw [requestError?, hv, Option.some_or]
  | keyless | miss | hit | uploaded | readEOF | put => trivial
  | lookupFailed => cases hok
  | putFailed => cases hok
  | unreached => cases hok.1
  | insertLost => cases hok.1
  | readFailed hup =>
      rw [hup] at hexp
      refine decided_rollback _ (Or.inl ?_)
      rw [requestError?_of_valid hexp.1, hexp.2]
      rfl
  | rejected hup hname =>
      rw [hup] at hexp
      refine decided_rollback _ (Or.inl ?_)
      rw [requestError?_of_valid hexp.1, hexp.2, partsError?, if_pos hname]
  | remove hroll =>
      rw [hroll] at hpc
      exact decided_rollback _ hpc
  | insertRejected => exact decided_rollback _ (Or.inr ⟨_, rfl⟩)
  | inserted hins =>
      rw [hins] at hexp
      exact hexp

/-! ## Runs -/

/-- The step is not one by which the call at place `k` writes the table. -/
def WritesNothing (k : Nat) (s : Server) : ServerLabel → Server → Prop
  | .enqueue j _, s' => j = k → s'.intake.table = s.intake.table
  | _, _ => True

/-- The request was not accepted, and its call has written no row. -/
structure Refused (svc : ServiceConfig) (tr : List ServerLabel) (x : Exchange) : Prop where
  notAccepted : ∀ id, x.response ≠ some (.accepted id)
  noRow : ∀ k, x.call = some k → EveryStep (Server.step svc) Server.init tr (WritesNothing k)

/-- The row of the message breaks no constraint of the table, apart from its id: it has one
target, and no row has its external id or its key. -/
def CreateMessage.Fits (t : Messages) (m : CreateMessage) : Prop :=
  ExactlyOneTarget m.recipient m.groupId ∧ (∀ r ∈ t, r.externalId ≠ m.externalId) ∧
    ∀ v, m.idempotencyKey = some v → ∀ r ∈ t, r.idempotencyKey ≠ some v

/-- In the step, the call at place `k` looks up an idempotency key that a row has. -/
def LooksUpStored (k : Nat) (s : Server) : ServerLabel → Prop
  | .enqueue j (.lookup _ _) => j = k ∧ ∃ call ∈ s.intake.calls[k]?,
      ∃ key ∈ nonEmpty? call.m.idempotencyKey, ∃ r ∈ s.intake.table, r.idempotencyKey = some key
  | _ => False

/-- In the step, the call at place `k` inserts a row that the table has no room for. -/
def InsertsTaken (k : Nat) (s : Server) : ServerLabel → Prop
  | .enqueue j (.insert _ _) => j = k ∧ ∃ call ∈ s.intake.calls[k]?, ¬ call.m.Fits s.intake.table
  | _ => False

/-- The idempotency key of the exchange is stored when its call looks it up. -/
def Exchange.KeyStored (svc : ServiceConfig) (tr : List ServerLabel) (x : Exchange) : Prop :=
  ∃ k, x.call = some k ∧ SomeStep (Server.step svc) Server.init tr (LooksUpStored k)

/-- The row of the exchange does not fit into the table when its call inserts it. -/
def Exchange.RowTaken (svc : ServiceConfig) (tr : List ServerLabel) (x : Exchange) : Prop :=
  ∃ k, x.call = some k ∧ SomeStep (Server.step svc) Server.init tr (InsertsTaken k)

/-- The call has not returned the id of a row of its own. -/
def NoneReturned (k : Nat) (s : Server) : Prop :=
  ∀ (call : EnqueueCall) (id : UUID), s.intake.calls[k]? = some call →
    call.pc ≠ .returned (.ok { id := id })

/-- A step keeps the call from having returned a row of its own exactly when it does not
write the table for it. -/
theorem noneReturned_step_iff (h : NoneReturned k s) (hok : ServerHealthy s a)
    (hs : s.step svc a = some s') : NoneReturned k s' ↔ WritesNothing k s a s' := by
  have hm := Server.step_move hs
  constructor
  · intro h'
    cases hm with
    | @enqueue j call act o t pc hcall hmove =>
        rintro rfl
        rcases hmove.table_eq hok with htable | ⟨_, _, _, row, _, _, hpc⟩
        · exact htable
        · exact absurd hpc (h' _ row.id (Places.set_self hcall))
    | _ => trivial
  · intro hwrites call' id hcall' hpc
    rcases hm.of_call hcall' with hold | ⟨call, act, o, t, pc, hcall, rfl, hmove, rfl, htable⟩ |
      ⟨m, parts, rfl⟩
    · exact h call' id hold hpc
    · rcases hmove.returned_ok hpc with ⟨_, _, _, _, _, _, _, _, hres⟩ |
        ⟨_, _, _, row, _, _, hins, _⟩
      · cases hres
      · -- The table with the row is longer than the one without it.
        have hsame : t = s.intake.table := htable.symm.trans (hwrites rfl)
        have hrows := congrArg List.length (Messages.insert_eq_ok hins).2.1
        rw [hsame, List.length_append, List.length_singleton] at hrows
        omega
    · cases hpc

/-- Along a run. -/
theorem noneReturned_iff (hr : RunOf (Server.step svc) ServerHealthy Server.init tr s) (k : Nat) :
    NoneReturned k s ↔ EveryStep (Server.step svc) Server.init tr (WritesNothing k) := by
  refine hr.last_iff_everyStep ?_ ?_ fun s a s' h hok hs => noneReturned_step_iff h hok hs
  · intro call id hcall
    cases hcall
  · intro s a s' hs h call id hcall hpc
    obtain ⟨call', hcall', _, _, hstays⟩ := (Server.step_move hs).call_stays hcall
    exact h call' id hcall' (hstays _ hpc)

/-- Every call ends as it should. -/
structure DecidedInv (svc : ServiceConfig) (s : Server) : Prop where
  server : ServerInv svc s
  decided : ∀ (k : Nat) (call : EnqueueCall), s.intake.calls[k]? = some call →
    call.pc.Decided svc call.m call.parts

theorem decidedInv_init : DecidedInv svc Server.init where
  server := serverInv_init
  decided := by intro k call hcall; cases hcall

theorem DecidedInv.step (h : DecidedInv svc s) (hok : ServerHealthy s a)
    (hs : s.step svc a = some s') : DecidedInv svc s' := by
  refine ⟨h.server.step hok hs, fun k call' hcall' => ?_⟩
  rcases (Server.step_move hs).of_call hcall' with hold |
    ⟨call, act, o, t, pc, hcall, rfl, hmove, rfl, _⟩ | ⟨m, parts, rfl⟩
  · exact h.decided k call' hold
  · exact hmove.decided hok (h.server.explained k call hcall) (h.decided k call hcall)
  · exact trivial

/-! ## Rows that do not fit -/

/-- With a new id, an `INSERT` fails where the row does not fit. -/
theorem Messages.insert_error_iff {t : Messages} {now : Int} {id mid : UUID} {m : CreateMessage}
    {refs : List Attachment} (hid : ∀ r ∈ t.rows, r.id ≠ id) :
    (∃ e, t.insert now id (m.insertParams svc now mid refs) = .error e) ↔ ¬ m.Fits t := by
  have hfits : m.Fits t ↔
      insertError? (t.rows.map Row.key) ((m.insertParams svc now mid refs).row now id).key =
        none := by
    rw [Messages.free_iff]
    exact ⟨fun ⟨htarget, hext, hkey⟩ => ⟨htarget, hid, hext, hkey⟩,
      fun ⟨htarget, _, hext, hkey⟩ => ⟨htarget, hext, hkey⟩⟩
  simp only [hfits, Messages.insert_eq_error]
  rw [← Ne, Option.ne_none_iff_exists']

/-- The error is that of a constraint. -/
def ServiceError.ofRow : ServiceError → Bool
  | .insertSignalMessage _ (.rejected _) => true
  | _ => false

/-- The call fails, or has failed, by a constraint. -/
def EnqueuePc.rejected : EnqueuePc → Bool
  | .rollingBack _ e | .returned (.error e) => e.ofRow
  | _ => false

theorem rollback_rejected (refs : List Attachment) (e : ServiceError) :
    (rollback refs e).rejected = e.ofRow := by
  cases refs <;> rfl

theorem CreateMessage.validate_ofRow {m : CreateMessage} {e : ServiceError}
    (h : m.validate svc = some e) : e.ofRow = false := by
  unfold CreateMessage.validate at h
  split_ifs at h
  any_goals
    cases h
    rfl
  split at h
  · split_ifs at h
    cases h
    rfl
  · cases h

/-- A call is rejected by the `INSERT` of a row that does not fit, and then stays so. -/
theorem EnqueueMove.rejected_iff {i : Intake} {act : EnqueueAct} {o : Objects} {t : Messages}
    {pc : EnqueuePc} (h : EnqueueMove svc i call act o t pc) (hok : act.Healthy i.table) :
    pc.rejected = true ↔ call.pc.rejected = true ∨
      ∃ id reply, act = .insert id reply ∧ ¬ call.m.Fits i.table := by
  cases h with
  | @insertRejected id mid refs reply e hpc _ hins =>
      have hfits : ¬ call.m.Fits i.table := (Messages.insert_error_iff hok.2).mp ⟨e, hins⟩
      rw [rollback_rejected]
      exact ⟨fun _ => Or.inr ⟨id, reply, rfl, hfits⟩, fun _ => rfl⟩
  | @inserted id mid refs row t hpc hins =>
      have hfits : call.m.Fits i.table := by
        by_contra hnot
        obtain ⟨e, he⟩ := (Messages.insert_error_iff hok.2).mpr hnot
        cases hins.symm.trans he
      simp [EnqueuePc.rejected, hpc, hfits]
  | invalid hpc hv => simp [EnqueuePc.rejected, hpc, CreateMessage.validate_ofRow hv]
  | remove hpc =>
      rw [rollback_rejected]
      simp [EnqueuePc.rejected, hpc]
  | readFailed hpc | rejected hpc _ =>
      rw [rollback_rejected]
      simp [EnqueuePc.rejected, hpc, ServiceError.ofRow]
  | lookupFailed => cases hok
  | putFailed => cases hok
  | unreached => cases hok.1
  | insertLost => cases hok.1
  | keyless hpc | hit hpc | miss hpc | uploaded hpc | readEOF hpc | put hpc =>
      simp [EnqueuePc.rejected, hpc]

/-- A place of a call that is not its first one was reached by a step of the call. -/
theorem someStep_of_pc {P : EnqueuePc → Prop} {Q : Server → ServerLabel → Prop}
    (hr : RunOf (Server.step svc) ServerHealthy Server.init tr s) (hstart : ¬ P .start)
    (hmove : ∀ (s : Server) (call : EnqueueCall) (act : EnqueueAct) (o : Objects) (t : Messages)
      (pc : EnqueuePc), s.intake.calls[k]? = some call → act.Healthy s.intake.table →
      EnqueueMove svc s.intake call act o t pc → ¬ P call.pc → P pc → Q s (.enqueue k act))
    (hcall : s.intake.calls[k]? = some call) (hpc : P call.pc) :
    SomeStep (Server.step svc) Server.init tr Q := by
  refine hr.someStep_of_last
    (P := fun s => ∃ call, s.intake.calls[k]? = some call ∧ P call.pc) ?_ ?_ ⟨call, hcall, hpc⟩
  · rintro ⟨call, hcall, _⟩
    cases hcall
  · rintro s a s' hnot hok hs ⟨call', hcall', hpc'⟩
    rcases (Server.step_move hs).of_call hcall' with hold |
      ⟨call, act, o, t, pc, hcall, rfl, hm, rfl, _⟩ | ⟨m, parts, rfl⟩
    · exact absurd ⟨call', hold, hpc'⟩ hnot
    · exact hmove s call act o t pc hcall hok hm (fun h => hnot ⟨call, hcall, h⟩) hpc'
    · exact absurd hpc' hstart

/-- The call at place `k` has been rejected. -/
def CallRejected (k : Nat) (s : Server) : Prop :=
  ∃ call, s.intake.calls[k]? = some call ∧ call.pc.rejected = true

/-- A call that has been rejected has met a table without room for its row. -/
theorem CallRejected.taken (hr : RunOf (Server.step svc) ServerHealthy Server.init tr s)
    (h : CallRejected k s) : SomeStep (Server.step svc) Server.init tr (InsertsTaken k) := by
  obtain ⟨call, hcall, hrej⟩ := h
  refine someStep_of_pc (P := fun pc => pc.rejected = true) hr nofun ?_ hcall hrej
  intro s call act o t pc hcall hok hmove hnot hrej
  rcases (hmove.rejected_iff hok).mp hrej with hold | ⟨id, reply, rfl, hfits⟩
  · exact absurd hold hnot
  · exact ⟨rfl, call, hcall, hfits⟩

/-- A call that has met such a table has been rejected. -/
theorem callRejected_of_taken (hr : RunOf (Server.step svc) ServerHealthy Server.init tr s)
    (h : SomeStep (Server.step svc) Server.init tr (InsertsTaken k)) : CallRejected k s := by
  have hmoved : ∀ {s s' : Server} {call : EnqueueCall} {act : EnqueueAct},
      ServerHealthy s (.enqueue k act) → s.step svc (.enqueue k act) = some s' →
      s.intake.calls[k]? = some call →
      call.pc.rejected = true ∨ (∃ id reply, act = .insert id reply ∧
        ¬ call.m.Fits s.intake.table) → CallRejected k s' := by
    intro s s' call act hok hs hcall hcause
    cases Server.step_move hs with
    | enqueue hcall₀ hmove =>
        cases hcall.symm.trans hcall₀
        exact ⟨_, Places.set_self hcall, (hmove.rejected_iff hok).mpr hcause⟩
  refine hr.last_of_someStep (P := CallRejected k) ?_ ?_ h
  · rintro s a s' ⟨call, hcall, hrej⟩ hok hs
    by_cases hown : ∃ act, a = .enqueue k act
    · obtain ⟨act, rfl⟩ := hown
      exact hmoved hok hs hcall (Or.inl hrej)
    · refine ⟨call, ?_, hrej⟩
      cases Server.step_move hs with
      | start => exact Places.snoc_of hcall
      | @enqueue j call₀ act o t pc _ _ =>
          have hkj : k ≠ j := by
            rintro rfl
            exact hown ⟨act, rfl⟩
          exact (Places.set_ne hkj).trans hcall
      | _ => exact hcall
  · rintro s a s' htaken hok hs
    cases a with
    | enqueue j act =>
        cases act with
        | insert id reply =>
            obtain ⟨rfl, call, hcall, hfits⟩ := htaken
            exact hmoved hok hs hcall (Or.inr ⟨id, reply, rfl, hfits⟩)
        | _ => cases htaken
    | _ => cases htaken

/-- A call that is answered with an earlier row has found its key in the table. -/
theorem stored_of_idempotent (hr : RunOf (Server.step svc) ServerHealthy Server.init tr s)
    {id : UUID} (hcall : s.intake.calls[k]? = some call)
    (hpc : call.pc = .returned (.ok ⟨id, true⟩)) :
    SomeStep (Server.step svc) Server.init tr (LooksUpStored k) := by
  refine someStep_of_pc (P := fun pc => pc = .returned (.ok ⟨id, true⟩)) hr nofun ?_ hcall hpc
  intro s call act o t pc hcall _ hmove _ hpc
  rcases hmove.returned_ok hpc with ⟨_, key, r, rfl, _, hkey, hfound, _, _⟩ |
    ⟨_, _, _, _, _, _, _, hres⟩
  · obtain ⟨hrow, hrkey⟩ := Messages.getByIdempotencyKey_some hfound
    exact ⟨rfl, call, hcall, key, hkey, r, hrow, hrkey⟩
  · cases hres

/-- Only a request with a key has its key stored. -/
theorem keyed_of_stored (hr : RunOf (Server.step svc) ServerHealthy Server.init tr s)
    (h : SomeStep (Server.step svc) Server.init tr (LooksUpStored k)) :
    ∃ call, s.intake.calls[k]? = some call ∧ nonEmpty? call.m.idempotencyKey ≠ none := by
  have hstays : ∀ (s : Server) (a : ServerLabel) (s' : Server) (call : EnqueueCall),
      s.step svc a = some s' → s.intake.calls[k]? = some call →
      nonEmpty? call.m.idempotencyKey ≠ none →
      ∃ call', s'.intake.calls[k]? = some call' ∧ nonEmpty? call'.m.idempotencyKey ≠ none := by
    intro s a s' call hs hcall hkey
    obtain ⟨call', hcall', hm, _⟩ := (Server.step_move hs).call_stays hcall
    exact ⟨call', hcall', hm ▸ hkey⟩
  refine hr.last_of_someStep (P := fun s => ∃ call, s.intake.calls[k]? = some call ∧
    nonEmpty? call.m.idempotencyKey ≠ none) ?_ ?_ h
  · rintro s a s' ⟨call, hcall, hkey⟩ _ hs
    exact hstays s a s' call hs hcall hkey
  · rintro s a s' hstored _ hs
    cases a with
    | enqueue j act =>
        cases act with
        | lookup id fails =>
            obtain ⟨rfl, call, hcall, key, hkey, _⟩ := hstored
            refine hstays s _ s' call hs hcall ?_
            rw [Option.mem_def.mp hkey]
            exact Option.some_ne_none key
        | _ => cases hstored
    | _ => cases hstored

/-! ## Refusals -/

/-- A request whose key is not stored is refused for a fault of its own, or because its row
does not fit. -/
theorem Exchange.refused_iff {i : Nat} {x : Exchange}
    (hr : RunOf (Server.step svc) ServerHealthy Server.init tr s)
    (hx : s.exchanges[i]? = some x) (hanswered : x.response ≠ none)
    (hkey : ¬ x.KeyStored svc tr) :
    Refused svc tr x ↔ x.request.fault? svc ≠ none ∨ x.RowTaken svc tr := by
  have hI : DecidedInv svc s := hr.invariant decidedInv_init fun _ _ _ h hok hs => h.step hok hs
  have hsound := hI.server.sound i x hx
  cases hcall : x.call with
  | none =>
      simp only [Exchange.Sound, hcall] at hsound
      obtain ⟨err, hargs, hresp⟩ := hsound
      have hfault : ∃ f, x.request.fault? svc = some f ∧ err.writeError.BlamesRequest ∧
          f.foundByNext = false := PostRequest.refused hargs
      obtain ⟨f, hf, _⟩ := hfault
      refine iff_of_true ⟨fun id hid => ?_, fun k hk => ?_⟩ (Or.inl ?_)
      · rw [hresp] at hid
        cases hid
      · cases hcall.symm.trans hk
      · rw [hf]
        exact Option.some_ne_none f
  | some k =>
      simp only [Exchange.Sound, hcall] at hsound
      obtain ⟨m, rest, call, hargs, hplace, rfl, hparts, hresp⟩ := hsound
      obtain ⟨resp, hsome⟩ := Option.ne_none_iff_exists'.mp hanswered
      obtain ⟨r, db, below, hpc, rfl⟩ := hresp resp hsome
      have hdecided := hI.decided k call hplace
      rw [hpc] at hdecided
      have hfault : x.request.fault? svc = none ↔
          requestError? svc call.m call.parts = none := by
        rw [hparts]
        exact PostRequest.fault?_eq_none_iff hargs
      match r, hpc, hdecided with
      | .ok ⟨id, true⟩, hpc, _ =>
          exact absurd ⟨k, hcall, stored_of_idempotent hr hplace hpc⟩ hkey
      | .ok ⟨id, false⟩, hpc, hdecided =>
          refine iff_of_false (fun h => h.notAccepted id hsome) ?_
          rintro (hf | ⟨k', hk', htaken⟩)
          · exact hf (hfault.mpr hdecided)
          · cases hcall.symm.trans hk'
            obtain ⟨call', hplace', hrej⟩ := callRejected_of_taken hr htaken
            cases hplace.symm.trans hplace'
            rw [hpc] at hrej
            cases hrej
      | .error e, hpc, hdecided =>
          refine iff_of_true ⟨fun id hid => ?_, fun k' hk' => ?_⟩ ?_
          · rw [hsome, respond_error] at hid
            cases hid
          · cases hcall.symm.trans hk'
            refine (noneReturned_iff hr k).mp fun call' id hplace' hpc' => ?_
            cases hplace.symm.trans hplace'
            cases hpc.symm.trans hpc'
          · rcases hdecided with herr | ⟨c, rfl⟩
            · refine Or.inl fun hnone => ?_
              rw [hfault.mp hnone] at herr
              cases herr
            · have hrej : CallRejected k s := ⟨call, hplace, by rw [hpc]; rfl⟩
              exact Or.inr ⟨k, hcall, hrej.taken hr⟩

/-- Along any run of requests, with a healthy store and database: an upload that is cut off
after `n` parts, and whose idempotency key is not stored when it is looked up, is refused
exactly when its first `n` parts have a fault of their own, or its `INSERT` meets a table that
its row does not fit in: a row with its external id or its key, or the `CHECK` on its
target. -/
theorem truncated_refused_iff {i n : Nat} {x : Exchange} {text : String}
    (hr : RunOf (Server.step svc) ServerHealthy Server.init tr s)
    (hx : s.exchanges[i]? = some x) (hcut : x.request = req.cut n text)
    (hanswered : x.response ≠ none) (hkey : ¬ x.KeyStored svc tr) :
    Refused svc tr x ↔ (req.closed n).fault? svc ≠ none ∨ x.RowTaken svc tr := by
  rw [Exchange.refused_iff hr hx hanswered hkey, hcut, PostRequest.fault?_cut]

/-- The metadata, and an attachment. -/
def attachedUpload (fileName : List UInt8) : PostRequest where
  method := "POST"
  contentType := "multipart/form-data; boundary=xyz"
  reader := .ok [metadataPart, .part ⟨"attachments", fileName, "text/plain", [0x78], none⟩]

/-- The upload, cut off after `n` parts. -/
def cutUpload (fileName : List UInt8) (n : Nat) : PostRequest :=
  (attachedUpload fileName).cut n "multipart: NextPart: EOF"

/-- It is served up to the part without a name. -/
def servedUnnamed : List ServerLabel :=
  [.serve (cutUpload [] 2), .enqueue 0 (.lookup "u-1" false), .enqueue 0 (.next false),
    .answer 0 "" (.text "")]

/-- A body that ends after an attachment without a name is refused, for the name. -/
theorem unnamedAttachment_refused :
    ∃ s x, RunOf (Server.step demoConfig) ServerHealthy Server.init servedUnnamed s ∧
      s.exchanges = [x] ∧ x.request = cutUpload [] 2 ∧ Refused demoConfig servedUnnamed x := by
  have hr : RunOf (Server.step demoConfig) ServerHealthy Server.init servedUnnamed _ :=
    runOf_of_execOf rfl
  refine ⟨_, _, hr, rfl, rfl, (truncated_refused_iff (i := 0) hr rfl rfl ?_ ?_).mpr (Or.inl ?_)⟩
  · exact Option.some_ne_none _
  · rintro ⟨k, hk, hstored⟩
    cases hk
    obtain ⟨call, hcall, hkey⟩ := keyed_of_stored hr hstored
    cases hcall
    exact hkey rfl
  · exact Option.some_ne_none Fault.rejectedFilename

/-- The body ends after the metadata, and the attachment is lost. -/
def servedLost : List ServerLabel :=
  [.serve (cutUpload [0x61] 1), .enqueue 0 (.lookup "u-1" false), .enqueue 0 (.next false),
    .enqueue 0 (.insert "m-1" .committed), .answer 0 "" (.text "")]

/-- The upload is answered with 202 and stored without its attachment. -/
theorem lostAttachment_accepted :
    ∃ s x, RunOf (Server.step demoConfig) ServerHealthy Server.init servedLost s ∧
      s.exchanges = [x] ∧ x.request = cutUpload [0x61] 1 ∧ x.response = some (.accepted "m-1") ∧
      s.intake.table.rows.map (fun r => (r.id, r.attachments)) = [("m-1", [])] ∧
      ¬ x.KeyStored demoConfig servedLost ∧ ¬ Refused demoConfig servedLost x := by
  have hr : RunOf (Server.step demoConfig) ServerHealthy Server.init servedLost _ :=
    runOf_of_execOf rfl
  refine ⟨_, _, hr, rfl, rfl, rfl, rfl, ?_, fun h => h.notAccepted "m-1" rfl⟩
  rintro ⟨k, hk, hstored⟩
  cases hk
  obtain ⟨call, hcall, hkey⟩ := keyed_of_stored hr hstored
  cases hcall
  exact hkey rfl

end Signalium
