import Signalium.Handler.Multipart
import Signalium.Service.Idempotency

/-!
# Malformed uploads

A request can be at fault in many ways, and most of them are answered with a client
error.  `Fault` names what the handler and the service can find wrong with a request
itself, in the order in which they look (`PostRequest.fault?`).

`Next` reports a part with a wrong name, a second metadata part and an error of the
parser as `InvalidSignalMessage`.  `uploadAll` wraps what `Next` returns in
`AttachmentUploadFailed`, and the error that is written is the outermost one
(`ServiceError.written_eq`).  So with a healthy store and database a malformed
request is answered with a client error exactly when its fault is not one that
`Next` finds (`malformed_client_error_iff`).
-/

namespace Signalium

open Runs

/-! ## Faults -/

/-- What can be wrong with a request itself. -/
inductive Fault where
  | method
  | notMultipart
  | missingMetadata
  | unreadableMetadata
  | misplacedMetadata
  | undecodableMetadata
  | failedValidation
  | rejectedFilename
  | parserError
  | duplicateMetadata
  | unexpectedPart
deriving DecidableEq, Repr

/-- The faults that `Next` finds. -/
def Fault.foundByNext : Fault → Bool
  | .parserError | .duplicateMetadata | .unexpectedPart => true
  | _ => false

/-- The first fault of the parts after the metadata. -/
def partsFault? : List PartEvent → Option Fault
  | [] => none
  | .failed _ isEOF :: _ => if isEOF then none else some .parserError
  | .part p :: rest =>
      if p.formName = "attachments" then
        if sanitizeFilename p.fileName = "" then some .rejectedFilename else partsFault? rest
      else if p.formName = "metadata" then some .duplicateMetadata
      else some .unexpectedPart

/-- The first fault of the parts. -/
def formFault? (svc : ServiceConfig) : List PartEvent → Option Fault
  | [] => some .missingMetadata
  | .failed _ isEOF :: _ => some (if isEOF then .missingMetadata else .unreadableMetadata)
  | .part first :: rest =>
      if first.formName ≠ "metadata" then some .misplacedMetadata
      else
        match first.decode with
        | none => some .undecodableMetadata
        | some req =>
            if (toCreateMessage req).validate svc ≠ none then some .failedValidation
            else partsFault? rest

/-- The first fault of a request. -/
def PostRequest.fault? (svc : ServiceConfig) (req : PostRequest) : Option Fault :=
  if req.method ≠ "POST" then some .method
  else
    match req.reader with
    | .error _ => some .notMultipart
    | .ok parts => formFault? svc parts

/-- A client error that blames the request. -/
def ConjureError.BlamesRequest (e : ConjureError) : Prop :=
  e.ClientError ∧ ((∃ field reason, e = .invalidSignalMessage field reason) ∨
    ∃ configured requested, e = .senderMismatch configured requested)

theorem blames_invalid (field reason : String) :
    (ConjureError.invalidSignalMessage field reason).BlamesRequest :=
  ⟨⟨(by decide : 400 ≤ 400), (by decide : 400 < 500)⟩, Or.inl ⟨field, reason, rfl⟩⟩

variable {svc : ServiceConfig} {s s' : Server} {a : ServerLabel} {req : PostRequest} {f : Fault}
  {m : CreateMessage} {parts : List PartRead} {events rest : List PartEvent}

theorem splitMetadata_error {err : GoError} (h : splitMetadata events = .error err) :
    ∃ f, formFault? svc events = some f ∧ err.writeError.BlamesRequest ∧
      f.foundByNext = false := by
  cases events with
  | nil =>
      cases h
      exact ⟨_, rfl, blames_invalid _ _, rfl⟩
  | cons ev rest =>
      cases ev with
      | failed text isEOF =>
          cases isEOF with
          | true =>
              cases h
              exact ⟨_, rfl, blames_invalid _ _, rfl⟩
          | false =>
              cases h
              exact ⟨_, rfl, blames_invalid _ _, rfl⟩
      | part first =>
          rw [splitMetadata] at h
          rw [formFault?]
          by_cases hname : first.formName ≠ "metadata"
          · rw [if_pos hname] at h ⊢
            cases h
            exact ⟨_, rfl, blames_invalid _ _, rfl⟩
          · rw [if_neg hname] at h ⊢
            cases hdec : first.decode with
            | none =>
                rw [hdec] at h
                cases h
                exact ⟨_, rfl, blames_invalid _ _, rfl⟩
            | some req =>
                rw [hdec] at h
                cases h

theorem splitMetadata_ok (h : splitMetadata events = .ok (m, rest)) :
    formFault? svc events =
      if m.validate svc ≠ none then some .failedValidation else partsFault? rest := by
  unfold splitMetadata at h
  split at h
  · cases h
  · cases h
  · cases h
  · split at h
    · cases h
    · next hname =>
        split at h
        · cases h
        · next hdec =>
            cases h
            rw [formFault?, if_neg hname, hdec]

/-- What the handler refuses itself has a fault, and the error blames the request. -/
theorem PostRequest.refused {err : GoError} (h : req.enqueueArgs = .error err) :
    ∃ f, req.fault? svc = some f ∧ err.writeError.BlamesRequest ∧ f.foundByNext = false := by
  rw [PostRequest.enqueueArgs] at h
  rw [PostRequest.fault?]
  by_cases hm : req.method ≠ "POST"
  · rw [if_pos hm] at h ⊢
    cases h
    exact ⟨_, rfl, blames_invalid _ _, rfl⟩
  · rw [if_neg hm] at h ⊢
    cases hreader : req.reader with
    | error text =>
        rw [hreader] at h
        cases h
        exact ⟨_, rfl, blames_invalid _ _, rfl⟩
    | ok events =>
        rw [hreader] at h
        exact splitMetadata_error h

/-- The fault of a request that comes to `Enqueue`. -/
theorem PostRequest.fault?_of_args (h : req.enqueueArgs = .ok (m, rest)) :
    req.fault? svc =
      if m.validate svc ≠ none then some .failedValidation else partsFault? rest := by
  rw [PostRequest.enqueueArgs] at h
  by_cases hm : req.method ≠ "POST"
  · rw [if_pos hm] at h
    cases h
  · rw [if_neg hm] at h
    rw [PostRequest.fault?, if_neg hm]
    cases hreader : req.reader with
    | error text =>
        rw [hreader] at h
        cases h
    | ok events =>
        rw [hreader] at h
        exact splitMetadata_ok h

/-! ## The errors of the service -/

/-- The error that `uploadAll` makes of the parts. -/
def partsError? : List PartRead → Option ServiceError
  | [] => none
  | .failed isEOF :: _ => if isEOF then none else some (.attachmentUploadFailed "")
  | .part p :: rest =>
      if sanitizeFilename p.filename = "" then
        some (.invalid "attachments" "rejected attachment with empty filename")
      else partsError? rest

/-- The error that `Enqueue` makes of the request. -/
def requestError? (svc : ServiceConfig) (m : CreateMessage) (parts : List PartRead) :
    Option ServiceError :=
  (m.validate svc).or (partsError? parts)

/-- The error of `uploadAll` for a fault of the parts. -/
def Fault.uploadError (f : Fault) : ServiceError :=
  if f.foundByNext then .attachmentUploadFailed ""
  else .invalid "attachments" "rejected attachment with empty filename"

theorem partsError?_read (events : List PartEvent) :
    partsError? (events.map PartEvent.read) = (partsFault? events).map Fault.uploadError := by
  induction events with
  | nil => rfl
  | cons ev events ih =>
      cases ev with
      | failed text isEOF => cases isEOF <;> rfl
      | part p =>
          rw [List.map_cons, PartEvent.read, PartEvent.next, partsFault?]
          split_ifs with hatt hname hmeta
          · exact if_pos hname
          · exact (if_neg hname).trans ih
          · rfl
          · rfl

/-- What is known of the error of a call. -/
def EnqueuePc.Explained (svc : ServiceConfig) (m : CreateMessage) (parts : List PartRead) :
    EnqueuePc → Prop
  | .uploading _ rest _ => m.validate svc = none ∧ partsError? parts = partsError? rest
  | .inserting _ _ => requestError? svc m parts = none
  | .rollingBack _ e => ∀ e', requestError? svc m parts = some e' → e = e'
  | .returned (.error e) => ∀ e', requestError? svc m parts = some e' → e = e'
  | _ => True

theorem explained_rollback {e : ServiceError} (refs : List Attachment)
    (h : ∀ e', requestError? svc m parts = some e' → e = e') :
    (rollback refs e).Explained svc m parts := by
  cases refs with
  | nil => exact h
  | cons ref refs => exact h

theorem requestError?_of_valid (hv : m.validate svc = none) :
    requestError? svc m parts = partsError? parts := by
  rw [requestError?, hv, Option.none_or]

/-- With a healthy store and database, a call fails by the fault of its request if it
has one. -/
theorem EnqueueMove.explained {i : Intake} {call : EnqueueCall} {act : EnqueueAct} {o : Objects}
    {t : Messages} {pc : EnqueuePc} (h : EnqueueMove svc i call act o t pc)
    (hok : act.Healthy i.table) (hpc : call.pc.Explained svc call.m call.parts) :
    pc.Explained svc call.m call.parts := by
  cases h with
  | invalid _ hv =>
      intro e' he'
      rw [requestError?, hv] at he'
      exact Option.some.inj he'
  | keyless _ hv _ => exact ⟨hv, rfl⟩
  | miss _ hv _ _ => exact ⟨hv, rfl⟩
  | lookupFailed => cases hok
  | hit => trivial
  | uploaded hup | readEOF hup =>
      rw [hup] at hpc
      exact (requestError?_of_valid hpc.1).trans hpc.2
  | readFailed hup =>
      rw [hup] at hpc
      refine explained_rollback _ fun e' he' => ?_
      rw [requestError?_of_valid hpc.1, hpc.2] at he'
      exact Option.some.inj he'
  | rejected hup hname =>
      rw [hup] at hpc
      refine explained_rollback _ fun e' he' => ?_
      rw [requestError?_of_valid hpc.1, hpc.2, partsError?, if_pos hname] at he'
      exact Option.some.inj he'
  | putFailed => cases hok
  | put hup hname =>
      rw [hup] at hpc
      refine ⟨hpc.1, hpc.2.trans ?_⟩
      rw [partsError?, if_neg hname]
  | remove hroll =>
      rw [hroll] at hpc
      exact explained_rollback _ hpc
  | unreached => cases hok.1
  | insertLost => cases hok.1
  | inserted => trivial
  | insertRejected hins =>
      rw [hins] at hpc
      refine explained_rollback _ fun e' he' => ?_
      rw [show requestError? svc call.m call.parts = none from hpc] at he'
      cases he'

/-! ## Runs -/

/-- The store and the database are healthy. -/
def ServerHealthy (s : Server) : ServerLabel → Prop
  | .enqueue _ act => act.Healthy s.intake.table
  | _ => True

instance (s : Server) : (a : ServerLabel) → Decidable (ServerHealthy s a)
  | .enqueue _ act => inferInstanceAs (Decidable (act.Healthy s.intake.table))
  | .serve _ | .advance _ | .answer _ _ _ => .isTrue trivial

/-- An exchange was refused by the handler, or has its call, and its answer is the
one for what the call has returned. -/
def Exchange.Sound (s : Server) (x : Exchange) : Prop :=
  match x.call with
  | none => ∃ err, x.request.enqueueArgs = .error err ∧ x.response = some (.failed err.writeError)
  | some k => ∃ m rest call, x.request.enqueueArgs = .ok (m, rest) ∧
      s.intake.calls[k]? = some call ∧ call.m = m ∧ call.parts = rest.map PartEvent.read ∧
      ∀ resp, x.response = some resp → ∃ r db below, call.pc = .returned r ∧
        resp = respond db below r

structure ServerInv (svc : ServiceConfig) (s : Server) : Prop where
  explained : ∀ (k : Nat) (call : EnqueueCall), s.intake.calls[k]? = some call →
    call.pc.Explained svc call.m call.parts
  sound : ∀ (i : Nat) (x : Exchange), s.exchanges[i]? = some x → x.Sound s

theorem serverInv_init : ServerInv svc Server.init where
  explained k call h := by cases h
  sound i x h := by cases h

/-- An exchange stays sound where the calls that have returned stay. -/
theorem Exchange.Sound.frame {x : Exchange} (h : x.Sound s)
    (hcalls : ∀ (k : Nat) (call : EnqueueCall), s.intake.calls[k]? = some call →
      ∃ call', s'.intake.calls[k]? = some call' ∧ call'.m = call.m ∧ call'.parts = call.parts ∧
        ∀ r, call.pc = .returned r → call'.pc = .returned r) : x.Sound s' := by
  unfold Exchange.Sound at h ⊢
  split at h
  · exact h
  · obtain ⟨m, rest, call, hargs, hcall, hm, hparts, hresp⟩ := h
    obtain ⟨call', hcall', hm', hparts', hret⟩ := hcalls _ call hcall
    refine ⟨m, rest, call', hargs, hcall', hm'.trans hm, hparts'.trans hparts, fun resp hr => ?_⟩
    obtain ⟨r, db, below, hpc, he⟩ := hresp resp hr
    exact ⟨r, db, below, hret r hpc, he⟩

theorem ServerInv.step (h : ServerInv svc s) (hok : ServerHealthy s a)
    (hs : s.step svc a = some s') : ServerInv svc s' := by
  have hm := Server.step_move hs
  have hframe : ∀ x : Exchange, x.Sound s → x.Sound s' := fun x hx =>
    hx.frame fun k call hcall => hm.call_stays hcall
  constructor
  case explained =>
    intro k call' hcall'
    rcases hm.of_call hcall' with hold | ⟨call, act, o, t, pc, hcall, rfl, hmove, rfl, _⟩ |
      ⟨m, parts, rfl⟩
    · exact h.explained k call' hold
    · exact hmove.explained hok (h.explained k call hcall)
    · exact trivial
  case sound =>
    intro i x hx
    cases hm with
    | refuse hargs =>
        rcases Places.of_snoc hx with hold | ⟨_, rfl⟩
        · exact hframe x (h.sound i x hold)
        · exact ⟨_, hargs, rfl⟩
    | start hargs =>
        rcases Places.of_snoc hx with hold | ⟨_, rfl⟩
        · exact hframe x (h.sound i x hold)
        · exact ⟨_, _, _, hargs, List.getElem?_concat_length, rfl, rfl, nofun⟩
    | advance => exact hframe x (h.sound i x hx)
    | enqueue => exact hframe x (h.sound i x hx)
    | @answer j db below req k call r hx₀ hcall hpc =>
        rcases Places.of_set hx with ⟨_, rfl⟩ | ⟨_, hold⟩
        · obtain ⟨m, rest, call', hargs, hcall', hmsg, hparts, _⟩ := h.sound j _ hx₀
          cases hcall.symm.trans hcall'
          refine ⟨m, rest, call, hargs, hcall, hmsg, hparts, fun resp hresp => ?_⟩
          exact ⟨r, db, below, hpc, (Option.some.inj hresp).symm⟩
        · exact hframe x (h.sound i x hold)

/-- The errors of `validate` blame the request. -/
theorem CreateMessage.validate_blames {e : ServiceError} (h : m.validate svc = some e) :
    e.written.BlamesRequest := by
  unfold CreateMessage.validate at h
  split_ifs at h
  any_goals
    cases h
    exact blames_invalid _ _
  split at h
  · split_ifs at h
    cases h
    exact ⟨⟨(by decide : 400 ≤ 409), (by decide : 409 < 500)⟩, Or.inr ⟨_, _, rfl⟩⟩
  · cases h

theorem Fault.uploadError_blames (f : Fault) :
    f.uploadError.written.BlamesRequest ↔ f.foundByNext = false := by
  unfold Fault.uploadError
  cases f.foundByNext with
  | false => exact ⟨fun _ => rfl, fun _ => blames_invalid _ _⟩
  | true =>
      refine ⟨fun h => ?_, nofun⟩
      exact absurd h.1.2 (by decide)

/-- Along any run of requests, with a healthy store and database: for every request
that has a fault of its own and is answered with an error, this is a client error
that blames the request exactly when the fault is not one of those that `Next`
finds. -/
theorem malformed_client_error_iff {tr : List ServerLabel} {i : Nat} {x : Exchange}
    {e : ConjureError} (hr : RunOf (Server.step svc) ServerHealthy Server.init tr s)
    (hx : s.exchanges[i]? = some x) (hf : x.request.fault? svc = some f)
    (hresp : x.response = some (.failed e)) :
    e.BlamesRequest ↔ f.foundByNext = false := by
  have hI : ServerInv svc s := hr.invariant serverInv_init fun _ _ _ h hok hs => h.step hok hs
  have hsound := hI.sound i x hx
  unfold Exchange.Sound at hsound
  split at hsound
  · obtain ⟨err, hargs, hwritten⟩ := hsound
    rw [hresp] at hwritten
    cases hwritten
    obtain ⟨f', hf', hblames, hnext⟩ := PostRequest.refused hargs
    cases hf.symm.trans hf'
    exact ⟨fun _ => hnext, fun _ => hblames⟩
  · obtain ⟨m, rest, call, hargs, hcall, rfl, hparts, hanswer⟩ := hsound
    obtain ⟨r, db, below, hpc, he⟩ := hanswer _ hresp
    have hexp := hI.explained _ call hcall
    rw [hpc] at hexp
    cases r with
    | ok res => cases he
    | error e₀ =>
        rw [respond_error] at he
        cases he
        rw [PostRequest.fault?_of_args hargs] at hf
        -- The fault is one of the message or the first one of the parts.
        split_ifs at hf with hv
        · obtain ⟨e', he'⟩ := Option.ne_none_iff_exists'.mp hv
          cases hf
          rw [hexp e' (by rw [requestError?, he', Option.some_or])]
          exact ⟨fun _ => rfl, fun _ => CreateMessage.validate_blames he'⟩
        · have herr : requestError? svc call.m call.parts = some f.uploadError := by
            rw [requestError?_of_valid (not_not.mp hv), hparts, partsError?_read, hf,
              Option.map_some]
          rw [hexp _ herr]
          exact f.uploadError_blames

/-- The metadata of a message to one recipient. -/
def metadataPart : PartEvent :=
  .part {
    formName := "metadata"
    fileName := []
    contentType := "application/json"
    body := "\x7b\"externalId\":\"e\",\"recipient\":\"+1\",\"content\":\"x\"\x7d".toUTF8.toList
    json := some (.obj [("externalId", .str "e"), ("recipient", .str "+1"),
      ("content", .str "x")]) }

/-- The metadata, and one more part without a file name. -/
def uploadRequest (formName : String) : PostRequest where
  method := "POST"
  contentType := "multipart/form-data; boundary=xyz"
  reader := .ok [metadataPart, .part ⟨formName, [], "text/plain", [0x78], none⟩]

/-- The request is served, up to its second part. -/
def servedUpload (formName : String) : List ServerLabel :=
  [.serve (uploadRequest formName), .enqueue 0 (.lookup "u-1" false), .enqueue 0 (.next false),
    .answer 0 "" (.text "")]

/-- An attachment without a name is answered with a client error. -/
theorem unnamedFile_client_error :
    ∃ s e, RunOf (Server.step demoConfig) ServerHealthy Server.init (servedUpload "attachments") s ∧
      (s.exchanges.map Exchange.response) = [some (.failed e)] ∧ e.BlamesRequest := by
  have hr : RunOf (Server.step demoConfig) ServerHealthy Server.init
      (servedUpload "attachments") _ := runOf_of_execOf rfl
  exact ⟨_, _, hr, rfl, (malformed_client_error_iff (i := 0) hr rfl rfl rfl).mpr rfl⟩

/-- A part with a name that is not expected is answered with status 500. -/
theorem unexpectedPart_server_error :
    ∃ s e, RunOf (Server.step demoConfig) ServerHealthy Server.init (servedUpload "file") s ∧
      (uploadRequest "file").fault? demoConfig = some .unexpectedPart ∧
      (s.exchanges.map Exchange.response) = [some (.failed e)] ∧
      e = .attachmentUploadFailed "" ∧ e.code.status = 500 ∧ ¬ e.BlamesRequest :=
  ⟨_, _, runOf_of_execOf rfl, rfl, rfl, rfl, rfl, fun h => absurd h.1.2 (by decide)⟩

end Signalium
