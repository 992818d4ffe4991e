import Signalium.Service.Enqueue

/-!
# The errors on the wire

Each layer wraps the error of the layer below it.  What a client sees of the
chain is one Conjure error: `mapToConjureError` passes a chain through that has
one and puts one on top of any other chain, and `writeError` writes the first one
it meets from the outside.  So the outermost wrapping decides the code, whatever
the error inside says (`ServiceError.written_eq`).

`ServiceError.goError` is the chain an error of `Enqueue` stands for.
-/

namespace Signalium

/-! ## Conjure errors -/

/-- `errors.ErrorCode`, the codes in use. -/
inductive ErrorCode where
  | invalidArgument
  | notFound
  | conflict
  | internal
  | customServer
deriving DecidableEq, Repr

/-- The HTTP status of a code. -/
def ErrorCode.status : ErrorCode → Nat
  | .invalidArgument => 400
  | .notFound => 404
  | .conflict => 409
  | .internal => 500
  | .customServer => 500

/-- The errors of the API, and the one `conjerrors.NewInternal` makes. -/
inductive ConjureError where
  | attachmentUploadFailed (filename : String)
  | idempotencyConflict (idempotencyKey : String)
  | internalServiceError
  | invalidSignalMessage (field reason : String)
  | senderMismatch (configured requested : String)
  | signalCliUnavailable (host : String) (port : Int)
  | signalMessageNotFound (id : String)
  | newInternal
deriving DecidableEq, Repr

/-- The method `Code` of each type. -/
def ConjureError.code : ConjureError → ErrorCode
  | .attachmentUploadFailed _ => .customServer
  | .idempotencyConflict _ => .conflict
  | .internalServiceError => .internal
  | .invalidSignalMessage _ _ => .invalidArgument
  | .senderMismatch _ _ => .conflict
  | .signalCliUnavailable _ _ => .customServer
  | .signalMessageNotFound _ => .notFound
  | .newInternal => .internal

/-- The client is to blame. -/
def ConjureError.ClientError (e : ConjureError) : Prop := 400 ≤ e.code.status ∧ e.code.status < 500

instance (e : ConjureError) : Decidable e.ClientError := inferInstanceAs (Decidable (_ ∧ _))

/-! ## Chains of errors -/

/-- An error with what it wraps. -/
inductive GoError where
  /-- An error of a library, or one made from a text. -/
  | text (s : String)
  /-- `io.EOF`. -/
  | ioEOF
  /-- `domain.ErrNotFound`. -/
  | errNotFound
  /-- `domain.ErrIdempotencyConflict`. -/
  | errIdempotencyConflict
  /-- `werror.Wrap`. -/
  | wrap (msg : String) (cause : GoError)
  /-- A Conjure error around a cause. -/
  | conjure (e : ConjureError) (cause : GoError)
deriving DecidableEq, Repr

/-- `GetConjureError`, and `errors.As` into a Conjure error: the first one from the
outside. -/
def GoError.conjure? : GoError → Option ConjureError
  | .conjure e _ => some e
  | .wrap _ cause => cause.conjure?
  | _ => none

/-- `errors.Is`. -/
def GoError.is : GoError → GoError → Bool
  | .wrap _ cause, target => cause.is target
  | err, target => err = target

/-- The seven matchers of the first case of `mapToConjureError`. -/
def GoError.isApiError (err : GoError) : Bool :=
  match err.conjure? with
  | some .newInternal => false
  | some _ => true
  | none => false

/-- `mapToConjureError`. -/
def GoError.mapToConjureError (err : GoError) : GoError :=
  if err.isApiError then err
  else if err.is .errNotFound then .conjure (.signalMessageNotFound "") err
  else if err.is .errIdempotencyConflict then .conjure (.idempotencyConflict "") err
  else .conjure .internalServiceError (.wrap "internal service error" err)

/-- `writeError`: the error that is written. -/
def GoError.writeError (err : GoError) : ConjureError := err.conjure?.getD .newInternal

/-! ## The errors of `Enqueue` -/

/-- The chain of an error of `Enqueue`: `db` is the text of the database's error,
`below` is what `Next` or `Put` returned. -/
def ServiceError.goError (db : String) (below : GoError) : ServiceError → GoError
  | .invalid field reason =>
      .conjure (.invalidSignalMessage field reason) (.text "invalid signal message")
  | .senderMismatch configured requested =>
      .conjure (.senderMismatch configured requested)
        (.text "sender phone number does not match configured")
  | .attachmentUploadFailed filename =>
      .conjure (.attachmentUploadFailed filename) (.wrap "attachment upload failed" below)
  | .idempotencyLookup => .wrap "idempotency lookup" (.wrap "get by idempotency key" (.text db))
  | .insertSignalMessage _ _ => .wrap "insert signal message" (.text db)

/-- The error the handler writes for an error of `Enqueue`. -/
def ServiceError.written : ServiceError → ConjureError
  | .invalid field reason => .invalidSignalMessage field reason
  | .senderMismatch configured requested => .senderMismatch configured requested
  | .attachmentUploadFailed filename => .attachmentUploadFailed filename
  | .idempotencyLookup => .internalServiceError
  | .insertSignalMessage _ _ => .internalServiceError

/-- What is below the outermost error does not reach the wire. -/
theorem ServiceError.written_eq (db : String) (below : GoError) (e : ServiceError) :
    (e.goError db below).mapToConjureError.writeError = e.written := by
  cases e <;> rfl

/-- No error of `Enqueue` is written as a conflict of idempotency keys. -/
theorem ServiceError.written_ne_conflict (e : ServiceError) (key : String) :
    e.written ≠ .idempotencyConflict key := by
  cases e <;> exact nofun

end Signalium
