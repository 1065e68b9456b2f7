import ModularEncryption.Bytes
import ModularEncryption.Error.Cause
import ModularEncryption.Text.Base64
import ModularEncryption.Text.Utf8

/-! # Errors

An error has a cause, a context of named values that the operations it passed through added, and the
chain of the errors it came from, the nearest first. -/

namespace ModularEncryption

/-- An error in the chain behind another one. -/
inductive Origin where
  /-- An error of this library. -/
  | raised (cause : Cause) (context : List (String × String))
  /-- An error of which only the text is known. -/
  | text (s : String)
  /-- Bytes that are no UTF-8 text. -/
  | notUtf8 (bytes : Bytes) (fault : Text.Utf8.Fault)
  /-- Text that is not in base64. -/
  | notBase64 (fault : Text.Base64.Fault)
  /-- A tag that is not the right one. -/
  | wrongTag
deriving DecidableEq

/-- An error. -/
structure Error where
  cause : Cause
  context : List (String × String) := []
  sources : List Origin := []
deriving DecidableEq

namespace Error

/-- What the error means to a caller. -/
def kind (e : Error) : ErrorKind := e.cause.kind

/-- The error with a named value added to its context. -/
def withContext (e : Error) (name value : String) : Error :=
  { e with context := e.context ++ [(name, value)] }

/-- The error, come from another one. -/
def cameFrom (e source : Error) : Error :=
  { e with sources := .raised source.cause source.context :: source.sources }

/-- An error from outside the library. -/
def reported (kind : ErrorKind) (message : String) : Error := ⟨.reported kind message, [], []⟩

/-- The error for bytes that are no text. -/
def notUtf8 (bytes : Bytes) (fault : Text.Utf8.Fault) : Error :=
  ⟨.notUtf8, [], [.notUtf8 bytes fault]⟩

@[simp] theorem kind_withContext (e : Error) (name value : String) :
    (e.withContext name value).kind = e.kind := rfl

end Error

/-- What makes an operation end without a result: an error, or a point in time too late for the
clock. -/
inductive Failure where
  | error (e : Error)
  | clockOverflow
deriving DecidableEq

namespace Failure

/-- The failure with a named value added to the context of its error. -/
def withContext (f : Failure) (name value : String) : Failure :=
  match f with
  | .error e => .error (e.withContext name value)
  | .clockOverflow => .clockOverflow

/-- The wording of a time too late for the clock. -/
def clockMessage : String := "overflow when adding duration to instant"

end Failure

/-- What makes an operation end without having made an object with a table: an error, or a table
that is too large for memory. -/
inductive CreationFailure where
  | error (e : Error)
  | tableOverflow
deriving DecidableEq

end ModularEncryption
