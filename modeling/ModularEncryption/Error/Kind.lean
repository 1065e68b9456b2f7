/-! # Kinds of errors

A caller decides by the kind of an error what to do about it: a key that is missing hides a column,
a module that fails its integrity check spoils the file. -/

namespace ModularEncryption

/-- What an error means to a caller. -/
inductive ErrorKind where
  /-- The object is not in the state that the operation needs. -/
  | preconditionFailed
  /-- A collaborator failed for no reason known here. -/
  | unexpected
  /-- The data read are malformed. -/
  | dataInvalid
  /-- Settings contradict each other, or a key has the wrong length. -/
  | configuration
  /-- A key cannot be found. -/
  | missingKey
  /-- What is said of a file or column now is not what was said of it before. -/
  | reuseMismatch
  /-- A column turns up that the first row group does not have. -/
  | unknownColumn
  /-- Nothing is kept under the given name. -/
  | notFound
  /-- A tag or signature is not the right one. -/
  | integrityFailure
  /-- The operation is not offered. -/
  | featureUnsupported
deriving DecidableEq, Repr

/-- The name of a kind. -/
def ErrorKind.name : ErrorKind → String
  | .preconditionFailed => "PreconditionFailed"
  | .unexpected => "Unexpected"
  | .dataInvalid => "DataInvalid"
  | .configuration => "Configuration"
  | .missingKey => "MissingKey"
  | .reuseMismatch => "ReuseMismatch"
  | .unknownColumn => "UnknownColumn"
  | .notFound => "NotFound"
  | .integrityFailure => "IntegrityFailure"
  | .featureUnsupported => "FeatureUnsupported"

namespace ErrorKind

/-- All kinds. -/
def all : List ErrorKind :=
  [.preconditionFailed, .unexpected, .dataInvalid, .configuration, .missingKey, .reuseMismatch,
   .unknownColumn, .notFound, .integrityFailure, .featureUnsupported]

/-- The kind with the given name. -/
def ofName? (s : String) : Option ErrorKind := all.find? (·.name = s)

/-- Whether a key source that fails in this way does not know the key. -/
def meansUnknownKey : ErrorKind → Bool
  | .missingKey | .notFound => true
  | _ => false

end ErrorKind

end ModularEncryption
