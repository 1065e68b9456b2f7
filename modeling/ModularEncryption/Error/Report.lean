import ModularEncryption.Error.Basic
import ModularEncryption.Text.Listing

/-! # Reports of errors

An error is shown in three ways: on one line (`Error.display`), with its context and the whole chain
of its sources on lines of their own (`Error.report`), and as a listing of its parts
(`Error.listing`). -/

namespace ModularEncryption

/-- Kind, context and message of an error on one line. -/
def headline (cause : Cause) (context : List (String × String)) : String :=
  let pairs := context.map fun (name, value) => name ++ ": " ++ value
  cause.kind.name ++
    (if context.isEmpty then ""
      else ", context: \x7b " ++ String.intercalate ", " pairs ++ " \x7d") ++
    (if cause.message.isEmpty then "" else " => " ++ cause.message)

namespace Origin

/-- A chain of errors on one line; an error of this library tells where it came from itself. -/
def display : List Origin → String
  | [] => ""
  | .raised cause context :: [] => headline cause context
  | .raised cause context :: rest => headline cause context ++ ", source: " ++ display rest
  | .text s :: _ => s
  | .notUtf8 _ fault :: _ => fault.message
  | .notBase64 fault :: _ => fault.message
  | .wrongTag :: _ => "aead::Error"

/-- The lines of each error of a chain, each with what it came from. -/
def displays : List Origin → List String
  | [] => []
  | o :: rest => display (o :: rest) :: displays rest

/-- The listing of a fault of a text, with its place and, unless the text is cut off, its length. -/
def utf8Listing (bytes : Bytes) (fault : Text.Utf8.Fault) : Text.Listing :=
  let (offset, length) : Nat × Option Nat :=
    match fault with
    | .invalid length offset => (offset, some length)
    | .incomplete offset => (offset, none)
  .record "FromUtf8Error" [.field "bytes" (.bytes bytes),
    .field "error" (.record "Utf8Error" [.field "valid_up_to" (.nat offset),
      .field "error_len" (.option .nat length)])]

/-- The listing of a fault of a base64 text. -/
def base64Listing : Text.Base64.Fault → Text.Listing
  | .invalidSymbol byte offset => .variant "InvalidByte" [.nat offset, .nat byte.toNat]
  | .invalidLength length => .variant "InvalidLength" [.nat length]
  | .invalidLastSymbol byte offset => .variant "InvalidLastSymbol" [.nat offset, .nat byte.toNat]
  | .invalidPadding => .word "InvalidPadding"

/-- The listing of the parts of an error, given that of its source. -/
def partsListing (cause : Cause) (context : List (String × String))
    (source : Option Text.Listing) : Text.Listing :=
  .record "Error" [.field "kind" (.word cause.kind.name), .field "message" (.text cause.message),
    .field "context" (.sequence (context.map fun (name, value) =>
      .variant "" [.text name, .text value])),
    .field "source" (.option id source), .field "backtrace" (.word "<disabled>")]

/-- The listing of a text with the listing of what it came from, if it came from anything. -/
def textListing (s : String) : Option Text.Listing → Text.Listing
  | none => .text s
  | some source => .record "Error" [.field "context" (.running s), .field "source" source]

/-- The listing of a chain of errors. -/
def listing : List Origin → Option Text.Listing
  | [] => none
  | .raised cause context :: rest => some (partsListing cause context (listing rest))
  | .text s :: rest => some (textListing s (listing rest))
  | .notUtf8 bytes fault :: _ => some (utf8Listing bytes fault)
  | .notBase64 fault :: _ => some (base64Listing fault)
  | .wrongTag :: _ => some (.word "Error")

end Origin

namespace Error

/-- The wording of an error. -/
def message (e : Error) : String := e.cause.message

/-- The error with its sources on one line. -/
def display (e : Error) : String := Origin.display (.raised e.cause e.context :: e.sources)

/-- The direct source on one line. -/
def sourceDisplay? (e : Error) : Option String :=
  if e.sources.isEmpty then none else some (Origin.display e.sources)

/-- The error with its context and the chain of its sources, each on lines of their own. -/
def report (e : Error) : String :=
  e.kind.name ++ (if e.message.isEmpty then "" else " => " ++ e.message) ++ "\n" ++
    (if e.context.isEmpty then ""
      else "\nContext:\n" ++
        String.join (e.context.map fun (name, value) => "   " ++ name ++ ": " ++ value ++ "\n")) ++
    (if e.sources.isEmpty then ""
      else "\nSource: " ++ String.intercalate ": " (Origin.displays e.sources) ++ "\n")

/-- The listing of the parts of an error. -/
def listing (e : Error) : Text.Listing :=
  Origin.partsListing e.cause e.context (Origin.listing e.sources)

end Error

end ModularEncryption
