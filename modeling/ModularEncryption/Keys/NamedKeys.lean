import ModularEncryption.AesKey
import ModularEncryption.Table

/-! # Keys by name

The simplest source of keys is a table of names: the metadata of a key are the name, in UTF-8. -/

namespace ModularEncryption

/-- Bytes of keys, by name. -/
abbrev NamedKeys := Table String Bytes

namespace NamedKeys

/-- The bytes of the key that metadata name. -/
def retrieve (t : NamedKeys) (metadata : Bytes) : Except Error Bytes :=
  match Text.Utf8.decode metadata with
  | .error fault => .error { cause := .keyIdNotText, sources := [.notUtf8 metadata fault] }
  | .ok name =>
    match Table.get? t name with
    | some bytes => .ok bytes
    | none => .error { cause := .keyIdUnknown, context := [("key_id", name)] }

/-- The listing of keys by name, which shows the names. -/
def listing (t : NamedKeys) : Text.Listing :=
  .record "StringKeyIdRetriever" [.field "key_ids" (.sequence (t.keys.map .text))]

end NamedKeys

end ModularEncryption
