import ModularEncryption.Error.Basic

/-! # Key material

A wrapped key and the name of the master key that wrapped it are kept together as one text: the
wrapped key in base64, a colon, and the name. Base64 has no colon, so the first one ends the wrapped
key, and the name may have colons of its own. -/

namespace ModularEncryption

/-- A wrapped key with the name of its master key. -/
structure KeyMaterial where
  wrappedKey : Bytes
  masterKeyId : String
deriving DecidableEq, Repr

namespace KeyMaterial

/-- ASCII characters given by their bytes. -/
def asciiChars (bs : Bytes) : List Char := bs.map fun b => Char.ofNat b.toNat

/-- The text of key material. -/
def serialize (m : KeyMaterial) : String :=
  String.ofList (asciiChars (Text.Base64.encode m.wrappedKey) ++ ':' :: m.masterKeyId.toList)

/-- The key material with a given text. -/
def parse (s : String) : Except Error KeyMaterial :=
  let (encoded, rest) := s.toList.span (· ≠ ':')
  match rest with
  | [] => .error { cause := .materialWithoutSeparator }
  | _ :: masterKeyId =>
    if encoded.isEmpty || masterKeyId.isEmpty then .error { cause := .materialPartEmpty }
    else
      match Text.Base64.decode (Text.Utf8.encode (String.ofList encoded)) with
      | .error fault => .error { cause := .materialNotBase64, sources := [.notBase64 fault] }
      | .ok wrappedKey => .ok ⟨wrappedKey, String.ofList masterKeyId⟩

end KeyMaterial

end ModularEncryption
