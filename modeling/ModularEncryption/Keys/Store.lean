import ModularEncryption.Error.Basic
import ModularEncryption.Table

/-! # Stores of key material

A store keeps key material outside the files, for each file under short names. It too may be out of
order. -/

namespace ModularEncryption

/-- A store of key material, by file and name. -/
structure KeyStore where
  materials : Table (String × String) String := .empty
  /-- What the store reports while it is out of order. -/
  outage : Option Error := none
deriving DecidableEq

namespace KeyStore

/-- The number of entries of all files. -/
def size (s : KeyStore) : Nat := s.materials.size

/-- The store with material kept under a name; it replaces what was kept there. -/
def put (s : KeyStore) (material fileId name : String) : Except Error KeyStore :=
  match s.outage with
  | some e => .error e
  | none => .ok { s with materials := s.materials.insert (fileId, name) material }

/-- The material kept under a name. -/
def fetch (s : KeyStore) (fileId name : String) : Except Error String :=
  match s.outage with
  | some e => .error e
  | none =>
    match s.materials.get? (fileId, name) with
    | some material => .ok material
    | none =>
      .error { cause := .nothingStored, context := [("file_id", fileId), ("key_name", name)] }

end KeyStore

end ModularEncryption
