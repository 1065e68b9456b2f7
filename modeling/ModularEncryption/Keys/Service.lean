import ModularEncryption.Frame
import ModularEncryption.Table

/-! # Key services

A key service keeps master keys and never gives them away: it wraps data keys under a master key,
encrypting them with the name of the master key as additional data, and unwraps them again. It
counts how often it is asked, and it may be out of order, in which case it reports one error for
whatever it is asked. -/

namespace ModularEncryption

/-- Master keys by their names. -/
abbrev MasterKeys := Table String AesKey

namespace MasterKeys

/-- The master keys with one more, given by its bytes. -/
def add (m : MasterKeys) (id : String) (bytes : Bytes) : Except Error MasterKeys :=
  (AesKey.ofBytes bytes).map (Table.insert m id)

/-- The cipher of a master key. -/
def cipher (m : MasterKeys) (id : String) : Except Error FrameCipher :=
  match Table.get? m id with
  | some key => .ok ⟨.gcm, key⟩
  | none => .error { cause := .masterKeyUnknown, context := [("master_key_id", id)] }

/-- The additional data of keys wrapped under a master key. -/
def aad (id : String) : Bytes := Text.Utf8.encode id

/-- A data key wrapped under a master key. -/
def wrap (m : MasterKeys) (key : Bytes) (id : String) : Drawing Bytes := do
  let cipher ← m.cipher id
  cipher.encrypt (aad id) key

/-- The data key that was wrapped under a master key. -/
def unwrap (m : MasterKeys) (wrappedKey : Bytes) (id : String) : Except Error Bytes := do
  let cipher ← m.cipher id
  (cipher.decrypt (aad id) wrappedKey).mapError (·.withContext "master_key_id" id)

/-- The listing of master keys, which shows their names. -/
def listing (m : MasterKeys) : Text.Listing :=
  .record "InMemoryKms" [.field "master_key_ids" (.sequence (m.keys.map .text))]

end MasterKeys

/-- A key service. -/
structure KeyService where
  masterKeys : MasterKeys := .empty
  /-- Whether the service offers to wrap keys itself. -/
  serverSide : Bool := true
  /-- What the service reports while it is out of order. -/
  outage : Option Error := none
  wraps : Nat := 0
  unwraps : Nat := 0
deriving DecidableEq

namespace KeyService

/-- What the service answers when it is asked to wrap a key. -/
def wrapped (s : KeyService) (key : Bytes) (id : String) : Drawing Bytes :=
  match s.outage with
  | some e => throw e
  | none => s.masterKeys.wrap key id

/-- What the service answers when it is asked to unwrap a key. -/
def unwrapped (s : KeyService) (wrappedKey : Bytes) (id : String) : Except Error Bytes :=
  match s.outage with
  | some e => .error e
  | none => s.masterKeys.unwrap wrappedKey id

/-- Asks the service to wrap a key. -/
def wrap (s : KeyService) (key : Bytes) (id : String) (entropy : Entropy) :
    Except Error Bytes × KeyService × Entropy :=
  let (answer, entropy) := s.wrapped key id entropy
  (answer, { s with wraps := s.wraps + 1 }, entropy)

/-- Asks the service to unwrap a key. -/
def unwrap (s : KeyService) (wrappedKey : Bytes) (id : String) :
    Except Error Bytes × KeyService :=
  (s.unwrapped wrappedKey id, { s with unwraps := s.unwraps + 1 })

end KeyService

end ModularEncryption
