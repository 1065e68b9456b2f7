import ModularEncryption.Keys.Cache
import ModularEncryption.Keys.Material
import ModularEncryption.Keys.Service
import ModularEncryption.Keys.Store
import ModularEncryption.Settings
import ModularEncryption.Text.Shown

/-! # Key managers

A manager generates data keys and has a key service wrap them. The key material either goes into a
store, under the names `k0`, `k1`, … of the manager's file, and the name is the metadata of the key;
or the material itself is the metadata. From the metadata the key is recovered by having the service
unwrap it again, and it is then kept in the manager's cache for a while.

`Custody` is a manager together with all that it calls on; its operations change these as they go,
and what they changed stays changed when they fail. -/

namespace ModularEncryption

/-- Where key material is kept. -/
inductive Placement where
  /-- In the metadata; the manager may still have been told about a file. -/
  | inMetadata (fileId : Option String)
  /-- In a store, under names of the file. -/
  | inStore (fileId : String)
deriving DecidableEq, Repr

/-- The file that a manager was told about. -/
def Placement.fileId? : Placement → Option String
  | .inMetadata fileId => fileId
  | .inStore fileId => some fileId

/-- A data key and the metadata from which it can be recovered. -/
structure DataKey where
  key : AesKey
  metadata : Bytes
deriving DecidableEq

/-- A manager of data keys. -/
structure KeyManager where
  wrapLocally : Bool
  placement : Placement
  dataKeyLength : Nat
  cache : KeyCache
  /-- The number of keys in the store that this manager generated. -/
  counter : Nat := 0

namespace KeyManager

/-- Where the material of a manager's keys is kept; a store needs a file. -/
def placementOf : (hasStore : Bool) → (fileId : Option String) → Except Error Placement
  | false, fileId => .ok (.inMetadata fileId)
  | true, some id => .ok (.inStore id)
  | true, none => .error { cause := .storeWithoutFileId }

/-- The manager for the given settings, if they can be met: a service that wraps keys itself, a file
for the store, room in the cache, and memory for its table. -/
def create (tableLimit : Nat) (settings : Settings) (serverSide hasStore : Bool)
    (fileId : Option String) : Except CreationFailure KeyManager := do
  (refuseIf (settings.wrapLocally = false ∧ serverSide = false)
    .serverSideWrappingUnsupported).mapError .error
  let placement ← (placementOf hasStore fileId).mapError .error
  let cache ← KeyCache.create tableLimit settings.keyCacheLifetime settings.keyCacheCapacity
  return { wrapLocally := settings.wrapLocally
           placement
           dataKeyLength := settings.dataKeyLength
           cache }

/-- The name of the next key in the store. -/
def nextName (m : KeyManager) : String := s!"k{m.counter}"

/-- The listing of a manager. -/
def listing (m : KeyManager) : Text.Listing :=
  let hasStore := match m.placement with
    | .inStore _ => true
    | .inMetadata _ => false
  .record "WrappedKeyManager" [.field "wrap_locally" (.bool m.wrapLocally),
    .field "has_key_store" (.bool hasStore),
    .field "file_id" (.option .text m.placement.fileId?),
    .field "data_key_length" (.nat m.dataKeyLength), .field "key_counter" (.nat m.counter)]

end KeyManager

/-- A manager with all that it calls on. -/
structure Custody where
  manager : KeyManager
  service : KeyService
  store : KeyStore
  entropy : Entropy
  now : Instant

namespace Custody

/-! ### Generating keys -/

/-- Puts the material of a new key where it belongs. -/
def place (c : Custody) (key : AesKey) (material : String) : Except Error DataKey × Custody :=
  match c.manager.placement with
  | .inMetadata _ => (.ok ⟨key, Text.Utf8.encode material⟩, c)
  | .inStore fileId =>
    let name := c.manager.nextName
    match c.store.put material fileId name with
    | .error e => (.error e, c)
    | .ok store =>
      (.ok ⟨key, Text.Utf8.encode name⟩,
        { c with store, manager := { c.manager with counter := c.manager.counter + 1 } })

/-- Generates a data key, wrapped under a master key. -/
def generateKey (c : Custody) (masterKeyId : String) : Except Error DataKey × Custody :=
  if c.manager.wrapLocally then (.error { cause := .localWrappingUnsupported }, c)
  else
    match AesKey.generate c.manager.dataKeyLength c.entropy with
    | (.error e, entropy) => (.error e, { c with entropy })
    | (.ok key, entropy) =>
      match c.service.wrap key.bytes masterKeyId entropy with
      | (.error e, service, entropy) =>
        (.error (e.withContext "master_key_id" masterKeyId), { c with service, entropy })
      | (.ok wrappedKey, service, entropy) =>
        { c with service, entropy }.place key (KeyMaterial.serialize ⟨wrappedKey, masterKeyId⟩)

/-! ### Recovering keys -/

/-- The material that metadata stand for. -/
def material (c : Custody) (metadata : Bytes) : Except Error KeyMaterial := do
  match Text.Utf8.decode metadata with
  | .error fault => throw (Error.notUtf8 metadata fault)
  | .ok text =>
    match c.manager.placement with
    | .inMetadata _ => KeyMaterial.parse text
    | .inStore fileId =>
      let stored ← c.store.fetch fileId text
      KeyMaterial.parse stored

/-- Has the service unwrap a key, and keeps it in the cache. -/
def unwrap (c : Custody) (metadata : Bytes) (m : KeyMaterial) :
    Except Failure Bytes × Custody :=
  match c.service.unwrap m.wrappedKey m.masterKeyId with
  | (.error e, service) => (.error (.error e), { c with service })
  | (.ok bytes, service) =>
    match AesKey.ofBytes bytes with
    | .error e => (.error (.error e), { c with service })
    | .ok key =>
      match c.manager.cache.insert c.now metadata key with
      | .error f => (.error f, { c with service })
      | .ok cache => (.ok key.bytes, { c with service, manager := { c.manager with cache } })

/-- Recovers the key of metadata: from the cache, or from the service. -/
def retrieveKey (c : Custody) (metadata : Bytes) : Except Failure Bytes × Custody :=
  match c.manager.cache.get c.now metadata with
  | (some key, cache) => (.ok key.bytes, { c with manager := { c.manager with cache } })
  | (none, cache) =>
    let c := { c with manager := { c.manager with cache } }
    if c.manager.wrapLocally then (.error (.error { cause := .localWrappingUnsupported }), c)
    else
      match c.material metadata with
      | .error e =>
        (.error (.error (e.withContext "key_metadata" (Text.shown metadata))), c)
      | .ok m => c.unwrap metadata m

end Custody

end ModularEncryption
