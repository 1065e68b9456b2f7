import ModularEncryption.Session.Basic

/-! # Keys in a session

Managers work with the service and the store that they were made with, and retrievers ask the
managers or tables behind them. `query` is how all questions of readers are answered: the retriever
counts the question, reports that it is out of order if it is, and else looks the key up. -/

namespace ModularEncryption.Session

variable {α : Type}

/-! ### Caches -/

/-- Makes a cache. -/
def newCache (name : String) (lifetime : Duration) (capacity : Nat) : Acting Unit := do
  let cache ← ofCreation (KeyCache.create (← get).tableLimit lifetime capacity)
  make .caches name cache

/-- Looks a key up in a cache. -/
def cacheGet (name : String) (metadata : Bytes) : Acting (Option AesKey) := do
  let now ← time
  step .caches name (·.get now metadata)

/-- Puts a key, given by its bytes, into a cache. -/
def cacheInsert (name : String) (metadata key : Bytes) : Acting Unit := do
  let (i, cache) ← find .caches name
  let key ← ofError (AesKey.ofBytes key)
  let cache ← ofFailure (cache.insert (← time) metadata key)
  replace .caches i cache

/-- Drops what has expired from a cache. -/
def cacheEvict (name : String) : Acting Unit := do
  let now ← time
  change .caches name (·.evictExpired now)

/-! ### Services and stores -/

/-- Makes a key service, perhaps with a first master key. -/
def newService (name : String) (master : Option (String × Bytes)) (serverSide : Bool) :
    Acting Unit := do
  let masterKeys ←
    match master with
    | some (id, bytes) => ofError (MasterKeys.add .empty id bytes)
    | none => pure .empty
  make .services name { masterKeys, serverSide }

/-- Adds a master key to a service. -/
def addMasterKey (name id : String) (bytes : Bytes) : Acting Unit := do
  let (i, service) ← find .services name
  let masterKeys ← ofError (service.masterKeys.add id bytes)
  replace .services i { service with masterKeys }

/-- Asks a service to wrap a key. -/
def wrapKey (name : String) (key : Bytes) (id : String) : Acting Bytes := do
  let (i, service) ← find .services name
  let (answer, service, entropy) := service.wrap key id (← get).entropy
  modify fun s => { s with entropy }
  replace .services i service
  ofError answer

/-- Asks a service to unwrap a key. -/
def unwrapKey (name : String) (wrappedKey : Bytes) (id : String) : Acting Bytes := do
  let answer ← step .services name (·.unwrap wrappedKey id)
  ofError answer

/-- Puts material into a store. -/
def storePut (name material fileId keyName : String) : Acting KeyStore := do
  let (i, store) ← find .stores name
  let store ← ofError (store.put material fileId keyName)
  replace .stores i store
  return store

/-! ### Managers -/

/-- Makes a manager for a service and perhaps a store. -/
def newManager (name service : String) (store : Option String) (fileId : Option String)
    (settings : Settings) : Acting Unit := do
  let (servicePlace, service) ← find .services service
  let storePlace ← store.mapM (place .stores)
  let manager ← ofCreation
    (KeyManager.create (← get).tableLimit settings service.serverSide storePlace.isSome fileId)
  make .managers name ⟨manager, servicePlace, storePlace⟩

/-- The custody of the manager in a place; a manager without a store never looks into one. -/
def custody? (s : Session) (i : Nat) : Option (ManagerEntry × Custody) := do
  let entry ← s.managers.get? i
  let service ← s.services.get? entry.service
  let store ←
    match entry.store with
    | some place => s.stores.get? place
    | none => some {}
  return (entry, { manager := entry.manager, service, store, entropy := s.entropy, now := s.now })

/-- The session with what became of a custody. -/
def withCustody (s : Session) (i : Nat) (entry : ManagerEntry) (c : Custody) : Session :=
  { s with
    managers := s.managers.set i { entry with manager := c.manager }
    services := s.services.set entry.service c.service
    stores :=
      match entry.store with
      | some place => s.stores.set place c.store
      | none => s.stores
    entropy := c.entropy }

/-- Lets the manager in a place take a step together with all that it calls on. -/
def onCustody (i : Nat) (f : Custody → α × Custody) : StateM Session (Option α) := do
  let s ← get
  match s.custody? i with
  | none => return none
  | some (entry, c) =>
    let (a, c) := f c
    set (s.withCustody i entry c)
    return some a

/-- Has a manager generate a data key. -/
def generateKey (name masterKeyId : String) : Acting DataKey := do
  let i ← place .managers name
  match ← (onCustody i (·.generateKey masterKeyId) : StateM Session _) with
  | some answer => ofError answer
  | none => throw (.unknownName name)

/-- Changes the cache of a manager. -/
def changeCache (name : String) (f : Instant → KeyCache → KeyCache) : Acting Unit := do
  let now ← time
  change .managers name fun entry =>
    { entry with manager := { entry.manager with cache := f now entry.manager.cache } }

/-! ### Retrievers -/

/-- Makes a retriever over a table of names. -/
def newNamedRetriever (name : String) (keys : List (String × Bytes)) : Acting Unit :=
  make .retrievers name { source := .named (Table.ofList keys) }

/-- Makes a retriever that goes by way of a manager. -/
def newManagedRetriever (name manager : String) : Acting Unit := do
  let i ← place .managers manager
  make .retrievers name { source := .managed i }

/-- Puts a key into the table of a retriever. -/
def putNamedKey (name id : String) (bytes : Bytes) : Acting Unit :=
  change .retrievers name fun r =>
    match r.source with
    | .named keys => { r with source := .named (Table.insert keys id bytes) }
    | .managed _ => r

/-- What a source of keys answers; one that leads nowhere knows no key. -/
def lookUp (source : KeySource) (metadata : Bytes) : StateM Session KeyAnswer := do
  match source with
  | .named keys => return (keys.retrieve metadata).mapError .error
  | .managed manager =>
    match ← onCustody manager (·.retrieveKey metadata) with
    | some answer => return answer
    | none => return .error (.error { cause := .keyIdUnknown })

/-- What a retriever answers. -/
def query (ref : RetrieverRef) (metadata : Bytes) : StateM Session KeyAnswer := do
  let s ← get
  match s.retrievers.get? ref.index with
  | none => return .error (.error { cause := .keyIdUnknown })
  | some r =>
    set { s with retrievers := s.retrievers.set ref.index { r with calls := r.calls + 1 } }
    match r.outage with
    | some e => return .error (.error e)
    | none => lookUp r.source metadata

/-- Runs a step that may ask a retriever. -/
def answering (a : Asking α) : StateM Session α := do
  match a with
  | .done result => return result
  | .ask retriever metadata resume => return resume (← query retriever metadata)

/-- Asks a retriever for a key. -/
def retrieve (name : String) (metadata : Bytes) : Acting Bytes := do
  let i ← place .retrievers name
  let answer ← (query ⟨i⟩ metadata : StateM Session _)
  ofFailure answer

/-- Makes a lookup of prefixes: a table, or an error for whatever it is asked. -/
def newPrefixLookup (name : String) (entries : List (Bytes × Bytes)) (outage : Option Error) :
    Acting Unit :=
  let table : Table Bytes Bytes := .ofList entries
  make .prefixLookups name fun metadata =>
    match outage with
    | some e => .error e
    | none =>
      match table.get? metadata with
      | some bytes => .ok bytes
      | none => .error (Error.reported .notFound "AAD prefix not found")

end ModularEncryption.Session
