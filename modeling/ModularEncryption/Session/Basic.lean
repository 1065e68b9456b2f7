import ModularEncryption.Keys.Manager
import ModularEncryption.Keys.NamedKeys
import ModularEncryption.Read.File
import ModularEncryption.Session.Shelf
import ModularEncryption.Write.File

/-! # Sessions

In a session the objects of this library work together: key services, stores, managers and
retrievers refer to each other, and writers and readers of files to them. A session has one clock
and one stream of random bytes. The sorts of objects stand on shelves of their own, and a name finds
one in the catalogue of its sort (`Catalogue`).

A step of a session (`Acting`) ends early if an operation fails or a name leads nowhere; what it
changed before stays changed. -/

namespace ModularEncryption

/-- Where a retriever finds keys. -/
inductive KeySource where
  /-- In a table of names. -/
  | named (keys : NamedKeys)
  /-- By way of the manager in a place. -/
  | managed (manager : Nat)
deriving DecidableEq

/-- A retriever, which counts how often it is asked and may be out of order. -/
structure KeyRetriever where
  source : KeySource
  /-- What the retriever reports while it is out of order. -/
  outage : Option Error := none
  calls : Nat := 0
deriving DecidableEq

/-- A manager with the places of the service and the store that it calls on. -/
structure ManagerEntry where
  manager : KeyManager
  service : Nat
  store : Option Nat

/-- The objects of a session. -/
structure Session where
  entropy : Entropy
  now : Instant
  /-- The most entries that memory allows the table of a cache to have. -/
  tableLimit : Nat
  caches : Shelf KeyCache := {}
  services : Shelf KeyService := {}
  stores : Shelf KeyStore := {}
  managers : Shelf ManagerEntry := {}
  retrievers : Shelf KeyRetriever := {}
  prefixLookups : Shelf PrefixLookup := {}
  writeSettings : Shelf WriteSettings := {}
  writers : Shelf FileWriter := {}
  readSettings : Shelf ReadSettings := {}
  readers : Shelf FileReader := {}

/-- Why a step of a session ends early. -/
inductive Stop where
  | failed (f : Failure)
  /-- A table is too large for memory. -/
  | tableOverflow
  /-- A name leads nowhere. -/
  | unknownName (name : String)
deriving DecidableEq

/-- A step of a session. -/
abbrev Acting := ExceptT Stop (StateM Session)

namespace Session

/-- The time at which a session begins. -/
def startTime : Instant := 1000000 * second

/-- The session at its beginning, with its stream of random bytes and the memory that tables may
take. -/
def start (stream : Nat → UInt8) (tableLimit : Nat) : Session :=
  { entropy := ⟨stream, 0⟩, now := startTime, tableLimit }

/-! ### Objects by name -/

/-- One sort of objects, and the shelf where they stand. -/
structure Catalogue (α : Type) where
  shelf : Session → Shelf α
  withShelf : Shelf α → Session → Session

namespace Catalogue

/-- Caches of keys. -/
def caches : Catalogue KeyCache := ⟨(·.caches), fun x s => { s with caches := x }⟩

/-- Key services. -/
def services : Catalogue KeyService := ⟨(·.services), fun x s => { s with services := x }⟩

/-- Stores of key material. -/
def stores : Catalogue KeyStore := ⟨(·.stores), fun x s => { s with stores := x }⟩

/-- Managers of data keys. -/
def managers : Catalogue ManagerEntry := ⟨(·.managers), fun x s => { s with managers := x }⟩

/-- Key retrievers. -/
def retrievers : Catalogue KeyRetriever := ⟨(·.retrievers), fun x s => { s with retrievers := x }⟩

/-- Lookups of prefixes. -/
def prefixLookups : Catalogue PrefixLookup :=
  ⟨(·.prefixLookups), fun x s => { s with prefixLookups := x }⟩

/-- Settings of writers. -/
def writeSettings : Catalogue WriteSettings :=
  ⟨(·.writeSettings), fun x s => { s with writeSettings := x }⟩

/-- Writers of files. -/
def writers : Catalogue FileWriter := ⟨(·.writers), fun x s => { s with writers := x }⟩

/-- Settings of readers. -/
def readSettings : Catalogue ReadSettings :=
  ⟨(·.readSettings), fun x s => { s with readSettings := x }⟩

/-- Readers of files. -/
def readers : Catalogue FileReader := ⟨(·.readers), fun x s => { s with readers := x }⟩

end Catalogue

variable {α β : Type}

/-- A result that may be a failure. -/
def ofFailure : Except Failure α → Acting α
  | .ok a => pure a
  | .error f => throw (.failed f)

/-- A result that may be an error. -/
def ofError (r : Except Error α) : Acting α := ofFailure (r.mapError .error)

/-- An object, if it is made. -/
def ofCreation : Except CreationFailure α → Acting α
  | .ok a => pure a
  | .error (.error e) => throw (.failed (.error e))
  | .error .tableOverflow => throw .tableOverflow

/-- The place that a name leads to. -/
def place (p : Catalogue α) (name : String) : Acting Nat := do
  match (p.shelf (← get)).place? name with
  | some i => return i
  | none => throw (.unknownName name)

/-- Makes an object under a name. -/
def make (p : Catalogue α) (name : String) (a : α) : Acting Unit :=
  modify fun s => p.withShelf ((p.shelf s).put name a) s

/-- Exchanges the object in a place. -/
def replace (p : Catalogue α) (i : Nat) (a : α) : Acting Unit :=
  modify fun s => p.withShelf ((p.shelf s).set i a) s

/-- The object with a name, and its place. -/
def find (p : Catalogue α) (name : String) : Acting (Nat × α) := do
  let i ← place p name
  match (p.shelf (← get)).get? i with
  | some a => return (i, a)
  | none => throw (.unknownName name)

/-- The object with a name. -/
def look (p : Catalogue α) (name : String) : Acting α := return (← find p name).2

/-- Changes the object with a name. -/
def change (p : Catalogue α) (name : String) (f : α → α) : Acting Unit := do
  let (i, a) ← find p name
  replace p i (f a)

/-- Lets the object with a name take a step of its own. -/
def step (p : Catalogue α) (name : String) (f : α → β × α) : Acting β := do
  let (i, a) ← find p name
  let (b, a) := f a
  replace p i a
  return b

/-! ### Random bytes and time -/

/-- Runs an operation that draws random bytes. -/
def drawing (d : Drawing α) : Acting α := do
  let (r, entropy) := d (← get).entropy
  modify fun s => { s with entropy }
  ofError r

/-- The time. -/
def time : Acting Instant := return (← get).now

/-- Lets time pass. -/
def pass (d : Duration) : Acting Unit := modify fun s => { s with now := s.now + d }

end Session

end ModularEncryption
