import ModularEncryption.AesKey
import ModularEncryption.ColumnPath
import ModularEncryption.Error.Refusal

/-! # How a column is written

A column is left in plaintext, encrypted with the key of the footer, or encrypted with a key of its
own, for which metadata may tell readers where to find it. A writer says so by a sequence of choices
(`ColumnChoice`); a draft (`ColumnDraft`) takes them in and looks at them when it is built: a value
given twice, or values that contradict each other, are refused.

Every refusal is a configuration error (`ColumnDraft.kind_of_build_eq_error`). -/

namespace ModularEncryption

/-- What protects a column. -/
inductive ColumnProtection where
  | plaintext
  | footerKey
  | ownKey (key : AesKey) (metadata : Option Bytes)
deriving DecidableEq

/-- How a column is written. -/
structure ColumnSettings where
  path : ColumnPath
  protection : ColumnProtection
deriving DecidableEq

namespace ColumnSettings

/-- Whether the column is encrypted. -/
def encrypted (c : ColumnSettings) : Bool :=
  match c.protection with
  | .plaintext => false
  | _ => true

/-- Whether the column is encrypted with the key of the footer. -/
def usesFooterKey (c : ColumnSettings) : Bool :=
  match c.protection with
  | .footerKey => true
  | _ => false

/-- The column's own key. -/
def key? (c : ColumnSettings) : Option AesKey :=
  match c.protection with
  | .ownKey key _ => some key
  | _ => none

/-- The metadata of the column's own key. -/
def keyMetadata? (c : ColumnSettings) : Option Bytes :=
  match c.protection with
  | .ownKey _ metadata => metadata
  | _ => none

/-- The listing of a column's settings. -/
def listing (c : ColumnSettings) : Text.Listing :=
  .record "ColumnEncryptionProperties" [.field "path" c.path.listing,
    .field "encrypted" (.bool c.encrypted), .field "key" (.option AesKey.listing c.key?),
    .field "key_metadata" (.option .bytes c.keyMetadata?)]

end ColumnSettings

/-! ### Drafts -/

/-- The value given first, and the contradiction if there was one already. -/
def setOnce {α : Type} (slot : Option α) (value : α) (what : OnceOnly)
    (conflicts : List Conflict) : Option α × List Conflict :=
  match slot with
  | none => (some value, conflicts)
  | some first => (some first, conflicts ++ [.value what])

/-- Refuses for the first of the contradictions met. -/
def refuseFirst (conflicts : List Conflict) (context : List (String × String)) :
    Except Error Unit :=
  match conflicts with
  | [] => .ok ()
  | c :: _ => .error { cause := .conflict c, context }

/-- A key that was given, if its length is valid. -/
def checkKey (role : KeyRole) : Option Bytes → Except Error (Option AesKey) :=
  AesKey.ofOption fun length e => Error.cameFrom { cause := .givenKeyLength role length } e

/-- What may be said about how a column is written. -/
inductive ColumnChoice where
  | encrypted (b : Bool)
  | key (bytes : Bytes)
  | keyMetadata (bytes : Bytes)
  | keyId (id : String)
deriving DecidableEq

/-- What has been said about how a column is written. -/
structure ColumnDraft where
  path : ColumnPath
  encrypted : Bool := true
  key : Option Bytes := none
  keyMetadata : Option Bytes := none
  conflicts : List Conflict := []
deriving DecidableEq

namespace ColumnDraft

/-- The draft with metadata for the key. -/
def withKeyMetadata (d : ColumnDraft) (bytes : Bytes) : ColumnDraft :=
  let (keyMetadata, conflicts) := setOnce d.keyMetadata bytes .columnKeyMetadata d.conflicts
  { d with keyMetadata, conflicts }

/-- The draft with one more choice. -/
def choose (d : ColumnDraft) : ColumnChoice → ColumnDraft
  | .encrypted b => { d with encrypted := b }
  | .key bytes =>
    let (key, conflicts) := setOnce d.key bytes .columnKey d.conflicts
    { d with key, conflicts }
  | .keyMetadata bytes => d.withKeyMetadata bytes
  | .keyId id => d.withKeyMetadata (Text.Utf8.encode id)

/-- The draft of a column after a sequence of choices. -/
def ofChoices (path : ColumnPath) (choices : List ColumnChoice) : ColumnDraft :=
  choices.foldl choose { path }

/-- The protection that the choices amount to. -/
def protection (d : ColumnDraft) (key : Option AesKey) : ColumnProtection :=
  if d.encrypted then
    match key with
    | some k => .ownKey k d.keyMetadata
    | none => .footerKey
  else .plaintext

/-- The settings that the choices amount to, if nothing is wrong with any of them. -/
def build (d : ColumnDraft) : Except Error ColumnSettings := do
  let column := d.path.toDotted
  refuseFirst d.conflicts [("column", column)]
  refuseIf (d.encrypted = false ∧ d.key.isSome) (.keyOnPlaintextColumn d.path)
  refuseIf (d.encrypted = false ∧ d.keyMetadata.isSome) (.metadataOnPlaintextColumn d.path)
  refuseIf (d.key.isNone ∧ d.keyMetadata.isSome) (.metadataWithoutColumnKey d.path)
  let key ← (checkKey .column d.key).mapError (·.withContext "column" column)
  return ⟨d.path, d.protection key⟩

/-- The listing of a draft, in which the bytes of a key still stand. -/
def listing (d : ColumnDraft) : Text.Listing :=
  .record "ColumnEncryptionPropertiesBuilder" [.field "path" d.path.listing,
    .field "encrypted" (.bool d.encrypted), .field "key" (.option .bytes d.key),
    .field "key_metadata" (.option .bytes d.keyMetadata),
    .field "conflicts" (.sequence (d.conflicts.map fun c => .text c.message))]

end ColumnDraft

theorem kind_of_refuseFirst_eq_error {conflicts : List Conflict}
    {context : List (String × String)} {e : Error}
    (h : refuseFirst conflicts context = .error e) : e.kind = .configuration := by
  cases conflicts with
  | nil => cases h
  | cons c cs => cases h; rfl

theorem kind_of_checkKey_eq_error {role : KeyRole} {key : Option Bytes} {e : Error}
    (h : checkKey role key = .error e) : e.kind = .configuration :=
  AesKey.kind_of_ofOption_eq_error (fun _ _ _ => rfl) h

/-- A draft that is refused is badly configured. -/
theorem ColumnDraft.kind_of_build_eq_error {d : ColumnDraft} {e : Error}
    (h : d.build = .error e) : e.kind = .configuration := by
  simp only [build, bind_eq_error_iff, refuseIf_eq_error_iff, mapError_eq_error_iff] at h
  rcases h with h | ⟨_, _, ⟨_, rfl⟩ | ⟨_, _, ⟨_, rfl⟩ | ⟨_, _, ⟨_, rfl⟩ | ⟨_, _, h | ⟨_, _, h⟩⟩⟩⟩⟩
  · exact kind_of_refuseFirst_eq_error h
  · rfl
  · rfl
  · rfl
  · obtain ⟨e', he, rfl⟩ := h
    rw [Error.kind_withContext]
    exact kind_of_checkKey_eq_error he
  · cases h

end ModularEncryption
