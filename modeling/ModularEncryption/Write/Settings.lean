import ModularEncryption.CipherSuite
import ModularEncryption.Settings
import ModularEncryption.Write.Column

/-! # How a file is written

The settings of a writer say how the footer is protected, which columns are treated in which way,
and what happens to the rest. They are drafted by a sequence of choices (`WriteChoice`) and looked
at as a whole when the draft is built: `WriteDraft.check` finds the first thing wrong, and only a
draft without fault draws the bytes that make the file unique. -/

namespace ModularEncryption

/-- What protects the footer of a file. -/
inductive FooterProtection where
  /-- The footer is encrypted, and so is every column that has no key of its own. -/
  | encrypted (key : AesKey) (metadata : Option Bytes)
  /-- The footer is readable, and signed if there is a key for it. -/
  | plaintext (signingKey : Option AesKey) (signingKeyMetadata : Option Bytes)
deriving DecidableEq

/-- How a file is written. -/
structure WriteSettings where
  algorithm : AlgorithmRecord
  footer : FooterProtection
  aadPrefix : Option Bytes
  columns : Table ColumnPath ColumnSettings
  encryptTheRest : Bool
deriving DecidableEq

namespace WriteSettings

/-- The key of the footer. -/
def footerKey? (s : WriteSettings) : Option AesKey :=
  match s.footer with
  | .encrypted key _ => some key
  | .plaintext _ _ => none

/-- The metadata of the key of the footer. -/
def footerKeyMetadata? (s : WriteSettings) : Option Bytes :=
  match s.footer with
  | .encrypted _ metadata => metadata
  | .plaintext _ _ => none

/-- The key that signs the footer. -/
def footerSigningKey? (s : WriteSettings) : Option AesKey :=
  match s.footer with
  | .encrypted _ _ => none
  | .plaintext key _ => key

/-- The metadata of the key that signs the footer. -/
def footerSigningKeyMetadata? (s : WriteSettings) : Option Bytes :=
  match s.footer with
  | .encrypted _ _ => none
  | .plaintext _ metadata => metadata

/-- Whether the footer is encrypted. -/
def encryptedFooter (s : WriteSettings) : Bool := s.footerKey?.isSome

/-- The additional data that all modules of the file share: the writer's prefix and the bytes that
make the file unique. -/
def fileAad (s : WriteSettings) : Bytes := s.aadPrefix.getD [] ++ s.algorithm.aadFileUnique

/-- How a column is written: as the settings name it, or as the rest. -/
def column (s : WriteSettings) (path : ColumnPath) : ColumnSettings :=
  (s.columns.get? path).getD ⟨path, if s.encryptTheRest then .footerKey else .plaintext⟩

/-- The listing of a table of columns. -/
def columnsListing (columns : Table ColumnPath ColumnSettings) : Text.Listing :=
  .mapping (columns.entries.map fun (path, c) => .entry path.listing c.listing)

/-- The listing of a writer's settings. -/
def listing (s : WriteSettings) : Text.Listing :=
  .record "FileEncryptionProperties" [.field "algorithm" s.algorithm.listing,
    .field "footer_key" (.option AesKey.listing s.footerKey?),
    .field "footer_key_metadata" (.option .bytes s.footerKeyMetadata?),
    .field "footer_signing_key" (.option AesKey.listing s.footerSigningKey?),
    .field "footer_signing_key_metadata" (.option .bytes s.footerSigningKeyMetadata?),
    .field "aad_prefix" (.option .bytes s.aadPrefix), .field "file_aad" (.bytes s.fileAad),
    .field "column_properties" (columnsListing s.columns),
    .field "encrypt_the_rest" (.bool s.encryptTheRest)]

end WriteSettings

/-! ### Drafts -/

/-- What may be said about how a file is written. -/
inductive WriteChoice where
  | suite (suite : CipherSuite)
  | footerKey (bytes : Bytes)
  | footerKeyMetadata (bytes : Bytes)
  | footerKeyId (id : String)
  | footerSigningKey (bytes : Bytes)
  | footerSigningKeyMetadata (bytes : Bytes)
  | aadPrefix (bytes : Bytes)
  | aadMetadata (bytes : Bytes)
  | column (settings : ColumnSettings)
  | columns (settings : List ColumnSettings)
  | encryptTheRest (b : Bool)
deriving DecidableEq

/-- What has been said about how a file is written. -/
structure WriteDraft where
  suite : CipherSuite := .default
  footerKey : Option Bytes := none
  footerKeyMetadata : Option Bytes := none
  footerSigningKey : Option Bytes := none
  footerSigningKeyMetadata : Option Bytes := none
  aadPrefix : Option Bytes := none
  aadMetadata : Option Bytes := none
  columns : Table ColumnPath ColumnSettings := .empty
  encryptTheRest : Bool := true
  conflicts : List Conflict := []
deriving DecidableEq

namespace WriteDraft

/-- The draft with metadata for the key of the footer. -/
def withFooterKeyMetadata (d : WriteDraft) (bytes : Bytes) : WriteDraft :=
  let (footerKeyMetadata, conflicts) :=
    setOnce d.footerKeyMetadata bytes .footerKeyMetadata d.conflicts
  { d with footerKeyMetadata, conflicts }

/-- The draft with one more column; it takes the place of one with the same path, and that is a
contradiction. -/
def withColumn (d : WriteDraft) (c : ColumnSettings) : WriteDraft :=
  { d with
    columns := d.columns.insert c.path c
    conflicts :=
      if d.columns.contains c.path then d.conflicts ++ [.column c.path] else d.conflicts }

/-- The draft with one more choice. -/
def choose (d : WriteDraft) : WriteChoice → WriteDraft
  | .suite suite => { d with suite }
  | .footerKey bytes =>
    let (footerKey, conflicts) := setOnce d.footerKey bytes .footerKey d.conflicts
    { d with footerKey, conflicts }
  | .footerKeyMetadata bytes => d.withFooterKeyMetadata bytes
  | .footerKeyId id => d.withFooterKeyMetadata (Text.Utf8.encode id)
  | .footerSigningKey bytes =>
    let (footerSigningKey, conflicts) :=
      setOnce d.footerSigningKey bytes .footerSigningKey d.conflicts
    { d with footerSigningKey, conflicts }
  | .footerSigningKeyMetadata bytes =>
    let (footerSigningKeyMetadata, conflicts) :=
      setOnce d.footerSigningKeyMetadata bytes .footerSigningKeyMetadata d.conflicts
    { d with footerSigningKeyMetadata, conflicts }
  | .aadPrefix bytes =>
    let (aadPrefix, conflicts) := setOnce d.aadPrefix bytes .aadPrefix d.conflicts
    { d with aadPrefix, conflicts }
  | .aadMetadata bytes =>
    let (aadMetadata, conflicts) := setOnce d.aadMetadata bytes .aadMetadata d.conflicts
    { d with aadMetadata, conflicts }
  | .column c => d.withColumn c
  | .columns cs => cs.foldl withColumn d
  | .encryptTheRest b => { d with encryptTheRest := b }

/-- The draft that settings begin with. -/
def ofSettings (s : Settings) : WriteDraft := { suite := s.suite }

/-- The draft after a sequence of further choices. -/
def chooseAll (d : WriteDraft) (choices : List WriteChoice) : WriteDraft := choices.foldl choose d

/-- Refuses a column that would need a key of the footer. -/
def refuseFooterKeyColumn : Option ColumnSettings → Except Error Unit
  | none => .ok ()
  | some c => .error { cause := .columnWithoutKey c.path }

/-- Checks a draft whose footer stays readable: nothing may need the key of the footer, and some
column must be encrypted. -/
def checkWithoutFooterKey (d : WriteDraft) : Except Error Unit := do
  refuseIf d.encryptTheRest .restWithoutFooterKey
  refuseIf d.footerKeyMetadata.isSome .metadataWithoutFooterKey
  refuseFooterKeyColumn (d.columns.values.find? (·.usesFooterKey))
  refuseIf (¬ d.columns.values.any (·.encrypted)) .nothingEncrypted

/-- The protection of a footer without a key. -/
def checkPlaintextFooter (d : WriteDraft) : Except Error FooterProtection := do
  d.checkWithoutFooterKey
  let signingKey ← checkKey .footerSigning d.footerSigningKey
  return .plaintext signingKey d.footerSigningKeyMetadata

/-- The protection of a footer with a key. -/
def checkEncryptedFooter (d : WriteDraft) (key : AesKey) : Except Error FooterProtection := do
  refuseIf d.footerSigningKey.isSome .signingKeyWithFooterKey
  refuseIf d.footerSigningKeyMetadata.isSome .signingMetadataWithFooterKey
  return .encrypted key d.footerKeyMetadata

/-- The protection of the footer that the choices amount to, if nothing is wrong with any of
them. -/
def check (d : WriteDraft) : Except Error FooterProtection := do
  refuseFirst d.conflicts []
  match ← checkKey .footer d.footerKey with
  | none => d.checkPlaintextFooter
  | some key => d.checkEncryptedFooter key

/-- The settings that the choices amount to, for a file made unique by fresh random bytes. -/
def build (d : WriteDraft) : Drawing WriteSettings := do
  let footer ← d.check
  let aadFileUnique ← Entropy.draw AlgorithmRecord.uniqueLength
  return { algorithm := { suite := d.suite, aadMetadata := d.aadMetadata, aadFileUnique }
           footer
           aadPrefix := d.aadPrefix
           columns := d.columns
           encryptTheRest := d.encryptTheRest }

/-- The listing of a draft, in which the bytes of keys still stand. -/
def listing (d : WriteDraft) : Text.Listing :=
  .record "FileEncryptionPropertiesBuilder" [.field "cipher" (.word d.suite.listingName),
    .field "footer_key" (.option .bytes d.footerKey),
    .field "footer_key_metadata" (.option .bytes d.footerKeyMetadata),
    .field "footer_signing_key" (.option .bytes d.footerSigningKey),
    .field "footer_signing_key_metadata" (.option .bytes d.footerSigningKeyMetadata),
    .field "aad_prefix" (.option .bytes d.aadPrefix),
    .field "aad_metadata" (.option .bytes d.aadMetadata),
    .field "column_properties" (WriteSettings.columnsListing d.columns),
    .field "encrypt_the_rest" (.bool d.encryptTheRest),
    .field "conflicts" (.sequence (d.conflicts.map fun c => .text c.message))]

end WriteDraft

end ModularEncryption
