import ModularEncryption.ColumnPath
import ModularEncryption.Error.Kind
import ModularEncryption.Setting
import ModularEncryption.Text.Decimal

/-! # Causes of errors

`Cause` has one constructor for each thing that can go wrong; `Cause.kind` and `Cause.message` say
what it means to a caller and how it is worded. A collaborator from outside reports its errors with
a kind and a text of its own (`Cause.reported`). -/

namespace ModularEncryption

/-- The ordinals that a module may carry. -/
inductive OrdinalRole where
  | rowGroup
  | column
  | page
deriving DecidableEq, Repr

/-- The name of an ordinal. -/
def OrdinalRole.name : OrdinalRole → String
  | .rowGroup => "row group"
  | .column => "column"
  | .page => "page"

/-- The values that a writer's settings take once at most. -/
inductive OnceOnly where
  | columnKey
  | columnKeyMetadata
  | footerKey
  | footerKeyMetadata
  | footerSigningKey
  | footerSigningKeyMetadata
  | aadPrefix
  | aadMetadata
deriving DecidableEq, Repr

/-- The name of a value that is set once at most. -/
def OnceOnly.name : OnceOnly → String
  | .columnKey => "Column key"
  | .columnKeyMetadata => "Column key metadata"
  | .footerKey => "Footer key"
  | .footerKeyMetadata => "Footer key metadata"
  | .footerSigningKey => "Footer signing key"
  | .footerSigningKeyMetadata => "Footer signing key metadata"
  | .aadPrefix => "AAD prefix"
  | .aadMetadata => "AAD metadata"

/-- The keys that a writer gives. -/
inductive KeyRole where
  | column
  | footer
  | footerSigning
deriving DecidableEq, Repr

/-- The name of a writer's key. -/
def KeyRole.name : KeyRole → String
  | .column => "column key"
  | .footer => "footer encryption key"
  | .footerSigning => "footer signing key"

/-- What is wrong with the value of a property. -/
inductive ValueFault where
  | number (fault : Text.Decimal.Fault)
  | truthValue
  | algorithm (name : String)
deriving DecidableEq, Repr

/-- A contradiction between the calls that set up a writer: a value set twice, or a column. -/
inductive Conflict where
  | value (what : OnceOnly)
  | column (path : ColumnPath)
deriving DecidableEq, Repr

/-- The wording of a contradiction. -/
def Conflict.message : Conflict → String
  | .value what => s!"{what.name} already set"
  | .column path => s!"Column properties already set for {path.toDotted}"

/-- What went wrong. -/
inductive Cause where
  /-- A key without bytes. -/
  | emptyKey
  | keyLength (length : Nat)
  | moduleTooLarge (length : Nat)
  /-- A frame too short for its length to be read. -/
  | frameWithoutLength (length : Nat)
  | frameTooShort (least stated : Nat)
  | frameLength (stated actual : Nat)
  | frameTag
  | ordinalTooLarge (role : OrdinalRole) (ordinal : Nat)
  | pageAadTooShort (length : Nat)
  | unsupportedAlgorithm (name : String)
  | settingUnreadable (setting : Setting) (fault : ValueFault)
  | settingKeyLength (bits : Nat)
  | settingCapacityZero
  | conflict (between : Conflict)
  | keyOnPlaintextColumn (path : ColumnPath)
  | metadataOnPlaintextColumn (path : ColumnPath)
  | metadataWithoutColumnKey (path : ColumnPath)
  | givenKeyLength (role : KeyRole) (length : Nat)
  | restWithoutFooterKey
  | metadataWithoutFooterKey
  | columnWithoutKey (path : ColumnPath)
  | nothingEncrypted
  | signingKeyWithFooterKey
  | signingMetadataWithFooterKey
  | noFooterEncryptionKey
  | footerEncrypted
  | noSigningKey
  | nothingDecryptable
  | twoPrefixSources
  | columnKeyTwice (path : ColumnPath)
  | keyIdNotText
  | keyIdUnknown
  | noFileMetadata
  | algorithmChanged
  | footerKeyWithoutMetadata
  | footerKeyWithoutRetriever
  | footerKeyUnavailable
  | noFooterKey
  | columnTwice
  | encryptedFlagChanged
  | keyFlagChanged
  /-- A column registered for the first time after the columns were closed. -/
  | columnTooLate
  | columnUnregistered
  | footerUnsigned
  | signatureLength (length : Nat)
  | noVerificationKey
  | signatureMismatch
  | materialWithoutSeparator
  | materialPartEmpty
  | materialNotBase64
  | notUtf8
  | masterKeyUnknown
  | nothingStored
  | serverSideWrappingUnsupported
  | storeWithoutFileId
  | cacheCapacityZero
  | localWrappingUnsupported
  /-- An error from outside the library. -/
  | reported (kind : ErrorKind) (message : String)
deriving DecidableEq

namespace Cause

/-- What the cause means to a caller. -/
def kind : Cause → ErrorKind
  | .emptyKey | .keyLength _ | .conflict _ | .keyOnPlaintextColumn _
  | .metadataOnPlaintextColumn _ | .metadataWithoutColumnKey _ | .givenKeyLength _ _
  | .restWithoutFooterKey | .metadataWithoutFooterKey | .columnWithoutKey _ | .nothingEncrypted
  | .signingKeyWithFooterKey | .signingMetadataWithFooterKey | .nothingDecryptable
  | .twoPrefixSources | .columnKeyTwice _ | .storeWithoutFileId | .cacheCapacityZero =>
    .configuration
  | .moduleTooLarge _ | .frameWithoutLength _ | .frameTooShort _ _ | .frameLength _ _
  | .ordinalTooLarge _ _ | .pageAadTooShort _ | .settingUnreadable _ _ | .settingKeyLength _
  | .settingCapacityZero | .columnTwice | .materialWithoutSeparator | .materialPartEmpty
  | .materialNotBase64 | .notUtf8 => .dataInvalid
  | .noFooterEncryptionKey | .noSigningKey | .keyIdNotText | .keyIdUnknown
  | .footerKeyWithoutMetadata | .footerKeyWithoutRetriever | .footerKeyUnavailable | .noFooterKey
  | .noVerificationKey | .masterKeyUnknown => .missingKey
  | .footerEncrypted | .noFileMetadata => .preconditionFailed
  | .algorithmChanged | .encryptedFlagChanged | .keyFlagChanged => .reuseMismatch
  | .columnTooLate => .unknownColumn
  | .columnUnregistered | .nothingStored => .notFound
  | .frameTag | .footerUnsigned | .signatureLength _ | .signatureMismatch => .integrityFailure
  | .unsupportedAlgorithm _ | .serverSideWrappingUnsupported | .localWrappingUnsupported =>
    .featureUnsupported
  | .reported kind _ => kind

/-- The wording of a value's fault; that of an unknown algorithm is a whole error's. -/
def valueMessage : ValueFault → String
  | .number fault => fault.message
  | .truthValue => "provided string was not `true` or `false`"
  | .algorithm name =>
    s!"{ErrorKind.featureUnsupported.name} => Unsupported encryption algorithm: {name}"

/-- How the cause is worded. -/
def message : Cause → String
  | .emptyKey => "Null key bytes"
  | .keyLength length => s!"Wrong key length {length}: expected one of [16, 24, 32]"
  | .moduleTooLarge length => s!"Module too large to encrypt: {length} bytes"
  | .frameWithoutLength length => s!"Cipher frame too short for length prefix: {length} bytes"
  | .frameTooShort least stated =>
    s!"Cipher frame too short: expected at least {least} bytes, got {stated}"
  | .frameLength stated actual =>
    s!"Cipher frame length mismatch: prefix says {stated}, got {actual}"
  | .frameTag => "GCM tag check failed: wrong key, wrong AAD or tampered module"
  | .ordinalTooLarge role ordinal =>
    s!"Encrypted parquet files can't have more than 32767 {role.name}s: {ordinal}"
  | .pageAadTooShort length => s!"Page AAD too short to carry a page ordinal: {length} bytes"
  | .unsupportedAlgorithm name => s!"Unsupported encryption algorithm: {name}"
  | .settingUnreadable setting fault =>
    s!"Invalid value for {setting.key}: {valueMessage fault}"
  | .settingKeyLength bits =>
    s!"Invalid value for {Setting.dataKeyLengthBits.key}: {bits}, expected 128, 192 or 256"
  | .settingCapacityZero => s!"Invalid value for {Setting.keyCacheCapacity.key}: must be positive"
  | .conflict c => c.message
  | .keyOnPlaintextColumn path => s!"Setting key for unencrypted column: {path.toDotted}"
  | .metadataOnPlaintextColumn path =>
    s!"Setting key metadata for unencrypted column: {path.toDotted}"
  | .metadataWithoutColumnKey path =>
    s!"Setting key metadata for column encrypted with footer key: {path.toDotted}"
  | .givenKeyLength role length => s!"Wrong {role.name} length {length}"
  | .restWithoutFooterKey => "Encrypt the rest with null footer key"
  | .metadataWithoutFooterKey => "Setting key metadata for null footer key"
  | .columnWithoutKey path =>
    s!"Encrypt column with null footer key. Column: {path.toDotted}"
  | .nothingEncrypted => "Footer and all columns are unencrypted"
  | .signingKeyWithFooterKey => "Can set signing key only for plaintext footer"
  | .signingMetadataWithFooterKey => "Can set signing key metadata only for plaintext footer"
  | .noFooterEncryptionKey => "No footer encryption key"
  | .footerEncrypted => "Footer is encrypted, signatures apply to plaintext footers only"
  | .noSigningKey => "No footer signing key configured"
  | .nothingDecryptable => "No footer key, key retriever or column keys: nothing can be decrypted"
  | .twoPrefixSources => "AAD prefix and AAD prefix retriever are mutually exclusive"
  | .columnKeyTwice path => s!"Column key already set for {path.toDotted}"
  | .keyIdNotText => "Key metadata is not a UTF-8 key id"
  | .keyIdUnknown => "Key id not found"
  | .noFileMetadata => "File crypto metadata has not been processed yet"
  | .algorithmChanged => "Decryptor reuse with a different encryption algorithm"
  | .footerKeyWithoutMetadata => "Encrypted footer without footer key or footer key metadata"
  | .footerKeyWithoutRetriever => "Encrypted footer without footer key or key retriever"
  | .footerKeyUnavailable => "Footer decryption key unavailable"
  | .noFooterKey => "No footer key available"
  | .columnTwice => "File with identical columns in the first row group"
  | .encryptedFlagChanged => "Column registered again with a different encrypted flag"
  | .keyFlagChanged => "Column registered again with a different key (column vs footer)"
  | .columnTooLate => "Column not seen before all column crypto metadata was processed"
  | .columnUnregistered => "No decryption setup for column"
  | .footerUnsigned => "Plaintext footer is not signed"
  | .signatureLength length => s!"Footer signature must be 28 bytes, got {length}"
  | .noVerificationKey => "No key available to verify the footer signature"
  | .signatureMismatch => "Plaintext footer signature mismatch"
  | .materialWithoutSeparator => "Key material has no master key id separator"
  | .materialPartEmpty => "Key material has an empty wrapped key or master key id"
  | .materialNotBase64 => "Failed to decode base64 key material"
  | .notUtf8 => "handling invalid utf-8 characters"
  | .masterKeyUnknown => "Master key not found"
  | .nothingStored => "No wrapped key stored"
  | .serverSideWrappingUnsupported => "KMS client doesn't support server-side wrapping"
  | .storeWithoutFileId => "File id must be supplied with a wrapped key store"
  | .cacheCapacityZero => "Key cache capacity must be positive"
  | .localWrappingUnsupported => "Local key wrapping is not supported yet"
  | .reported _ message => message

end Cause

end ModularEncryption
