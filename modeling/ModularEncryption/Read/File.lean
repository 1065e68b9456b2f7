import ModularEncryption.ColumnCiphers
import ModularEncryption.ModuleAad
import ModularEncryption.Read.Settings
import ModularEncryption.Signature

/-! # Reading a file

A reader learns about a file step by step. First come the facts about the file (`setFile`), which
fix its algorithm, the key of its footer and the additional data that all its modules share. Then
columns are registered (`registerColumn`), each with the keys it needs; a column whose own key
nobody knows is hidden, which is no error. When the columns of the first row group are known they
are closed (`closeColumns`), and from then on a column may only be met again as it was.

What is recorded stays. A step that fails leaves the reader as it was, but that a signing key found
on the way to a failed verification is kept. Ciphers of the footer's key are made when they are
first needed and kept. -/

namespace ModularEncryption

/-- How far a reader has come. -/
inductive Phase where
  | uninitialized
  | metadataProcessed
  | columnsRegistering
  | columnsFinalized
deriving DecidableEq, Repr

/-- The name of a phase. -/
def Phase.name : Phase → String
  | .uninitialized => "Uninitialized"
  | .metadataProcessed => "MetadataProcessed"
  | .columnsRegistering => "ColumnsRegistering"
  | .columnsFinalized => "ColumnsFinalized"

/-- What is known about the key of a column. -/
inductive ColumnAccess where
  | plaintext
  | footerKey (ciphers : ColumnCiphers)
  | ownKey (ciphers : ColumnCiphers)
  /-- The column has a key of its own, and nobody knows it. -/
  | hidden
deriving DecidableEq

/-- The name of what is known about a key. -/
def ColumnAccess.name : ColumnAccess → String
  | .plaintext => "Plaintext"
  | .footerKey _ => "FooterKey"
  | .ownKey _ => "ColumnKey"
  | .hidden => "Hidden"

/-- One column of a file being read. -/
structure ReaderColumn where
  path : ColumnPath
  ordinal : Nat
  access : ColumnAccess
deriving DecidableEq

namespace ReaderColumn

/-- Whether the column is encrypted. -/
def encrypted (c : ReaderColumn) : Bool :=
  match c.access with
  | .plaintext => false
  | _ => true

/-- Whether the column is encrypted with the key of the footer. -/
def usesFooterKey (c : ReaderColumn) : Bool :=
  match c.access with
  | .footerKey _ => true
  | _ => false

/-- Whether the column is encrypted and its key unknown. -/
def hidden (c : ReaderColumn) : Bool :=
  match c.access with
  | .hidden => true
  | _ => false

/-- The ciphers of the column. -/
def ciphers? (c : ReaderColumn) : Option ColumnCiphers :=
  match c.access with
  | .footerKey ciphers | .ownKey ciphers => some ciphers
  | .plaintext | .hidden => none

/-- The listing of a column. -/
def listing (c : ReaderColumn) : Text.Listing :=
  let arguments :=
    match c.ciphers? with
    | some ciphers => [ciphers.listing]
    | none => []
  .record "ColumnDecryptionSetup" [.field "path" c.path.listing, .field "ordinal" (.nat c.ordinal),
    .field "state" (.variant c.access.name arguments)]

end ReaderColumn

/-- What a file says about a column. -/
structure ColumnFacts where
  path : ColumnPath
  encrypted : Bool
  withFooterKey : Bool
  keyMetadata : Option Bytes
  ordinal : Nat
deriving DecidableEq, Repr

/-- What is recorded about a file. -/
structure FileFacts where
  algorithm : AlgorithmRecord
  encryptedFooter : Bool
  footerKey : Option AesKey
  fileAad : Bytes
deriving DecidableEq

/-- The reading of one file. -/
structure FileReader where
  settings : ReadSettings
  file : Option FileFacts := none
  /-- The cipher of the footer, once it has been needed. -/
  footerCipher : Option FrameCipher := none
  /-- The ciphers of columns encrypted with the footer's key, once they have been needed. -/
  footerColumnCiphers : Option ColumnCiphers := none
  signingKey : Option AesKey
  columns : Table ColumnPath ReaderColumn := .empty
  columnsClosed : Bool := false

namespace FileReader

/-- The reader at the beginning of a file. -/
def start (settings : ReadSettings) : FileReader :=
  { settings, signingKey := settings.footerSigningKey }

/-- How far the reader has come. -/
def phase (r : FileReader) : Phase :=
  if r.file.isNone then .uninitialized
  else if r.columnsClosed then .columnsFinalized
  else if r.columns.entries.isEmpty then .metadataProcessed
  else .columnsRegistering

/-- What is recorded about the file. -/
def facts (r : FileReader) : Except Error FileFacts :=
  match r.file with
  | some facts => .ok facts
  | none => .error { cause := .noFileMetadata }

/-- The additional data that all modules of the file share. -/
def fileAad (r : FileReader) : Except Error Bytes := r.facts.map (·.fileAad)

/-! ### The file -/

/-- What a reader says when it cannot get the key of a footer. -/
def footerKeyFailure (metadata : Bytes) : Failure → Failure
  | .error e =>
    .error (Error.cameFrom
      { cause := .footerKeyUnavailable, context := [("key_metadata", Text.shown metadata)] } e)
  | .clockOverflow => .clockOverflow

/-- The key of the footer: the one given, or for an encrypted footer the one that the retriever
knows. -/
def resolveFooterKey (s : ReadSettings) (encryptedFooter : Bool) (metadata : Option Bytes) :
    Asking (Except Failure (Option AesKey)) :=
  match s.footerKey with
  | some key => .done (.ok (some key))
  | none =>
    if !encryptedFooter then .done (.ok none)
    else
      match metadata with
      | none => .done (.error (.error { cause := .footerKeyWithoutMetadata }))
      | some md =>
        match s.retriever with
        | none => .done (.error (.error { cause := .footerKeyWithoutRetriever }))
        | some retriever =>
          (ReadSettings.askKey retriever md).map fun answer =>
            match answer with
            | .ok key => .ok (some key)
            | .error f => .error (footerKeyFailure md f)

/-- The writer's prefix: the one given, or the one that the lookup finds for the file's metadata. -/
def resolvePrefix (s : ReadSettings) (algorithm : AlgorithmRecord) : Except Error Bytes :=
  match s.aadPrefix, s.prefixLookup, algorithm.aadMetadata with
  | some bytes, _, _ => .ok bytes
  | none, some lookup, some metadata => lookup metadata
  | _, _, _ => .ok []

/-- Records the facts about the file. Afterwards the algorithm is only compared with the one
recorded. -/
def setFile (r : FileReader) (algorithm : AlgorithmRecord) (encryptedFooter : Bool)
    (footerKeyMetadata : Option Bytes) : Asking (Except Failure Unit × FileReader) :=
  match r.file with
  | some facts =>
    if facts.algorithm = algorithm then .done (.ok (), r)
    else
      .done (.error (.error
        { cause := .algorithmChanged
          context := [("expected", facts.algorithm.suite.name),
            ("actual", algorithm.suite.name)] }), r)
  | none =>
    (resolveFooterKey r.settings encryptedFooter footerKeyMetadata).map fun resolved =>
      match resolved with
      | .error f => (.error f, r)
      | .ok footerKey =>
        match resolvePrefix r.settings algorithm with
        | .error e => (.error (.error e), r)
        | .ok aadPrefix =>
          let fileAad := aadPrefix ++ algorithm.aadFileUnique
          (.ok (), { r with file := some { algorithm, encryptedFooter, footerKey, fileAad } })

/-! ### The footer's ciphers -/

/-- The key of the footer. -/
def footerKey (r : FileReader) : Except Error AesKey :=
  match r.facts with
  | .error e => .error e
  | .ok facts =>
    match facts.footerKey with
    | some key => .ok key
    | none => .error { cause := .noFooterKey }

/-- The cipher of the footer's key for metadata, made if it is not there yet. -/
def keptFooterCipher (r : FileReader) : Except Error FrameCipher × FileReader :=
  match r.footerCipher with
  | some c => (.ok c, r)
  | none =>
    match r.footerKey with
    | .error e => (.error e, r)
    | .ok key => (.ok ⟨.gcm, key⟩, { r with footerCipher := some ⟨.gcm, key⟩ })

/-- The cipher of the footer; none, if the footer is readable. -/
def footer (r : FileReader) : Except Error (Option FrameCipher) × FileReader :=
  match r.facts with
  | .error e => (.error e, r)
  | .ok facts =>
    if !facts.encryptedFooter then (.ok none, r)
    else
      let (c, r) := r.keptFooterCipher
      (c.map some, r)

/-- The ciphers of columns encrypted with the footer's key, made if they are not there yet. -/
def keptColumnCiphers (r : FileReader) (facts : FileFacts) (key : AesKey) :
    Except Error ColumnCiphers × FileReader :=
  match r.footerColumnCiphers with
  | some c => (.ok c, r)
  | none =>
    match r.keptFooterCipher with
    | (.error e, r) => (.error e, r)
    | (.ok metadata, r) =>
      let data : FrameCipher :=
        match facts.algorithm.suite.dataMode with
        | .gcm => metadata
        | .ctr => ⟨.ctr, key⟩
      (.ok ⟨data, metadata⟩, { r with footerColumnCiphers := some ⟨data, metadata⟩ })

/-! ### Columns -/

/-- The reader with a column added. -/
def addColumn (r : FileReader) (c : ColumnFacts) (access : ColumnAccess) :
    Except Failure ReaderColumn × FileReader :=
  let column : ReaderColumn := ⟨c.path, c.ordinal, access⟩
  (.ok column, { r with columns := r.columns.insert c.path column })

/-- A column that is met again: it must be as it was, and the columns must be closed. -/
def revisitColumn (r : FileReader) (c : ColumnFacts) (column : ReaderColumn) :
    Except Error ReaderColumn :=
  let context := [("column", c.path.toDotted)]
  if !r.columnsClosed then
    .error { cause := .columnTwice, context := context ++ [("ordinal", toString c.ordinal)] }
  else if column.encrypted != c.encrypted then .error { cause := .encryptedFlagChanged, context }
  else if c.encrypted && column.usesFooterKey != c.withFooterKey then
    .error { cause := .keyFlagChanged, context }
  else .ok column

/-- A column encrypted with the footer's key. -/
def addFooterKeyColumn (r : FileReader) (facts : FileFacts) (c : ColumnFacts) :
    Except Failure ReaderColumn × FileReader :=
  match r.footerKey with
  | .error e => (.error (.error (e.withContext "column" c.path.toDotted)), r)
  | .ok key =>
    match r.keptColumnCiphers facts key with
    | (.error e, r) => (.error (.error e), r)
    | (.ok ciphers, r) => r.addColumn c (.footerKey ciphers)

/-- What a column's own key, or that nobody knows it, means for the column; other failures add the
column to what they say. -/
def accessOfKey (suite : CipherSuite) (path : ColumnPath) :
    Except Failure (Option AesKey) → Except Failure ColumnAccess
  | .ok (some key) => .ok (.ownKey (.ofKey suite key))
  | .ok none => .ok .hidden
  | .error (.error e) =>
    if e.kind.meansUnknownKey then .ok .hidden
    else .error (.error (e.withContext "column" path.toDotted))
  | .error .clockOverflow => .error .clockOverflow

/-- The key of a column that has its own: the one given, or the one that the retriever knows. -/
def resolveColumnKey (s : ReadSettings) (c : ColumnFacts) :
    Asking (Except Failure (Option AesKey)) :=
  match s.columnKey? c.path with
  | some key => .done (.ok (some key))
  | none => s.retrieveKey c.keyMetadata

/-- A column with a key of its own. -/
def addOwnKeyColumn (r : FileReader) (facts : FileFacts) (c : ColumnFacts) :
    Asking (Except Failure ReaderColumn × FileReader) :=
  (resolveColumnKey r.settings c).map fun resolved =>
    match accessOfKey facts.algorithm.suite c.path resolved with
    | .error f => (.error f, r)
    | .ok access => r.addColumn c access

/-- Registers a column, or meets it again. -/
def registerColumn (r : FileReader) (c : ColumnFacts) :
    Asking (Except Failure ReaderColumn × FileReader) :=
  match r.facts with
  | .error e => .done (.error (.error e), r)
  | .ok facts =>
    match r.columns.get? c.path with
    | some column => .done ((r.revisitColumn c column).mapError .error, r)
    | none =>
      if r.columnsClosed then
        .done (.error (.error
          { cause := .columnTooLate, context := [("column", c.path.toDotted)] }), r)
      else if !c.encrypted then .done (r.addColumn c .plaintext)
      else if c.withFooterKey then .done (r.addFooterKeyColumn facts c)
      else r.addOwnKeyColumn facts c

/-- Closes the columns: from now on none is new. -/
def closeColumns (r : FileReader) : FileReader := { r with columnsClosed := true }

/-- A registered column. -/
def column (r : FileReader) (path : ColumnPath) : Except Error ReaderColumn :=
  match r.facts with
  | .error e => .error e
  | .ok _ =>
    match r.columns.get? path with
    | some column => .ok column
    | none => .error { cause := .columnUnregistered, context := [("column", path.toDotted)] }

/-! ### Signed footers -/

/-- The signing key that an answer amounts to; a key that nobody knows is no failure. -/
def signingKeyOfAnswer : Except Failure (Option AesKey) → Except Failure (Option AesKey)
  | .error (.error e) => if e.kind.meansUnknownKey then .ok none else .error (.error e)
  | answer => answer

/-- The key that verifies the footer: the one known, or the one that the retriever knows. A key that
is found is kept. -/
def footerSigningKey (r : FileReader) (metadata : Option Bytes) :
    Asking (Except Failure (Option AesKey) × FileReader) :=
  match r.signingKey with
  | some key => .done (.ok (some key), r)
  | none =>
    (r.settings.retrieveKey metadata).map fun answer =>
      match signingKeyOfAnswer answer with
      | .error f => (.error f, r)
      | .ok key => (.ok key, { r with signingKey := key })

/-- Whether a signature is present and has the right length. -/
def checkSignature : Option Bytes → Except Error Bytes
  | none => .error { cause := .footerUnsigned }
  | some signature =>
    if signature.length ≠ Signature.length then
      .error { cause := .signatureLength signature.length }
    else .ok signature

/-- Whether a signature is that of the footer under a key. -/
def checkTag (facts : FileFacts) (footer signature : Bytes) : Option AesKey → Except Error Unit
  | none => .error { cause := .noVerificationKey }
  | some key => do
    let matched ← Signature.matches? key (ModuleKind.footerAad facts.fileAad) footer signature
    if matched then return () else throw { cause := .signatureMismatch }

/-- Verifies the signature of a footer that is not encrypted, if that is asked for. -/
def verifyFooter (r : FileReader) (footer : Bytes) (signature metadata : Option Bytes) :
    Asking (Except Failure Unit × FileReader) :=
  match r.facts with
  | .error e => .done (.error (.error e), r)
  | .ok facts =>
    if facts.encryptedFooter then .done (.error (.error { cause := .footerEncrypted }), r)
    else if !r.settings.checkFooterIntegrity then .done (.ok (), r)
    else
      match checkSignature signature with
      | .error e => .done (.error (.error e), r)
      | .ok signature =>
        (r.footerSigningKey metadata).map fun (answer, r) =>
          match answer with
          | .error f => (.error f, r)
          | .ok key => ((checkTag facts footer signature key).mapError .error, r)

end FileReader

end ModularEncryption
