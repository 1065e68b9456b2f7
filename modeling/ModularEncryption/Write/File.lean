import ModularEncryption.ColumnCiphers
import ModularEncryption.ModuleAad
import ModularEncryption.Signature
import ModularEncryption.Write.Settings

/-! # Writing a file

A writer hands out the ciphers with which the modules of one file are encrypted. The ciphers of the
footer's key are made when they are first needed and kept; a column is set up when it is first asked
for, and that setup, its ordinal included, stays. A footer that is not encrypted may be signed. -/

namespace ModularEncryption

/-- How one column of a file is written. -/
structure WriterColumn where
  path : ColumnPath
  ordinal : Nat
  usesFooterKey : Bool
  keyMetadata : Option Bytes
  ciphers : Option ColumnCiphers
deriving DecidableEq

/-- The writing of one file. -/
structure FileWriter where
  settings : WriteSettings
  /-- The footer's cipher for metadata, once it has been needed. -/
  footerMetadataCipher : Option FrameCipher := none
  /-- The footer's cipher for pages, once it has been needed. -/
  footerDataCipher : Option FrameCipher := none
  columns : Table ColumnPath WriterColumn := .empty
deriving DecidableEq

/-- A step of writing a file, which may fail. -/
abbrev Writing := ExceptT Error (StateM FileWriter)

namespace FileWriter

/-- The writer at the beginning of a file. -/
def start (settings : WriteSettings) : FileWriter := { settings }

/-- The suite of the file. -/
def suite (w : FileWriter) : CipherSuite := w.settings.algorithm.suite

/-- Whether the footer's cipher of a mode is the one for pages. -/
def isDataMode (w : FileWriter) (mode : Mode) : Bool := mode = .ctr && w.suite = .aesGcmCtrV1

/-- The footer's cipher of a mode, kept from an earlier step. -/
def keptCipher (w : FileWriter) (mode : Mode) : Option FrameCipher :=
  if w.isDataMode mode then w.footerDataCipher else w.footerMetadataCipher

/-- The writer that keeps a cipher of the footer. -/
def keep (w : FileWriter) (mode : Mode) (c : FrameCipher) : FileWriter :=
  if w.isDataMode mode then { w with footerDataCipher := some c }
  else { w with footerMetadataCipher := some c }

/-- The footer's cipher of a mode, made if it is not there yet. -/
def footerCipherOf (mode : Mode) : Writing FrameCipher := do
  let w ← get
  match w.keptCipher mode with
  | some c => return c
  | none =>
    match w.settings.footerKey? with
    | none => throw { cause := .noFooterEncryptionKey }
    | some key =>
      set (w.keep mode ⟨mode, key⟩)
      return ⟨mode, key⟩

/-- The cipher of the footer; none, if the footer stays readable. -/
def footerCipher : Writing (Option FrameCipher) := do
  let w ← get
  if w.settings.encryptedFooter then return some (← footerCipherOf .gcm) else return none

/-- The ciphers of a column. -/
def columnCiphers (c : ColumnSettings) : Writing (Option ColumnCiphers) := do
  let suite := (← get).suite
  match c.protection with
  | .plaintext => return none
  | .ownKey key _ => return some (.ofKey suite key)
  | .footerKey =>
    let data ← footerCipherOf suite.dataMode
    let metadata ← footerCipherOf suite.metadataMode
    return some ⟨data, metadata⟩

/-- The setup of a column, made if it is not there yet. -/
def column (path : ColumnPath) (ordinal : Nat) : Writing WriterColumn := do
  let w ← get
  match w.columns.get? path with
  | some c => return c
  | none =>
    let settings := w.settings.column path
    let ciphers ← columnCiphers settings
    let c : WriterColumn :=
      ⟨path, ordinal, settings.usesFooterKey, settings.keyMetadata?, ciphers⟩
    modify fun w => { w with columns := w.columns.insert path c }
    return c

/-- The signature of a footer that is not encrypted. -/
def signFooter (w : FileWriter) (footer : Bytes) : Drawing Bytes :=
  match w.settings.footer with
  | .encrypted _ _ => throw { cause := .footerEncrypted }
  | .plaintext none _ => throw { cause := .noSigningKey }
  | .plaintext (some key) _ =>
    Signature.sign key (ModuleKind.footerAad w.settings.fileAad) footer

end FileWriter

end ModularEncryption
