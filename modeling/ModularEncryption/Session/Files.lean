import ModularEncryption.Session.Keys

/-! # Files in a session

Writers and readers are made from settings and take their steps with the session's random bytes and
retrievers. A part of a file (`FilePart`) says with which cipher a module is encrypted or decrypted.
-/

namespace ModularEncryption

/-- The parts of a file that have a cipher of their own. -/
inductive FilePart where
  | footer
  /-- The pages of a column. -/
  | data (path : ColumnPath)
  /-- The metadata, page headers and indexes of a column. -/
  | metadata (path : ColumnPath)
deriving DecidableEq, Repr

/-- A text that went through a cipher, and its mode. -/
structure Ciphered where
  bytes : Bytes
  mode : Mode
deriving DecidableEq, Repr

namespace Session

variable {α : Type}

/-! ### Ciphers by themselves -/

/-- Encrypts a text under a nonce, or under a fresh one. -/
def encryptUnder (cipher : FrameCipher) (nonce : Option Nonce) (aad text : Bytes) :
    Acting Ciphered := do
  let frame ←
    match nonce with
    | some nonce => ofError (cipher.encryptWith nonce aad text)
    | none => drawing (cipher.encrypt aad text)
  return ⟨frame, cipher.mode⟩

/-- Decrypts a frame. -/
def decryptUnder (cipher : FrameCipher) (aad frame : Bytes) : Acting Ciphered := do
  let text ← ofError (cipher.decrypt aad frame)
  return ⟨text, cipher.mode⟩

/-! ### Writers -/

/-- Builds the settings of a writer. -/
def buildWriteSettings (name : String) (draft : WriteDraft) : Acting WriteSettings := do
  let settings ← drawing draft.build
  make .writeSettings name settings
  return settings

/-- Makes a writer. -/
def newWriter (name settings : String) : Acting FileWriter := do
  let writer := FileWriter.start (← look .writeSettings settings)
  make .writers name writer
  return writer

/-- Lets a writer take a step. -/
def writing (name : String) (w : Writing α) : Acting α := do
  let r ← step .writers name w
  ofError r

/-- The cipher of a part of the file being written. -/
def writerCipher (name : String) (part : FilePart) (ordinal : Nat) :
    Acting (Option FrameCipher) := do
  match part with
  | .footer => writing name FileWriter.footerCipher
  | .data path => return (← writing name (FileWriter.column path ordinal)).ciphers.map (·.data)
  | .metadata path =>
    return (← writing name (FileWriter.column path ordinal)).ciphers.map (·.metadata)

/-- Encrypts a module of a part of the file; none, if that part stays readable. -/
def encryptPart (name : String) (part : FilePart) (ordinal : Nat) (nonce : Option Nonce)
    (aad text : Bytes) : Acting (Option Ciphered) := do
  match ← writerCipher name part ordinal with
  | none => return none
  | some cipher => return some (← encryptUnder cipher nonce aad text)

/-- Signs the footer. -/
def signFooter (name : String) (footer : Bytes) : Acting Bytes := do
  let writer ← look .writers name
  drawing (writer.signFooter footer)

/-! ### Readers -/

/-- Builds the settings of a reader. -/
def buildReadSettings (name : String) (choices : List ReadChoice) : Acting ReadSettings := do
  let settings ← ofError (ReadDraft.ofChoices choices).build
  make .readSettings name settings
  return settings

/-- Makes a reader. -/
def newReader (name settings : String) : Acting FileReader := do
  let reader := FileReader.start (← look .readSettings settings)
  make .readers name reader
  return reader

/-- Lets a reader take a step in which it may ask a retriever. -/
def reading (name : String) (f : FileReader → Asking (Except Failure α × FileReader)) :
    Acting α := do
  let (i, reader) ← find .readers name
  let (r, reader) ← (answering (f reader) : StateM Session _)
  replace .readers i reader
  ofFailure r

/-- Tells a reader about its file; the answer is the additional data of the file. -/
def setFile (name : String) (algorithm : AlgorithmRecord) (encryptedFooter : Bool)
    (footerKeyMetadata : Option Bytes) : Acting Bytes := do
  reading name (·.setFile algorithm encryptedFooter footerKeyMetadata)
  ofError (← look .readers name).fileAad

/-- The cipher of the footer of the file being read. -/
def readerFooter (name : String) : Acting (Option FrameCipher) := do
  let r ← step .readers name (·.footer)
  ofError r

/-- A registered column of the file being read. -/
def readerColumn (name : String) (path : ColumnPath) : Acting ReaderColumn := do
  ofError ((← look .readers name).column path)

/-- The cipher of a part of the file being read. -/
def readerCipher (name : String) (part : FilePart) : Acting (Option FrameCipher) := do
  match part with
  | .footer => readerFooter name
  | .data path => return (← readerColumn name path).ciphers?.map (·.data)
  | .metadata path => return (← readerColumn name path).ciphers?.map (·.metadata)

/-- Decrypts a module of a part of the file; none, if there is no cipher for it. -/
def decryptPart (name : String) (part : FilePart) (aad frame : Bytes) :
    Acting (Option Ciphered) := do
  match ← readerCipher name part with
  | none => return none
  | some cipher => return some (← decryptUnder cipher aad frame)

end Session

end ModularEncryption
