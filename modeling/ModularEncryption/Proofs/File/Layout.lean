import ModularEncryption.ColumnCiphers
import ModularEncryption.ModuleAad
import ModularEncryption.Proofs.Frame.RoundTrip
import ModularEncryption.Read.File
import ModularEncryption.Write.Settings

/-! # Files

A file is a footer and row groups; a row group is a list of chunks, one column's share each, and a
chunk a list of modules. Before it is written a module is a text and the nonce drawn for it; in the
file it is bytes, the text itself for a column left in plaintext and a frame otherwise
(`storeModule`). With the ciphers and the places that it was stored with, a module is loaded as the
text it was (`loadModules_storeModules`), and modules that are short enough are stored
(`exists_storeModules`). -/

namespace ModularEncryption

/-! ### Before and after writing -/

/-- A module before it is written, with the nonce drawn for it. -/
structure PlainModule where
  kind : ModuleKind
  page : Nat
  nonce : Nonce
  text : Bytes

/-- What is written of one column in one row group. -/
structure PlainChunk where
  path : ColumnPath
  ordinal : Nat
  modules : List PlainModule

/-- The texts of a chunk's modules. -/
def PlainChunk.texts (chunk : PlainChunk) : List Bytes := chunk.modules.map (·.text)

/-- What is written into a file. -/
structure PlainFile where
  footer : Bytes
  footerNonce : Nonce
  rowGroups : List (List PlainChunk)

/-- A module as it stands in a file. -/
structure StoredModule where
  kind : ModuleKind
  page : Nat
  bytes : Bytes

/-- A chunk as it stands in a file. -/
structure StoredChunk where
  facts : ColumnFacts
  modules : List StoredModule

/-- A file. -/
structure StoredFile where
  algorithm : AlgorithmRecord
  encryptedFooter : Bool
  footerKeyMetadata : Option Bytes
  footer : Bytes
  rowGroups : List (List StoredChunk)

/-! ### Modules -/

/-- The mode in which a suite encrypts modules of a kind. -/
def CipherSuite.modeOf (suite : CipherSuite) : ModuleKind → Mode
  | .dataPage | .dictionaryPage => suite.dataMode
  | _ => suite.metadataMode

/-- The cipher of a column for modules of a kind. -/
def ColumnCiphers.ofKind (c : ColumnCiphers) : ModuleKind → FrameCipher
  | .dataPage | .dictionaryPage => c.data
  | _ => c.metadata

theorem ColumnCiphers.ofKind_ofKey (suite : CipherSuite) (key : AesKey) (kind : ModuleKind) :
    (ColumnCiphers.ofKey suite key).ofKind kind = ⟨suite.modeOf kind, key⟩ := by
  cases kind <;> rfl

/-- Where the modules of a chunk stand: the file's additional data, the row group and the column. -/
structure Place where
  fileAad : Bytes
  rowGroup : Nat
  column : Nat

/-- The additional data of a module at a place. -/
def Place.aad (place : Place) (kind : ModuleKind) (page : Nat) : Except Error Bytes :=
  kind.aad place.fileAad ⟨place.rowGroup, place.column, page⟩

/-- The module as it is stored, in plaintext where there are no ciphers. -/
def storeModule (ciphers : Option ColumnCiphers) (place : Place) (m : PlainModule) :
    Except Error StoredModule :=
  match ciphers with
  | none => .ok ⟨m.kind, m.page, m.text⟩
  | some c => do
    let aad ← place.aad m.kind m.page
    let frame ← (c.ofKind m.kind).encryptWith m.nonce aad m.text
    return ⟨m.kind, m.page, frame⟩

/-- The text of a stored module. -/
def loadModule (ciphers : Option ColumnCiphers) (place : Place) (m : StoredModule) :
    Except Error Bytes :=
  match ciphers with
  | none => .ok m.bytes
  | some c => do
    let aad ← place.aad m.kind m.page
    (c.ofKind m.kind).decrypt aad m.bytes

/-- The modules of a chunk as they are stored. -/
def storeModules (ciphers : Option ColumnCiphers) (place : Place) (modules : List PlainModule) :
    Except Error (List StoredModule) :=
  modules.mapM (storeModule ciphers place)

/-- The texts of the stored modules of a chunk. -/
def loadModules (ciphers : Option ColumnCiphers) (place : Place) (modules : List StoredModule) :
    Except Error (List Bytes) :=
  modules.mapM (loadModule ciphers place)

/-- The footer as it is stored, in plaintext where there is no cipher. -/
def storeFooter (cipher : Option FrameCipher) (fileAad : Bytes) (nonce : Nonce) (footer : Bytes) :
    Except Error Bytes :=
  match cipher with
  | none => .ok footer
  | some c => c.encryptWith nonce (ModuleKind.footerAad fileAad) footer

/-- The text of a stored footer. -/
def loadFooter (cipher : Option FrameCipher) (fileAad footer : Bytes) : Except Error Bytes :=
  match cipher with
  | none => .ok footer
  | some c => c.decrypt (ModuleKind.footerAad fileAad) footer

/-! ### Loading -/

theorem loadFooter_storeFooter {cipher : Option FrameCipher} {fileAad footer stored : Bytes}
    {nonce : Nonce} (h : storeFooter cipher fileAad nonce footer = .ok stored) :
    loadFooter cipher fileAad stored = .ok footer := by
  cases cipher with
  | none =>
    cases h
    rfl
  | some c => exact FrameCipher.decrypt_of_encryptWith h fun _ => rfl

variable {ciphers : Option ColumnCiphers} {place : Place}

theorem loadModule_storeModule {m : PlainModule} {stored : StoredModule}
    (h : storeModule ciphers place m = .ok stored) :
    loadModule ciphers place stored = .ok m.text := by
  unfold storeModule at h
  unfold loadModule
  cases ciphers with
  | none =>
    cases h
    rfl
  | some c =>
    obtain ⟨aad, haad, h⟩ := bind_eq_ok_iff.mp h
    obtain ⟨frame, hframe, h⟩ := bind_eq_ok_iff.mp h
    cases h
    exact bind_eq_ok_iff.mpr ⟨aad, haad, FrameCipher.decrypt_of_encryptWith hframe fun _ => rfl⟩

/-- **Modules are loaded as the texts that were stored.** -/
theorem loadModules_storeModules : ∀ {modules : List PlainModule} {stored : List StoredModule},
    storeModules ciphers place modules = .ok stored →
      loadModules ciphers place stored = .ok (modules.map (·.text)) := by
  unfold storeModules loadModules
  intro modules
  induction modules with
  | nil =>
    intro stored h
    cases h
    rfl
  | cons m modules ih =>
    intro stored h
    rw [List.mapM_cons] at h
    obtain ⟨first, hfirst, h⟩ := bind_eq_ok_iff.mp h
    obtain ⟨others, hothers, h⟩ := bind_eq_ok_iff.mp h
    cases h
    rw [List.mapM_cons, loadModule_storeModule hfirst, ih hothers]
    rfl

/-! ### What can be stored -/

/-- A text is short enough for a frame of a mode. -/
def Admitted (mode : Mode) (text : Bytes) : Prop :=
  12 + text.length + mode.tagLength ≤ maxFrameLength

theorem encryptWith_of_admitted {mode : Mode} {text : Bytes} (h : Admitted mode text) (key : AesKey)
    (nonce : Nonce) (aad : Bytes) :
    ∃ frame, FrameCipher.encryptWith ⟨mode, key⟩ nonce aad text = .ok frame :=
  ⟨_, FrameCipher.encryptWith_eq_ok_iff.mpr ⟨h, rfl⟩⟩

theorem exists_storeFooter {cipher : Option FrameCipher} {fileAad footer : Bytes} {nonce : Nonce}
    (h : ∀ c, cipher = some c → Admitted c.mode footer) :
    ∃ stored, storeFooter cipher fileAad nonce footer = .ok stored := by
  cases cipher with
  | none => exact ⟨footer, rfl⟩
  | some c => exact encryptWith_of_admitted (h c rfl) c.key nonce _

/-- Ordinals that are not too large have additional data. -/
theorem exists_aad {page : Nat} (kind : ModuleKind) (hrowGroup : place.rowGroup ≤ maxOrdinal)
    (hcolumn : place.column ≤ maxOrdinal) (hpage : page ≤ maxOrdinal) :
    ∃ aad, place.aad kind page = .ok aad := by
  unfold Place.aad ModuleKind.aad
  simp only [ordinalBytes_of_le hrowGroup, ordinalBytes_of_le hcolumn, ordinalBytes_of_le hpage]
  by_cases hfooter : kind = .footer
  · exact ⟨_, if_pos hfooter⟩
  · rw [if_neg hfooter]
    cases kind.hasPage <;> exact ⟨_, rfl⟩

/-- **Modules that are short enough are stored**, under the ciphers that a suite gives a key. -/
theorem exists_storeModules {suite : CipherSuite} {key : AesKey}
    (hrowGroup : place.rowGroup ≤ maxOrdinal) (hcolumn : place.column ≤ maxOrdinal) :
    ∀ {modules : List PlainModule},
      (∀ m ∈ modules, m.page ≤ maxOrdinal ∧ Admitted (suite.modeOf m.kind) m.text) →
        ∃ stored, storeModules (some (.ofKey suite key)) place modules = .ok stored := by
  unfold storeModules
  intro modules
  induction modules with
  | nil => exact fun _ => ⟨[], rfl⟩
  | cons m modules ih =>
    intro h
    obtain ⟨hpage, htext⟩ := h m List.mem_cons_self
    obtain ⟨stored, hstored⟩ := ih fun m' hm' => h m' (List.mem_cons_of_mem m hm')
    obtain ⟨aad, haad⟩ := exists_aad m.kind hrowGroup hcolumn hpage
    obtain ⟨frame, hframe⟩ := encryptWith_of_admitted htext key m.nonce aad
    have hfirst : storeModule (some (.ofKey suite key)) place m = .ok ⟨m.kind, m.page, frame⟩ := by
      rw [storeModule]
      simp only [haad, ColumnCiphers.ofKind_ofKey, bind, Except.bind, hframe]
      rfl
    refine ⟨⟨m.kind, m.page, frame⟩ :: stored, ?_⟩
    rw [List.mapM_cons, hfirst, hstored]
    rfl

theorem storeModules_none (place : Place) (modules : List PlainModule) :
    storeModules none place modules = .ok (modules.map fun m => ⟨m.kind, m.page, m.text⟩) := by
  unfold storeModules
  induction modules with
  | nil => rfl
  | cons m modules ih => rw [List.mapM_cons, ih]; rfl

end ModularEncryption
