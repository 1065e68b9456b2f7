import Mathlib.Data.List.Forall2
import ModularEncryption.Proofs.File.Layout
import ModularEncryption.Proofs.Write.File

/-! # Writing a whole file

A writer writes a file chunk by chunk and its footer last (`writeFile`). What it writes is described
by its settings alone (`WriteSettings.Stores`): no matter what it had kept, each chunk has the flags
and the metadata that the settings give its column, and its modules are encrypted with the column's
ciphers. A file whose ordinals and texts are not too large is written (`succeeds_writeFile`). -/

namespace ModularEncryption

namespace FileWriter

/-! ### The writer's run -/

/-- Writes a chunk. -/
def writeChunk (rowGroup : Nat) (chunk : PlainChunk) : Writing StoredChunk := do
  let c ← column chunk.path chunk.ordinal
  let w ← get
  let modules ←
    storeModules c.ciphers ⟨w.settings.fileAad, rowGroup, chunk.ordinal⟩ chunk.modules
  return ⟨⟨chunk.path, c.ciphers.isSome, c.usesFooterKey, c.keyMetadata, chunk.ordinal⟩, modules⟩

/-- Writes the chunks of a row group. -/
def writeChunks (rowGroup : Nat) : List PlainChunk → Writing (List StoredChunk)
  | [] => return []
  | chunk :: chunks => do
    let stored ← writeChunk rowGroup chunk
    let others ← writeChunks rowGroup chunks
    return stored :: others

/-- Writes row groups, which are numbered on. -/
def writeRowGroups : Nat → List (List PlainChunk) → Writing (List (List StoredChunk))
  | _, [] => return []
  | rowGroup, chunks :: rowGroups => do
    let stored ← writeChunks rowGroup chunks
    let others ← writeRowGroups (rowGroup + 1) rowGroups
    return stored :: others

/-- Writes a file. -/
def writeFile (file : PlainFile) : Writing StoredFile := do
  let rowGroups ← writeRowGroups 0 file.rowGroups
  let cipher ← footerCipher
  let s := (← get).settings
  let footer ← storeFooter cipher s.fileAad file.footerNonce file.footer
  return ⟨s.algorithm, s.encryptedFooter, s.footerKeyMetadata?, footer, rowGroups⟩

end FileWriter

/-! ### What settings make of a file -/

namespace WriteSettings

/-- The facts about a chunk's column that are stored with it. -/
def chunkFacts (s : WriteSettings) (chunk : PlainChunk) : ColumnFacts :=
  ⟨chunk.path, (s.column chunk.path).encrypted, (s.column chunk.path).usesFooterKey,
    (s.column chunk.path).keyMetadata?, chunk.ordinal⟩

/-- A chunk is stored under settings. -/
structure StoresChunk (s : WriteSettings) (rowGroup : Nat) (chunk : PlainChunk)
    (stored : StoredChunk) : Prop where
  facts_eq : stored.facts = s.chunkFacts chunk
  modules_eq : storeModules (s.ciphers? chunk.path) ⟨s.fileAad, rowGroup, chunk.ordinal⟩
    chunk.modules = .ok stored.modules

/-- Row groups, numbered from some number on, are stored under settings. -/
inductive StoresRowGroups (s : WriteSettings) :
    Nat → List (List PlainChunk) → List (List StoredChunk) → Prop where
  | nil {rowGroup : Nat} : StoresRowGroups s rowGroup [] []
  | cons {rowGroup : Nat} {chunks : List PlainChunk} {stored : List StoredChunk}
      {rowGroups : List (List PlainChunk)} {others : List (List StoredChunk)}
      (first : List.Forall₂ (s.StoresChunk rowGroup) chunks stored)
      (rest : StoresRowGroups s (rowGroup + 1) rowGroups others) :
      StoresRowGroups s rowGroup (chunks :: rowGroups) (stored :: others)

/-- **A file is stored under settings.** -/
structure Stores (s : WriteSettings) (file : PlainFile) (stored : StoredFile) : Prop where
  algorithm_eq : stored.algorithm = s.algorithm
  encryptedFooter_eq : stored.encryptedFooter = s.encryptedFooter
  footerKeyMetadata_eq : stored.footerKeyMetadata = s.footerKeyMetadata?
  footer_eq : storeFooter (s.footerKey?.map (⟨.gcm, ·⟩)) s.fileAad file.footerNonce file.footer =
    .ok stored.footer
  rowGroups : s.StoresRowGroups 0 file.rowGroups stored.rowGroups

end WriteSettings

/-! ### What can be written -/

/-- A chunk that settings admit: its ordinals are not too large, and the texts that are encrypted
are short enough. -/
structure PlainChunk.Admissible (chunk : PlainChunk) (s : WriteSettings) : Prop where
  ordinal : chunk.ordinal ≤ maxOrdinal
  pages : ∀ m ∈ chunk.modules, m.page ≤ maxOrdinal
  texts : (s.column chunk.path).encrypted = true →
    ∀ m ∈ chunk.modules, Admitted (s.algorithm.suite.modeOf m.kind) m.text

/-- The columns of a file, as its first row group names them. -/
def PlainFile.paths (file : PlainFile) : List ColumnPath :=
  (file.rowGroups.headD []).map (·.path)

/-- A file that settings admit: its chunks are admitted, the first row group names each column once
and the others none besides, and the footer is short enough if it is encrypted. -/
structure PlainFile.Admissible (file : PlainFile) (s : WriteSettings) : Prop where
  footer : s.encryptedFooter = true → Admitted .gcm file.footer
  rowGroups : file.rowGroups.length ≤ maxOrdinal + 1
  nodup_paths : file.paths.Nodup
  mem_paths : ∀ chunks ∈ file.rowGroups, ∀ chunk ∈ chunks, chunk.path ∈ file.paths
  chunks : ∀ chunks ∈ file.rowGroups, ∀ chunk ∈ chunks, chunk.Admissible s

variable {s : WriteSettings} {w : FileWriter}

theorem exists_storeModules_of_admissible (hs : s.Keyed) {chunk : PlainChunk} {rowGroup : Nat}
    (hrowGroup : rowGroup ≤ maxOrdinal) (hchunk : chunk.Admissible s) :
    ∃ stored, storeModules (s.ciphers? chunk.path) ⟨s.fileAad, rowGroup, chunk.ordinal⟩
      chunk.modules = .ok stored := by
  cases hciphers : s.ciphers? chunk.path with
  | none => exact ⟨_, storeModules_none _ _⟩
  | some c =>
    obtain ⟨key, rfl⟩ := WriteSettings.eq_ofKey_of_ciphers? hciphers
    have hencrypted : (s.column chunk.path).encrypted = true := by
      rw [← WriteSettings.isSome_ciphers? hs, hciphers]
      rfl
    exact exists_storeModules hrowGroup hchunk.ordinal fun m hm =>
      ⟨hchunk.pages m hm, hchunk.texts hencrypted m hm⟩

namespace FileWriter

theorem succeeds_writeChunk (h : w.Follows s) (hs : s.Keyed) {rowGroup : Nat} {chunk : PlainChunk}
    (hrowGroup : rowGroup ≤ maxOrdinal) (hchunk : chunk.Admissible s) :
    Succeeds (writeChunk rowGroup chunk) w fun stored w' =>
      s.StoresChunk rowGroup chunk stored ∧ w'.Follows s := by
  obtain ⟨modules, hmodules⟩ := exists_storeModules_of_admissible hs hrowGroup hchunk
  refine (succeeds_column h hs chunk.path chunk.ordinal).bind ?_
  rintro c w' ⟨hc, hw'⟩
  refine Succeeds.get_bind ?_
  rw [hw'.settings_eq, hc.ciphers_eq]
  refine Succeeds.lift_bind hmodules (Succeeds.pure ⟨⟨?_, hmodules⟩, hw'⟩)
  rw [WriteSettings.isSome_ciphers? hs, hc.usesFooterKey_eq, hc.keyMetadata_eq]
  rfl

theorem succeeds_writeChunks (hs : s.Keyed) {rowGroup : Nat} (hrowGroup : rowGroup ≤ maxOrdinal)
    {chunks : List PlainChunk} (hchunks : ∀ chunk ∈ chunks, chunk.Admissible s) :
    ∀ {w : FileWriter}, w.Follows s → Succeeds (writeChunks rowGroup chunks) w fun stored w' =>
      List.Forall₂ (s.StoresChunk rowGroup) chunks stored ∧ w'.Follows s := by
  induction chunks with
  | nil => exact fun h => Succeeds.pure ⟨.nil, h⟩
  | cons chunk chunks ih =>
    intro w h
    obtain ⟨hchunk, hchunks⟩ := List.forall_mem_cons.mp hchunks
    refine (succeeds_writeChunk h hs hrowGroup hchunk).bind ?_
    rintro stored w' ⟨hstored, hw'⟩
    refine (ih hchunks hw').bind ?_
    rintro others w'' ⟨hothers, hw''⟩
    exact Succeeds.pure ⟨.cons hstored hothers, hw''⟩

theorem succeeds_writeRowGroups (hs : s.Keyed) {rowGroups : List (List PlainChunk)}
    (hchunks : ∀ chunks ∈ rowGroups, ∀ chunk ∈ chunks, chunk.Admissible s) :
    ∀ {rowGroup : Nat} {w : FileWriter}, rowGroup + rowGroups.length ≤ maxOrdinal + 1 →
      w.Follows s → Succeeds (writeRowGroups rowGroup rowGroups) w fun stored w' =>
        s.StoresRowGroups rowGroup rowGroups stored ∧ w'.Follows s := by
  induction rowGroups with
  | nil => exact fun _ h => Succeeds.pure ⟨.nil, h⟩
  | cons chunks rowGroups ih =>
    intro rowGroup w hnumber h
    rw [List.length_cons] at hnumber
    obtain ⟨hfirst, hrest⟩ := List.forall_mem_cons.mp hchunks
    refine (succeeds_writeChunks hs (by omega) hfirst h).bind ?_
    rintro stored w' ⟨hstored, hw'⟩
    refine (ih hrest (by omega) hw').bind ?_
    rintro others w'' ⟨hothers, hw''⟩
    exact Succeeds.pure ⟨.cons hstored hothers, hw''⟩

/-- **A file that settings admit is written as they say.** -/
theorem succeeds_writeFile (h : w.Follows s) (hs : s.Keyed) {file : PlainFile}
    (hfile : file.Admissible s) :
    Succeeds (writeFile file) w fun stored w' => s.Stores file stored ∧ w'.Follows s := by
  refine (succeeds_writeRowGroups hs hfile.chunks (by have := hfile.rowGroups; omega) h).bind ?_
  rintro rowGroups w' ⟨hrowGroups, hw'⟩
  refine (succeeds_footerCipher hw').bind ?_
  rintro cipher w'' ⟨rfl, hw''⟩
  obtain ⟨footer, hfooter⟩ : ∃ footer, storeFooter (s.footerKey?.map (⟨.gcm, ·⟩)) s.fileAad
      file.footerNonce file.footer = .ok footer := by
    apply exists_storeFooter
    intro c hc
    obtain ⟨key, hkey, rfl⟩ := Option.map_eq_some_iff.mp hc
    exact hfile.footer (by rw [WriteSettings.encryptedFooter, hkey]; rfl)
  refine Succeeds.get_bind ?_
  rw [hw''.settings_eq]
  exact Succeeds.lift_bind hfooter (Succeeds.pure ⟨⟨rfl, rfl, rfl, hfooter, hrowGroups⟩, hw''⟩)

end FileWriter

end ModularEncryption
