import ModularEncryption.Proofs.Succeeds
import ModularEncryption.Proofs.Write.Settings
import ModularEncryption.Write.File

/-! # Writers keep to their settings

What a writer has kept from earlier steps is what it would make anew: its ciphers of the footer are
those of the footer's key, and its columns are set up as the settings say (`FileWriter.Follows`).
This holds at the beginning (`follows_start`) and every step keeps it; the steps of settings that
can be followed succeed, and hand out what the settings say (`succeeds_footerCipher`,
`succeeds_column`). -/

namespace ModularEncryption

/-- The modes in which a suite encrypts. -/
def CipherSuite.Uses (suite : CipherSuite) (mode : Mode) : Prop :=
  mode = suite.dataMode ∨ mode = suite.metadataMode

/-- A column is set up as settings say. -/
structure WriterColumn.Follows (c : WriterColumn) (s : WriteSettings) (path : ColumnPath) :
    Prop where
  path_eq : c.path = path
  usesFooterKey_eq : c.usesFooterKey = (s.column path).usesFooterKey
  keyMetadata_eq : c.keyMetadata = (s.column path).keyMetadata?
  ciphers_eq : c.ciphers = s.ciphers? path

namespace FileWriter

/-- What a writer has kept is as its settings say. -/
structure Follows (w : FileWriter) (s : WriteSettings) : Prop where
  settings_eq : w.settings = s
  kept : ∀ mode c, s.algorithm.suite.Uses mode → w.keptCipher mode = some c →
    ∃ key, s.footerKey? = some key ∧ c = ⟨mode, key⟩
  columns : ∀ path c, w.columns.get? path = some c → c.Follows s path

theorem follows_start (s : WriteSettings) : (start s).Follows s where
  settings_eq := rfl
  kept mode c _ h := by
    unfold keptCipher at h
    split at h <;> cases h
  columns path c h := by cases h

variable {w : FileWriter} {s : WriteSettings}

/-! ### The footer's ciphers -/

/-- Of the modes that a suite uses, each has its own cipher of the footer. -/
theorem eq_of_isDataMode_eq {mode mode' : Mode} (hmode : w.suite.Uses mode)
    (hmode' : w.suite.Uses mode') (h : w.isDataMode mode' = w.isDataMode mode) : mode' = mode := by
  unfold isDataMode at h
  unfold CipherSuite.Uses at hmode hmode'
  revert h hmode hmode'
  cases w.suite <;> cases mode <;> cases mode' <;>
    simp [CipherSuite.dataMode, CipherSuite.metadataMode]

theorem keptCipher_keep (w : FileWriter) (mode mode' : Mode) (c : FrameCipher) :
    (w.keep mode c).keptCipher mode' =
      if w.isDataMode mode' = w.isDataMode mode then some c else w.keptCipher mode' := by
  have hmode : (w.keep mode c).isDataMode mode' = w.isDataMode mode' := by
    unfold FileWriter.keep
    split <;> rfl
  unfold keptCipher
  rw [hmode]
  unfold FileWriter.keep
  cases w.isDataMode mode <;> cases w.isDataMode mode' <;> rfl

theorem Follows.keep (h : w.Follows s) {mode : Mode} {key : AesKey}
    (hmode : s.algorithm.suite.Uses mode) (hkey : s.footerKey? = some key) :
    (w.keep mode ⟨mode, key⟩).Follows s where
  settings_eq := by
    unfold FileWriter.keep
    split <;> exact h.settings_eq
  kept mode' c hmode' hkept := by
    have hsuite : w.suite = s.algorithm.suite := by rw [suite, h.settings_eq]
    rw [keptCipher_keep] at hkept
    split at hkept
    · next hsame =>
      cases hkept
      rw [eq_of_isDataMode_eq (hsuite ▸ hmode) (hsuite ▸ hmode') hsame]
      exact ⟨key, hkey, rfl⟩
    · exact h.kept mode' c hmode' hkept
  columns path c hget := by
    refine h.columns path c ?_
    unfold FileWriter.keep at hget
    split at hget <;> exact hget

/-- **The footer's cipher of a mode is that of the footer's key.** -/
theorem succeeds_footerCipherOf (h : w.Follows s) {mode : Mode} {key : AesKey}
    (hmode : s.algorithm.suite.Uses mode) (hkey : s.footerKey? = some key) :
    Succeeds (footerCipherOf mode) w fun c w' => c = ⟨mode, key⟩ ∧ w'.Follows s := by
  refine Succeeds.get_bind ?_
  cases hkept : w.keptCipher mode with
  | some c =>
    obtain ⟨key', hkey', rfl⟩ := h.kept mode c hmode hkept
    obtain rfl : key' = key := by rw [hkey] at hkey'; exact (Option.some.inj hkey').symm
    exact Succeeds.pure ⟨rfl, h⟩
  | none =>
    simp only [h.settings_eq, hkey]
    exact Succeeds.set_bind (Succeeds.pure ⟨rfl, h.keep hmode hkey⟩)

/-- **The cipher of the footer is that of its key**, and there is none without a key. -/
theorem succeeds_footerCipher (h : w.Follows s) :
    Succeeds footerCipher w fun c w' => c = s.footerKey?.map (⟨.gcm, ·⟩) ∧ w'.Follows s := by
  refine Succeeds.get_bind ?_
  simp only [h.settings_eq, WriteSettings.encryptedFooter]
  cases hkey : s.footerKey? with
  | none => exact Succeeds.pure ⟨rfl, h⟩
  | some key =>
    refine (succeeds_footerCipherOf h (.inr rfl) hkey).bind ?_
    rintro c w' ⟨rfl, hw'⟩
    exact Succeeds.pure ⟨rfl, hw'⟩

/-! ### Columns -/

theorem succeeds_columnCiphers (h : w.Follows s) (hs : s.Keyed) (path : ColumnPath) :
    Succeeds (columnCiphers (s.column path)) w fun c w' =>
      c = s.ciphers? path ∧ w'.Follows s := by
  refine Succeeds.get_bind ?_
  have hsuite : w.suite = s.algorithm.suite := by rw [suite, h.settings_eq]
  cases hpath : (s.column path).protection with
  | plaintext => exact Succeeds.pure ⟨(WriteSettings.ciphers?_of_plaintext hpath).symm, h⟩
  | ownKey key metadata =>
    refine Succeeds.pure ⟨?_, h⟩
    rw [WriteSettings.ciphers?_of_ownKey hpath, hsuite]
  | footerKey =>
    obtain ⟨key, hkey⟩ := hs path hpath
    rw [WriteSettings.ciphers?_of_footerKey hpath hkey]
    simp only [hsuite]
    refine (succeeds_footerCipherOf h (.inl rfl) hkey).bind ?_
    rintro data w' ⟨rfl, hw'⟩
    refine (succeeds_footerCipherOf hw' (.inr rfl) hkey).bind ?_
    rintro metadata w'' ⟨rfl, hw''⟩
    exact Succeeds.pure ⟨rfl, hw''⟩

theorem Follows.insert (h : w.Follows s) {path : ColumnPath} {c : WriterColumn}
    (hc : c.Follows s path) :
    FileWriter.Follows { w with columns := w.columns.insert path c } s where
  settings_eq := h.settings_eq
  kept := h.kept
  columns path' c' hget := by
    simp only [Table.get?_insert] at hget
    split at hget
    · next hpath => cases hget; exact hpath ▸ hc
    · exact h.columns path' c' hget

/-- **A column is set up as the settings say**, whether that was done now or before. -/
theorem succeeds_column (h : w.Follows s) (hs : s.Keyed) (path : ColumnPath) (ordinal : Nat) :
    Succeeds (column path ordinal) w fun c w' => c.Follows s path ∧ w'.Follows s := by
  refine Succeeds.get_bind ?_
  cases hget : w.columns.get? path with
  | some c => exact Succeeds.pure ⟨h.columns path c hget, h⟩
  | none =>
    simp only [h.settings_eq]
    refine (succeeds_columnCiphers h hs path).bind ?_
    rintro ciphers w' ⟨rfl, hw'⟩
    have hc : WriterColumn.Follows ⟨path, ordinal, (s.column path).usesFooterKey,
        (s.column path).keyMetadata?, s.ciphers? path⟩ s path := ⟨rfl, rfl, rfl, rfl⟩
    exact Succeeds.modify_bind (Succeeds.pure ⟨hc, hw'.insert hc⟩)

end FileWriter

end ModularEncryption
