import ModularEncryption.ColumnCiphers
import ModularEncryption.Write.Settings

/-! # Settings that a writer can follow

A column encrypted with the key of the footer needs a footer with a key. Settings for which this
holds of every column, listed or not, can be followed (`WriteSettings.Keyed`), and every draft that
is accepted amounts to such settings (`keyed_of_build`). They give each column its ciphers
(`WriteSettings.ciphers?`), none exactly where the column is left in plaintext
(`isSome_ciphers?`). -/

namespace ModularEncryption

theorem Table.mem_values_of_get? {κ α : Type} [DecidableEq κ] {t : Table κ α} {k : κ} {a : α}
    (h : t.get? k = some a) : a ∈ t.values := by
  obtain ⟨before, after, hsplit, -⟩ := List.lookup_eq_some_iff.mp h
  unfold Table.values
  rw [hsplit]
  simp

namespace ColumnSettings

theorem usesFooterKey_iff {c : ColumnSettings} :
    c.usesFooterKey = true ↔ c.protection = .footerKey := by
  unfold usesFooterKey
  cases c.protection <;> simp

end ColumnSettings

namespace WriteSettings

/-- Where a column uses the key of the footer there is such a key. -/
def Keyed (s : WriteSettings) : Prop :=
  ∀ path, (s.column path).protection = .footerKey → ∃ key, s.footerKey? = some key

/-- The ciphers of a column; none, if it is left in plaintext. -/
def ciphers? (s : WriteSettings) (path : ColumnPath) : Option ColumnCiphers :=
  match (s.column path).protection with
  | .plaintext => none
  | .ownKey key _ => some (.ofKey s.algorithm.suite key)
  | .footerKey => s.footerKey?.map (.ofKey s.algorithm.suite)

theorem ciphers?_of_plaintext {s : WriteSettings} {path : ColumnPath}
    (h : (s.column path).protection = .plaintext) : s.ciphers? path = none := by
  simp only [ciphers?, h]

theorem ciphers?_of_ownKey {s : WriteSettings} {path : ColumnPath} {key : AesKey}
    {metadata : Option Bytes} (h : (s.column path).protection = .ownKey key metadata) :
    s.ciphers? path = some (.ofKey s.algorithm.suite key) := by
  simp only [ciphers?, h]

theorem ciphers?_of_footerKey {s : WriteSettings} {path : ColumnPath} {key : AesKey}
    (h : (s.column path).protection = .footerKey) (hkey : s.footerKey? = some key) :
    s.ciphers? path = some (.ofKey s.algorithm.suite key) := by
  simp only [ciphers?, h, hkey, Option.map_some]

theorem eq_ofKey_of_ciphers? {s : WriteSettings} {path : ColumnPath} {c : ColumnCiphers}
    (h : s.ciphers? path = some c) : ∃ key, c = .ofKey s.algorithm.suite key := by
  unfold ciphers? at h
  split at h
  · cases h
  · cases h
    exact ⟨_, rfl⟩
  · obtain ⟨key, -, rfl⟩ := Option.map_eq_some_iff.mp h
    exact ⟨key, rfl⟩

theorem isSome_ciphers? {s : WriteSettings} (hs : s.Keyed) (path : ColumnPath) :
    (s.ciphers? path).isSome = (s.column path).encrypted := by
  unfold ColumnSettings.encrypted
  cases h : (s.column path).protection with
  | plaintext => rw [ciphers?_of_plaintext h]; rfl
  | ownKey key metadata => rw [ciphers?_of_ownKey h]; rfl
  | footerKey =>
    obtain ⟨key, hkey⟩ := hs path h
    rw [ciphers?_of_footerKey h hkey]
    rfl

/-- The settings of a footer without a key may name no column that needs one. -/
theorem keyed_of_columns {s : WriteSettings} (hrest : s.encryptTheRest = false)
    (hcolumns : ∀ c ∈ s.columns.values, c.usesFooterKey = false) : s.Keyed := by
  intro path hpath
  unfold column at hpath
  cases hget : s.columns.get? path with
  | none =>
    rw [hget, hrest] at hpath
    cases hpath
  | some c =>
    rw [hget, Option.getD_some] at hpath
    have huses := ColumnSettings.usesFooterKey_iff.mpr hpath
    rw [hcolumns c (Table.mem_values_of_get? hget)] at huses
    cases huses

end WriteSettings

namespace WriteDraft

theorem of_checkPlaintextFooter {d : WriteDraft} {footer : FooterProtection}
    (h : d.checkPlaintextFooter = .ok footer) :
    d.encryptTheRest = false ∧ ∀ c ∈ d.columns.values, c.usesFooterKey = false := by
  obtain ⟨_, hcheck, -⟩ := bind_eq_ok_iff.mp h
  obtain ⟨_, hrest, hcheck⟩ := bind_eq_ok_iff.mp hcheck
  obtain ⟨_, -, hcheck⟩ := bind_eq_ok_iff.mp hcheck
  obtain ⟨_, hcolumn, -⟩ := bind_eq_ok_iff.mp hcheck
  refine ⟨by simpa using refuseIf_eq_ok_iff.mp hrest, ?_⟩
  cases hfind : d.columns.values.find? (·.usesFooterKey) with
  | none => simpa using List.find?_eq_none.mp hfind
  | some c => rw [hfind] at hcolumn; cases hcolumn

/-- A draft either has a key for its footer, or nothing in it needs one. -/
theorem of_check {d : WriteDraft} {footer : FooterProtection} (h : d.check = .ok footer) :
    (∃ key metadata, footer = .encrypted key metadata) ∨
      (d.encryptTheRest = false ∧ ∀ c ∈ d.columns.values, c.usesFooterKey = false) := by
  obtain ⟨_, -, h⟩ := bind_eq_ok_iff.mp h
  obtain ⟨key, -, h⟩ := bind_eq_ok_iff.mp h
  cases key with
  | none => exact .inr (of_checkPlaintextFooter h)
  | some key =>
    obtain ⟨_, -, h⟩ := bind_eq_ok_iff.mp h
    obtain ⟨_, -, h⟩ := bind_eq_ok_iff.mp h
    cases h
    exact .inl ⟨key, _, rfl⟩

theorem of_build {d : WriteDraft} {e e' : Entropy} {s : WriteSettings}
    (h : d.build e = (.ok s, e')) :
    d.check = .ok s.footer ∧ s.columns = d.columns ∧ s.encryptTheRest = d.encryptTheRest := by
  cases hcheck : d.check with
  | error e =>
    simp only [build, hcheck] at h
    cases h
  | ok footer =>
    simp only [build, hcheck] at h
    cases h
    exact ⟨rfl, rfl, rfl⟩

/-- **Settings that were accepted can be followed.** -/
theorem keyed_of_build {d : WriteDraft} {e e' : Entropy} {s : WriteSettings}
    (h : d.build e = (.ok s, e')) : s.Keyed := by
  obtain ⟨hcheck, hcolumns, hrest⟩ := of_build h
  rcases of_check hcheck with ⟨key, metadata, hfooter⟩ | ⟨hd, huses⟩
  · intro path _
    exact ⟨key, by rw [WriteSettings.footerKey?, hfooter]⟩
  · exact WriteSettings.keyed_of_columns (hrest.trans hd) (by rwa [hcolumns])

end WriteDraft

end ModularEncryption
