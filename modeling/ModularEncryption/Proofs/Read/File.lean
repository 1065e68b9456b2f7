import ModularEncryption.Proofs.Read.Sources
import ModularEncryption.Proofs.Write.Settings

/-! # Readers arrive at the writer's settings

A reader whose sources find what a file calls for (`ReadSettings.Finds`) comes to agree with the
settings that the file was written with. What it records about the file, the ciphers that it keeps
and what it grants for each column are those of the settings, but that a column with a key of its
own may be hidden (`ColumnGrant`). The agreement (`FileReader.Agrees`) begins with the facts about
the file (`setFile_start`) and is kept by the reading of the footer (`footer_eq`) and by every
column (`registerColumn_new`); what was registered stays (`FileReader.Extends`). -/

namespace ModularEncryption

variable {σ : Type} {answer : Answering σ} {s : ReadSettings} {ws : WriteSettings}

/-- The sources find what a file with the writer's settings calls for; of a column with a key of its
own they may know nothing. -/
structure ReadSettings.Finds (s : ReadSettings) (answer : Answering σ) (ws : WriteSettings) :
    Prop where
  findsPrefix : s.FindsPrefix ws.algorithm.aadMetadata (ws.aadPrefix.getD [])
  footerKey : ∀ key metadata, ws.footer = .encrypted key metadata →
    ∀ world, s.FindsKey answer s.footerKey metadata world key
  columnKeys : ∀ path key metadata, (ws.column path).protection = .ownKey key metadata →
    ∀ world, s.FindsKey answer (s.columnKey? path) metadata world key ∨
      s.LacksKey answer (s.columnKey? path) metadata world

/-! ### Agreement -/

/-- What a reader grants for a column that is protected in some way. -/
inductive ColumnGrant (answer : Answering σ) (s : ReadSettings) (ws : WriteSettings)
    (path : ColumnPath) : ColumnProtection → ColumnAccess → Prop where
  | plaintext : ColumnGrant answer s ws path .plaintext .plaintext
  | footerKey {key : AesKey} (h : ws.footerKey? = some key) :
      ColumnGrant answer s ws path .footerKey (.footerKey (.ofKey ws.algorithm.suite key))
  | ownKey {key : AesKey} {metadata : Option Bytes} {world : σ}
      (h : s.FindsKey answer (s.columnKey? path) metadata world key) :
      ColumnGrant answer s ws path (.ownKey key metadata)
        (.ownKey (.ofKey ws.algorithm.suite key))
  | hidden {key : AesKey} {metadata : Option Bytes} {world : σ}
      (h : s.LacksKey answer (s.columnKey? path) metadata world) :
      ColumnGrant answer s ws path (.ownKey key metadata) .hidden

/-- A registered column is as the settings say. -/
def ReaderColumn.Agrees (c : ReaderColumn) (answer : Answering σ) (s : ReadSettings)
    (ws : WriteSettings) (path : ColumnPath) : Prop :=
  ColumnGrant answer s ws path (ws.column path).protection c.access

/-- What a file says about a column is what its settings say. -/
structure ColumnFacts.Agrees (f : ColumnFacts) (ws : WriteSettings) : Prop where
  encrypted_eq : f.encrypted = (ws.column f.path).encrypted
  withFooterKey_eq : f.withFooterKey = (ws.column f.path).usesFooterKey
  keyMetadata_eq : f.keyMetadata = (ws.column f.path).keyMetadata?

/-- What is recorded about a file is what its settings say. -/
structure FileFacts.Agrees (facts : FileFacts) (ws : WriteSettings) : Prop where
  algorithm_eq : facts.algorithm = ws.algorithm
  encryptedFooter_eq : facts.encryptedFooter = ws.encryptedFooter
  fileAad_eq : facts.fileAad = ws.fileAad
  footerKey : ∀ key, ws.footerKey? = some key → facts.footerKey = some key

namespace FileReader

/-- **A reader agrees with the settings of a file.** -/
structure Agrees (r : FileReader) (answer : Answering σ) (s : ReadSettings)
    (ws : WriteSettings) : Prop where
  settings_eq : r.settings = s
  file : ∃ facts, r.file = some facts ∧ facts.Agrees ws
  footerCipher : ∀ c key, r.footerCipher = some c → ws.footerKey? = some key → c = ⟨.gcm, key⟩
  footerColumnCiphers : ∀ c key, r.footerColumnCiphers = some c → ws.footerKey? = some key →
    c = .ofKey ws.algorithm.suite key
  columns : ∀ path c, r.columns.get? path = some c → c.Agrees answer s ws path

/-- The columns of a reader are those of another, and perhaps more. -/
def Extends (r' r : FileReader) : Prop :=
  ∀ path c, r.columns.get? path = some c → r'.columns.get? path = some c

theorem Extends.refl (r : FileReader) : r.Extends r := fun _ _ h => h

theorem Extends.trans {r r' r'' : FileReader} (h' : r''.Extends r') (h : r'.Extends r) :
    r''.Extends r := fun path c hc => h' path c (h path c hc)

theorem Extends.isSome_get? {r r' : FileReader} (h : r'.Extends r) {path : ColumnPath}
    (hregistered : (r.columns.get? path).isSome) : (r'.columns.get? path).isSome := by
  obtain ⟨c, hc⟩ := Option.isSome_iff_exists.mp hregistered
  rw [h path c hc]
  rfl

end FileReader

namespace ReaderColumn

variable {c : ReaderColumn} {path : ColumnPath}

theorem Agrees.encrypted_eq (h : c.Agrees answer s ws path) :
    c.encrypted = (ws.column path).encrypted := by
  unfold Agrees at h
  unfold ReaderColumn.encrypted ColumnSettings.encrypted
  generalize (ws.column path).protection = protection at h ⊢
  generalize c.access = access at h ⊢
  cases h <;> rfl

theorem Agrees.usesFooterKey_eq (h : c.Agrees answer s ws path) :
    c.usesFooterKey = (ws.column path).usesFooterKey := by
  unfold Agrees at h
  unfold ReaderColumn.usesFooterKey ColumnSettings.usesFooterKey
  generalize (ws.column path).protection = protection at h ⊢
  generalize c.access = access at h ⊢
  cases h <;> rfl

/-- A column that is not hidden has the writer's ciphers. -/
theorem Agrees.ciphers?_eq (h : c.Agrees answer s ws path) (hhidden : c.hidden = false) :
    c.ciphers? = ws.ciphers? path := by
  unfold Agrees at h
  unfold ReaderColumn.hidden at hhidden
  unfold ReaderColumn.ciphers?
  generalize hprotection : (ws.column path).protection = protection at h
  generalize c.access = access at h hhidden ⊢
  cases h with
  | plaintext => exact (WriteSettings.ciphers?_of_plaintext hprotection).symm
  | footerKey hkey => exact (WriteSettings.ciphers?_of_footerKey hprotection hkey).symm
  | ownKey => exact (WriteSettings.ciphers?_of_ownKey hprotection).symm
  | hidden => cases hhidden

/-- A hidden column has a key of its own that the sources do not know. -/
theorem Agrees.lacksKey (h : c.Agrees answer s ws path) (hhidden : c.hidden = true) :
    ∃ key metadata, (ws.column path).protection = .ownKey key metadata ∧
      ∃ world, s.LacksKey answer (s.columnKey? path) metadata world := by
  unfold Agrees at h
  unfold ReaderColumn.hidden at hhidden
  generalize (ws.column path).protection = protection at h ⊢
  generalize c.access = access at h hhidden
  cases h with
  | plaintext => cases hhidden
  | footerKey => cases hhidden
  | ownKey => cases hhidden
  | hidden hlacks => exact ⟨_, _, rfl, _, hlacks⟩

/-- The own key of a column that is not hidden was found. -/
theorem Agrees.findsKey (h : c.Agrees answer s ws path) (hhidden : c.hidden = false)
    {key : AesKey} {metadata : Option Bytes}
    (hkey : (ws.column path).protection = .ownKey key metadata) :
    ∃ world, s.FindsKey answer (s.columnKey? path) metadata world key := by
  unfold Agrees at h
  unfold ReaderColumn.hidden at hhidden
  rw [hkey] at h
  generalize c.access = access at h hhidden
  cases h with
  | ownKey hfinds => exact ⟨_, hfinds⟩
  | hidden => cases hhidden

end ReaderColumn

namespace FileReader

variable {r : FileReader}

/-- Two readers have the same columns. -/
structure SameColumns (r' r : FileReader) : Prop where
  columns_eq : r'.columns = r.columns
  columnsClosed_eq : r'.columnsClosed = r.columnsClosed

theorem SameColumns.trans {r r' r'' : FileReader} (h' : r''.SameColumns r')
    (h : r'.SameColumns r) : r''.SameColumns r :=
  ⟨h'.columns_eq.trans h.columns_eq, h'.columnsClosed_eq.trans h.columnsClosed_eq⟩

/-! ### The file and its footer -/

/-- **The facts about a file bring agreement.** -/
theorem setFile_start (hs : s.Finds answer ws) (world : σ) :
    ∃ r' world', ((start s).setFile ws.algorithm ws.encryptedFooter
        ws.footerKeyMetadata?).runWith answer world = ((.ok (), r'), world') ∧
      r'.Agrees answer s ws ∧ r'.SameColumns (start s) := by
  have hprefix := ReadSettings.resolvePrefix_of_findsPrefix hs.findsPrefix
  obtain ⟨footerKey, hfooterKey, hkey⟩ : ∃ footerKey,
      ((resolveFooterKey s ws.encryptedFooter ws.footerKeyMetadata?).runWith answer world).1 =
        .ok footerKey ∧ ∀ key, ws.footerKey? = some key → footerKey = some key := by
    cases hfooter : ws.footer with
    | encrypted key metadata =>
      have hencrypted : ws.encryptedFooter = true := by
        simp only [WriteSettings.encryptedFooter, WriteSettings.footerKey?, hfooter,
          Option.isSome_some]
      have hmetadata : ws.footerKeyMetadata? = metadata := by
        simp only [WriteSettings.footerKeyMetadata?, hfooter]
      rw [hencrypted, hmetadata]
      refine ⟨some key, ReadSettings.resolveFooterKey_of_findsKey
        (hs.footerKey key metadata hfooter world), fun key' hkey' => ?_⟩
      simpa only [WriteSettings.footerKey?, hfooter] using hkey'
    | plaintext signingKey metadata =>
      have hnone : ws.footerKey? = none := by simp only [WriteSettings.footerKey?, hfooter]
      have hreadable : ws.encryptedFooter = false := by
        simp only [WriteSettings.encryptedFooter, hnone, Option.isSome_none]
      rw [hreadable, ReadSettings.resolveFooterKey_of_readable]
      exact ⟨_, rfl, fun key hkey => by rw [hnone] at hkey; cases hkey⟩
  unfold setFile
  simp only [start, Asking.runWith_map, hfooterKey, hprefix]
  refine ⟨_, _, rfl, ⟨rfl, ⟨_, rfl, rfl, rfl, rfl, hkey⟩, ?_, ?_, ?_⟩, ⟨rfl, rfl⟩⟩
  · intro c key h
    cases h
  · intro c key h
    cases h
  · intro path c h
    cases h

theorem facts_eq (h : r.Agrees answer s ws) : ∃ facts, r.facts = .ok facts ∧ facts.Agrees ws := by
  obtain ⟨facts, hfile, hfacts⟩ := h.file
  refine ⟨facts, ?_, hfacts⟩
  unfold FileReader.facts
  rw [hfile]

theorem fileAad_eq (h : r.Agrees answer s ws) : r.fileAad = .ok ws.fileAad := by
  obtain ⟨facts, hfile, hfacts⟩ := facts_eq h
  unfold fileAad
  rw [hfile]
  exact congrArg Except.ok hfacts.fileAad_eq

theorem footerKey_eq (h : r.Agrees answer s ws) {key : AesKey} (hkey : ws.footerKey? = some key) :
    r.footerKey = .ok key := by
  obtain ⟨facts, hfile, hfacts⟩ := facts_eq h
  unfold footerKey
  rw [hfile]
  simp only [hfacts.footerKey key hkey]

/-- The facts about a file may be repeated. -/
theorem setFile_again (h : r.Agrees answer s ws) (encryptedFooter : Bool)
    (metadata : Option Bytes) (world : σ) :
    (r.setFile ws.algorithm encryptedFooter metadata).runWith answer world =
      ((.ok (), r), world) := by
  obtain ⟨facts, hfile, hfacts⟩ := h.file
  unfold setFile
  rw [hfile]
  simp only [hfacts.algorithm_eq, if_true]
  rfl

theorem keptFooterCipher_eq (h : r.Agrees answer s ws) {key : AesKey}
    (hkey : ws.footerKey? = some key) :
    ∃ r', r.keptFooterCipher = (.ok ⟨.gcm, key⟩, r') ∧ r'.Agrees answer s ws ∧
      r'.SameColumns r := by
  unfold keptFooterCipher
  cases hkept : r.footerCipher with
  | some c =>
    obtain rfl := h.footerCipher c key hkept hkey
    exact ⟨r, rfl, h, rfl, rfl⟩
  | none =>
    simp only [footerKey_eq h hkey]
    refine ⟨_, rfl, ⟨h.settings_eq, h.file, ?_, h.footerColumnCiphers, h.columns⟩, rfl, rfl⟩
    intro c key' hc hkey'
    cases hc
    rw [Option.some.inj (hkey.symm.trans hkey')]

/-- **The cipher of the footer is the writer's.** -/
theorem footer_eq (h : r.Agrees answer s ws) :
    ∃ r', r.footer = (.ok (ws.footerKey?.map (⟨.gcm, ·⟩)), r') ∧ r'.Agrees answer s ws ∧
      r'.SameColumns r := by
  obtain ⟨facts, hfile, hfacts⟩ := facts_eq h
  unfold footer
  simp only [hfile, hfacts.encryptedFooter_eq, WriteSettings.encryptedFooter]
  cases hkey : ws.footerKey? with
  | none => exact ⟨r, rfl, h, rfl, rfl⟩
  | some key =>
    obtain ⟨r', hr', hagrees, hsame⟩ := keptFooterCipher_eq h hkey
    rw [hr']
    exact ⟨r', rfl, hagrees, hsame⟩

/-! ### Columns -/

theorem keptColumnCiphers_eq (h : r.Agrees answer s ws) {key : AesKey} {facts : FileFacts}
    (hfacts : facts.Agrees ws) (hkey : ws.footerKey? = some key) :
    ∃ r', r.keptColumnCiphers facts key = (.ok (.ofKey ws.algorithm.suite key), r') ∧
      r'.Agrees answer s ws ∧ r'.SameColumns r := by
  unfold keptColumnCiphers
  cases hkept : r.footerColumnCiphers with
  | some c =>
    obtain rfl := h.footerColumnCiphers c key hkept hkey
    exact ⟨r, rfl, h, rfl, rfl⟩
  | none =>
    obtain ⟨r', hr', hagrees, hsame⟩ := keptFooterCipher_eq h hkey
    simp only [hr', hfacts.algorithm_eq]
    refine ⟨{ r' with footerColumnCiphers := some (.ofKey ws.algorithm.suite key) }, ?_,
      ⟨hagrees.settings_eq, hagrees.file, hagrees.footerCipher, ?_, hagrees.columns⟩,
      hsame.columns_eq, hsame.columnsClosed_eq⟩
    · cases ws.algorithm.suite <;> rfl
    · intro c key' hc hkey'
      cases hc
      rw [Option.some.inj (hkey.symm.trans hkey')]

theorem Agrees.insert (h : r.Agrees answer s ws) {path : ColumnPath} {c : ReaderColumn}
    (hc : c.Agrees answer s ws path) :
    FileReader.Agrees { r with columns := r.columns.insert path c } answer s ws where
  settings_eq := h.settings_eq
  file := h.file
  footerCipher := h.footerCipher
  footerColumnCiphers := h.footerColumnCiphers
  columns path' c' hget := by
    simp only [Table.get?_insert] at hget
    split at hget
    · next hpath => cases hget; exact hpath ▸ hc
    · exact h.columns path' c' hget

/-- **A column may be met again once the columns are closed.** -/
theorem registerColumn_again (h : r.Agrees answer s ws) {f : ColumnFacts} (hf : f.Agrees ws)
    {c : ReaderColumn} (hget : r.columns.get? f.path = some c) (hclosed : r.columnsClosed = true)
    (world : σ) : (r.registerColumn f).runWith answer world = ((.ok c, r), world) := by
  obtain ⟨facts, hfile, hfacts⟩ := facts_eq h
  have hc := h.columns f.path c hget
  unfold registerColumn revisitColumn
  simp only [hfile, hget, hclosed, hc.encrypted_eq, hc.usesFooterKey_eq, hf.encrypted_eq,
    hf.withFooterKey_eq, bne_self_eq_false, Bool.and_false, Bool.not_true, Bool.false_eq_true,
    if_false]
  rfl

/-- **A new column is granted what its protection calls for.** -/
theorem registerColumn_new (h : r.Agrees answer s ws) (hs : s.Finds answer ws) (hws : ws.Keyed)
    {f : ColumnFacts} (hf : f.Agrees ws) (hget : r.columns.get? f.path = none)
    (hclosed : r.columnsClosed = false) (world : σ) :
    ∃ c r' world', (r.registerColumn f).runWith answer world = ((.ok c, r'), world') ∧
      c.Agrees answer s ws f.path ∧ r'.Agrees answer s ws ∧
      r'.columns = r.columns.insert f.path c ∧ r'.columnsClosed = false := by
  obtain ⟨facts, hfile, hfacts⟩ := facts_eq h
  unfold registerColumn
  simp only [hfile, hget, hclosed, hf.encrypted_eq, hf.withFooterKey_eq,
    ColumnSettings.encrypted, ColumnSettings.usesFooterKey]
  cases hprotection : (ws.column f.path).protection with
  | plaintext =>
    have hc : ReaderColumn.Agrees ⟨f.path, f.ordinal, .plaintext⟩ answer s ws f.path := by
      unfold ReaderColumn.Agrees
      rw [hprotection]
      exact .plaintext
    exact ⟨_, _, world, rfl, hc, h.insert hc, rfl, hclosed⟩
  | footerKey =>
    obtain ⟨key, hkey⟩ := hws f.path hprotection
    obtain ⟨r', hr', hagrees, hsame⟩ := keptColumnCiphers_eq h hfacts hkey
    have hc : ReaderColumn.Agrees ⟨f.path, f.ordinal, .footerKey (.ofKey ws.algorithm.suite key)⟩
        answer s ws f.path := by
      unfold ReaderColumn.Agrees
      rw [hprotection]
      exact .footerKey hkey
    unfold addFooterKeyColumn
    simp only [footerKey_eq h hkey, hr']
    exact ⟨_, _, world, rfl, hc, hagrees.insert hc, by rw [← hsame.columns_eq],
      hsame.columnsClosed_eq.trans hclosed⟩
  | ownKey key metadata =>
    have hmetadata : f.keyMetadata = metadata := by
      rw [hf.keyMetadata_eq, ColumnSettings.keyMetadata?, hprotection]
    have hgrant : ∃ access, accessOfKey ws.algorithm.suite f.path
        ((resolveColumnKey s f).runWith answer world).1 = .ok access ∧
          ColumnGrant answer s ws f.path (.ownKey key metadata) access := by
      rcases hs.columnKeys f.path key metadata hprotection world with hfinds | hlacks
      · exact ⟨_, ReadSettings.accessOfKey_of_findsKey _ (hmetadata ▸ hfinds), .ownKey hfinds⟩
      · exact ⟨_, ReadSettings.accessOfKey_of_lacksKey _ (hmetadata ▸ hlacks), .hidden hlacks⟩
    obtain ⟨access, haccess, hgrant⟩ := hgrant
    have hc : ReaderColumn.Agrees ⟨f.path, f.ordinal, access⟩ answer s ws f.path := by
      unfold ReaderColumn.Agrees
      rw [hprotection]
      exact hgrant
    unfold addOwnKeyColumn
    simp only [h.settings_eq, hfacts.algorithm_eq, Bool.not_true, Bool.false_eq_true, if_false,
      Asking.runWith_map, haccess]
    exact ⟨_, _, _, rfl, hc, h.insert hc, rfl, hclosed⟩

end FileReader

end ModularEncryption
