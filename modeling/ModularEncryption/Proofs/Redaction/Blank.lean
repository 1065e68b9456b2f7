import ModularEncryption.Proofs.Write.Acceptance
import ModularEncryption.Read.Settings

/-! # Settings without the bytes of keys

Zeros in place of the bytes of a key keep nothing of it but the length (`Bytes.blank`,
`AesKey.blank`). What is chosen for a column, a writer or a reader can be blanked in this way, and
so can drafts and settings, in which everything else stays.

Blanking commutes with whatever is done on the way from choices to settings: a draft takes in the
blanked choices as its own blanked values, it is refused for the same reason, and what it amounts to
is blanked (`ColumnDraft.build_blank`, `WriteDraft.build_blank`, `ReadDraft.build_blank`). Listings
of settings are the same for blanked ones. -/

namespace ModularEncryption

/-- Zeros in place of the bytes. -/
def Bytes.blank (bs : Bytes) : Bytes := List.replicate bs.length 0

@[simp] theorem Bytes.length_blank (bs : Bytes) : (Bytes.blank bs).length = bs.length := by
  simp [Bytes.blank]

@[simp] theorem Bytes.blank_blank (bs : Bytes) : Bytes.blank (Bytes.blank bs) = Bytes.blank bs := by
  simp [Bytes.blank]

namespace Table

variable {κ α β : Type} [DecidableEq κ]

/-- The table with all values changed. -/
def mapValues (f : α → β) (t : Table κ α) : Table κ β := ⟨t.entries.map (Prod.map id f)⟩

@[simp] theorem get?_mapValues (f : α → β) (t : Table κ α) (k : κ) :
    (t.mapValues f).get? k = (t.get? k).map f := by
  obtain ⟨entries⟩ := t
  simp only [get?, mapValues]
  induction entries with
  | nil => rfl
  | cons e entries ih =>
    rw [List.map_cons, List.lookup_cons, List.lookup_cons, ih, Prod.map_fst, id]
    cases k == e.1 <;> rfl

@[simp] theorem contains_mapValues (f : α → β) (t : Table κ α) (k : κ) :
    (t.mapValues f).contains k = t.contains k := by
  simp [contains]

theorem insert_mapValues (f : α → β) (t : Table κ α) (k : κ) (a : α) :
    (t.mapValues f).insert k (f a) = (t.insert k a).mapValues f := by
  simp only [insert, mapValues, List.map_append, List.filter_map]
  rfl

omit [DecidableEq κ] in
@[simp] theorem keys_mapValues (f : α → β) (t : Table κ α) : (t.mapValues f).keys = t.keys := by
  simp [keys, mapValues]

omit [DecidableEq κ] in
theorem values_mapValues (f : α → β) (t : Table κ α) :
    (t.mapValues f).values = t.values.map f := by
  simp [values, mapValues]

omit [DecidableEq κ] in
theorem mapValues_mapValues_self {f : α → α} (h : ∀ a, f (f a) = f a) (t : Table κ α) :
    (t.mapValues f).mapValues f = t.mapValues f := by
  simp [mapValues, Function.comp_def, h]

end Table

namespace AesKey

/-- A key of zeros. -/
def blank (k : AesKey) : AesKey :=
  ⟨Bytes.blank k.bytes, by rw [Bytes.length_blank]; exact k.length_mem⟩

@[simp] theorem blank_blank (k : AesKey) : k.blank.blank = k.blank := by
  simp [blank]

@[simp] theorem listing_blank (k : AesKey) : k.blank.listing = k.listing := by
  simp [listing, length, blank]

/-- A key is taken or refused for its length alone. -/
theorem ofBytes_blank (bs : Bytes) : ofBytes (Bytes.blank bs) = blank <$> ofBytes bs := by
  by_cases h : bs.length ∈ validKeyLengths
  · rw [ofBytes_of_mem h, ofBytes_of_mem (by rwa [Bytes.length_blank])]
    rfl
  · have hempty : (Bytes.blank bs).isEmpty = bs.isEmpty := by
      cases bs <;> rfl
    rw [ofBytes_of_not_mem h, ofBytes_of_not_mem (by rwa [Bytes.length_blank]), hempty,
      Bytes.length_blank]
    rfl

theorem ofOption_blank (wrap : (length : Nat) → Error → Error) (given : Option Bytes) :
    ofOption wrap (given.map Bytes.blank) = Option.map blank <$> ofOption wrap given := by
  cases given with
  | none => rfl
  | some bs =>
    simp only [ofOption, Option.map_some, ofBytes_blank, Bytes.length_blank]
    cases ofBytes bs <;> rfl

theorem option_listing_blank (key : Option AesKey) :
    Text.Listing.option listing (key.map blank) = Text.Listing.option listing key := by
  cases key with
  | none => rfl
  | some k => simp [Text.Listing.option]

end AesKey

/-- Results that are mapped to the same are the same error, or values that are. -/
theorem cases_of_map_eq {ε α β γ : Type} {f : α → γ} {g : β → γ} {x : Except ε α}
    {y : Except ε β} (h : g <$> y = f <$> x) :
    (∃ e, x = .error e ∧ y = .error e) ∨ ∃ a b, x = .ok a ∧ y = .ok b ∧ g b = f a := by
  cases x with
  | error e =>
    cases y with
    | error e' => cases h; exact .inl ⟨e, rfl, rfl⟩
    | ok b => cases h
  | ok a =>
    cases y with
    | error e => cases h
    | ok b => exact .inr ⟨a, b, rfl, rfl, Except.ok.inj h⟩

theorem mapError_map {ε ε' α β : Type} (f : α → β) (g : ε → ε') (x : Except ε α) :
    (f <$> x).mapError g = f <$> x.mapError g := by
  cases x <;> rfl

theorem setOnce_map {α : Type} (f : α → α) (slot : Option α) (value : α) (what : OnceOnly)
    (conflicts : List Conflict) : setOnce (slot.map f) (f value) what conflicts =
      ((setOnce slot value what conflicts).1.map f, (setOnce slot value what conflicts).2) := by
  cases slot <;> rfl

/-! ### Columns -/

/-- The choice with a key of zeros. -/
def ColumnChoice.blank : ColumnChoice → ColumnChoice
  | .key bytes => .key (Bytes.blank bytes)
  | choice => choice

/-- The protection with a key of zeros. -/
def ColumnProtection.blank : ColumnProtection → ColumnProtection
  | .ownKey key metadata => .ownKey key.blank metadata
  | protection => protection

namespace ColumnSettings

/-- The settings with a key of zeros. -/
def blank (c : ColumnSettings) : ColumnSettings := { c with protection := c.protection.blank }

variable (c : ColumnSettings)

@[simp] theorem path_blank : c.blank.path = c.path := rfl

@[simp] theorem encrypted_blank : c.blank.encrypted = c.encrypted := by
  obtain ⟨path, protection⟩ := c
  cases protection <;> rfl

@[simp] theorem usesFooterKey_blank : c.blank.usesFooterKey = c.usesFooterKey := by
  obtain ⟨path, protection⟩ := c
  cases protection <;> rfl

@[simp] theorem listing_blank : c.blank.listing = c.listing := by
  obtain ⟨path, protection⟩ := c
  cases protection with
  | plaintext | footerKey => rfl
  | ownKey key metadata =>
    have hkey := AesKey.option_listing_blank (some key)
    simp only [listing, blank, ColumnProtection.blank, encrypted, key?, keyMetadata?]
    rw [← hkey]
    rfl

end ColumnSettings

namespace ColumnDraft

/-- The draft with a key of zeros. -/
def blank (d : ColumnDraft) : ColumnDraft := { d with key := d.key.map Bytes.blank }

variable (d : ColumnDraft)

theorem choose_blank (choice : ColumnChoice) :
    d.blank.choose choice.blank = (d.choose choice).blank := by
  cases choice with
  | encrypted _ | keyMetadata _ | keyId _ => rfl
  | key bytes =>
    simp only [choose, blank, ColumnChoice.blank, setOnce_map]

theorem foldl_choose_blank (choices : List ColumnChoice) :
    (choices.map ColumnChoice.blank).foldl choose d.blank = (choices.foldl choose d).blank := by
  rw [List.foldl_map]
  exact List.foldl_hom blank choose_blank

theorem ofChoices_blank (path : ColumnPath) (choices : List ColumnChoice) :
    ofChoices path (choices.map ColumnChoice.blank) = (ofChoices path choices).blank :=
  foldl_choose_blank { path } choices

theorem protection_blank (key : Option AesKey) :
    d.blank.protection (key.map AesKey.blank) = (d.protection key).blank := by
  unfold protection
  cases d with
  | mk path encrypted _ metadata _ =>
    cases encrypted <;> cases key <;> rfl

/-- **A column is built with a key of zeros as it is with any key of that length.** -/
theorem build_blank : d.blank.build = ColumnSettings.blank <$> d.build := by
  have hkey : d.blank.key = d.key.map Bytes.blank := rfl
  simp only [build, map_bind, map_pure, hkey, Option.isSome_map, Option.isNone_map,
    checkKey, AesKey.ofOption_blank, mapError_map, bind_map_left, protection_blank]
  rfl

end ColumnDraft

/-! ### Writers -/

/-- The choice with keys of zeros. -/
def WriteChoice.blank : WriteChoice → WriteChoice
  | .footerKey bytes => .footerKey (Bytes.blank bytes)
  | .footerSigningKey bytes => .footerSigningKey (Bytes.blank bytes)
  | .column c => .column c.blank
  | .columns cs => .columns (cs.map ColumnSettings.blank)
  | choice => choice

/-- The protection with a key of zeros. -/
def FooterProtection.blank : FooterProtection → FooterProtection
  | .encrypted key metadata => .encrypted key.blank metadata
  | .plaintext key metadata => .plaintext (key.map AesKey.blank) metadata

namespace WriteSettings

/-- The settings with keys of zeros. -/
def blank (s : WriteSettings) : WriteSettings :=
  { s with footer := s.footer.blank, columns := s.columns.mapValues ColumnSettings.blank }

theorem columnsListing_blank (columns : Table ColumnPath ColumnSettings) :
    columnsListing (columns.mapValues ColumnSettings.blank) = columnsListing columns := by
  simp only [columnsListing, Table.mapValues, List.map_map]
  congr 2
  funext ⟨path, c⟩
  simp [Prod.map]

@[simp] theorem listing_blank (s : WriteSettings) : s.blank.listing = s.listing := by
  have hkey : s.blank.footerKey? = s.footerKey?.map AesKey.blank := by
    cases hfooter : s.footer <;> simp [blank, footerKey?, hfooter, FooterProtection.blank]
  have hsigning : s.blank.footerSigningKey? = s.footerSigningKey?.map AesKey.blank := by
    cases hfooter : s.footer <;> simp [blank, footerSigningKey?, hfooter, FooterProtection.blank]
  have hmetadata : s.blank.footerKeyMetadata? = s.footerKeyMetadata? := by
    cases hfooter : s.footer <;> simp [blank, footerKeyMetadata?, hfooter, FooterProtection.blank]
  have hsigningMetadata : s.blank.footerSigningKeyMetadata? = s.footerSigningKeyMetadata? := by
    cases hfooter : s.footer <;>
      simp [blank, footerSigningKeyMetadata?, hfooter, FooterProtection.blank]
  simp only [listing, hkey, hsigning, hmetadata, hsigningMetadata, AesKey.option_listing_blank]
  rw [blank, columnsListing_blank]
  rfl

end WriteSettings

namespace WriteDraft

/-- The draft with keys of zeros. -/
def blank (d : WriteDraft) : WriteDraft :=
  { d with
    footerKey := d.footerKey.map Bytes.blank
    footerSigningKey := d.footerSigningKey.map Bytes.blank
    columns := d.columns.mapValues ColumnSettings.blank }

variable (d : WriteDraft)

theorem withColumn_blank (c : ColumnSettings) :
    d.blank.withColumn c.blank = (d.withColumn c).blank := by
  simp only [withColumn, blank, ColumnSettings.path_blank, Table.contains_mapValues,
    Table.insert_mapValues]

theorem withColumns_blank (cs : List ColumnSettings) :
    (cs.map ColumnSettings.blank).foldl withColumn d.blank = (cs.foldl withColumn d).blank := by
  rw [List.foldl_map]
  exact List.foldl_hom blank withColumn_blank

theorem choose_blank (choice : WriteChoice) :
    d.blank.choose choice.blank = (d.choose choice).blank := by
  cases choice with
  | suite _ | footerKeyMetadata _ | footerKeyId _ | footerSigningKeyMetadata _ | aadPrefix _
  | aadMetadata _ | encryptTheRest _ => rfl
  | footerKey bytes | footerSigningKey bytes =>
    simp only [choose, blank, WriteChoice.blank, setOnce_map]
  | column c => exact d.withColumn_blank c
  | columns cs => exact d.withColumns_blank cs

theorem chooseAll_blank (choices : List WriteChoice) :
    d.blank.chooseAll (choices.map WriteChoice.blank) = (d.chooseAll choices).blank := by
  rw [chooseAll, List.foldl_map]
  exact List.foldl_hom blank choose_blank

theorem chooseAll_start_blank (choices : List WriteChoice) :
    ({} : WriteDraft).chooseAll (choices.map WriteChoice.blank) =
      (({} : WriteDraft).chooseAll choices).blank :=
  chooseAll_blank {} choices

theorem refuseFooterKeyColumn_blank (c : Option ColumnSettings) :
    refuseFooterKeyColumn (c.map ColumnSettings.blank) = refuseFooterKeyColumn c := by
  cases c <;> rfl

theorem checkWithoutFooterKey_blank :
    d.blank.checkWithoutFooterKey = d.checkWithoutFooterKey := by
  have hvalues : d.blank.columns.values = d.columns.values.map ColumnSettings.blank :=
    Table.values_mapValues ..
  have huses : (fun c : ColumnSettings => c.usesFooterKey) ∘ ColumnSettings.blank =
      (·.usesFooterKey) := funext ColumnSettings.usesFooterKey_blank
  have hencrypted : (fun c : ColumnSettings => c.encrypted) ∘ ColumnSettings.blank =
      (·.encrypted) := funext ColumnSettings.encrypted_blank
  simp only [checkWithoutFooterKey, hvalues, List.find?_map, List.any_map, huses, hencrypted,
    refuseFooterKeyColumn_blank]
  rfl

/-- **A draft is checked with keys of zeros as it is with any keys of their lengths.** -/
theorem check_blank : d.blank.check = FooterProtection.blank <$> d.check := by
  have hkey : d.blank.footerKey = d.footerKey.map Bytes.blank := rfl
  have hsigning : d.blank.footerSigningKey = d.footerSigningKey.map Bytes.blank := rfl
  have hplaintext : d.blank.checkPlaintextFooter =
      FooterProtection.blank <$> d.checkPlaintextFooter := by
    simp only [checkPlaintextFooter, checkWithoutFooterKey_blank, hsigning, checkKey,
      AesKey.ofOption_blank, map_bind, map_pure, bind_map_left]
    rfl
  have hencrypted : ∀ key : AesKey, d.blank.checkEncryptedFooter key.blank =
      FooterProtection.blank <$> d.checkEncryptedFooter key := by
    intro key
    simp only [checkEncryptedFooter, hsigning, Option.isSome_map, map_bind, map_pure]
    rfl
  simp only [check, hkey, checkKey, AesKey.ofOption_blank, map_bind, bind_map_left]
  congr 1
  funext _
  congr 1
  funext key
  cases key with
  | none => exact hplaintext
  | some key => exact hencrypted key

/-- **A writer's settings are built with keys of zeros as with any keys of their lengths**, and
draw the same random bytes. -/
theorem build_blank (e : Entropy) :
    d.blank.build e = (WriteSettings.blank <$> (d.build e).1, (d.build e).2) := by
  rw [build_eq, build_eq, check_blank]
  cases d.check <;> rfl

end WriteDraft

/-! ### Readers -/

/-- The choice with keys of zeros. -/
def ReadChoice.blank : ReadChoice → ReadChoice
  | .footerKey bytes => .footerKey (Bytes.blank bytes)
  | .footerSigningKey bytes => .footerSigningKey (Bytes.blank bytes)
  | .columnKey path bytes => .columnKey path (Bytes.blank bytes)
  | .column c => .column { c with key := c.key.blank }
  | choice => choice

namespace ReadSettings

/-- The settings with keys of zeros. -/
def blank (s : ReadSettings) : ReadSettings :=
  { s with
    footerKey := s.footerKey.map AesKey.blank
    footerSigningKey := s.footerSigningKey.map AesKey.blank
    columnKeys := s.columnKeys.mapValues AesKey.blank }

@[simp] theorem listing_blank (s : ReadSettings) : s.blank.listing = s.listing := by
  simp [listing, blank, AesKey.option_listing_blank]

end ReadSettings

namespace ReadDraft

/-- The draft with keys of zeros. -/
def blank (d : ReadDraft) : ReadDraft :=
  { d with
    footerKey := d.footerKey.map Bytes.blank
    footerSigningKey := d.footerSigningKey.map Bytes.blank
    columnKeys := d.columnKeys.map (Prod.map id Bytes.blank) }

variable (d : ReadDraft)

theorem choose_blank (choice : ReadChoice) :
    d.blank.choose choice.blank = (d.choose choice).blank := by
  cases choice with
  | footerKey _ | footerSigningKey _ | retriever _ | aadPrefix _ | prefixLookup _
  | checkFooterIntegrity _ => rfl
  | columnKey _ _ | column _ =>
    simp only [choose, blank, ReadChoice.blank, List.map_append]
    rfl

theorem foldl_choose_blank (choices : List ReadChoice) :
    (choices.map ReadChoice.blank).foldl choose d.blank = (choices.foldl choose d).blank := by
  rw [List.foldl_map]
  exact List.foldl_hom blank choose_blank

theorem ofChoices_blank (choices : List ReadChoice) :
    ofChoices (choices.map ReadChoice.blank) = (ofChoices choices).blank :=
  foldl_choose_blank {} choices

theorem addColumnKeys_blank (entries : List (ColumnPath × Bytes)) :
    ∀ keys : Table ColumnPath AesKey,
      addColumnKeys (keys.mapValues AesKey.blank) (entries.map (Prod.map id Bytes.blank)) =
        Table.mapValues AesKey.blank <$> addColumnKeys keys entries := by
  induction entries with
  | nil => exact fun _ => rfl
  | cons entry entries ih =>
    intro keys
    obtain ⟨path, bytes⟩ := entry
    simp only [List.map_cons, Prod.map, id, addColumnKeys, ColumnKey.ofBytes,
      AesKey.ofBytes_blank]
    cases AesKey.ofBytes bytes with
    | error e => rfl
    | ok key =>
      show (if (keys.mapValues AesKey.blank).contains path = true then _ else
        addColumnKeys ((keys.mapValues AesKey.blank).insert path key.blank) _) = _
      rw [Table.contains_mapValues, Table.insert_mapValues, ih]
      split <;> rfl

/-- **A reader's settings are built with keys of zeros as with any keys of their lengths.** -/
theorem build_blank : d.blank.build = ReadSettings.blank <$> d.build := by
  have hfooter : d.blank.footerKey = d.footerKey.map Bytes.blank := rfl
  have hsigning : d.blank.footerSigningKey = d.footerSigningKey.map Bytes.blank := rfl
  have hcolumns : addColumnKeys .empty d.blank.columnKeys =
      Table.mapValues AesKey.blank <$> addColumnKeys .empty d.columnKeys :=
    addColumnKeys_blank d.columnKeys .empty
  have hempty : d.blank.columnKeys.isEmpty = d.columnKeys.isEmpty := List.isEmpty_map
  simp only [build, hfooter, hsigning, hcolumns, hempty, Option.isNone_map, checkKey,
    AesKey.ofOption_blank, map_bind, map_pure, bind_map_left]
  rfl

end ReadDraft

end ModularEncryption
