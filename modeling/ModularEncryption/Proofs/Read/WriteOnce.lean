import ModularEncryption.Proofs.Read.File
import ModularEncryption.Proofs.Read.Requests

/-! # What is recorded stays

Whatever a reader is asked, in whatever order, and whatever retrievers answer, it changes nothing
that it has recorded: the facts about the file, the columns, that the columns are closed, and the
signing key (`FileReader.Remembers`). One request leaves what was recorded (`Advances.remembers`),
because each thing that a request can do either has nothing to do with the records or is done only
where nothing is recorded yet. So does a whole run (`leads_remembers`), and its phase never goes
back (`Remembers.rank_le`); `recorded_stays` says what follows for all that a reader can be asked
about.

What every reader is like at any time (`FileReader.Sound`) goes along with it: before the file is
recorded there are no columns, and each column stands under its own path. -/

namespace ModularEncryption

/-- The place of a phase in the order in which a reader goes through them. -/
def Phase.rank : Phase → Nat
  | .uninitialized => 0
  | .metadataProcessed => 1
  | .columnsRegistering => 2
  | .columnsFinalized => 3

theorem Phase.rank_le (p : Phase) : p.rank ≤ Phase.columnsFinalized.rank := by
  cases p <;> decide

/-- A table is empty if no key has a value. -/
theorem Table.isEmpty_entries_iff {κ α : Type} [DecidableEq κ] {t : Table κ α} :
    t.entries.isEmpty = true ↔ ∀ k, t.get? k = none := by
  obtain ⟨entries⟩ := t
  cases entries with
  | nil => simp [get?]
  | cons e entries =>
    refine ⟨fun h => (by cases h), fun h => ?_⟩
    have hfirst := h e.1
    simp [get?] at hfirst

namespace FileReader

variable {r r' r'' : FileReader}

/-! ### Readers at any time -/

/-- What a reader is like at any time. -/
structure Sound (r : FileReader) : Prop where
  kept : r.Kept
  columns_of_file_eq_none : r.file = none → r.columns = .empty
  path_eq : ∀ path c, r.columns.get? path = some c → c.path = path

theorem sound_start (s : ReadSettings) : (start s).Sound where
  kept := ⟨fun c hc => (by cases hc), fun c hc => (by cases hc)⟩
  columns_of_file_eq_none _ := rfl
  path_eq path c hc := by cases hc

/-- A reader stays sound, whatever it is asked. -/
theorem Sound.advances (h : r.Sound) {request : ReaderRequest} (hr' : r.Advances request r') :
    r'.Sound := by
  cases hr' with
  | refills _ hr' =>
    refine ⟨hr'.kept, ?_, ?_⟩
    · rw [hr'.file_eq, hr'.columns_eq]
      exact h.columns_of_file_eq_none
    · rw [hr'.columns_eq]
      exact h.path_eq
  | records _ hnone facts =>
    obtain ⟨hfooter, hcolumns⟩ := h.kept.of_file_eq_none hnone
    refine ⟨⟨fun c hc => ?_, fun c hc => ?_⟩, fun hfile => (by cases hfile), h.path_eq⟩
    · rw [hfooter] at hc
      cases hc
    · rw [hcolumns] at hc
      cases hc
  | @registers r₁ facts c hr₁ ha access =>
    refine ⟨hr₁.kept.congr rfl rfl rfl, fun hfile => ?_, fun path column hget => ?_⟩
    · rw [hr₁.file_eq, ha.file_eq] at hfile
      cases hfile
    · rw [hr₁.columns_eq, Table.get?_insert] at hget
      split at hget
      · next hpath => cases hget; exact hpath.symm
      · exact h.path_eq path column hget
  | closes => exact ⟨h.kept.congr rfl rfl rfl, h.columns_of_file_eq_none, h.path_eq⟩
  | findsSigningKey _ _ key =>
    exact ⟨h.kept.congr rfl rfl rfl, h.columns_of_file_eq_none, h.path_eq⟩

theorem Sound.moves (h : r.Sound) (hr' : r.Moves r') : r'.Sound := by
  cases hr' with
  | perform hr' => exact h.advances (advances_of_perform h.kept hr')
  | lookingUp lookup => exact ⟨h.kept.congr rfl rfl rfl, h.columns_of_file_eq_none, h.path_eq⟩

theorem Sound.leads (h : r.Sound) (hr' : Leads r r') : r'.Sound := by
  induction hr' with
  | refl => exact h
  | tail _ hmoves ih => exact ih.moves hmoves

theorem phase_eq_columnsFinalized_iff :
    r.phase = .columnsFinalized ↔ r.file.isSome = true ∧ r.columnsClosed = true := by
  unfold phase
  cases r.file with
  | none => simp
  | some facts =>
    cases r.columnsClosed with
    | true => simp
    | false => cases r.columns.entries.isEmpty <;> simp

/-- A registered column is found. -/
theorem column_of_get? (h : r.Sound) {path : ColumnPath} {c : ReaderColumn}
    (hget : r.columns.get? path = some c) : r.column path = .ok c := by
  cases hfile : r.file with
  | none =>
    rw [h.columns_of_file_eq_none hfile] at hget
    cases hget
  | some facts => simp only [column, facts_eq_ok_iff.mpr hfile, hget]

/-- A column that is registered again is the one registered before. -/
theorem eq_of_registerColumn {c : ColumnFacts} {column again : ReaderColumn}
    (hget : r.columns.get? c.path = some column)
    (h : (r.registerColumn c).MayYield (.ok again, r')) : again = column := by
  have hnot : ∀ facts, ¬ r.Admits facts c.path := by
    intro facts ha
    rw [ha.new] at hget
    cases hget
  obtain ⟨result, heq, hresult⟩ := registerColumn_of_not_admits hnot
  rw [heq] at h
  cases h
  exact Option.some.inj ((hresult again rfl).symm.trans hget)

/-! ### What one step leaves -/

/-- **What a reader has recorded is still recorded later.** -/
structure Remembers (r' r : FileReader) : Prop where
  file : ∀ facts, r.file = some facts → r'.file = some facts
  columns : r'.Extends r
  closed : r.columnsClosed = true → r'.columnsClosed = true
  columns_of_closed : r.file.isSome = true → r.columnsClosed = true → r'.columns = r.columns
  signingKey : ∀ key, r.signingKey = some key → r'.signingKey = some key

theorem Remembers.refl (r : FileReader) : r.Remembers r :=
  ⟨fun _ h => h, .refl r, fun h => h, fun _ _ => rfl, fun _ h => h⟩

theorem Remembers.isSome_file (h : r'.Remembers r) (hfile : r.file.isSome = true) :
    r'.file.isSome = true := by
  obtain ⟨facts, hfacts⟩ := Option.isSome_iff_exists.mp hfile
  exact Option.isSome_iff_exists.mpr ⟨facts, h.file facts hfacts⟩

theorem Remembers.trans (h' : r''.Remembers r') (h : r'.Remembers r) : r''.Remembers r where
  file facts hfacts := h'.file facts (h.file facts hfacts)
  columns := h'.columns.trans h.columns
  closed hclosed := h'.closed (h.closed hclosed)
  columns_of_closed hfile hclosed :=
    (h'.columns_of_closed (h.isSome_file hfile) (h.closed hclosed)).trans
      (h.columns_of_closed hfile hclosed)
  signingKey key hkey := h'.signingKey key (h.signingKey key hkey)

/-- Readers with the same records remember each other. -/
theorem Remembers.of_eq (hfile : r'.file = r.file) (hcolumns : r'.columns = r.columns)
    (hclosed : r.columnsClosed = true → r'.columnsClosed = true)
    (hkey : ∀ key, r.signingKey = some key → r'.signingKey = some key) : r'.Remembers r where
  file facts hfacts := hfile.trans hfacts
  columns path c hc := by
    rw [hcolumns]
    exact hc
  closed := hclosed
  columns_of_closed _ _ := hcolumns
  signingKey := hkey

/-- **A request leaves what is recorded.** -/
theorem Advances.remembers {request : ReaderRequest} (h : r.Advances request r') :
    r'.Remembers r := by
  cases h with
  | refills _ hr' =>
    exact .of_eq hr'.file_eq hr'.columns_eq (fun h => hr'.columnsClosed_eq.trans h)
      (fun _ h => hr'.signingKey_eq.trans h)
  | records _ hnone facts =>
    refine ⟨fun facts' h => ?_, .refl r, fun h => h, fun _ _ => rfl, fun _ h => h⟩
    rw [hnone] at h
    cases h
  | @registers r₁ facts c hr₁ ha access =>
    refine ⟨fun facts' h => hr₁.file_eq.trans h, fun path column hget => ?_, fun h => ?_,
      fun _ h => ?_, fun _ h => hr₁.signingKey_eq.trans h⟩
    · -- the path of the new column had no column before
      have hne : path ≠ c.path := by
        rintro rfl
        rw [ha.new] at hget
        cases hget
      simp only [Table.get?_insert_of_ne _ _ hne, hr₁.columns_eq]
      exact hget
    · rw [ha.isOpen] at h
      cases h
    · rw [ha.isOpen] at h
      cases h
  | closes => exact .of_eq rfl rfl (fun _ => rfl) (fun _ h => h)
  | findsSigningKey _ hnone key =>
    refine .of_eq rfl rfl (fun h => h) (fun key' h => ?_)
    rw [hnone] at h
    cases h

theorem moves_remembers (h : r.Sound) (hr' : r.Moves r') : r'.Remembers r := by
  cases hr' with
  | perform hr' => exact (advances_of_perform h.kept hr').remembers
  | lookingUp lookup => exact .of_eq rfl rfl (fun h => h) (fun _ h => h)

/-! ### Whole runs -/

/-- **A run leaves what is recorded.** -/
theorem leads_remembers (h : r.Sound) (hr' : Leads r r') : r'.Remembers r := by
  induction hr' with
  | refl => exact .refl r
  | tail hrun hmoves ih =>
    exact (moves_remembers (h.leads hrun) hmoves).trans ih

theorem Extends.isEmpty_entries (h : r'.Extends r)
    (hempty : r'.columns.entries.isEmpty = true) : r.columns.entries.isEmpty = true := by
  refine Table.isEmpty_entries_iff.mpr fun path => ?_
  cases hget : r.columns.get? path with
  | none => rfl
  | some c =>
    have hsome := h path c hget
    rw [Table.isEmpty_entries_iff.mp hempty path] at hsome
    cases hsome

/-- **The phase of a reader never goes back.** -/
theorem Remembers.rank_le (h : r'.Remembers r) : r.phase.rank ≤ r'.phase.rank := by
  unfold phase
  cases hfile : r.file with
  | none => exact Nat.zero_le _
  | some facts =>
    simp only [h.file facts hfile, Option.isNone_some, Bool.false_eq_true, if_false]
    cases hclosed' : r'.columnsClosed with
    | true => exact Phase.rank_le _
    | false =>
      have hclosed : r.columnsClosed = false :=
        Bool.eq_false_iff.mpr fun h' => Bool.eq_false_iff.mp hclosed' (h.closed h')
      simp only [hclosed, Bool.false_eq_true, if_false]
      cases hempty' : r'.columns.entries.isEmpty with
      | true => simp only [h.columns.isEmpty_entries hempty', if_true, Nat.le_refl]
      | false =>
        split
        · exact Nat.le_succ _
        · exact Nat.le_refl _

/-- **What is recorded stays**, in every run from the beginning, whatever is asked and whatever
retrievers answer. The facts about the file stay; so does each column, and it is what a look-up and
every later registration give; once the columns are closed and the file is recorded, no path is
added; before the file is recorded there is none; a signing key stays and is what is replied; and
the phase does not go back. -/
theorem recorded_stays {s : ReadSettings} (h : Leads (start s) r) (h' : Leads r r') :
    (∀ facts, r.file = some facts → r'.file = some facts) ∧
    (∀ path column, r.columns.get? path = some column →
      column.path = path ∧ r'.columns.get? path = some column ∧ r'.column path = .ok column ∧
      ∀ c again r'', c.path = path → (r'.registerColumn c).MayYield (.ok again, r'') →
        again = column) ∧
    (r.phase = .columnsFinalized →
      ∀ path, (r'.columns.get? path).isSome = (r.columns.get? path).isSome) ∧
    (r.file = none → ∀ path, r.columns.get? path = none) ∧
    (∀ key, r.signingKey = some key → r'.signingKey = some key ∧
      ∀ metadata, r'.footerSigningKey metadata = .done (.ok (some key), r')) ∧
    r.phase.rank ≤ r'.phase.rank := by
  have hsound := (sound_start s).leads h
  have hremembers := leads_remembers hsound h'
  refine ⟨hremembers.file, fun path column hget => ?_, fun hphase path => ?_, fun hfile path => ?_,
    fun key hkey => ?_, hremembers.rank_le⟩
  · have hget' := hremembers.columns path column hget
    refine ⟨hsound.path_eq path column hget, hget', column_of_get? (hsound.leads h') hget', ?_⟩
    rintro c again r'' rfl hagain
    exact eq_of_registerColumn hget' hagain
  · obtain ⟨hfile, hclosed⟩ := phase_eq_columnsFinalized_iff.mp hphase
    rw [hremembers.columns_of_closed hfile hclosed]
  · rw [hsound.columns_of_file_eq_none hfile, Table.get?_empty]
  · have hkey' := hremembers.signingKey key hkey
    exact ⟨hkey', fun metadata => by rw [footerSigningKey, hkey']⟩

namespace Sample

/-- A key of ones. -/
def key : AesKey := ⟨List.replicate 16 1, by decide⟩

/-- A key of twos. -/
def ownKey : AesKey := ⟨List.replicate 24 2, by decide⟩

/-- Settings that give the keys of the footer and of the column `b`. -/
def keys : ReadSettings :=
  { footerKey := some key
    footerSigningKey := some key
    columnKeys := .ofList [(⟨["b"]⟩, ownKey)]
    retriever := none
    aadPrefix := none
    prefixLookup := none
    checkFooterIntegrity := true }

/-- A file that is encrypted throughout, its pages in counter mode. -/
def heading : FileHeading :=
  { algorithm := { suite := .aesGcmCtrV1, aadMetadata := none, aadFileUnique := [1, 2, 3] }
    encryptedFooter := true
    footerKeyMetadata := none }

/-- The column `a`, with the key of the footer. -/
def shared : ColumnFacts := ⟨⟨["a"]⟩, true, true, none, 0⟩

/-- The column `b`, with a key of its own. -/
def own : ColumnFacts := ⟨⟨["b"]⟩, true, false, none, 1⟩

/-- The column `c`, which cannot be read. -/
def unknown : ColumnFacts := ⟨⟨["c"]⟩, true, false, none, 2⟩

/-- Retrievers that know nothing. -/
def nobody : RetrieverRef → Bytes → KeyAnswer := fun _ _ => .error .clockOverflow

/-- Requests that end with the columns closed. -/
def first : List ReaderRequest :=
  [.setFile heading, .registerColumn shared, .registerColumn own, .closeColumns]

/-- Requests that only repeat, but for a new column. -/
def more : List ReaderRequest :=
  [.footer, .registerColumn own, .registerColumn unknown, .setFile heading]

end Sample

open Sample in
/-- A reader that has closed its columns and is asked more. -/
theorem recorded_stays_closed :
    Leads (start keys) (serve nobody (start keys) first) ∧
      Leads (serve nobody (start keys) first)
        (serve nobody (serve nobody (start keys) first) more) ∧
      (serve nobody (start keys) first).phase = .columnsFinalized ∧
      (serve nobody (serve nobody (start keys) first) more).column own.path =
        .ok ⟨own.path, 1, .ownKey (.ofKey .aesGcmCtrV1 ownKey)⟩ ∧
      ((serve nobody (serve nobody (start keys) first) more).columns.get?
        unknown.path).isSome = false ∧
      (serve nobody (serve nobody (start keys) first) more).signingKey = some key := by
  have hfirst := leads_serve nobody (start keys) first
  have hmore := leads_serve nobody (serve nobody (start keys) first) more
  obtain ⟨-, hcolumns, hclosed, -, hkey, -⟩ := recorded_stays hfirst hmore
  have hown : (serve nobody (start keys) first).columns.get? own.path =
      some ⟨own.path, 1, .ownKey (.ofKey .aesGcmCtrV1 ownKey)⟩ := rfl
  exact ⟨hfirst, hmore, rfl, (hcolumns _ _ hown).2.2.1, hclosed rfl unknown.path,
    (hkey key rfl).1⟩

end FileReader

end ModularEncryption
