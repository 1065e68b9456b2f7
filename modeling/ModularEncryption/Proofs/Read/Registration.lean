import ModularEncryption.Proofs.Read.Hidden
import ModularEncryption.Proofs.Read.WriteOnce

/-! # The table of registrations

What registering a column comes to is decided in a fixed order: by whether the file is recorded,
whether the path is registered, whether the columns are closed, and only then by what the file says
about the column (`RegistrationTable`). Most rows of the table ask nobody: either the reader refuses
and stays as it was (`FileReader.Refuses`), or it says at once which column it is. A column with a
key of its own is the one row in which a source decides (`OwnKeyOutcome`).

Two facts about every reader that a run can lead to carry the table. The ciphers that are kept are
those of the footer's key (`Sound.kept`), so a column with the footer's key gets the right ones. And
the key of the footer is known exactly if it was given or the footer is encrypted
(`knowsFooterKey_leads`), because an encrypted footer is not recorded without its key.

A column that is added keeps the flags with which it was registered (`Registered`), a hidden one
those of a key of its own; so the flags that a later registration must repeat are those of the first
one. -/

namespace ModularEncryption

variable {σ : Type}

namespace FileReader

open ReadSettings

variable {r r' : FileReader} {s : ReadSettings} {facts : FileFacts} {c : ColumnFacts}
  {answer : Answering σ} {world : σ}

/-! ### The key of the footer -/

/-- The key of the footer is the one that was given, and otherwise it is known exactly if the footer
is encrypted. -/
structure KnowsFooterKey (s : ReadSettings) (facts : FileFacts) : Prop where
  given : ∀ key, s.footerKey = some key → facts.footerKey = some key
  found_iff : s.footerKey = none → (facts.footerKey.isSome = true ↔ facts.encryptedFooter = true)

/-- A key of the footer that is found for an encrypted footer, or given. -/
theorem of_resolveFooterKey {encryptedFooter : Bool} {metadata : Option Bytes}
    {footerKey : Option AesKey}
    (h : (resolveFooterKey s encryptedFooter metadata).MayYield (.ok footerKey)) :
    (∀ key, s.footerKey = some key → footerKey = some key) ∧
      (s.footerKey = none → (footerKey.isSome = true ↔ encryptedFooter = true)) := by
  unfold resolveFooterKey at h
  cases hgiven : s.footerKey with
  | some key =>
    rw [hgiven] at h
    cases h
    exact ⟨fun _ heq => heq, nofun⟩
  | none =>
    refine ⟨nofun, fun _ => ?_⟩
    rw [hgiven] at h
    cases encryptedFooter with
    | false => cases h; simp
    | true =>
      -- only a retriever that is asked, and answers with a key, lets the file be recorded
      cases metadata with
      | none => cases h
      | some md =>
        cases hretriever : s.retriever with
        | none => simp only [hretriever] at h; cases h
        | some retriever =>
          simp only [hretriever, Bool.not_true, Bool.false_eq_true, if_false] at h
          obtain ⟨found, -, hfound⟩ := Asking.mayYield_map.mp h
          cases found with
          | error f => cases hfound
          | ok key => cases hfound; simp

/-- A file is recorded with the key of its footer. -/
theorem setFile_knowsFooterKey {algorithm : AlgorithmRecord} {encryptedFooter : Bool}
    {metadata : Option Bytes} {result : Except Failure Unit}
    (h : (r.setFile algorithm encryptedFooter metadata).MayYield (result, r')) :
    r'.file = r.file ∨ ∃ facts, r'.file = some facts ∧ KnowsFooterKey r.settings facts := by
  unfold setFile at h
  cases hfile : r.file with
  | some facts =>
    simp only [hfile] at h
    have hsame : r' = r := by split at h <;> (cases h; rfl)
    exact .inl (by rw [hsame, hfile])
  | none =>
    simp only [hfile] at h
    obtain ⟨resolved, hresolved, hresult⟩ := Asking.mayYield_map.mp h
    cases resolved with
    | error f => cases hresult; exact .inl hfile
    | ok footerKey =>
      obtain ⟨hgiven, hfound⟩ := of_resolveFooterKey hresolved
      simp only at hresult
      cases hresolved : resolvePrefix r.settings algorithm with
      | error e => rw [hresolved] at hresult; cases hresult; exact .inl hfile
      | ok aadPrefix =>
        rw [hresolved] at hresult
        cases hresult
        exact .inr ⟨_, rfl, hgiven, hfound⟩

/-- A request leaves the facts about the file, or records them with the key of the footer. -/
theorem perform_knowsFooterKey (h : r.Kept) {request : ReaderRequest}
    {reply : Except Failure ReaderReply} (hr' : (r.perform request).MayYield (reply, r')) :
    r'.file = r.file ∨ ∃ facts, r'.file = some facts ∧ KnowsFooterKey r.settings facts := by
  have hadvances := advances_of_perform h hr'
  cases hadvances with
  | refills _ hrefills => exact .inl hrefills.file_eq
  | records heading hnone facts =>
    obtain ⟨_, hresult⟩ := mayYield_reply hr'
    exact setFile_knowsFooterKey hresult
  | registers hrefills _ _ => exact .inl hrefills.file_eq
  | closes => exact .inl rfl
  | findsSigningKey _ _ _ => exact .inl rfl

theorem moves_settings (h : r.Kept) (hr' : r.Moves r') :
    r'.settings = { r.settings with prefixLookup := r'.settings.prefixLookup } := by
  cases hr' with
  | perform hperform => rw [(advances_of_perform h hperform).settings_eq]
  | lookingUp lookup => rfl

/-- **The key of the footer is known exactly if it was given or the footer is encrypted**, whatever
a run has led to. -/
theorem knowsFooterKey_leads (h : Leads (start s) r) :
    r.settings = { s with prefixLookup := r.settings.prefixLookup } ∧
      ∀ facts, r.file = some facts → KnowsFooterKey s facts := by
  induction h with
  | refl => exact ⟨rfl, nofun⟩
  | @tail r r' hrun hmoves ih =>
    obtain ⟨hsettings, hknows⟩ := ih
    have hkept : r.Kept := ((sound_start s).leads hrun).kept
    have hsettings' : r'.settings = { s with prefixLookup := r'.settings.prefixLookup } := by
      rw [moves_settings hkept hmoves, hsettings]
    refine ⟨hsettings', fun facts hfile => ?_⟩
    cases hmoves with
    | lookingUp lookup => exact hknows facts hfile
    | perform hperform =>
      rcases perform_knowsFooterKey hkept hperform with hsame | ⟨facts', hfacts', hfound⟩
      · exact hknows facts (hsame ▸ hfile)
      · obtain rfl : facts' = facts := Option.some.inj (hfacts'.symm.trans hfile)
        have hgiven : r.settings.footerKey = s.footerKey := by rw [hsettings]
        exact ⟨hgiven ▸ hfound.given, hgiven ▸ hfound.found_iff⟩

theorem KnowsFooterKey.exists_iff (h : KnowsFooterKey s facts) :
    (∃ key, facts.footerKey = some key) ↔
      s.footerKey.isSome = true ∨ facts.encryptedFooter = true := by
  rw [← Option.isSome_iff_exists]
  cases hgiven : s.footerKey with
  | some key => simp [h.given key hgiven]
  | none => simp [h.found_iff hgiven]

/-! ### Rows that ask nobody -/

/-- A registration is refused with an error of a kind; nobody is asked, and the reader stays as it
was. -/
def Refuses (r : FileReader) (c : ColumnFacts) (kind : ErrorKind) : Prop :=
  ∃ e, r.registerColumn c = .done (.error (.error e), r) ∧ e.kind = kind

/-- What the file says about a column now is what was recorded of it: whether it is encrypted, and
if it is, whether with the key of the footer. -/
def SameFlags (column : ReaderColumn) (c : ColumnFacts) : Prop :=
  column.encrypted = c.encrypted ∧ (c.encrypted = true → column.usesFooterKey = c.withFooterKey)

theorem refuses_of_noFile (hfile : r.file = none) : r.Refuses c .preconditionFailed := by
  refine ⟨{ cause := .noFileMetadata }, ?_, rfl⟩
  unfold registerColumn
  rw [facts_of_file_eq_none hfile]

section Recorded

variable (hfile : r.file = some facts)
include hfile

/-- A registered column is met again, before anything that the file says about it counts. -/
theorem registerColumn_of_registered {column : ReaderColumn}
    (hget : r.columns.get? c.path = some column) :
    r.registerColumn c = .done ((r.revisitColumn c column).mapError .error, r) := by
  unfold registerColumn
  simp only [facts_eq_ok_iff.mpr hfile, hget]

theorem refuses_twice {column : ReaderColumn} (hget : r.columns.get? c.path = some column)
    (hopen : r.columnsClosed = false) : r.Refuses c .dataInvalid := by
  rw [Refuses, registerColumn_of_registered hfile hget]
  unfold revisitColumn
  simp only [hopen, Bool.not_false, if_true]
  exact ⟨_, rfl, rfl⟩

/-- **A column that is met again as it was is the one that was registered**; its ordinal and the
metadata of its key do not count. -/
theorem registerColumn_of_sameFlags {column : ReaderColumn}
    (hget : r.columns.get? c.path = some column) (hclosed : r.columnsClosed = true)
    (hflags : SameFlags column c) : r.registerColumn c = .done (.ok column, r) := by
  obtain ⟨hencrypted, hfooterKey⟩ := hflags
  rw [registerColumn_of_registered hfile hget]
  unfold revisitColumn
  cases hc : c.encrypted with
  | false => simp [hclosed, hencrypted, hc, Except.mapError]
  | true => simp [hclosed, hencrypted, hc, hfooterKey hc, Except.mapError]

theorem refuses_changed {column : ReaderColumn} (hget : r.columns.get? c.path = some column)
    (hclosed : r.columnsClosed = true) (hflags : ¬ SameFlags column c) :
    r.Refuses c .reuseMismatch := by
  rw [Refuses, registerColumn_of_registered hfile hget]
  unfold revisitColumn
  by_cases hencrypted : column.encrypted = c.encrypted
  · -- then the column is encrypted, and with another key than it was
    have hkey : c.encrypted = true ∧ column.usesFooterKey ≠ c.withFooterKey := by
      by_contra hsame
      exact hflags ⟨hencrypted, fun htrue => by_contra fun hne => hsame ⟨htrue, hne⟩⟩
    simp only [hclosed, hencrypted, hkey.1, bne_self_eq_false, Bool.not_true, Bool.false_eq_true,
      if_false, Bool.true_and, bne_iff_ne, ne_eq, hkey.2, not_false_eq_true, if_true]
    exact ⟨_, rfl, rfl⟩
  · simp only [hclosed, Bool.not_true, Bool.false_eq_true, if_false, bne_iff_ne, ne_eq, hencrypted,
      not_false_eq_true, if_true]
    exact ⟨_, rfl, rfl⟩

theorem refuses_late (hnew : r.columns.get? c.path = none) (hclosed : r.columnsClosed = true) :
    r.Refuses c .unknownColumn := by
  unfold Refuses registerColumn
  simp only [facts_eq_ok_iff.mpr hfile, hnew, hclosed, if_true]
  exact ⟨_, rfl, rfl⟩

end Recorded

/-! ### New columns -/

theorem registerColumn_of_plaintext (ha : r.Admits facts c.path) (hplain : c.encrypted = false) :
    r.registerColumn c = .done (r.addColumn c .plaintext) := by
  unfold registerColumn
  simp only [facts_eq_ok_iff.mpr ha.file_eq, ha.new, ha.isOpen, hplain, Bool.false_eq_true,
    if_false, Bool.not_false, if_true]

/-- **A column with the key of the footer gets its ciphers if that key is known.** -/
theorem registerColumn_of_footerKey (h : r.Kept) (ha : r.Admits facts c.path)
    (hencrypted : c.encrypted = true) (hfooter : c.withFooterKey = true) {key : AesKey}
    (hkey : facts.footerKey = some key) :
    ∃ r₁ : FileReader, r₁.Refills r ∧ r.registerColumn c =
      .done (r₁.addColumn c (.footerKey (.ofKey facts.algorithm.suite key))) := by
  obtain ⟨r₁, hrefills, heq⟩ := registerColumn_of_admits h ha
  refine ⟨r₁, hrefills, ?_⟩
  rw [heq]
  unfold grantFor
  simp only [hencrypted, hfooter, hkey, Bool.not_true, Bool.false_eq_true, if_false, if_true]
  rfl

theorem refuses_of_noFooterKey (ha : r.Admits facts c.path) (hencrypted : c.encrypted = true)
    (hfooter : c.withFooterKey = true) (hkey : facts.footerKey = none) :
    r.Refuses c .missingKey := by
  have hfacts : r.facts = .ok facts := facts_eq_ok_iff.mpr ha.file_eq
  have hnone : r.footerKey = .error { cause := .noFooterKey } := by
    simp only [FileReader.footerKey, hfacts, hkey]
  unfold Refuses registerColumn
  simp only [hfacts, ha.new, ha.isOpen, hencrypted, hfooter, Bool.not_true, Bool.false_eq_true,
    if_false, if_true, addFooterKeyColumn, hnone]
  exact ⟨_, rfl, rfl⟩

/-- A reader after a new column was registered: the column carries the path, the ordinal and the
flags with which that was done, it stands under its path, and nothing else that is recorded has
changed. -/
structure Registered (r : FileReader) (c : ColumnFacts) (column : ReaderColumn)
    (r' : FileReader) : Prop where
  path_eq : column.path = c.path
  ordinal_eq : column.ordinal = c.ordinal
  sameFlags : SameFlags column c
  columns_eq : r'.columns = r.columns.insert c.path column
  settings_eq : r'.settings = r.settings
  file_eq : r'.file = r.file
  columnsClosed_eq : r'.columnsClosed = r.columnsClosed
  signingKey_eq : r'.signingKey = r.signingKey

/-- A column with a key of its own is readable or hidden, if it is granted anything. -/
theorem accessOfKey_cases {suite : CipherSuite} {path : ColumnPath}
    {answer : Except Failure (Option AesKey)} {access : ColumnAccess}
    (h : accessOfKey suite path answer = .ok access) :
    (∃ key, access = .ownKey (.ofKey suite key)) ∨ access = .hidden := by
  unfold accessOfKey at h
  split at h
  · cases h; exact .inl ⟨_, rfl⟩
  · cases h; exact .inr rfl
  · split at h
    · cases h; exact .inr rfl
    · cases h
  · cases h

/-- What a column is granted shows the flags that the file says it has. -/
theorem sameFlags_of_grantFor {access : ColumnAccess}
    (h : (grantFor s facts c).MayYield (.ok access)) :
    SameFlags ⟨c.path, c.ordinal, access⟩ c := by
  unfold grantFor at h
  cases hc : c.encrypted with
  | false =>
    rw [hc] at h
    cases h
    exact ⟨hc.symm, fun htrue => by rw [hc] at htrue; cases htrue⟩
  | true =>
    cases hfooter : c.withFooterKey with
    | true =>
      cases hkey : facts.footerKey with
      | none => simp only [hc, hfooter, hkey] at h; cases h
      | some key =>
        simp only [hc, hfooter, hkey] at h
        cases h
        exact ⟨hc.symm, fun _ => hfooter.symm⟩
    | false =>
      simp only [hc, hfooter, Bool.not_true, Bool.false_eq_true, if_false] at h
      obtain ⟨resolved, -, hresolved⟩ := Asking.mayYield_map.mp h
      rcases accessOfKey_cases hresolved with ⟨key, rfl⟩ | rfl
      · exact ⟨hc.symm, fun _ => hfooter.symm⟩
      · exact ⟨hc.symm, fun _ => hfooter.symm⟩

/-- **A new column is registered as the file says it is, and nothing else changes**; if it is not
registered, nothing does. -/
theorem registered_of_mayYield (h : r.Kept) (ha : r.Admits facts c.path)
    {result : Except Failure ReaderColumn} (hr' : (r.registerColumn c).MayYield (result, r')) :
    (∀ column, result = .ok column → r.Registered c column r') ∧
      ∀ f, result = .error f → r'.Refills r := by
  obtain ⟨r₁, hrefills, heq⟩ := registerColumn_of_admits h ha
  rw [heq] at hr'
  obtain ⟨granted, hgranted, hresult⟩ := Asking.mayYield_map.mp hr'
  cases granted with
  | error f =>
    cases hresult
    exact ⟨nofun, fun _ _ => hrefills⟩
  | ok access =>
    cases hresult
    refine ⟨fun column hcolumn => ?_, nofun⟩
    cases hcolumn
    refine ⟨rfl, rfl, sameFlags_of_grantFor hgranted, ?_, hrefills.settings_eq, hrefills.file_eq,
      hrefills.columnsClosed_eq, hrefills.signingKey_eq⟩
    exact congrArg (Table.insert · c.path _) hrefills.columns_eq

/-! ### The table -/

/-- What registering a new column with the key of the footer comes to: it gets the ciphers of that
key exactly if the key is known, because it was given or because the footer is encrypted. -/
structure FooterKeyOutcome (s : ReadSettings) (r : FileReader) (facts : FileFacts)
    (c : ColumnFacts) : Prop where
  known : (s.footerKey.isSome = true ∨ facts.encryptedFooter = true) →
    ∃ (key : AesKey) (r₁ : FileReader), facts.footerKey = some key ∧ r₁.Refills r ∧
      r.registerColumn c = .done (r₁.addColumn c (.footerKey (.ofKey facts.algorithm.suite key)))
  unknown : ¬ (s.footerKey.isSome = true ∨ facts.encryptedFooter = true) →
    r.Refuses c .missingKey

/-- **What registering a column comes to**, row by row, for a reader with settings `s` while
retrievers answer in a state: what is refused and why, what is returned, and what is added. The
settings are still those that the reader began with, but for the lookup of prefixes. There is one
row for a reader without a file, four for a column that is met again or comes too late, and three
for a new column while the columns are open; the last field says what a new column adds. -/
structure RegistrationTable (s : ReadSettings) (r : FileReader) (c : ColumnFacts)
    (answer : Answering σ) (world : σ) : Prop where
  settings_eq : r.settings = { s with prefixLookup := r.settings.prefixLookup }
  noFile : r.file = none → r.Refuses c .preconditionFailed
  twice : ∀ facts column, r.file = some facts → r.columns.get? c.path = some column →
    r.columnsClosed = false → r.Refuses c .dataInvalid
  again : ∀ facts column, r.file = some facts → r.columns.get? c.path = some column →
    r.columnsClosed = true → SameFlags column c → r.registerColumn c = .done (.ok column, r)
  changed : ∀ facts column, r.file = some facts → r.columns.get? c.path = some column →
    r.columnsClosed = true → ¬ SameFlags column c → r.Refuses c .reuseMismatch
  late : ∀ facts, r.file = some facts → r.columns.get? c.path = none → r.columnsClosed = true →
    r.Refuses c .unknownColumn
  plaintext : ∀ facts, r.Admits facts c.path → c.encrypted = false →
    r.registerColumn c = .done (r.addColumn c .plaintext)
  footerKey : ∀ facts, r.Admits facts c.path → c.encrypted = true → c.withFooterKey = true →
    r.FooterKeyOutcome s facts c
  ownKey : ∀ facts, r.Admits facts c.path → c.encrypted = true → c.withFooterKey = false →
    r.OwnKeyOutcome facts c answer world
  adds : ∀ column r', r.columns.get? c.path = none → r.outcome c answer world = (.ok column, r') →
    r.Registered c column r'

theorem mayYield_runWith (answer : Answering σ) {α : Type} (a : Asking α) (world : σ) :
    a.MayYield (a.runWith answer world).1 := by
  cases a with
  | done x => rfl
  | ask retriever metadata resume => exact ⟨_, rfl⟩

theorem footerKeyOutcome (h : r.Kept) (hknows : KnowsFooterKey s facts)
    (ha : r.Admits facts c.path) (hencrypted : c.encrypted = true)
    (hfooter : c.withFooterKey = true) : r.FooterKeyOutcome s facts c where
  known hknown := by
    obtain ⟨key, hkey⟩ := hknows.exists_iff.mpr hknown
    obtain ⟨r₁, hrefills, heq⟩ := registerColumn_of_footerKey h ha hencrypted hfooter hkey
    exact ⟨key, r₁, hkey, hrefills, heq⟩
  unknown hunknown := by
    have hkey : facts.footerKey = none := by
      rw [← Option.not_isSome_iff_eq_none, Option.isSome_iff_exists]
      exact fun hsome => hunknown (hknows.exists_iff.mp hsome)
    exact refuses_of_noFooterKey ha hencrypted hfooter hkey

/-- Only a new column that is admitted is ever registered under a path that has none. -/
theorem admits_of_ok {column : ReaderColumn} (hnew : r.columns.get? c.path = none)
    (h : (r.registerColumn c).MayYield (.ok column, r')) : ∃ facts, r.Admits facts c.path := by
  by_contra hnot
  obtain ⟨result, heq, hresult⟩ := registerColumn_of_not_admits (not_exists.mp hnot)
  rw [heq] at h
  cases h
  have hget := hresult column rfl
  rw [hnew] at hget
  cases hget

theorem registered_of_new (h : r.Kept) {column : ReaderColumn}
    (hnew : r.columns.get? c.path = none)
    (hr' : (r.registerColumn c).MayYield (.ok column, r')) : r.Registered c column r' := by
  obtain ⟨facts, ha⟩ := admits_of_ok hnew hr'
  exact (registered_of_mayYield h ha hr').1 column rfl

/-- Flags that were recorded are repeated exactly by those that say the same. -/
theorem SameFlags.iff {column : ReaderColumn} {first again : ColumnFacts}
    (h : SameFlags column first) : SameFlags column again ↔
      again.encrypted = first.encrypted ∧
        (first.encrypted = true → again.withFooterKey = first.withFooterKey) := by
  obtain ⟨hencrypted, hfooter⟩ := h
  unfold SameFlags
  rw [hencrypted]
  constructor
  · rintro ⟨hsame, hagain⟩
    exact ⟨hsame.symm, fun hfirst => (hagain (hsame ▸ hfirst)).symm.trans (hfooter hfirst)⟩
  · rintro ⟨hsame, hagain⟩
    exact ⟨hsame.symm, fun htrue => (hfooter (hsame ▸ htrue)).trans (hagain (hsame ▸ htrue)).symm⟩

/-- **The table of registrations holds for every reader that a run can lead to**, whatever was asked
and answered before. And a column that was registered is met again by every later reader whose
columns are closed exactly with the flags of its first registration, whether it was hidden or
not. -/
theorem registration_table (h : Leads (start s) r) (c : ColumnFacts) (answer : Answering σ)
    (world : σ) :
    r.RegistrationTable s c answer world ∧
    ∀ column r' r'', r.columns.get? c.path = none →
      (r.registerColumn c).MayYield (.ok column, r') → Leads r' r'' → r''.columnsClosed = true →
      ∀ again : ColumnFacts, again.path = c.path →
        ((again.encrypted = c.encrypted ∧
            (c.encrypted = true → again.withFooterKey = c.withFooterKey)) →
          r''.registerColumn again = .done (.ok column, r'')) ∧
        (¬ (again.encrypted = c.encrypted ∧
            (c.encrypted = true → again.withFooterKey = c.withFooterKey)) →
          r''.Refuses again .reuseMismatch) := by
  have hsound : r.Sound := (sound_start s).leads h
  obtain ⟨hsettings, hknows⟩ := knowsFooterKey_leads h
  constructor
  · exact {
      settings_eq := hsettings
      noFile := refuses_of_noFile
      twice := fun facts column hfile hget hopen => refuses_twice hfile hget hopen
      again := fun facts column hfile hget hclosed hflags =>
        registerColumn_of_sameFlags hfile hget hclosed hflags
      changed := fun facts column hfile hget hclosed hflags =>
        refuses_changed hfile hget hclosed hflags
      late := fun facts hfile hnew hclosed => refuses_late hfile hnew hclosed
      plaintext := fun facts ha hplain => registerColumn_of_plaintext ha hplain
      footerKey := fun facts ha hencrypted hfooter =>
        footerKeyOutcome hsound.kept (hknows facts ha.file_eq) ha hencrypted hfooter
      ownKey := fun facts ha hencrypted hown => ownKeyOutcome ha hencrypted hown answer world
      adds := fun column r' hnew houtcome => by
        have hyield := mayYield_runWith answer (r.registerColumn c) world
        rw [show ((r.registerColumn c).runWith answer world).1 = (.ok column, r') from houtcome]
          at hyield
        exact registered_of_new hsound.kept hnew hyield }
  · intro column r' r'' hnew hfirst hlater hclosed again hpath
    obtain ⟨facts, ha⟩ := admits_of_ok hnew hfirst
    have hregistered := registered_of_new hsound.kept hnew hfirst
    have hsound' : r'.Sound := by
      have hperform : (r.perform (.registerColumn c)).MayYield (.ok (.column column), r') :=
        Asking.mayYield_map.mpr ⟨_, hfirst, rfl⟩
      exact hsound.moves (.perform hperform)
    -- what was recorded then is still recorded when the column is met again
    have hremembers := leads_remembers hsound' hlater
    have hfile : r''.file = some facts :=
      hremembers.file facts (hregistered.file_eq.trans ha.file_eq)
    have hget : r''.columns.get? again.path = some column := by
      refine hremembers.columns again.path column ?_
      rw [hpath, hregistered.columns_eq, Table.get?_insert_self]
    have hiff : SameFlags column again ↔ _ := hregistered.sameFlags.iff
    constructor
    · intro hsame
      exact registerColumn_of_sameFlags hfile hget hclosed (hiff.mpr hsame)
    · intro hdiffers
      exact refuses_changed hfile hget hclosed (mt hiff.mp hdiffers)

namespace Sample

/-- Requests by which a column is registered as hidden before the columns are closed. -/
def hiddenFirst : List ReaderRequest :=
  [.setFile heading, .registerColumn unknown, .closeColumns]

/-- The reader that has a hidden column only. -/
def withHidden : FileReader := serve nobody (start keys) hiddenFirst

end Sample

open Sample in
/-- A hidden column is met again as one with a key of its own, whatever its ordinal and metadata are
said to be; with the key of the footer it is another one, and a further column comes too late. -/
theorem registration_table_hidden :
    Leads (start keys) withHidden ∧
      withHidden.registerColumn ⟨unknown.path, true, false, some [7], 9⟩ =
        .done (.ok ⟨unknown.path, 2, .hidden⟩, withHidden) ∧
      withHidden.Refuses ⟨unknown.path, true, true, none, 2⟩ .reuseMismatch ∧
      withHidden.Refuses shared .unknownColumn := by
  have hleads : Leads (start keys) withHidden := leads_serve nobody (start keys) hiddenFirst
  have hfile : ∃ facts, withHidden.file = some facts := ⟨_, rfl⟩
  have hhidden : withHidden.columns.get? unknown.path = some ⟨unknown.path, 2, .hidden⟩ := rfl
  obtain ⟨facts, hfacts⟩ := hfile
  obtain ⟨hagain, -⟩ :=
    registration_table hleads ⟨unknown.path, true, false, some [7], 9⟩ managed emptyCustody
  obtain ⟨hother, -⟩ :=
    registration_table hleads ⟨unknown.path, true, true, none, 2⟩ managed emptyCustody
  obtain ⟨hlate, -⟩ := registration_table hleads shared managed emptyCustody
  have hsame : SameFlags ⟨unknown.path, 2, .hidden⟩ ⟨unknown.path, true, false, some [7], 9⟩ :=
    ⟨rfl, fun _ => rfl⟩
  have hdiffers : ¬ SameFlags ⟨unknown.path, 2, .hidden⟩ ⟨unknown.path, true, true, none, 2⟩ :=
    fun hflags => nomatch hflags.2 rfl
  exact ⟨hleads, hagain.again facts _ hfacts hhidden rfl hsame,
    hother.changed facts _ hfacts hhidden rfl hdiffers, hlate.late facts hfacts rfl rfl⟩

end FileReader

end ModularEncryption
