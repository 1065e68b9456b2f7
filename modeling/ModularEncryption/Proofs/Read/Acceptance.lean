import Mathlib.Data.List.Induction
import Mathlib.Data.List.Nodup
import ModularEncryption.Read.Settings

/-! # Which choices a reader accepts

Of most things that may be said about how a file is read the last word counts
(`ReadChoice.last`); only keys of columns are all taken (`ReadChoice.columnKeysOf`). A sequence of
choices is accepted exactly if it is legal (`ReadChoice.Legal`): there is a key or someone to ask
for one, the prefix has one source at most, the keys that count have valid lengths, and no column is
given a key twice.

Keys of columns are looked at in the order in which they were given, and each one's length before
its column. So where nothing else is wrong, the error tells of the first key at fault
(`FirstFault`). -/

namespace ModularEncryption

namespace ReadChoice

/-! ### What choices say -/

/-- The bytes of a footer key. -/
def footerKey? : ReadChoice → Option Bytes
  | .footerKey bytes => some bytes
  | _ => none

/-- The bytes of a key to verify footers. -/
def footerSigningKey? : ReadChoice → Option Bytes
  | .footerSigningKey bytes => some bytes
  | _ => none

/-- A key of a column, with the column's path. -/
def columnKey? : ReadChoice → Option (ColumnPath × Bytes)
  | .columnKey path bytes => some (path, bytes)
  | .column c => some (c.path, c.key.bytes)
  | _ => none

/-- A retriever of keys. -/
def retriever? : ReadChoice → Option RetrieverRef
  | .retriever ref => some ref
  | _ => none

/-- A prefix. -/
def aadPrefix? : ReadChoice → Option Bytes
  | .aadPrefix bytes => some bytes
  | _ => none

/-- A lookup of prefixes. -/
def prefixLookup? : ReadChoice → Option PrefixLookup
  | .prefixLookup lookup => some lookup
  | _ => none

/-- Whether signatures of footers are verified. -/
def checkFooterIntegrity? : ReadChoice → Option Bool
  | .checkFooterIntegrity b => some b
  | _ => none

/-- The value of a sort that was given last. -/
def last {α : Type} (value? : ReadChoice → Option α) (choices : List ReadChoice) : Option α :=
  (choices.filterMap value?).getLast?

/-- All keys of columns. -/
def columnKeysOf (choices : List ReadChoice) : List (ColumnPath × Bytes) :=
  choices.filterMap columnKey?

theorem last_append {α : Type} (value? : ReadChoice → Option α) (choices : List ReadChoice)
    (choice : ReadChoice) :
    last value? (choices ++ [choice]) = (value? choice).or (last value? choices) := by
  cases h : value? choice <;> simp [last, List.filterMap_append, h]

theorem columnKeysOf_append (choices : List ReadChoice) (choice : ReadChoice) :
    columnKeysOf (choices ++ [choice]) = columnKeysOf choices ++ choice.columnKey?.toList := by
  cases h : choice.columnKey? <;> simp [columnKeysOf, List.filterMap_append, h]

end ReadChoice

namespace ReadDraft

open ReadChoice

/-- **What a draft has taken in**: all keys of columns, and the last word on everything else. -/
theorem ofChoices_eq (choices : List ReadChoice) : ofChoices choices =
    { footerKey := last footerKey? choices
      footerSigningKey := last footerSigningKey? choices
      columnKeys := columnKeysOf choices
      retriever := last retriever? choices
      aadPrefix := last aadPrefix? choices
      prefixLookup := last prefixLookup? choices
      checkFooterIntegrity := (last checkFooterIntegrity? choices).getD false } := by
  induction choices using List.reverseRecOn with
  | nil => rfl
  | append_singleton choices choice ih =>
    rw [ofChoices] at ih ⊢
    rw [List.foldl_append, ih]
    simp only [last_append, columnKeysOf_append]
    cases choice <;> simp [choose, footerKey?, footerSigningKey?, columnKey?, retriever?,
      aadPrefix?, prefixLookup?, checkFooterIntegrity?]

end ReadDraft

/-! ### Keys of columns, one after the other -/

/-- The error of a key of a column that has a wrong number of bytes. -/
def lengthFault (path : ColumnPath) (bytes : Bytes) : Error :=
  Error.withContext { cause := if bytes.isEmpty then .emptyKey else .keyLength bytes.length }
    "column" path.toDotted

/-- What is wrong with a key of a column that comes after others: the number of its bytes, or else
that its column has a key already. -/
def columnFault? (before : List (ColumnPath × Bytes)) (path : ColumnPath) (bytes : Bytes) :
    Option Error :=
  if bytes.length ∉ validKeyLengths then some (lengthFault path bytes)
  else if path ∈ before.map Prod.fst then some { cause := .columnKeyTwice path }
  else none

/-- Keys of columns with nothing wrong in them. -/
structure SoundKeys (entries : List (ColumnPath × Bytes)) : Prop where
  length_mem : ∀ entry ∈ entries, entry.2.length ∈ validKeyLengths
  nodup : (entries.map Prod.fst).Nodup

/-- **The first fault among keys of columns.** -/
def FirstFault (entries : List (ColumnPath × Bytes)) (error : Error) : Prop :=
  ∃ before path bytes after, entries = before ++ (path, bytes) :: after ∧ SoundKeys before ∧
    columnFault? before path bytes = some error

/-- A table that holds just the given keys of columns. -/
def HoldsKeys (keys : Table ColumnPath AesKey) (entries : List (ColumnPath × Bytes)) : Prop :=
  ∀ path, (keys.get? path).map (·.bytes) = entries.lookup path

section Scan

variable {before entries rest : List (ColumnPath × Bytes)} {path : ColumnPath} {bytes : Bytes}
  {keys : Table ColumnPath AesKey} {error : Error}

theorem columnFault?_eq_none_iff : columnFault? before path bytes = none ↔
    bytes.length ∈ validKeyLengths ∧ path ∉ before.map Prod.fst := by
  unfold columnFault?
  by_cases hlength : bytes.length ∈ validKeyLengths
  · by_cases hpath : path ∈ before.map Prod.fst
    · simp [hlength, hpath]
    · simp [hlength, hpath]
  · simp [hlength]

theorem soundKeys_append_iff : SoundKeys (before ++ [(path, bytes)]) ↔
    SoundKeys before ∧ columnFault? before path bytes = none := by
  rw [columnFault?_eq_none_iff]
  constructor
  · rintro ⟨hlength, hnodup⟩
    rw [List.map_append, List.nodup_append_comm, List.map_singleton, List.singleton_append,
      List.nodup_cons] at hnodup
    exact ⟨⟨fun entry hentry => hlength entry (List.mem_append_left _ hentry), hnodup.2⟩,
      hlength (path, bytes) (by simp), hnodup.1⟩
  · rintro ⟨⟨hlength, hnodup⟩, hbytes, hpath⟩
    refine ⟨fun entry hentry => ?_, ?_⟩
    · rcases List.mem_append.mp hentry with hentry | hentry
      · exact hlength entry hentry
      · rw [List.mem_singleton.mp hentry]
        exact hbytes
    · rw [List.map_append, List.nodup_append_comm, List.map_singleton, List.singleton_append,
        List.nodup_cons]
      exact ⟨hpath, hnodup⟩

/-- Keys of columns are all right, or there is a first one that is not. -/
theorem soundKeys_or_firstFault (entries : List (ColumnPath × Bytes)) :
    SoundKeys entries ∨ ∃ error, FirstFault entries error := by
  induction entries using List.reverseRecOn with
  | nil => exact .inl ⟨by simp, by simp⟩
  | append_singleton before entry ih =>
    obtain ⟨path, bytes⟩ := entry
    rcases ih with hsound | ⟨error, front, p, bs, after, rfl, hsound, hfault⟩
    · cases hfault : columnFault? before path bytes with
      | none => exact .inl (soundKeys_append_iff.mpr ⟨hsound, hfault⟩)
      | some error => exact .inr ⟨error, before, path, bytes, [], rfl, hsound, hfault⟩
    · exact .inr ⟨error, front, p, bs, after ++ [(path, bytes)], by simp, hsound, hfault⟩

theorem HoldsKeys.contains_iff (h : HoldsKeys keys before) :
    keys.contains path = true ↔ path ∈ before.map Prod.fst := by
  have hget : keys.contains path = (before.lookup path).isSome := by
    rw [← h path, Table.contains, Option.isSome_map]
  rw [hget, ← Bool.not_eq_false, Option.isSome_eq_false_iff, Option.isNone_iff_eq_none,
    List.lookup_eq_none_iff]
  simp

/-- A key that goes with the others is found by its path. -/
theorem HoldsKeys.insert (h : HoldsKeys keys before) (hpath : path ∉ before.map Prod.fst)
    (key : AesKey) : HoldsKeys (keys.insert path key) (before ++ [(path, key.bytes)]) := by
  intro path'
  have hlookup : before.lookup path = none := by
    rw [← h path, Option.map_eq_none_iff, ← Option.not_isSome_iff_eq_none]
    exact mt h.contains_iff.mp hpath
  rw [Table.get?_insert, Table.lookup_append]
  by_cases hp : path' = path
  · subst hp
    simp [hlookup]
  · have hbeq : (path' == path) = false := beq_false_of_ne hp
    simp [hp, hbeq, h path', List.lookup_cons]

/-- Of sound keys, each one is found, -/
theorem HoldsKeys.get?_of_mem (h : HoldsKeys keys entries) (hsound : SoundKeys entries)
    (hmem : (path, bytes) ∈ entries) : (keys.get? path).map (·.bytes) = some bytes := by
  obtain ⟨front, after, rfl⟩ := List.append_of_mem hmem
  rw [h path, List.lookup_eq_some_iff]
  refine ⟨front, after, rfl, fun entry hentry => ?_⟩
  have hnodup := hsound.nodup
  rw [List.map_append, List.map_cons, List.nodup_append] at hnodup
  have hne := hnodup.2.2 entry.1 (List.mem_map_of_mem hentry) path (by simp)
  simpa using Ne.symm hne

/-- and no other one. -/
theorem HoldsKeys.get?_of_not_mem (h : HoldsKeys keys entries)
    (hpath : path ∉ entries.map Prod.fst) : keys.get? path = none := by
  rw [← Option.not_isSome_iff_eq_none]
  exact mt h.contains_iff.mp hpath

theorem addColumnKeys_of_fault (h : HoldsKeys keys before)
    (hfault : columnFault? before path bytes = some error) :
    ReadDraft.addColumnKeys keys ((path, bytes) :: rest) = .error error := by
  unfold columnFault? at hfault
  by_cases hlength : bytes.length ∈ validKeyLengths
  · by_cases hpath : path ∈ before.map Prod.fst
    · rw [if_neg (not_not_intro hlength), if_pos hpath] at hfault
      cases hfault
      simp only [ReadDraft.addColumnKeys, ColumnKey.ofBytes, AesKey.ofBytes_of_mem hlength,
        h.contains_iff.mpr hpath, if_true]
    · rw [if_neg (not_not_intro hlength), if_neg hpath] at hfault
      cases hfault
  · rw [if_pos hlength] at hfault
    cases hfault
    simp only [ReadDraft.addColumnKeys, ColumnKey.ofBytes, AesKey.ofBytes_of_not_mem hlength,
      lengthFault]

theorem addColumnKeys_of_columnFault?_eq_none (h : HoldsKeys keys before)
    (hfault : columnFault? before path bytes = none) :
    ∃ keys', HoldsKeys keys' (before ++ [(path, bytes)]) ∧
      ∀ rest, ReadDraft.addColumnKeys keys ((path, bytes) :: rest) =
        ReadDraft.addColumnKeys keys' rest := by
  obtain ⟨hlength, hpath⟩ := columnFault?_eq_none_iff.mp hfault
  have hcontains : keys.contains path = false := by
    rw [← Bool.not_eq_true]
    exact mt h.contains_iff.mp hpath
  refine ⟨keys.insert path ⟨bytes, hlength⟩, h.insert hpath _, fun rest => ?_⟩
  simp [ReadDraft.addColumnKeys, ColumnKey.ofBytes, AesKey.ofBytes_of_mem hlength, hcontains]

/-- Sound keys are all taken, whatever follows them. -/
theorem addColumnKeys_append (hsound : SoundKeys entries) :
    ∃ keys, HoldsKeys keys entries ∧ ∀ rest,
      ReadDraft.addColumnKeys .empty (entries ++ rest) = ReadDraft.addColumnKeys keys rest := by
  induction entries using List.reverseRecOn with
  | nil => exact ⟨.empty, fun _ => rfl, fun _ => rfl⟩
  | append_singleton before entry ih =>
    obtain ⟨path, bytes⟩ := entry
    obtain ⟨hbefore, hfault⟩ := soundKeys_append_iff.mp hsound
    obtain ⟨keys, hkeys, hrest⟩ := ih hbefore
    obtain ⟨keys', hkeys', hstep⟩ := addColumnKeys_of_columnFault?_eq_none hkeys hfault
    refine ⟨keys', hkeys', fun rest => ?_⟩
    rw [List.append_assoc, hrest, List.singleton_append, hstep]

theorem addColumnKeys_of_soundKeys (hsound : SoundKeys entries) :
    ∃ keys, HoldsKeys keys entries ∧ ReadDraft.addColumnKeys .empty entries = .ok keys := by
  obtain ⟨keys, hkeys, hrest⟩ := addColumnKeys_append hsound
  refine ⟨keys, hkeys, ?_⟩
  have hnil := hrest []
  rwa [List.append_nil] at hnil

theorem addColumnKeys_of_firstFault (h : FirstFault entries error) :
    ReadDraft.addColumnKeys .empty entries = .error error := by
  obtain ⟨before, path, bytes, after, rfl, hsound, hfault⟩ := h
  obtain ⟨keys, hkeys, hrest⟩ := addColumnKeys_append hsound
  rw [hrest]
  exact addColumnKeys_of_fault hkeys hfault

end Scan

namespace ReadChoice

/-! ### Legal choices -/

/-- Choices with nothing wrong in them but, perhaps, keys of columns. -/
structure Coherent (choices : List ReadChoice) : Prop where
  /-- There is a key, or someone to ask for one. -/
  source : choices.filterMap footerKey? ≠ [] ∨ choices.filterMap retriever? ≠ [] ∨
    columnKeysOf choices ≠ []
  /-- The prefix has one source at most. -/
  prefixes : choices.filterMap aadPrefix? = [] ∨ choices.filterMap prefixLookup? = []
  footerKey_length : ∀ bytes, last footerKey? choices = some bytes →
    bytes.length ∈ validKeyLengths
  signingKey_length : ∀ bytes, last footerSigningKey? choices = some bytes →
    bytes.length ∈ validKeyLengths

/-- **Choices that a reader can follow.** -/
structure Legal (choices : List ReadChoice) : Prop extends Coherent choices where
  columnKeys : SoundKeys (columnKeysOf choices)

end ReadChoice

/-- **What the settings of an accepted sequence of choices say.** -/
structure ReadSettings.Follows (s : ReadSettings) (choices : List ReadChoice) : Prop where
  footerKey_eq : s.footerKey.map (·.bytes) = ReadChoice.last ReadChoice.footerKey? choices
  footerSigningKey_eq :
    s.footerSigningKey.map (·.bytes) = ReadChoice.last ReadChoice.footerSigningKey? choices
  retriever_eq : s.retriever = ReadChoice.last ReadChoice.retriever? choices
  aadPrefix_eq : s.aadPrefix = ReadChoice.last ReadChoice.aadPrefix? choices
  prefixLookup_eq : s.prefixLookup = ReadChoice.last ReadChoice.prefixLookup? choices
  checkFooterIntegrity_eq : s.checkFooterIntegrity =
    (ReadChoice.last ReadChoice.checkFooterIntegrity? choices).getD false
  /-- A key of a column is found by the column's path, -/
  given : ∀ path bytes, (path, bytes) ∈ ReadChoice.columnKeysOf choices →
    (s.columnKey? path).map (·.bytes) = some bytes
  /-- and by no other one. -/
  others : ∀ path, path ∉ (ReadChoice.columnKeysOf choices).map Prod.fst →
    s.columnKey? path = none

namespace ReadDraft

open ReadChoice

variable {choices : List ReadChoice}

theorem coherent_iff : Coherent choices ↔
    ¬ ((last footerKey? choices).isNone = true ∧ (last retriever? choices).isNone = true ∧
        (columnKeysOf choices).isEmpty = true) ∧
      ¬ ((last aadPrefix? choices).isSome = true ∧ (last prefixLookup? choices).isSome = true) ∧
      (∃ key : Option AesKey, key.map (·.bytes) = last footerKey? choices) ∧
      ∃ key : Option AesKey, key.map (·.bytes) = last footerSigningKey? choices := by
  have hkey : ∀ given : Option Bytes, (∃ key : Option AesKey, key.map (·.bytes) = given) ↔
      ∀ bytes, given = some bytes → bytes.length ∈ validKeyLengths := by
    intro given
    constructor
    · rintro ⟨key, rfl⟩ bytes hbytes
      exact (AesKey.map_bytes_eq_some_iff.mp hbytes).1
    · intro hlength
      cases given with
      | none => exact ⟨none, rfl⟩
      | some bytes => exact ⟨some ⟨bytes, hlength bytes rfl⟩, rfl⟩
  have hsource : ¬ ((last footerKey? choices).isNone = true ∧
      (last retriever? choices).isNone = true ∧ (columnKeysOf choices).isEmpty = true) ↔
      choices.filterMap footerKey? ≠ [] ∨ choices.filterMap retriever? ≠ [] ∨
        columnKeysOf choices ≠ [] := by
    simp only [last, Option.isNone_iff_eq_none, List.getLast?_eq_none_iff, List.isEmpty_iff]
    tauto
  have haad : ¬ ((last aadPrefix? choices).isSome = true ∧
      (last prefixLookup? choices).isSome = true) ↔
      choices.filterMap aadPrefix? = [] ∨ choices.filterMap prefixLookup? = [] := by
    simp only [last, List.getLast?_isSome]
    tauto
  rw [hkey, hkey, hsource, haad]
  constructor
  · intro h
    exact ⟨h.source, h.prefixes, h.footerKey_length, h.signingKey_length⟩
  · rintro ⟨hsome, hone, hfooterKey, hsigningKey⟩
    exact ⟨hsome, hone, hfooterKey, hsigningKey⟩

/-- What is accepted is coherent, and the settings take over what was said last. -/
theorem of_build_eq_ok {s : ReadSettings} (h : (ofChoices choices).build = .ok s) :
    Coherent choices ∧ addColumnKeys .empty (columnKeysOf choices) = .ok s.columnKeys ∧
      s.footerKey.map (·.bytes) = last footerKey? choices ∧
      s.footerSigningKey.map (·.bytes) = last footerSigningKey? choices ∧
      s.retriever = last retriever? choices ∧ s.aadPrefix = last aadPrefix? choices ∧
      s.prefixLookup = last prefixLookup? choices ∧
      s.checkFooterIntegrity = (last checkFooterIntegrity? choices).getD false := by
  simp only [ofChoices_eq, build, bind_eq_ok_iff, refuseIf_eq_ok_iff, checkKey,
    AesKey.ofOption_eq_ok_iff] at h
  obtain ⟨_, hsource, _, haad, footerKey, hfooterKey, signingKey, hsigningKey, keys, hkeys, hs⟩
    := h
  cases hs
  exact ⟨coherent_iff.mpr ⟨hsource, haad, ⟨_, hfooterKey⟩, _, hsigningKey⟩, hkeys, hfooterKey,
    hsigningKey, rfl, rfl, rfl, rfl⟩

/-- Where the choices are coherent, keys of columns decide. -/
theorem exists_build (h : Coherent choices) {keys : Table ColumnPath AesKey}
    (hkeys : addColumnKeys .empty (columnKeysOf choices) = .ok keys) :
    ∃ s, (ofChoices choices).build = .ok s := by
  obtain ⟨hsource, haad, ⟨footerKey, hfooterKey⟩, signingKey, hsigningKey⟩ := coherent_iff.mp h
  simp only [ofChoices_eq, build, bind_eq_ok_iff, refuseIf_eq_ok_iff, checkKey,
    AesKey.ofOption_eq_ok_iff]
  exact ⟨_, (), hsource, (), haad, footerKey, hfooterKey, signingKey, hsigningKey, keys, hkeys,
    rfl⟩

theorem build_eq_error (h : Coherent choices) {error : Error}
    (hkeys : addColumnKeys .empty (columnKeysOf choices) = .error error) :
    (ofChoices choices).build = .error error := by
  obtain ⟨hsource, haad, ⟨footerKey, hfooterKey⟩, signingKey, hsigningKey⟩ := coherent_iff.mp h
  simp only [ofChoices_eq, build, bind_eq_error_iff]
  -- all checks before that of the columns are passed
  refine .inr ⟨(), refuseIf_eq_ok_iff.mpr hsource, ?_⟩
  refine .inr ⟨(), refuseIf_eq_ok_iff.mpr haad, ?_⟩
  refine .inr ⟨footerKey, AesKey.ofOption_eq_ok_iff.mpr hfooterKey, ?_⟩
  exact .inr ⟨signingKey, AesKey.ofOption_eq_ok_iff.mpr hsigningKey, .inl hkeys⟩

end ReadDraft

namespace ReadSettings

open ReadChoice

/-- The settings that a sequence of choices amounts to. -/
def ofChoices (choices : List ReadChoice) : Except Error ReadSettings :=
  (ReadDraft.ofChoices choices).build

variable {choices : List ReadChoice}

theorem exists_ofChoices (h : Legal choices) : ∃ s, ofChoices choices = .ok s := by
  obtain ⟨keys, -, hadd⟩ := addColumnKeys_of_soundKeys h.columnKeys
  exact ReadDraft.exists_build h.toCoherent hadd

theorem ofChoices_of_firstFault (h : Coherent choices) {error : Error}
    (hfault : FirstFault (columnKeysOf choices) error) : ofChoices choices = .error error :=
  ReadDraft.build_eq_error h (addColumnKeys_of_firstFault hfault)

theorem of_ofChoices {s : ReadSettings} (h : ofChoices choices = .ok s) :
    Legal choices ∧ s.Follows choices := by
  obtain ⟨hcoherent, hadd, hfooterKey, hsigningKey, hretriever, haad, hlookup, hcheck⟩ :=
    ReadDraft.of_build_eq_ok h
  rcases soundKeys_or_firstFault (columnKeysOf choices) with hsound | ⟨error, hfault⟩
  · obtain ⟨keys, hkeys, hadd'⟩ := addColumnKeys_of_soundKeys hsound
    have hcolumnKeys : s.columnKeys = keys := Except.ok.inj (hadd.symm.trans hadd')
    rw [← hcolumnKeys] at hkeys
    exact ⟨⟨hcoherent, hsound⟩, hfooterKey, hsigningKey, hretriever, haad, hlookup, hcheck,
      fun _ _ hmem => hkeys.get?_of_mem hsound hmem, fun _ hpath => hkeys.get?_of_not_mem hpath⟩
  · rw [addColumnKeys_of_firstFault hfault] at hadd
    cases hadd

/-- Where keys of columns are all that can be wrong, the first of them that is decides. -/
theorem ofChoices_eq_error_iff (h : Coherent choices) {error : Error} :
    ofChoices choices = .error error ↔ FirstFault (columnKeysOf choices) error := by
  refine ⟨fun herror => ?_, ofChoices_of_firstFault h⟩
  rcases soundKeys_or_firstFault (columnKeysOf choices) with hsound | ⟨error', hfault⟩
  · obtain ⟨s, hs⟩ := exists_ofChoices ⟨h, hsound⟩
    rw [hs] at herror
    cases herror
  · rw [ofChoices_of_firstFault h hfault] at herror
    cases herror
    exact hfault

/-- **A reader accepts exactly the legal choices.** The settings of what is accepted say what was
said last, and have each key of a column for just that column. Every refusal is a configuration
error, and of several faults in keys of columns it tells the first. -/
theorem reader_acceptance (choices : List ReadChoice) :
    ((∃ s, ofChoices choices = .ok s) ↔ Legal choices) ∧
      (∀ s, ofChoices choices = .ok s → s.Follows choices) ∧
      (∀ error, ofChoices choices = .error error → error.kind = .configuration) ∧
      (Coherent choices → ∀ error, ofChoices choices = .error error ↔
        FirstFault (columnKeysOf choices) error) := by
  refine ⟨⟨?_, exists_ofChoices⟩, fun s hs => ?_, fun error herror => ?_, fun h error => ?_⟩
  · rintro ⟨s, hs⟩
    exact (of_ofChoices hs).1
  · exact (of_ofChoices hs).2
  · exact ReadDraft.kind_of_build_eq_error herror
  · exact ofChoices_eq_error_iff h

namespace Sample

/-- A key of twos. -/
def key : AesKey := ⟨List.replicate 16 2, by decide⟩

/-- The first key for the footer is too short, but it is not the last one. -/
def accepted : List ReadChoice :=
  [.footerKey [1], .columnKey ⟨["a"]⟩ key.bytes, .column ⟨⟨["a", "b"]⟩, key⟩,
    .footerKey key.bytes]

/-- Keys of columns of which the second has both faults and the third has one. -/
def faulty : List ReadChoice :=
  [.columnKey ⟨["a"]⟩ key.bytes, .columnKey ⟨["a"]⟩ [1, 2], .columnKey ⟨["b"]⟩ []]

theorem legal : Legal accepted where
  source := .inl (by decide)
  prefixes := .inl rfl
  footerKey_length bytes h := by
    cases h
    exact key.length_mem
  signingKey_length bytes h := by cases h
  columnKeys := ⟨by decide, by decide⟩

theorem coherent : Coherent faulty where
  source := .inr (.inr (by decide))
  prefixes := .inl rfl
  footerKey_length bytes h := by cases h
  signingKey_length bytes h := by cases h

end Sample

theorem reader_acceptance_sample :
    (∃ s, ofChoices Sample.accepted = .ok s ∧ s.footerKey.map (·.bytes) = some Sample.key.bytes ∧
      (s.columnKey? ⟨["a"]⟩).map (·.bytes) = some Sample.key.bytes ∧
      s.columnKey? ⟨["b"]⟩ = none) ∧
    ofChoices Sample.faulty = .error (lengthFault ⟨["a"]⟩ [1, 2]) := by
  obtain ⟨haccepted, hfollows, -, -⟩ := reader_acceptance Sample.accepted
  obtain ⟨-, -, -, hfault⟩ := reader_acceptance Sample.faulty
  obtain ⟨s, hs⟩ := haccepted.mpr Sample.legal
  have hsaid := hfollows s hs
  refine ⟨⟨s, hs, hsaid.footerKey_eq, hsaid.given _ _ (by decide), hsaid.others _ (by decide)⟩,
    (hfault Sample.coherent _).mpr ?_⟩
  exact ⟨[(⟨["a"]⟩, Sample.key.bytes)], ⟨["a"]⟩, [1, 2], [(⟨["b"]⟩, [])], rfl,
    ⟨by decide, by decide⟩, rfl⟩

end ReadSettings

end ModularEncryption
