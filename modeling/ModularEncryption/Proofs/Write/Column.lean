import ModularEncryption.Error.Report
import ModularEncryption.Proofs.Write.Acceptance

/-! # Which choices for a column are accepted

What is said about a column is its key and the metadata of it, both of which are to be given once,
and whether the column is encrypted, where the last word prevails. A draft holds what was said so
far and the repetitions it has met (`ColumnDraft.Took`), of which the first is the one that counts
(`ColumnChoice.FirstRepeat`).

The draft is accepted exactly if the choices are legal (`ColumnChoice.Legal`), and what it amounts
to is one of three (`ColumnSettings.Consistent`): a column in plaintext, one with a key of its own,
or one that is encrypted with the key of the footer. -/

namespace ModularEncryption

/-! ### What choices say -/

namespace ColumnChoice

open Choices

/-- The value of a choice that is to be made once, and which one it is. -/
def once? : ColumnChoice → Option (OnceOnly × Bytes)
  | .encrypted _ => none
  | .key bytes => some (.columnKey, bytes)
  | .keyMetadata bytes => some (.columnKeyMetadata, bytes)
  | .keyId id => some (.columnKeyMetadata, Text.Utf8.encode id)

/-- What is chosen about encryption. -/
def encrypted? : ColumnChoice → Option Bool
  | .encrypted b => some b
  | _ => none

/-- Whether the column is encrypted; it is unless the last word is otherwise. -/
def encryptedOf (choices : List ColumnChoice) : Bool :=
  (choices.filterMap encrypted?).getLast?.getD true

/-- **The first repetition** among choices is of a value of the given sort. -/
def FirstRepeat (what : OnceOnly) (choices : List ColumnChoice) : Prop :=
  ∃ before choice after, choices = before ++ choice :: after ∧ NoRepeat once? before ∧
    (∃ bytes, choice.once? = some (what, bytes)) ∧ given once? what before ≠ []

/-- **Choices that a column can follow.** -/
structure Legal (choices : List ColumnChoice) : Prop where
  key_once : (given once? .columnKey choices).length ≤ 1
  metadata_once : (given once? .columnKeyMetadata choices).length ≤ 1
  /-- A column in plaintext has no key, and no metadata of one. -/
  plaintext : encryptedOf choices = false →
    given once? .columnKey choices = [] ∧ given once? .columnKeyMetadata choices = []
  /-- Metadata comes with a key. -/
  metadata : given once? .columnKeyMetadata choices ≠ [] → given once? .columnKey choices ≠ []
  key_length : ∀ bytes ∈ given once? .columnKey choices, bytes.length ∈ validKeyLengths

variable {choices : List ColumnChoice} {choice : ColumnChoice} {what : OnceOnly} {bytes : Bytes}

theorem encryptedOf_append (choices : List ColumnChoice) (choice : ColumnChoice) :
    encryptedOf (choices ++ [choice]) = choice.encrypted?.getD (encryptedOf choices) := by
  cases h : choice.encrypted? <;> simp [encryptedOf, List.filterMap_append, h]

/-- Nothing but keys and metadata of keys is given. -/
theorem noRepeat_iff : NoRepeat once? choices ↔
    (given once? .columnKey choices).length ≤ 1 ∧
      (given once? .columnKeyMetadata choices).length ≤ 1 := by
  refine ⟨fun h => ⟨h _, h _⟩, fun ⟨hkey, hmetadata⟩ what => ?_⟩
  have hother : ∀ what, what ≠ .columnKey → what ≠ .columnKeyMetadata →
      given once? what choices = [] := by
    intro what hne hne'
    refine List.filterMap_eq_nil_iff.mpr fun choice _ => ?_
    cases choice <;> simp [valueOf?, once?, Ne.symm hne, Ne.symm hne']
  by_cases hwhat : what = .columnKey
  · exact hwhat ▸ hkey
  · by_cases hwhat' : what = .columnKeyMetadata
    · exact hwhat' ▸ hmetadata
    · simp [hother what hwhat hwhat']

/-- The first repetition is an earlier one, or it is the last choice. -/
theorem firstRepeat_append_iff : FirstRepeat what (choices ++ [choice]) ↔
    FirstRepeat what choices ∨
      NoRepeat once? choices ∧ (∃ bytes, choice.once? = some (what, bytes)) ∧
        given once? what choices ≠ [] := by
  constructor
  · rintro ⟨before, repeated, after, hsplit, hbefore, honce, hgiven⟩
    rcases List.eq_nil_or_concat after with rfl | ⟨after', last, rfl⟩
    · obtain ⟨rfl, hlast⟩ := List.append_inj' hsplit rfl
      cases hlast
      exact .inr ⟨hbefore, honce, hgiven⟩
    · rw [List.concat_eq_append, ← List.cons_append, ← List.append_assoc] at hsplit
      obtain ⟨rfl, -⟩ := List.append_inj' hsplit rfl
      exact .inl ⟨before, repeated, after', rfl, hbefore, honce, hgiven⟩
  · rintro (⟨before, repeated, after, rfl, hbefore, honce, hgiven⟩ | ⟨hnone, honce, hgiven⟩)
    · exact ⟨before, repeated, after ++ [choice], by simp, hbefore, honce, hgiven⟩
    · exact ⟨choices, choice, [], rfl, hnone, honce, hgiven⟩

end ColumnChoice

/-! ### What a draft has taken in -/

namespace ColumnDraft

open ColumnChoice Choices

variable {d : ColumnDraft} {path : ColumnPath} {choices : List ColumnChoice}
  {choice : ColumnChoice}

/-- The value that a draft holds of a sort that is to be given once. -/
def slot (d : ColumnDraft) : OnceOnly → Option Bytes
  | .columnKey => d.key
  | .columnKeyMetadata => d.keyMetadata
  | _ => none

/-- **What the draft of a column has taken in.** -/
structure Took (d : ColumnDraft) (path : ColumnPath) (choices : List ColumnChoice) : Prop where
  path_eq : d.path = path
  slot_eq : ∀ what, d.slot what = (given once? what choices).head?
  encrypted_eq : d.encrypted = encryptedOf choices
  conflicts_iff : d.conflicts = [] ↔ NoRepeat once? choices
  head?_conflicts_iff : ∀ c,
    d.conflicts.head? = some c ↔ ∃ what, c = .value what ∧ FirstRepeat what choices

theorem took_nil (path : ColumnPath) : ({ path } : ColumnDraft).Took path [] where
  path_eq := rfl
  slot_eq what := by cases what <;> rfl
  encrypted_eq := rfl
  conflicts_iff := by simp [NoRepeat, given]
  head?_conflicts_iff c := by simp [FirstRepeat]

theorem choose_of_once {what : OnceOnly} {bytes : Bytes}
    (h : choice.once? = some (what, bytes)) :
    FillsOnce d.slot (d.choose choice).slot d.conflicts (d.choose choice).conflicts what bytes ∧
      (d.choose choice).path = d.path ∧ (d.choose choice).encrypted = d.encrypted := by
  cases choice with
  | encrypted _ => cases h
  | key _ | keyMetadata _ | keyId _ =>
    cases h
    exact ⟨⟨setOnce_fst .., fun w hw => by cases w <;> first | rfl | exact absurd rfl hw,
      setOnce_snd ..⟩, rfl, rfl⟩

/-- A value that is to be given once is taken in if it is the first, and is a repetition if not. -/
theorem Took.once (h : d.Took path choices) {what : OnceOnly} {bytes : Bytes}
    (hchoice : choice.once? = some (what, bytes)) :
    (d.choose choice).Took path (choices ++ [choice]) := by
  obtain ⟨hfills, hpath, hencrypted⟩ := choose_of_once (d := d) hchoice
  have hrest : encryptedOf (choices ++ [choice]) = encryptedOf choices := by
    rw [encryptedOf_append]
    cases choice with
    | encrypted _ => cases hchoice
    | key _ | keyMetadata _ | keyId _ => rfl
  refine ⟨hpath.trans h.path_eq, hfills.slot_eq hchoice h.slot_eq, ?_, ?_, fun c => ?_⟩
  · rw [hencrypted, h.encrypted_eq, hrest]
  · rw [hfills.conflicts_eq_nil_iff, noRepeat_append_iff hchoice, h.slot_eq, ← h.conflicts_iff,
      List.head?_eq_none_iff, and_comm]
  · have hlast : ∀ w, (∃ bs, choice.once? = some (w, bs)) ↔ what = w := by
      simp [hchoice]
    rw [hfills.conflicts_eq, h.slot_eq]
    simp only [firstRepeat_append_iff, hlast]
    cases hwhat : given once? what choices with
    | nil =>
      have hfirst : ∀ w, ¬ (NoRepeat once? choices ∧ what = w ∧ given once? w choices ≠ []) := by
        rintro _ ⟨-, rfl, hgiven⟩
        exact hgiven hwhat
      simp only [hfirst, or_false]
      exact h.head?_conflicts_iff c
    | cons b bs =>
      cases hmet : d.conflicts with
      | nil =>
        -- this is the first repetition of all
        have hnone : ∀ w, ¬ FirstRepeat w choices := by
          intro w hw
          have hhead := (h.head?_conflicts_iff (.value w)).mpr ⟨w, rfl, hw⟩
          rw [hmet] at hhead
          cases hhead
        simp only [hnone, false_or]
        constructor
        · rintro ⟨⟩
          exact ⟨what, rfl, h.conflicts_iff.mp hmet, rfl, by simp [hwhat]⟩
        · rintro ⟨_, rfl, -, rfl, -⟩
          rfl
      | cons first rest =>
        have hsome : ¬ NoRepeat once? choices := fun hnone => by
          rw [h.conflicts_iff.mpr hnone] at hmet
          cases hmet
        have hhead := h.head?_conflicts_iff c
        rw [hmet] at hhead
        simp only [hsome, false_and, or_false]
        exact hhead

/-- **One more choice is taken in.** -/
theorem Took.choose (h : d.Took path choices) (choice : ColumnChoice) :
    (d.choose choice).Took path (choices ++ [choice]) := by
  cases choice with
  | encrypted b =>
    have hgiven : ∀ w, given once? w (choices ++ [.encrypted b]) = given once? w choices :=
      given_append_of_once_eq_none rfl
    refine ⟨h.path_eq, fun w => ?_, (encryptedOf_append choices (.encrypted b)).symm,
      ?_, fun c => ?_⟩
    · rw [hgiven, ← h.slot_eq]
      cases w <;> rfl
    · simp only [NoRepeat, hgiven]
      exact h.conflicts_iff
    · simp only [firstRepeat_append_iff, once?, reduceCtorEq, exists_false, false_and, and_false,
        or_false]
      exact h.head?_conflicts_iff c
  | key _ | keyMetadata _ | keyId _ => exact h.once rfl

/-- **A draft has taken in all of its choices.** -/
theorem took_ofChoices (path : ColumnPath) (choices : List ColumnChoice) :
    (ofChoices path choices).Took path choices := by
  induction choices using List.reverseRecOn with
  | nil => exact took_nil path
  | append_singleton choices choice ih =>
    rw [ofChoices, List.foldl_append]
    exact ih.choose choice

/-! ### What is built -/

/-- A draft is accepted if it has met no repetition and its values go together. -/
theorem build_eq_ok_iff {c : ColumnSettings} :
    d.build = .ok c ↔ d.conflicts = [] ∧
      (d.encrypted = false → d.key = none ∧ d.keyMetadata = none) ∧
      (d.keyMetadata ≠ none → d.key ≠ none) ∧
      ∃ key : Option AesKey, key.map (·.bytes) = d.key ∧ c = ⟨d.path, d.protection key⟩ := by
  simp only [build, bind_eq_ok_iff, refuseFirst_eq_ok_iff, refuseIf_eq_ok_iff,
    mapError_eq_ok_iff, checkKey, AesKey.ofOption_eq_ok_iff]
  constructor
  · rintro ⟨-, hconflicts, -, hkey, -, hmetadata, -, hown, key, hbytes, h⟩
    cases h
    refine ⟨hconflicts, fun hplain => ⟨?_, ?_⟩, fun hsome hnone => ?_, key, hbytes, rfl⟩
    · simpa [hplain] using hkey
    · simpa [hplain] using hmetadata
    · exact hown ⟨by simp [hnone], Option.isSome_iff_ne_none.mpr hsome⟩
  · rintro ⟨hconflicts, hplain, hown, key, hbytes, rfl⟩
    refine ⟨(), hconflicts, (), ?_, (), ?_, (), ?_, key, hbytes, rfl⟩
    · rintro ⟨hencrypted, hsome⟩
      simp [(hplain hencrypted).1] at hsome
    · rintro ⟨hencrypted, hsome⟩
      simp [(hplain hencrypted).2] at hsome
    · rintro ⟨hnone, hsome⟩
      exact hown (Option.isSome_iff_ne_none.mp hsome) (by simpa using hnone)

end ColumnDraft

/-- **An error carries a path**: as a value of its context, or at the end of its wording. -/
def Error.Carries (e : Error) (path : ColumnPath) : Prop :=
  ("column", path.toDotted) ∈ e.context ∨ ∃ front, e.message = front ++ path.toDotted

/-- The error for a value that is given again. -/
def ColumnDraft.repetition (path : ColumnPath) (what : OnceOnly) : Error :=
  { cause := .conflict (.value what), context := [("column", path.toDotted)] }

namespace ColumnSettings

variable {c : ColumnSettings} {path : ColumnPath} {choices : List ColumnChoice}

/-- **The settings of a column say what was chosen.** -/
structure Follows (c : ColumnSettings) (path : ColumnPath) (choices : List ColumnChoice) :
    Prop where
  path_eq : c.path = path
  encrypted_eq : c.encrypted = ColumnChoice.encryptedOf choices
  key_eq : c.key?.map (·.bytes) = (Choices.given ColumnChoice.once? .columnKey choices).head?
  keyMetadata_eq : c.keyMetadata? =
    (Choices.given ColumnChoice.once? .columnKeyMetadata choices).head?

/-- **The three ways in which a column is written.** -/
inductive Consistent (c : ColumnSettings) : Prop where
  | plaintext (encrypted_eq : c.encrypted = false) (key_eq : c.key? = none)
      (keyMetadata_eq : c.keyMetadata? = none)
  | ownKey (key : AesKey) (encrypted_eq : c.encrypted = true) (key_eq : c.key? = some key)
      (length_mem : key.bytes.length ∈ validKeyLengths)
  | footerKey (encrypted_eq : c.encrypted = true) (usesFooterKey_eq : c.usesFooterKey = true)
      (key_eq : c.key? = none) (keyMetadata_eq : c.keyMetadata? = none)

theorem consistent (c : ColumnSettings) : c.Consistent := by
  obtain ⟨path, protection⟩ := c
  cases protection with
  | plaintext => exact .plaintext rfl rfl rfl
  | footerKey => exact .footerKey rfl rfl rfl rfl
  | ownKey key metadata => exact .ownKey key rfl rfl key.length_mem

end ColumnSettings

namespace ColumnDraft

open ColumnChoice Choices

variable {d : ColumnDraft} {path : ColumnPath} {choices : List ColumnChoice}

/-- **The errors of a draft**, in the order in which they are looked for. -/
inductive Refused (d : ColumnDraft) : Error → Prop
  | conflict (c : Conflict) (head?_eq : d.conflicts.head? = some c) :
    Refused d { cause := .conflict c, context := [("column", d.path.toDotted)] }
  | keyOnPlaintext : Refused d { cause := .keyOnPlaintextColumn d.path }
  | metadataOnPlaintext : Refused d { cause := .metadataOnPlaintextColumn d.path }
  | metadataWithoutKey : Refused d { cause := .metadataWithoutColumnKey d.path }
  | keyLength (length : Nat) (source : Error) :
    Refused d ((Error.cameFrom { cause := .givenKeyLength .column length } source).withContext
      "column" d.path.toDotted)

theorem refused_of_build_eq_error {e : Error} (h : d.build = .error e) : d.Refused e := by
  simp only [build, bind_eq_error_iff, refuseIf_eq_error_iff, mapError_eq_error_iff] at h
  rcases h with h | ⟨_, _, ⟨_, rfl⟩ | ⟨_, _, ⟨_, rfl⟩ | ⟨_, _, ⟨_, rfl⟩ | ⟨_, _, h | ⟨_, _, h⟩⟩⟩⟩⟩
  · cases hconflicts : d.conflicts with
    | nil => rw [hconflicts] at h; cases h
    | cons c cs =>
      rw [hconflicts] at h
      cases h
      exact .conflict c (by rw [hconflicts, List.head?_cons])
  · exact .keyOnPlaintext
  · exact .metadataOnPlaintext
  · exact .metadataWithoutKey
  · obtain ⟨e', he, rfl⟩ := h
    obtain ⟨bytes, source, -, -, rfl⟩ := AesKey.ofOption_eq_error_iff.mp he
    exact .keyLength bytes.length source
  · cases h

theorem Refused.carries {e : Error} (h : d.Refused e) : e.Carries d.path := by
  cases h with
  | conflict c _ => exact .inl (List.mem_singleton.mpr rfl)
  | keyOnPlaintext | metadataOnPlaintext | metadataWithoutKey => exact .inr ⟨_, rfl⟩
  | keyLength length source => exact .inl (List.mem_append_right _ (List.mem_singleton.mpr rfl))

theorem Took.key_eq (h : d.Took path choices) : d.key = (given once? .columnKey choices).head? :=
  h.slot_eq .columnKey

theorem Took.keyMetadata_eq (h : d.Took path choices) :
    d.keyMetadata = (given once? .columnKeyMetadata choices).head? :=
  h.slot_eq .columnKeyMetadata

/-- **A draft is accepted exactly if the choices that it has taken in are legal.** -/
theorem Took.exists_build_iff (h : d.Took path choices) :
    (∃ c, d.build = .ok c) ↔ Legal choices := by
  simp only [build_eq_ok_iff, h.conflicts_iff, noRepeat_iff, h.encrypted_eq, h.key_eq,
    h.keyMetadata_eq, List.head?_eq_none_iff, ne_eq]
  constructor
  · rintro ⟨c, ⟨hkey, hmetadata⟩, hplain, hown, key, hbytes, -⟩
    refine ⟨hkey, hmetadata, hplain, hown, fun bytes hmem => ?_⟩
    obtain ⟨bytes', hgiven⟩ := List.length_eq_one_iff.mp
      (Nat.le_antisymm hkey (List.length_pos_of_mem hmem))
    rw [hgiven, List.mem_singleton] at hmem
    rw [hgiven, List.head?_cons, ← hmem] at hbytes
    obtain ⟨k, -, rfl⟩ := Option.map_eq_some_iff.mp hbytes
    exact k.length_mem
  · intro hlegal
    obtain ⟨key, hbytes⟩ :
        ∃ key : Option AesKey, key.map (·.bytes) = (given once? .columnKey choices).head? := by
      cases hgiven : given once? .columnKey choices with
      | nil => exact ⟨none, rfl⟩
      | cons bytes rest =>
        exact ⟨some ⟨bytes, hlegal.key_length bytes (hgiven ▸ List.mem_cons_self)⟩, rfl⟩
    exact ⟨_, ⟨hlegal.key_once, hlegal.metadata_once⟩, hlegal.plaintext, hlegal.metadata, key,
      hbytes, rfl⟩

theorem Took.follows (h : d.Took path choices) {c : ColumnSettings} (hc : d.build = .ok c) :
    c.Follows path choices := by
  obtain ⟨-, hplain, hown, key, hbytes, rfl⟩ := build_eq_ok_iff.mp hc
  cases hencrypted : d.encrypted with
  | false =>
    obtain ⟨hkey, hmetadata⟩ := hplain hencrypted
    have hprotection : d.protection key = .plaintext := by simp [protection, hencrypted]
    rw [hprotection]
    exact ⟨h.path_eq, hencrypted.symm.trans h.encrypted_eq, hkey.symm.trans h.key_eq,
      hmetadata.symm.trans h.keyMetadata_eq⟩
  | true =>
    cases key with
    | none =>
      -- without a key there is no metadata to lose
      have hmetadata : d.keyMetadata = none := not_not.mp fun hne => hown hne hbytes.symm
      have hprotection : d.protection none = .footerKey := by simp [protection, hencrypted]
      rw [hprotection]
      exact ⟨h.path_eq, hencrypted.symm.trans h.encrypted_eq, hbytes.trans h.key_eq,
        hmetadata.symm.trans h.keyMetadata_eq⟩
    | some key =>
      have hprotection : d.protection (some key) = .ownKey key d.keyMetadata := by
        simp [protection, hencrypted]
      rw [hprotection]
      exact ⟨h.path_eq, hencrypted.symm.trans h.encrypted_eq, hbytes.trans h.key_eq,
        h.keyMetadata_eq⟩

/-- The error is of a repetition exactly if that repetition is the first. -/
theorem Took.build_eq_repetition_iff (h : d.Took path choices) {what : OnceOnly} :
    d.build = .error (repetition path what) ↔ FirstRepeat what choices := by
  have hhead : d.conflicts.head? = some (.value what) ↔ FirstRepeat what choices := by
    rw [h.head?_conflicts_iff]
    simp
  rw [← hhead]
  cases hconflicts : d.conflicts with
  | nil =>
    simp only [List.head?_nil, reduceCtorEq, iff_false]
    intro herror
    generalize herr : repetition path what = e at herror
    cases refused_of_build_eq_error herror with
    | conflict c hc => rw [hconflicts] at hc; cases hc
    | keyOnPlaintext | metadataOnPlaintext | metadataWithoutKey => cases herr
    | keyLength length source => cases herr
  | cons c cs =>
    have hbuild : d.build =
        .error { cause := .conflict c, context := [("column", d.path.toDotted)] } := by
      simp only [build, hconflicts, refuseFirst]
      rfl
    rw [hbuild, h.path_eq]
    simp [repetition]

/-- **A column accepts exactly the legal choices**, and what is built says what was chosen, in one
of the three ways in which a column is written; so does a column that a file does not list. Every
refusal is a configuration error that carries the column, and of several repetitions the first is
reported. -/
theorem column_acceptance (path : ColumnPath) (choices : List ColumnChoice) :
    ((∃ c, (ofChoices path choices).build = .ok c) ↔ Legal choices) ∧
      (∀ c, (ofChoices path choices).build = .ok c → c.Follows path choices ∧ c.Consistent) ∧
      (∀ s : WriteSettings, s.columns.get? path = none →
        (s.column path).Follows path [.encrypted s.encryptTheRest] ∧
          (s.column path).Consistent) ∧
      (∀ e, (ofChoices path choices).build = .error e →
        e.kind = .configuration ∧ e.Carries path) ∧
      ∀ what, FirstRepeat what choices ↔
        (ofChoices path choices).build = .error (repetition path what) := by
  have htook := took_ofChoices path choices
  refine ⟨htook.exists_build_iff, fun c hc => ⟨htook.follows hc, c.consistent⟩,
    fun s hs => ⟨?_, ColumnSettings.consistent _⟩,
    fun e he => ⟨kind_of_build_eq_error he, htook.path_eq ▸ (refused_of_build_eq_error he).carries⟩,
    fun _ => htook.build_eq_repetition_iff.symm⟩
  rw [WriteSettings.column, hs, Option.getD_none]
  cases s.encryptTheRest <;> exact ⟨rfl, rfl, rfl, rfl⟩

namespace Sample

/-- A column that is encrypted after all, with a key of its own and an identifier for it. -/
def own : List ColumnChoice :=
  [.encrypted false, .key (List.replicate 16 1), .keyId "k", .encrypted true]

/-- Metadata is given again, and then the key as well. -/
def repeated : List ColumnChoice :=
  [.key (List.replicate 16 1), .keyMetadata [1], .keyId "k", .key (List.replicate 24 2)]

/-- A file that names no columns. -/
def settings : WriteSettings where
  algorithm := ⟨.aesGcmV1, none, List.replicate 8 0⟩
  footer := .plaintext none none
  aadPrefix := none
  columns := .empty
  encryptTheRest := false

theorem legal_own : Legal own where
  key_once := by decide
  metadata_once := by decide
  plaintext h := by cases h
  metadata _ := by decide
  key_length := by decide

theorem firstRepeat_repeated : FirstRepeat .columnKeyMetadata repeated :=
  ⟨[.key (List.replicate 16 1), .keyMetadata [1]], .keyId "k", [.key (List.replicate 24 2)], rfl,
    noRepeat_iff.mpr (by decide), ⟨_, rfl⟩, by decide⟩

end Sample

open Sample in
/-- A column with a key of its own is built, one that is not listed stays in plaintext, and of two
repetitions that of the metadata is reported. -/
theorem column_acceptance_sample :
    (∃ c, (ofChoices ⟨["a"]⟩ own).build = .ok c ∧ c.encrypted = true ∧
      c.keyMetadata? = some [107] ∧ c.Consistent) ∧
    (settings.column ⟨["a"]⟩).encrypted = false ∧
    (repetition ⟨["a"]⟩ .columnKeyMetadata).kind = .configuration ∧
    (repetition ⟨["a"]⟩ .columnKeyMetadata).Carries ⟨["a"]⟩ ∧
    (ofChoices ⟨["a"]⟩ repeated).build = .error (repetition ⟨["a"]⟩ .columnKeyMetadata) := by
  obtain ⟨hiff, hbuilt, hunlisted, -, -⟩ := column_acceptance ⟨["a"]⟩ own
  obtain ⟨-, -, -, hrefused, hfirst⟩ := column_acceptance ⟨["a"]⟩ repeated
  obtain ⟨c, hc⟩ := hiff.mpr legal_own
  obtain ⟨hfollows, hconsistent⟩ := hbuilt c hc
  have hmetadata : (given once? .columnKeyMetadata own).head? = some [107] := by decide
  have herror := (hfirst _).mp firstRepeat_repeated
  obtain ⟨hkind, hcarries⟩ := hrefused _ herror
  exact ⟨⟨c, hc, hfollows.encrypted_eq, hfollows.keyMetadata_eq.trans hmetadata, hconsistent⟩,
    (hunlisted settings rfl).1.encrypted_eq, hkind, hcarries, herror⟩

end ColumnDraft

end ModularEncryption
