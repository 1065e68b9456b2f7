import Mathlib.Data.List.Induction
import Mathlib.Data.List.Nodup
import ModularEncryption.Proofs.Write.Once
import ModularEncryption.Proofs.Write.Settings

/-! # What a writer's choices say

A sequence of choices gives values of several sorts, each in the order in which they were made. Some
values are to be given once (`WriteChoice.once?`); of the suite and of what happens to the rest the
last one prevails (`suiteOf`, `restOf`); and columns are named one by one or several at a time
(`columnsOf`).

A draft takes all this in (`WriteDraft.Took`): the first value of each sort that is to be given
once, the last suite, the columns by their paths. It has met a contradiction exactly if a value was
given twice or a path was named twice. One more choice keeps this (`Took.choose`), so it holds of
every draft (`took_chooseAll`). -/

namespace ModularEncryption

theorem Table.mem_values_insert {κ α : Type} [DecidableEq κ] {t : Table κ α} {k : κ} {a b : α}
    (h : b ∈ (t.insert k a).values) : b ∈ t.values ∨ b = a := by
  simp only [Table.values, Table.insert, List.map_append, List.mem_append, List.mem_map,
    List.map_cons, List.map_nil, List.mem_singleton] at h
  rcases h with ⟨e, he, rfl⟩ | rfl
  · exact .inl (List.mem_map_of_mem (List.mem_filter.mp he).1)
  · exact .inr rfl

/-! ### What choices say -/

namespace WriteChoice

/-- The value of a choice that is to be made once, and which one it is. -/
def once? : WriteChoice → Option (OnceOnly × Bytes)
  | .footerKey bytes => some (.footerKey, bytes)
  | .footerKeyMetadata bytes => some (.footerKeyMetadata, bytes)
  | .footerKeyId id => some (.footerKeyMetadata, Text.Utf8.encode id)
  | .footerSigningKey bytes => some (.footerSigningKey, bytes)
  | .footerSigningKeyMetadata bytes => some (.footerSigningKeyMetadata, bytes)
  | .aadPrefix bytes => some (.aadPrefix, bytes)
  | .aadMetadata bytes => some (.aadMetadata, bytes)
  | .suite _ | .column _ | .columns _ | .encryptTheRest _ => none

/-- The columns that a choice names. -/
def named : WriteChoice → List ColumnSettings
  | .column c => [c]
  | .columns cs => cs
  | _ => []

/-- The suite that is chosen. -/
def suite? : WriteChoice → Option CipherSuite
  | .suite s => some s
  | _ => none

/-- What is chosen for the columns that are not named. -/
def rest? : WriteChoice → Option Bool
  | .encryptTheRest b => some b
  | _ => none

/-- All columns that are named. -/
def columnsOf (choices : List WriteChoice) : List ColumnSettings := choices.flatMap named

/-- The suite that prevails. -/
def suiteOf (choices : List WriteChoice) : CipherSuite :=
  (choices.filterMap suite?).getLast?.getD .default

/-- What happens to the columns that are not named; they are encrypted unless it is said
otherwise. -/
def restOf (choices : List WriteChoice) : Bool := (choices.filterMap rest?).getLast?.getD true

section Append

variable (choices : List WriteChoice) (choice : WriteChoice)

theorem columnsOf_append :
    columnsOf (choices ++ [choice]) = columnsOf choices ++ choice.named := by
  simp [columnsOf]

theorem suiteOf_append :
    suiteOf (choices ++ [choice]) = choice.suite?.getD (suiteOf choices) := by
  cases h : choice.suite? <;> simp [suiteOf, List.filterMap_append, h]

theorem restOf_append : restOf (choices ++ [choice]) = choice.rest?.getD (restOf choices) := by
  cases h : choice.rest? <;> simp [restOf, List.filterMap_append, h]

end Append

/-- A value that is to be given once says nothing else. -/
theorem of_once {choice : WriteChoice} {what : OnceOnly} {bytes : Bytes}
    (h : choice.once? = some (what, bytes)) :
    choice.named = [] ∧ choice.suite? = none ∧ choice.rest? = none := by
  cases choice <;> simp [once?] at h <;> simp [named, suite?, rest?]

end WriteChoice

namespace WriteDraft

open WriteChoice Choices

variable {d : WriteDraft} {choices : List WriteChoice} {choice : WriteChoice}

/-- The value that a draft holds of a sort that is to be given once. -/
def slot (d : WriteDraft) : OnceOnly → Option Bytes
  | .footerKey => d.footerKey
  | .footerKeyMetadata => d.footerKeyMetadata
  | .footerSigningKey => d.footerSigningKey
  | .footerSigningKeyMetadata => d.footerSigningKeyMetadata
  | .aadPrefix => d.aadPrefix
  | .aadMetadata => d.aadMetadata
  | .columnKey | .columnKeyMetadata => none

/-- **What a draft has taken in.** -/
structure Took (d : WriteDraft) (choices : List WriteChoice) : Prop where
  slot_eq : ∀ what, d.slot what = (given once? what choices).head?
  suite_eq : d.suite = suiteOf choices
  rest_eq : d.encryptTheRest = restOf choices
  column_eq : ∀ path,
    d.columns.get? path = ((columnsOf choices).filter fun c => c.path = path).getLast?
  mem_columns : ∀ c ∈ d.columns.values, c ∈ columnsOf choices
  conflicts_iff : d.conflicts = [] ↔
    NoRepeat once? choices ∧ ((columnsOf choices).map (·.path)).Nodup

theorem took_nil : ({} : WriteDraft).Took [] where
  slot_eq what := by cases what <;> rfl
  suite_eq := rfl
  rest_eq := rfl
  column_eq _ := rfl
  mem_columns _ hc := hc
  conflicts_iff := by simp [NoRepeat, given, columnsOf]

theorem choose_of_once {what : OnceOnly} {bytes : Bytes}
    (h : choice.once? = some (what, bytes)) :
    FillsOnce d.slot (d.choose choice).slot d.conflicts (d.choose choice).conflicts what bytes ∧
      (d.choose choice).suite = d.suite ∧ (d.choose choice).encryptTheRest = d.encryptTheRest ∧
      (d.choose choice).columns = d.columns := by
  cases choice with
  | suite _ | column _ | columns _ | encryptTheRest _ => cases h
  | footerKey _ | footerKeyMetadata _ | footerKeyId _ | footerSigningKey _
  | footerSigningKeyMetadata _ | aadPrefix _ | aadMetadata _ =>
    cases h
    exact ⟨⟨setOnce_fst .., fun w hw => by cases w <;> first | rfl | exact absurd rfl hw,
      setOnce_snd ..⟩, rfl, rfl, rfl⟩

/-! ### One more choice -/

theorem Took.once (h : d.Took choices) {what : OnceOnly} {bytes : Bytes}
    (hchoice : choice.once? = some (what, bytes)) :
    (d.choose choice).Took (choices ++ [choice]) := by
  obtain ⟨hfills, hsuite, hrest, hcolumns⟩ := choose_of_once (d := d) hchoice
  obtain ⟨hnamed, hsuite?, hrest?⟩ := of_once hchoice
  have hcolumnsOf : columnsOf (choices ++ [choice]) = columnsOf choices := by
    rw [columnsOf_append, hnamed, List.append_nil]
  refine ⟨hfills.slot_eq hchoice h.slot_eq, ?_, ?_, ?_, ?_, ?_⟩
  · rw [hsuite, h.suite_eq, suiteOf_append, hsuite?, Option.getD_none]
  · rw [hrest, h.rest_eq, restOf_append, hrest?, Option.getD_none]
  · rw [hcolumns, hcolumnsOf]
    exact h.column_eq
  · rw [hcolumns, hcolumnsOf]
    exact h.mem_columns
  · rw [hfills.conflicts_eq_nil_iff, hcolumnsOf, h.slot_eq, h.conflicts_iff,
      List.head?_eq_none_iff, noRepeat_append_iff hchoice]
    tauto

/-- A column takes its place among the columns, and only there. -/
theorem Took.column (h : d.Took choices) (c : ColumnSettings) :
    (d.withColumn c).Took (choices ++ [.column c]) := by
  have hgiven : ∀ w, given once? w (choices ++ [.column c]) = given once? w choices :=
    given_append_of_once_eq_none rfl
  have hcolumnsOf : columnsOf (choices ++ [.column c]) = columnsOf choices ++ [c] :=
    columnsOf_append choices (.column c)
  have hcontains : d.columns.contains c.path = true ↔
      c.path ∈ (columnsOf choices).map (·.path) := by
    rw [Table.contains, h.column_eq, List.getLast?_isSome, Ne, List.filter_eq_nil_iff,
      List.mem_map]
    push Not
    simp only [decide_eq_true_eq]
  refine ⟨fun w => ?_, ?_, ?_, fun path => ?_, fun c' hc' => ?_, ?_⟩
  · rw [hgiven, ← h.slot_eq]
    cases w <;> rfl
  · rw [suiteOf_append]
    exact h.suite_eq
  · rw [restOf_append]
    exact h.rest_eq
  · rw [hcolumnsOf, List.filter_append]
    show (d.columns.insert c.path c).get? path = _
    rw [Table.get?_insert, h.column_eq]
    by_cases hpath : path = c.path
    · simp [hpath]
    · simp [hpath, Ne.symm hpath]
  · rw [hcolumnsOf, List.mem_append, List.mem_singleton]
    exact (Table.mem_values_insert hc').imp_left (h.mem_columns c')
  · have hconflicts : (d.withColumn c).conflicts = [] ↔
        c.path ∉ (columnsOf choices).map (·.path) ∧ d.conflicts = [] := by
      rw [← hcontains]
      unfold withColumn
      by_cases hc : d.columns.contains c.path = true <;> simp [hc]
    rw [hconflicts, h.conflicts_iff, hcolumnsOf, List.map_append, List.map_singleton,
      List.nodup_append_comm, List.singleton_append, List.nodup_cons]
    simp only [NoRepeat, hgiven]
    tauto

/-- What is taken in depends on what is said, not on the choices that say it. -/
theorem Took.congr {choices' : List WriteChoice} (h : d.Took choices)
    (hgiven : ∀ w, given once? w choices' = given once? w choices)
    (hcolumns : columnsOf choices' = columnsOf choices)
    (hsuite : suiteOf choices' = suiteOf choices) (hrest : restOf choices' = restOf choices) :
    d.Took choices' where
  slot_eq w := by rw [hgiven, h.slot_eq]
  suite_eq := by rw [hsuite, h.suite_eq]
  rest_eq := by rw [hrest, h.rest_eq]
  column_eq path := by rw [hcolumns, h.column_eq]
  mem_columns c hc := by rw [hcolumns]; exact h.mem_columns c hc
  conflicts_iff := by simp only [NoRepeat, hgiven, hcolumns]; exact h.conflicts_iff

/-- Several columns are taken in one after the other. -/
theorem Took.columns (cs : List ColumnSettings) : ∀ {d : WriteDraft} {choices : List WriteChoice},
    d.Took choices → (cs.foldl withColumn d).Took (choices ++ [.columns cs]) := by
  induction cs with
  | nil =>
    intro d choices h
    exact h.congr (given_append_of_once_eq_none rfl)
      (by rw [columnsOf_append]; exact List.append_nil _)
      (suiteOf_append ..) (restOf_append ..)
  | cons c cs ih =>
    intro d choices h
    refine (ih (h.column c)).congr (fun w => ?_) ?_ ?_ ?_
    · rw [given_append_of_once_eq_none rfl, given_append_of_once_eq_none rfl,
        given_append_of_once_eq_none rfl]
    · rw [columnsOf_append, columnsOf_append, columnsOf_append]
      simp only [named, List.append_assoc, List.singleton_append]
    · simp only [suiteOf_append, suite?, Option.getD_none]
    · simp only [restOf_append, rest?, Option.getD_none]

/-- Of the suite and of what happens to the rest, what is said last prevails. -/
theorem Took.overriding (h : d.Took choices) {d' : WriteDraft} (honce : choice.once? = none)
    (hnamed : choice.named = []) (hslot : d'.slot = d.slot) (hcolumns : d'.columns = d.columns)
    (hconflicts : d'.conflicts = d.conflicts) (hsuite : d'.suite = choice.suite?.getD d.suite)
    (hrest : d'.encryptTheRest = choice.rest?.getD d.encryptTheRest) :
    d'.Took (choices ++ [choice]) := by
  have hgiven : ∀ w, given once? w (choices ++ [choice]) = given once? w choices :=
    given_append_of_once_eq_none honce
  have hcolumnsOf : columnsOf (choices ++ [choice]) = columnsOf choices := by
    rw [columnsOf_append, hnamed, List.append_nil]
  refine ⟨fun w => ?_, ?_, ?_, fun path => ?_, fun c hc => ?_, ?_⟩
  · rw [hslot, hgiven, h.slot_eq]
  · rw [hsuite, suiteOf_append, h.suite_eq]
  · rw [hrest, restOf_append, h.rest_eq]
  · rw [hcolumns, hcolumnsOf, h.column_eq]
  · rw [hcolumnsOf]
    exact h.mem_columns c (hcolumns ▸ hc)
  · rw [hconflicts, hcolumnsOf, h.conflicts_iff]
    simp only [NoRepeat, hgiven]

/-- **One more choice is taken in.** -/
theorem Took.choose (h : d.Took choices) (choice : WriteChoice) :
    (d.choose choice).Took (choices ++ [choice]) := by
  cases choice with
  | suite _ | encryptTheRest _ => exact h.overriding rfl rfl rfl rfl rfl rfl rfl
  | column c => exact h.column c
  | columns cs => exact h.columns cs
  | footerKey _ | footerKeyMetadata _ | footerKeyId _ | footerSigningKey _
  | footerSigningKeyMetadata _ | aadPrefix _ | aadMetadata _ => exact h.once rfl

/-- **A draft has taken in all of its choices.** -/
theorem took_chooseAll (choices : List WriteChoice) :
    (({} : WriteDraft).chooseAll choices).Took choices := by
  induction choices using List.reverseRecOn with
  | nil => exact took_nil
  | append_singleton choices choice ih =>
    rw [chooseAll, List.foldl_append]
    exact ih.choose choice

end WriteDraft

end ModularEncryption
