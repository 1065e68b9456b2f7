import Mathlib.Data.List.Perm.Basic
import ModularEncryption.Proofs.Write.Choices

/-! # Which choices a writer accepts

A sequence of choices is accepted exactly if it is legal (`WriteChoice.Legal`): nothing is given
twice, keys have valid lengths, and the values go together. With a key for the footer nothing may be
said about signing; without one nothing may need it, and some column must be encrypted. Every
refusal is a configuration error.

Whether a sequence is legal does not depend on how choices of different kinds are mixed
(`Legal.of_reordered`). The settings of an accepted sequence say what was chosen
(`WriteSettings.Follows`), for a file made unique by the next bytes of the random stream. -/

namespace ModularEncryption

/-! ### Checks that are passed -/

theorem refuseFirst_eq_ok_iff {conflicts : List Conflict} {context : List (String × String)}
    {u : Unit} : refuseFirst conflicts context = .ok u ↔ conflicts = [] := by
  cases conflicts <;> simp [refuseFirst]

namespace WriteDraft

variable {d : WriteDraft} {footer : FooterProtection}

theorem refuseFooterKeyColumn_eq_ok_iff {columns : List ColumnSettings} {u : Unit} :
    refuseFooterKeyColumn (columns.find? (·.usesFooterKey)) = .ok u ↔
      ∀ c ∈ columns, c.usesFooterKey = false := by
  cases hfind : columns.find? (·.usesFooterKey) with
  | none =>
    simp only [refuseFooterKeyColumn, true_iff]
    simpa using List.find?_eq_none.mp hfind
  | some c =>
    simp only [refuseFooterKeyColumn, reduceCtorEq, false_iff]
    intro h
    have huses : c.usesFooterKey = true := List.find?_some hfind
    rw [h c (List.mem_of_find?_eq_some hfind)] at huses
    cases huses

/-- What the footer of a draft needs if it has a key. -/
theorem checkEncryptedFooter_eq_ok_iff {key : AesKey} :
    d.checkEncryptedFooter key = .ok footer ↔ d.footerSigningKey = none ∧
      d.footerSigningKeyMetadata = none ∧ footer = .encrypted key d.footerKeyMetadata := by
  simp only [checkEncryptedFooter, bind_eq_ok_iff, refuseIf_eq_ok_iff]
  constructor
  · rintro ⟨_, hkey, _, hmetadata, hfooter⟩
    cases hfooter
    exact ⟨by simpa using hkey, by simpa using hmetadata, rfl⟩
  · rintro ⟨hkey, hmetadata, rfl⟩
    exact ⟨(), by simp [hkey], (), by simp [hmetadata], rfl⟩

/-- Nothing in a draft needs a key of the footer, and some column is encrypted. -/
structure NeedsNoFooterKey (d : WriteDraft) : Prop where
  rest_eq : d.encryptTheRest = false
  metadata_eq : d.footerKeyMetadata = none
  usesFooterKey_eq : ∀ c ∈ d.columns.values, c.usesFooterKey = false
  exists_encrypted : ∃ c ∈ d.columns.values, c.encrypted = true

theorem checkWithoutFooterKey_eq_ok_iff {u : Unit} :
    d.checkWithoutFooterKey = .ok u ↔ d.NeedsNoFooterKey := by
  simp only [checkWithoutFooterKey, bind_eq_ok_iff, refuseIf_eq_ok_iff,
    refuseFooterKeyColumn_eq_ok_iff]
  constructor
  · rintro ⟨_, hrest, _, hmetadata, _, huses, hencrypted⟩
    exact ⟨by simpa using hrest, by simpa using hmetadata, huses, by simpa using hencrypted⟩
  · rintro ⟨hrest, hmetadata, huses, hencrypted⟩
    exact ⟨(), by simpa using hrest, (), by simpa using hmetadata, (), huses,
      by simpa using hencrypted⟩

theorem checkPlaintextFooter_eq_ok_iff :
    d.checkPlaintextFooter = .ok footer ↔ d.NeedsNoFooterKey ∧
      ∃ key : Option AesKey, key.map (·.bytes) = d.footerSigningKey ∧
        footer = .plaintext key d.footerSigningKeyMetadata := by
  simp only [checkPlaintextFooter, bind_eq_ok_iff, checkWithoutFooterKey_eq_ok_iff,
    checkKey, AesKey.ofOption_eq_ok_iff]
  constructor
  · rintro ⟨_, hneeds, key, hkey, hfooter⟩
    cases hfooter
    exact ⟨hneeds, key, hkey, rfl⟩
  · rintro ⟨hneeds, key, hkey, rfl⟩
    exact ⟨(), hneeds, key, hkey, rfl⟩

/-- **The two ways in which a draft is without fault.** -/
theorem check_eq_ok_iff : d.check = .ok footer ↔ d.conflicts = [] ∧
    ((∃ key, d.footerKey = some key.bytes ∧ d.footerSigningKey = none ∧
        d.footerSigningKeyMetadata = none ∧ footer = .encrypted key d.footerKeyMetadata) ∨
      (d.footerKey = none ∧ d.NeedsNoFooterKey ∧
        ∃ key : Option AesKey, key.map (·.bytes) = d.footerSigningKey ∧
          footer = .plaintext key d.footerSigningKeyMetadata)) := by
  simp only [check, bind_eq_ok_iff, refuseFirst_eq_ok_iff, checkKey, AesKey.ofOption_eq_ok_iff]
  constructor
  · rintro ⟨_, hconflicts, key, hkey, hfooter⟩
    refine ⟨hconflicts, ?_⟩
    cases key with
    | none => exact .inr ⟨hkey.symm, checkPlaintextFooter_eq_ok_iff.mp hfooter⟩
    | some key => exact .inl ⟨key, hkey.symm, checkEncryptedFooter_eq_ok_iff.mp hfooter⟩
  · rintro ⟨hconflicts, ⟨key, hkey, hfooter⟩ | ⟨hkey, hfooter⟩⟩
    · exact ⟨(), hconflicts, some key, hkey.symm, checkEncryptedFooter_eq_ok_iff.mpr hfooter⟩
    · exact ⟨(), hconflicts, none, hkey.symm, checkPlaintextFooter_eq_ok_iff.mpr hfooter⟩

/-- Whatever is wrong with a draft, it is a matter of configuration. -/
theorem kind_of_check_eq_error {e : Error} (h : d.check = .error e) : e.kind = .configuration := by
  simp only [check, bind_eq_error_iff] at h
  rcases h with h | ⟨_, -, h | ⟨key, -, h⟩⟩
  · exact kind_of_refuseFirst_eq_error h
  · exact kind_of_checkKey_eq_error h
  · cases key with
    | none =>
      simp only [checkPlaintextFooter, checkWithoutFooterKey, bind_eq_error_iff,
        refuseIf_eq_error_iff] at h
      rcases h with (⟨-, rfl⟩ | ⟨_, -, ⟨-, rfl⟩ | ⟨_, -, h | ⟨_, -, -, rfl⟩⟩⟩) |
        ⟨_, -, h | ⟨_, -, h⟩⟩
      · rfl
      · rfl
      · cases hfind : d.columns.values.find? (·.usesFooterKey) with
        | none => rw [hfind] at h; cases h
        | some c => rw [hfind] at h; cases h; rfl
      · rfl
      · exact kind_of_checkKey_eq_error h
      · cases h
    | some key =>
      simp only [checkEncryptedFooter, bind_eq_error_iff, refuseIf_eq_error_iff] at h
      rcases h with ⟨-, rfl⟩ | ⟨_, -, ⟨-, rfl⟩ | ⟨_, -, h⟩⟩
      · rfl
      · rfl
      · cases h

end WriteDraft

/-! ### Legal choices -/

namespace ColumnSettings

/-- A column does without the key of the footer if it has its own, wherever it is encrypted. -/
theorem usesFooterKey_eq_false_iff {c : ColumnSettings} :
    c.usesFooterKey = false ↔ (c.encrypted = true → ∃ key, c.key? = some key) := by
  unfold usesFooterKey encrypted key?
  cases c.protection <;> simp

end ColumnSettings

namespace WriteChoice

open Choices

/-- **Choices that a writer can follow.** -/
structure Legal (choices : List WriteChoice) : Prop where
  /-- Nothing is given twice. -/
  once : ∀ what, (given once? what choices).length ≤ 1
  /-- No column is named twice. -/
  nodup : ((columnsOf choices).map (·.path)).Nodup
  footerKey_length : ∀ bytes ∈ given once? .footerKey choices, bytes.length ∈ validKeyLengths
  signingKey_length : ∀ bytes ∈ given once? .footerSigningKey choices,
    bytes.length ∈ validKeyLengths
  /-- A footer with a key is not signed. -/
  encryptedFooter : given once? .footerKey choices ≠ [] →
    given once? .footerSigningKey choices = [] ∧
      given once? .footerSigningKeyMetadata choices = []
  /-- Without a key of the footer nothing may need one. -/
  plaintextFooter : given once? .footerKey choices = [] →
    restOf choices = false ∧ given once? .footerKeyMetadata choices = [] ∧
      (∃ c ∈ columnsOf choices, c.encrypted = true) ∧
      ∀ c ∈ columnsOf choices, c.encrypted = true → ∃ key, c.key? = some key

/-! ### Choices in another order -/

/-- The kinds of choices. -/
inductive Kind where
  | suite
  | footerKey
  | footerKeyMetadata
  | footerKeyId
  | footerSigningKey
  | footerSigningKeyMetadata
  | aadPrefix
  | aadMetadata
  | column
  | columns
  | encryptTheRest
deriving DecidableEq

/-- The kind of a choice. -/
def kind : WriteChoice → Kind
  | .suite _ => .suite
  | .footerKey _ => .footerKey
  | .footerKeyMetadata _ => .footerKeyMetadata
  | .footerKeyId _ => .footerKeyId
  | .footerSigningKey _ => .footerSigningKey
  | .footerSigningKeyMetadata _ => .footerSigningKeyMetadata
  | .aadPrefix _ => .aadPrefix
  | .aadMetadata _ => .aadMetadata
  | .column _ => .column
  | .columns _ => .columns
  | .encryptTheRest _ => .encryptTheRest

/-- The same choices, of which those of one kind stand in the same order. -/
def Reordered (choices' choices : List WriteChoice) : Prop :=
  ∀ k : Kind, choices'.filter (·.kind = k) = choices.filter (·.kind = k)

section Reordered

variable {choices' choices : List WriteChoice}

theorem Reordered.symm (h : Reordered choices' choices) : Reordered choices choices' :=
  fun k => (h k).symm

theorem Reordered.perm (h : Reordered choices' choices) : choices'.Perm choices := by
  rw [List.perm_iff_count]
  intro a
  have hcount : ∀ l : List WriteChoice, l.count a = (l.filter (·.kind = a.kind)).count a :=
    fun l => (List.count_filter (by simp)).symm
  rw [hcount choices', hcount choices, h a.kind]

theorem rest?_eq_none {choice : WriteChoice} (h : choice.kind ≠ .encryptTheRest) :
    choice.rest? = none := by
  cases choice with
  | encryptTheRest b => exact absurd rfl h
  | _ => rfl

/-- Of one kind, the last choice is the same. -/
theorem Reordered.restOf_eq (h : Reordered choices' choices) :
    restOf choices' = restOf choices := by
  have hfilter : ∀ l : List WriteChoice,
      l.filterMap rest? = (l.filter (·.kind = .encryptTheRest)).filterMap rest? := by
    intro l
    rw [List.filterMap_filter]
    refine List.filterMap_congr fun choice _ => ?_
    by_cases hkind : choice.kind = .encryptTheRest
    · simp [hkind]
    · simp [hkind, rest?_eq_none hkind]
  rw [restOf, restOf, hfilter choices', hfilter choices, h .encryptTheRest]

/-- **Choices of different kinds may change places.** -/
theorem Legal.of_reordered (hlegal : Legal choices) (h : Reordered choices' choices) :
    Legal choices' := by
  have hgiven : ∀ what, (given once? what choices').Perm (given once? what choices) :=
    fun what => h.perm.filterMap _
  have hcolumns : (columnsOf choices').Perm (columnsOf choices) := h.perm.flatMap_right _
  have hnone : ∀ what, given once? what choices' = [] ↔ given once? what choices = [] :=
    fun what => ⟨fun hn => (hn ▸ hgiven what).nil_eq.symm, fun hn => (hn ▸ hgiven what).eq_nil⟩
  refine ⟨fun what => ?_, ?_, fun bytes hbytes => ?_, fun bytes hbytes => ?_, fun hsome => ?_,
    fun hkey => ?_⟩
  · rw [(hgiven what).length_eq]
    exact hlegal.once what
  · exact (hcolumns.map _).nodup_iff.mpr hlegal.nodup
  · exact hlegal.footerKey_length bytes ((hgiven _).mem_iff.mp hbytes)
  · exact hlegal.signingKey_length bytes ((hgiven _).mem_iff.mp hbytes)
  · rw [hnone, hnone]
    exact hlegal.encryptedFooter (mt (hnone _).mpr hsome)
  · obtain ⟨hrest, hmetadata, ⟨c, hc, hencrypted⟩, hown⟩ :=
      hlegal.plaintextFooter ((hnone _).mp hkey)
    exact ⟨h.restOf_eq.trans hrest, (hnone _).mpr hmetadata,
      ⟨c, hcolumns.mem_iff.mpr hc, hencrypted⟩,
      fun c' hc' => hown c' (hcolumns.mem_iff.mp hc')⟩

end Reordered

end WriteChoice

namespace WriteDraft

open WriteChoice Choices

variable {d : WriteDraft} {choices : List WriteChoice}

/-! ### The draft of legal choices -/

theorem Took.slot_eq_none_iff (h : d.Took choices) {what : OnceOnly} :
    d.slot what = none ↔ given once? what choices = [] := by
  rw [h.slot_eq, List.head?_eq_none_iff]

theorem Took.mem_of_slot (h : d.Took choices) {what : OnceOnly} {bytes : Bytes}
    (hslot : d.slot what = some bytes) : bytes ∈ given once? what choices := by
  rw [h.slot_eq] at hslot
  exact List.mem_of_mem_head? hslot

/-- What is given once is what the draft holds. -/
theorem Took.slot_of_mem (h : d.Took choices) {what : OnceOnly} {bytes : Bytes}
    (honce : (given once? what choices).length ≤ 1) (hmem : bytes ∈ given once? what choices) :
    d.slot what = some bytes := by
  obtain ⟨a, ha⟩ : ∃ a, given once? what choices = [a] := by
    have hpos := List.length_pos_of_mem hmem
    exact List.length_eq_one_iff.mp (by omega)
  rw [ha, List.mem_singleton] at hmem
  rw [h.slot_eq, ha, hmem, List.head?_cons]

/-- Of columns with different paths, each is found by its path. -/
theorem Took.get?_path (h : d.Took choices) (hnodup : ((columnsOf choices).map (·.path)).Nodup)
    {c : ColumnSettings} (hc : c ∈ columnsOf choices) : d.columns.get? c.path = some c := by
  have hmem : c ∈ (columnsOf choices).filter fun c' => c'.path = c.path := by
    simpa using hc
  obtain ⟨c', hlast⟩ : ∃ c', d.columns.get? c.path = some c' := by
    rw [h.column_eq, ← Option.isSome_iff_exists, List.getLast?_isSome]
    exact List.ne_nil_of_mem hmem
  have hfilter := List.mem_of_getLast? ((h.column_eq c.path).symm.trans hlast)
  obtain ⟨hc', hpath⟩ := List.mem_filter.mp hfilter
  rw [hlast, List.inj_on_of_nodup_map hnodup hc' hc (by simpa using hpath)]

/-- A column that was not named is not found. -/
theorem Took.get?_eq_none (h : d.Took choices) {path : ColumnPath}
    (hpath : ∀ c ∈ columnsOf choices, c.path ≠ path) : d.columns.get? path = none := by
  rw [h.column_eq, List.getLast?_eq_none_iff, List.filter_eq_nil_iff]
  simpa using hpath

theorem Took.mem_columns_iff (h : d.Took choices)
    (hnodup : ((columnsOf choices).map (·.path)).Nodup) {c : ColumnSettings} :
    c ∈ d.columns.values ↔ c ∈ columnsOf choices :=
  ⟨h.mem_columns c, fun hc => Table.mem_values_of_get? (h.get?_path hnodup hc)⟩

theorem Took.legal_of_check (h : d.Took choices) {footer : FooterProtection}
    (hcheck : d.check = .ok footer) : Legal choices := by
  obtain ⟨hconflicts, hfooter⟩ := check_eq_ok_iff.mp hcheck
  obtain ⟨honce, hnodup⟩ := h.conflicts_iff.mp hconflicts
  rcases hfooter with ⟨key, hkey, hsigning, hmetadata, -⟩ | ⟨hkey, hneeds, key, hsigning, -⟩
  · refine ⟨honce, hnodup, fun bytes hbytes => ?_, fun bytes hbytes => ?_, fun _ => ?_,
      fun hnone => ?_⟩
    · have hslot := h.slot_of_mem (honce .footerKey) hbytes
      rw [slot, hkey, Option.some.injEq] at hslot
      rw [← hslot]
      exact key.length_mem
    · have hslot := h.slot_of_mem (honce .footerSigningKey) hbytes
      rw [slot, hsigning] at hslot
      cases hslot
    · exact ⟨h.slot_eq_none_iff.mp hsigning, h.slot_eq_none_iff.mp hmetadata⟩
    · have hslot := h.slot_eq_none_iff.mpr hnone
      rw [slot, hkey] at hslot
      cases hslot
  · have hnone : given once? .footerKey choices = [] := h.slot_eq_none_iff.mp hkey
    refine ⟨honce, hnodup, fun bytes hbytes => ?_, fun bytes hbytes => ?_,
      fun hsome => absurd hnone hsome, fun _ => ?_⟩
    · rw [hnone] at hbytes
      cases hbytes
    · have hslot := h.slot_of_mem (honce .footerSigningKey) hbytes
      rw [slot, ← hsigning] at hslot
      obtain ⟨k, -, rfl⟩ := Option.map_eq_some_iff.mp hslot
      exact k.length_mem
    · obtain ⟨hrest, hmetadata, huses, c, hc, hencrypted⟩ := hneeds
      refine ⟨h.rest_eq.symm.trans hrest, h.slot_eq_none_iff.mp hmetadata,
        ⟨c, h.mem_columns c hc, hencrypted⟩, fun c' hc' => ?_⟩
      exact ColumnSettings.usesFooterKey_eq_false_iff.mp
        (huses c' ((h.mem_columns_iff hnodup).mpr hc'))

theorem Took.exists_check (h : d.Took choices) (hlegal : Legal choices) :
    ∃ footer, d.check = .ok footer := by
  have hconflicts := h.conflicts_iff.mpr ⟨hlegal.once, hlegal.nodup⟩
  cases hkey : d.footerKey with
  | some bytes =>
    have hmem : bytes ∈ given once? .footerKey choices := h.mem_of_slot hkey
    obtain ⟨hsigning, hmetadata⟩ := hlegal.encryptedFooter (List.ne_nil_of_mem hmem)
    have hlength := hlegal.footerKey_length bytes hmem
    refine ⟨.encrypted ⟨bytes, hlength⟩ d.footerKeyMetadata,
      check_eq_ok_iff.mpr ⟨hconflicts, .inl ?_⟩⟩
    exact ⟨⟨bytes, hlength⟩, hkey, h.slot_eq_none_iff.mpr hsigning,
      h.slot_eq_none_iff.mpr hmetadata, rfl⟩
  | none =>
    obtain ⟨hrest, hmetadata, ⟨c, hc, hencrypted⟩, hown⟩ :=
      hlegal.plaintextFooter (h.slot_eq_none_iff.mp hkey)
    have hneeds : d.NeedsNoFooterKey := by
      refine ⟨h.rest_eq.trans hrest, h.slot_eq_none_iff.mpr hmetadata, fun c' hc' => ?_,
        c, (h.mem_columns_iff hlegal.nodup).mpr hc, hencrypted⟩
      exact ColumnSettings.usesFooterKey_eq_false_iff.mpr (hown c' (h.mem_columns c' hc'))
    obtain ⟨key, hsigning⟩ : ∃ key : Option AesKey,
        key.map (·.bytes) = d.footerSigningKey := by
      cases hsigning : d.footerSigningKey with
      | none => exact ⟨none, rfl⟩
      | some bytes =>
        exact ⟨some ⟨bytes, hlegal.signingKey_length bytes (h.mem_of_slot hsigning)⟩, rfl⟩
    exact ⟨_, check_eq_ok_iff.mpr ⟨hconflicts, .inr ⟨hkey, hneeds, key, hsigning, rfl⟩⟩⟩

end WriteDraft

/-! ### Settings of legal choices -/

/-- **What the settings of an accepted sequence of choices say**, for a file made unique by given
bytes. Of what is given once, the value is the only one. -/
structure WriteSettings.Follows (s : WriteSettings) (choices : List WriteChoice)
    (unique : Bytes) : Prop where
  fileAad_eq : s.fileAad =
    (Choices.given WriteChoice.once? .aadPrefix choices).head?.getD [] ++ unique
  algorithm_eq : s.algorithm =
    ⟨WriteChoice.suiteOf choices, (Choices.given WriteChoice.once? .aadMetadata choices).head?,
      unique⟩
  footerKey_eq : s.footerKey?.map (·.bytes) =
    (Choices.given WriteChoice.once? .footerKey choices).head?
  footerKeyMetadata_eq :
    s.footerKeyMetadata? = (Choices.given WriteChoice.once? .footerKeyMetadata choices).head?
  signingKey_eq :
    s.footerSigningKey?.map (·.bytes) =
      (Choices.given WriteChoice.once? .footerSigningKey choices).head?
  signingKeyMetadata_eq :
    s.footerSigningKeyMetadata? =
      (Choices.given WriteChoice.once? .footerSigningKeyMetadata choices).head?
  rest_eq : s.encryptTheRest = WriteChoice.restOf choices
  /-- A column that was named is as it was named, -/
  named : ∀ c ∈ WriteChoice.columnsOf choices, s.column c.path = c
  /-- and any other one is part of the rest. -/
  others : ∀ path, (∀ c ∈ WriteChoice.columnsOf choices, c.path ≠ path) →
    s.column path = ⟨path, if WriteChoice.restOf choices then .footerKey else .plaintext⟩

namespace WriteDraft

open WriteChoice Choices

variable {d : WriteDraft} {choices : List WriteChoice}

/-- The settings that a draft amounts to. -/
def settings (d : WriteDraft) (footer : FooterProtection) (unique : Bytes) : WriteSettings where
  algorithm := ⟨d.suite, d.aadMetadata, unique⟩
  footer := footer
  aadPrefix := d.aadPrefix
  columns := d.columns
  encryptTheRest := d.encryptTheRest

/-- Only a draft without fault draws random bytes. -/
theorem build_eq (d : WriteDraft) (e : Entropy) :
    d.build e = match d.check with
      | .ok footer => (.ok (d.settings footer (e.next 8)), e.skip 8)
      | .error error => (.error error, e) := by
  cases hcheck : d.check <;> simp only [build, hcheck] <;> rfl

theorem Took.follows (h : d.Took choices) {footer : FooterProtection}
    (hcheck : d.check = .ok footer) (unique : Bytes) :
    (d.settings footer unique).Follows choices unique := by
  obtain ⟨hconflicts, hfooter⟩ := check_eq_ok_iff.mp hcheck
  obtain ⟨-, hnodup⟩ := h.conflicts_iff.mp hconflicts
  have haad : d.aadPrefix = (given once? .aadPrefix choices).head? := h.slot_eq .aadPrefix
  have hmetadata : d.aadMetadata = (given once? .aadMetadata choices).head? :=
    h.slot_eq .aadMetadata
  have hkeys : (d.settings footer unique).footerKey?.map (·.bytes) = d.footerKey ∧
      (d.settings footer unique).footerKeyMetadata? = d.footerKeyMetadata ∧
      (d.settings footer unique).footerSigningKey?.map (·.bytes) = d.footerSigningKey ∧
      (d.settings footer unique).footerSigningKeyMetadata? = d.footerSigningKeyMetadata := by
    rcases hfooter with ⟨key, hkey, hsigning, hsigningMetadata, rfl⟩ |
      ⟨hkey, hneeds, key, hsigning, rfl⟩
    · exact ⟨hkey.symm, rfl, hsigning.symm, hsigningMetadata.symm⟩
    · exact ⟨hkey.symm, hneeds.metadata_eq.symm, hsigning, rfl⟩
  obtain ⟨hkey, hkeyMetadata, hsigning, hsigningMetadata⟩ := hkeys
  refine ⟨?_, ?_, hkey.trans (h.slot_eq .footerKey),
    hkeyMetadata.trans (h.slot_eq .footerKeyMetadata), hsigning.trans (h.slot_eq .footerSigningKey),
    hsigningMetadata.trans (h.slot_eq .footerSigningKeyMetadata), h.rest_eq, fun c hc => ?_,
    fun path hpath => ?_⟩
  · rw [← haad]
    rfl
  · rw [← hmetadata, ← h.suite_eq]
    rfl
  · show (d.columns.get? c.path).getD _ = c
    rw [h.get?_path hnodup hc, Option.getD_some]
  · show (d.columns.get? path).getD _ = _
    rw [h.get?_eq_none hpath, Option.getD_none, ← h.rest_eq]
    rfl

end WriteDraft

namespace WriteSettings

open WriteChoice Choices

/-- The settings that a sequence of choices amounts to. -/
def ofChoices (choices : List WriteChoice) : Drawing WriteSettings :=
  (({} : WriteDraft).chooseAll choices).build

theorem exists_ofChoices_iff {choices : List WriteChoice} {e : Entropy} :
    (∃ s e', ofChoices choices e = (.ok s, e')) ↔ Legal choices := by
  have htook := WriteDraft.took_chooseAll choices
  rw [ofChoices, WriteDraft.build_eq]
  constructor
  · rintro ⟨s, e', h⟩
    cases hcheck : (({} : WriteDraft).chooseAll choices).check with
    | ok footer => exact htook.legal_of_check hcheck
    | error error => rw [hcheck] at h; cases h
  · intro hlegal
    obtain ⟨footer, hcheck⟩ := htook.exists_check hlegal
    rw [hcheck]
    exact ⟨_, _, rfl⟩

theorem of_ofChoices_eq_error {choices : List WriteChoice} {e e' : Entropy} {error : Error}
    (h : ofChoices choices e = (.error error, e')) : error.kind = .configuration ∧ e' = e := by
  rw [ofChoices, WriteDraft.build_eq] at h
  cases hcheck : (({} : WriteDraft).chooseAll choices).check with
  | ok footer => rw [hcheck] at h; cases h
  | error error =>
    rw [hcheck] at h
    cases h
    exact ⟨WriteDraft.kind_of_check_eq_error hcheck, rfl⟩

theorem of_ofChoices_eq_ok {choices : List WriteChoice} {e e' : Entropy} {s : WriteSettings}
    (h : ofChoices choices e = (.ok s, e')) :
    s.Follows choices (e.next 8) ∧ e' = e.skip 8 := by
  rw [ofChoices, WriteDraft.build_eq] at h
  cases hcheck : (({} : WriteDraft).chooseAll choices).check with
  | ok footer =>
    rw [hcheck] at h
    cases h
    exact ⟨(WriteDraft.took_chooseAll choices).follows hcheck _, rfl⟩
  | error error => rw [hcheck] at h; cases h

/-- **A writer accepts exactly the legal choices.** Every refusal is a configuration error and draws
nothing; choices of different kinds may change places; and the settings of what is accepted say what
was chosen, for a file made unique by the next eight random bytes. -/
theorem writer_acceptance (choices : List WriteChoice) (e : Entropy) :
    ((∃ s e', ofChoices choices e = (.ok s, e')) ↔ Legal choices) ∧
      (∀ error e', ofChoices choices e = (.error error, e') →
        error.kind = .configuration ∧ e' = e) ∧
      (∀ choices', Reordered choices' choices →
        ((∃ s e', ofChoices choices' e = (.ok s, e')) ↔
          ∃ s e', ofChoices choices e = (.ok s, e'))) ∧
      ∀ s e', ofChoices choices e = (.ok s, e') →
        s.Follows choices (e.next 8) ∧ e' = e.skip 8 := by
  refine ⟨exists_ofChoices_iff, fun _ _ => of_ofChoices_eq_error, fun choices' h => ?_,
    fun _ _ => of_ofChoices_eq_ok⟩
  rw [exists_ofChoices_iff, exists_ofChoices_iff]
  exact ⟨fun hlegal => hlegal.of_reordered h.symm, fun hlegal => hlegal.of_reordered h⟩

namespace Sample

/-- A key of ones. -/
def key : AesKey := ⟨List.replicate 16 1, by simp [validKeyLengths]⟩

/-- A column with its own key. -/
def column : ColumnSettings := ⟨⟨["a"]⟩, .ownKey key none⟩

/-- A file of which one column is encrypted, once it is said what happens to the rest. -/
def choices : List WriteChoice :=
  [.encryptTheRest true, .column column, .aadPrefix [112], .encryptTheRest false]

/-- The same choices in another order. -/
def reordered : List WriteChoice :=
  [.aadPrefix [112], .encryptTheRest true, .encryptTheRest false, .column column]

theorem legal : Legal choices where
  once what := by cases what <;> decide
  nodup := by decide
  footerKey_length := by decide
  signingKey_length := by decide
  encryptedFooter := by decide
  plaintextFooter _ := by
    refine ⟨rfl, rfl, ⟨column, by decide, rfl⟩, fun c hc _ => ?_⟩
    have hcolumn : c = column := by simpa [choices, columnsOf, named] using hc
    rw [hcolumn]
    exact ⟨key, rfl⟩

theorem reordered_choices : Reordered reordered choices := fun k => by
  cases k <;> decide

end Sample

/-- The choices are accepted in either order, and refused if a prefix is given again. -/
theorem writer_acceptance_sample :
    (∃ s, ofChoices Sample.choices ⟨fun _ => 7, 0⟩ = (.ok s, ⟨fun _ => 7, 8⟩) ∧
      s.fileAad = [112, 7, 7, 7, 7, 7, 7, 7, 7] ∧ s.column ⟨["a"]⟩ = Sample.column ∧
      s.column ⟨["b"]⟩ = ⟨⟨["b"]⟩, .plaintext⟩) ∧
    (∃ s e', ofChoices Sample.reordered ⟨fun _ => 7, 0⟩ = (.ok s, e')) ∧
    ∃ error, ofChoices (Sample.choices ++ [.aadPrefix [112]]) ⟨fun _ => 7, 0⟩ =
      (.error error, ⟨fun _ => 7, 0⟩) ∧ error.kind = .configuration := by
  obtain ⟨haccepted, -, hreordered, hfollows⟩ :=
    writer_acceptance Sample.choices ⟨fun _ => 7, 0⟩
  obtain ⟨s, e', hs⟩ := haccepted.mpr Sample.legal
  obtain ⟨hsaid, rfl⟩ := hfollows s e' hs
  obtain ⟨-, hrefused, -⟩ :=
    writer_acceptance (Sample.choices ++ [.aadPrefix [112]]) ⟨fun _ => 7, 0⟩
  refine ⟨⟨s, hs, hsaid.fileAad_eq, hsaid.named Sample.column (by decide),
    hsaid.others _ (by decide)⟩, (hreordered _ Sample.reordered_choices).mpr ⟨s, _, hs⟩, ?_⟩
  exact ⟨_, rfl, (hrefused _ _ rfl).1⟩

end WriteSettings

end ModularEncryption
