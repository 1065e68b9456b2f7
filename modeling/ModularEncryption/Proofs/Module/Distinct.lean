import ModularEncryption.ModuleAad

/-! # Modules are told apart by their additional data

The additional data of a module are those of its file and then a name: the tag of its kind and, two
bytes each, the ordinals that the kind carries (`ModuleKind.roles`, `aad_eq`). So they exist exactly
if these ordinals fit (`aad_of_fits`), and otherwise the first one that does not is what is wrong
(`of_aad_eq_error`).

Behind the data of one file, or of files with equally long data, it is the names that differ. The
tags of two kinds are different, and two names of one kind consist of equally many pieces of two
bytes, each of which gives its ordinal back (`name_inj`). So modules have the same additional data
only if they are the same module (`aad_unambiguous`). -/

namespace ModularEncryption

/-- The ordinal of a role. -/
def Ordinals.of (o : Ordinals) : OrdinalRole → Nat
  | .rowGroup => o.rowGroup
  | .column => o.column
  | .page => o.page

/-- The roles of the ordinals that modules of a kind carry, in the order in which they are
written. -/
def ModuleKind.roles : ModuleKind → List OrdinalRole
  | .footer => []
  | .dataPage | .dataPageHeader => [.rowGroup, .column, .page]
  | _ => [.rowGroup, .column]

variable {kind kind' : ModuleKind} {fileAad fileAad' bs : Bytes} {o o' : Ordinals} {e : Error}
  {roles : List OrdinalRole}

/-! ### Written ordinals -/

/-- The bytes of the ordinals of some roles, one after the other. -/
def Ordinals.written (o : Ordinals) (roles : List OrdinalRole) : Bytes :=
  (roles.map fun role => Bytes.littleEndian 2 (o.of role)).flatten

/-- The error for an ordinal that does not fit. -/
def Ordinals.tooLarge (o : Ordinals) (role : OrdinalRole) : Error :=
  { cause := .ordinalTooLarge role (o.of role), context := [("ordinal", role.name)] }

/-- **Ordinals are written if all of them fit**; otherwise the first one that does not is the
error. -/
theorem mapM_ordinalBytes (o : Ordinals) (roles : List OrdinalRole) :
    roles.mapM (fun role => ordinalBytes role (o.of role)) =
      match roles.find? (maxOrdinal < o.of ·) with
      | some role => .error (o.tooLarge role)
      | none => .ok (roles.map fun role => Bytes.littleEndian 2 (o.of role)) := by
  induction roles with
  | nil => rfl
  | cons role roles ih =>
    rw [List.mapM_cons, ih]
    by_cases h : maxOrdinal < o.of role
    · rw [List.find?_cons_of_pos (by simpa using h), ordinalBytes, if_pos h]
      rfl
    · rw [List.find?_cons_of_neg (by simpa using h), ordinalBytes, if_neg h]
      cases roles.find? (maxOrdinal < o.of ·) <;> rfl

theorem ofLittleEndian_ordinal {n : Nat} (h : n ≤ maxOrdinal) :
    Bytes.ofLittleEndian (Bytes.littleEndian 2 n) = n :=
  Bytes.ofLittleEndian_littleEndian 2 n (Nat.lt_of_le_of_lt h (by decide))

/-- Ordinals that fit are given back by the bytes that they are written with. -/
theorem of_eq_of_written (h : ∀ role ∈ roles, o.of role ≤ maxOrdinal)
    (h' : ∀ role ∈ roles, o'.of role ≤ maxOrdinal) (heq : o.written roles = o'.written roles) :
    ∀ role ∈ roles, o.of role = o'.of role := by
  induction roles with
  | nil => exact nofun
  | cons role roles ih =>
    rw [List.forall_mem_cons] at h h' ⊢
    obtain ⟨hfirst, hrest⟩ := List.append_inj heq (by simp only [Bytes.length_littleEndian])
    have hback := congrArg Bytes.ofLittleEndian hfirst
    simp only [ofLittleEndian_ordinal h.1, ofLittleEndian_ordinal h'.1] at hback
    exact ⟨hback, ih h.2 h'.2 hrest⟩

theorem written_congr (h : ∀ role ∈ roles, o'.of role = o.of role) :
    o'.written roles = o.written roles := by
  unfold Ordinals.written
  rw [List.map_congr_left fun role hrole => by rw [h role hrole]]

namespace ModuleKind

/-! ### The form of additional data -/

/-- The ordinals that modules of a kind carry fit. -/
def Fits (kind : ModuleKind) (o : Ordinals) : Prop := ∀ role ∈ kind.roles, o.of role ≤ maxOrdinal

/-- What the additional data of a module add to the file's. -/
def name (kind : ModuleKind) (o : Ordinals) : Bytes := kind.tag :: o.written kind.roles

/-- **All kinds of modules have additional data of one form.** -/
theorem aad_eq (kind : ModuleKind) (fileAad : Bytes) (o : Ordinals) :
    kind.aad fileAad o = (kind.roles.mapM fun role => ordinalBytes role (o.of role)).map
      fun written => fileAad ++ kind.tag :: written.flatten := by
  unfold aad
  cases kind with
  | footer => rfl
  | dataPage | dataPageHeader =>
    simp only [roles, List.mapM_cons, List.mapM_nil, Ordinals.of]
    cases ordinalBytes .rowGroup o.rowGroup with
    | error e => rfl
    | ok rowGroup =>
      cases ordinalBytes .column o.column with
      | error e => rfl
      | ok column =>
        cases ordinalBytes .page o.page with
        | error e => rfl
        | ok page => exact congrArg Except.ok (by simp)
  | _ =>
    simp only [roles, List.mapM_cons, List.mapM_nil, Ordinals.of]
    cases ordinalBytes .rowGroup o.rowGroup with
    | error e => rfl
    | ok rowGroup =>
      cases ordinalBytes .column o.column with
      | error e => rfl
      | ok column => exact congrArg Except.ok (by simp)

/-- A module whose ordinals fit has the file's additional data and its name. -/
theorem aad_of_fits (h : kind.Fits o) (fileAad : Bytes) :
    kind.aad fileAad o = .ok (fileAad ++ kind.name o) := by
  have hnone : kind.roles.find? (maxOrdinal < o.of ·) = none :=
    List.find?_eq_none.mpr fun role hrole => by simpa using h role hrole
  rw [aad_eq, mapM_ordinalBytes, hnone]
  rfl

/-- A module without additional data carries an ordinal that does not fit, and the error is the
first one of these. -/
theorem of_aad_eq_error (h : kind.aad fileAad o = .error e) :
    ∃ role, kind.roles.find? (maxOrdinal < o.of ·) = some role ∧ e = o.tooLarge role := by
  rw [aad_eq, mapM_ordinalBytes] at h
  cases hfind : kind.roles.find? (maxOrdinal < o.of ·) with
  | none => rw [hfind] at h; cases h
  | some role => rw [hfind] at h; cases h; exact ⟨role, rfl, rfl⟩

theorem fits_of_aad_eq_ok (h : kind.aad fileAad o = .ok bs) : kind.Fits o := by
  rw [aad_eq, mapM_ordinalBytes] at h
  cases hfind : kind.roles.find? (maxOrdinal < o.of ·) with
  | none => exact fun role hrole => by simpa using List.find?_eq_none.mp hfind role hrole
  | some role => rw [hfind] at h; cases h

theorem eq_of_aad_eq_ok (h : kind.aad fileAad o = .ok bs) : bs = fileAad ++ kind.name o :=
  Except.ok.inj (h.symm.trans (aad_of_fits (fits_of_aad_eq_ok h) fileAad))

/-- Ordinals that a kind does not carry are ignored. -/
theorem aad_congr (h : ∀ role ∈ kind.roles, o'.of role = o.of role) (fileAad : Bytes) :
    kind.aad fileAad o' = kind.aad fileAad o := by
  have hmapM : ∀ f : OrdinalRole → Except Error Bytes,
      (kind.roles.map f).mapM id = kind.roles.mapM f := fun _ => List.mapM_map
  rw [aad_eq, aad_eq, ← hmapM, ← hmapM fun role => ordinalBytes role (o.of role),
    List.map_congr_left fun role hrole => by rw [h role hrole]]

/-! ### Names -/

theorem tag_injective (h : kind.tag = kind'.tag) : kind = kind' := by
  revert h
  cases kind <;> cases kind' <;> decide

/-- **Names tell modules apart.** -/
theorem name_inj (h : kind.Fits o) (h' : kind'.Fits o') :
    kind.name o = kind'.name o' ↔ kind = kind' ∧ ∀ role ∈ kind.roles, o.of role = o'.of role := by
  constructor
  · intro heq
    obtain ⟨htag, hwritten⟩ := List.cons.inj heq
    obtain rfl := tag_injective htag
    exact ⟨rfl, of_eq_of_written h h' hwritten⟩
  · rintro ⟨rfl, hsame⟩
    rw [name, name, written_congr hsame]

theorem footerAad_eq (fileAad : Bytes) (o : Ordinals) :
    footerAad fileAad = fileAad ++ ModuleKind.footer.name o := rfl

/-- **Additional data are unambiguous.** A module has additional data exactly if the ordinals that
its kind carries fit, the error is about one that does not, and other ordinals are ignored. Two
modules of files whose additional data are equally long have the same additional data exactly if
they agree on the file, the kind and the ordinals that the kind carries; and no module has those of
the footer but the footer. -/
theorem aad_unambiguous (kind : ModuleKind) (fileAad : Bytes) (o : Ordinals) :
    ((∃ bs, kind.aad fileAad o = .ok bs) ↔ ∀ role ∈ kind.roles, o.of role ≤ maxOrdinal) ∧
    (∀ e, kind.aad fileAad o = .error e → e.kind = .dataInvalid ∧
      ∃ role ∈ kind.roles, maxOrdinal < o.of role ∧
        e.cause = .ordinalTooLarge role (o.of role)) ∧
    (∀ o', (∀ role ∈ kind.roles, o'.of role = o.of role) →
      kind.aad fileAad o' = kind.aad fileAad o) ∧
    (∀ kind' fileAad' o' bs bs', fileAad.length = fileAad'.length →
      kind.aad fileAad o = .ok bs → kind'.aad fileAad' o' = .ok bs' →
      (bs = bs' ↔
        fileAad = fileAad' ∧ kind = kind' ∧ ∀ role ∈ kind.roles, o.of role = o'.of role)) ∧
    ∀ fileAad' bs, fileAad.length = fileAad'.length → kind.aad fileAad o = .ok bs →
      bs = footerAad fileAad' → kind = .footer := by
  refine ⟨⟨fun ⟨bs, h⟩ => fits_of_aad_eq_ok h, fun h => ⟨_, aad_of_fits h fileAad⟩⟩,
    fun e h => ?_, fun o' h => aad_congr h fileAad, fun kind' fileAad' o' bs bs' hlength h h' => ?_,
    fun fileAad' bs hlength h heq => ?_⟩
  · obtain ⟨role, hfind, rfl⟩ := of_aad_eq_error h
    exact ⟨rfl, role, List.mem_of_find?_eq_some hfind, by simpa using List.find?_some hfind, rfl⟩
  · -- the files' data are equally long, so the names stand at the same place
    rw [eq_of_aad_eq_ok h, eq_of_aad_eq_ok h',
      ← name_inj (fits_of_aad_eq_ok h) (fits_of_aad_eq_ok h')]
    constructor
    · exact fun heq => List.append_inj heq hlength
    · rintro ⟨rfl, hname⟩
      rw [hname]
  · rw [eq_of_aad_eq_ok h, footerAad_eq fileAad' o] at heq
    have hfooter : ModuleKind.footer.Fits o := nofun
    exact ((name_inj (fits_of_aad_eq_ok h) hfooter).mp (List.append_inj heq hlength).2).1

/-- The header of a page does not have the additional data of the page, and a dictionary page has
the same ones whatever page it is said to be. -/
theorem aad_unambiguous_header :
    ModuleKind.dataPage.aad [7, 7] ⟨1, 2, 300⟩ = .ok [7, 7, 2, 1, 0, 2, 0, 44, 1] ∧
      ModuleKind.dataPageHeader.aad [7, 7] ⟨1, 2, 300⟩ = .ok [7, 7, 4, 1, 0, 2, 0, 44, 1] ∧
      ([7, 7, 2, 1, 0, 2, 0, 44, 1] : Bytes) ≠ [7, 7, 4, 1, 0, 2, 0, 44, 1] ∧
      (∀ role ∈ ModuleKind.dictionaryPage.roles,
        (Ordinals.mk 1 2 40000).of role = (Ordinals.mk 1 2 3).of role) ∧
      ModuleKind.dictionaryPage.aad [7, 7] ⟨1, 2, 40000⟩ =
        ModuleKind.dictionaryPage.aad [7, 7] ⟨1, 2, 3⟩ := by
  have hpage : ModuleKind.dataPage.aad [7, 7] ⟨1, 2, 300⟩ = .ok [7, 7, 2, 1, 0, 2, 0, 44, 1] := rfl
  have hheader : ModuleKind.dataPageHeader.aad [7, 7] ⟨1, 2, 300⟩ =
    .ok [7, 7, 4, 1, 0, 2, 0, 44, 1] := rfl
  obtain ⟨-, -, -, hdistinct, -⟩ := aad_unambiguous .dataPage [7, 7] ⟨1, 2, 300⟩
  have hiff := hdistinct .dataPageHeader [7, 7] ⟨1, 2, 300⟩ _ _ rfl hpage hheader
  have hroles : ∀ role ∈ ModuleKind.dictionaryPage.roles,
      (Ordinals.mk 1 2 40000).of role = (Ordinals.mk 1 2 3).of role := by decide
  obtain ⟨-, -, hignored, -⟩ := aad_unambiguous .dictionaryPage [7, 7] ⟨1, 2, 3⟩
  refine ⟨hpage, hheader, fun heq => ?_, hroles, hignored _ hroles⟩
  cases (hiff.mp heq).2.1

end ModuleKind

end ModularEncryption
