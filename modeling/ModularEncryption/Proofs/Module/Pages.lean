import ModularEncryption.Proofs.Module.Distinct

/-! # Pages are numbered on

The additional data of a page are a front that all pages of its column share (`pageFront`) and the
two bytes of the page's ordinal (`aad_withPage`). To number a buffer on is to replace these two
bytes, if the ordinal fits and there are two bytes, and to do nothing otherwise
(`renumberPage_append`, `renumberPage_of_tooLarge`, `renumberPage_of_short`).

So a buffer that begins as the additional data of some page holds, after any sequence of ordinals,
those of the last page whose ordinal fits (`renumberPages_append`), which are what building them
anew would give (`renumberPage_rebuilds`). -/

namespace ModularEncryption

/-- The buffer after it is numbered on with one ordinal after the other. -/
def renumberPages (buffer : Bytes) (pages : List Nat) : Bytes :=
  pages.foldl (fun buffer page => (renumberPage buffer page).2) buffer

/-- The last ordinal that fits, or the one at the start. -/
def lastPage (start : Nat) (pages : List Nat) : Nat :=
  (pages.filter (· ≤ maxOrdinal)).getLastD start

variable {kind : ModuleKind} {fileAad buffer old : Bytes} {o : Ordinals} {page start : Nat}
  {e : Error}

/-! ### One ordinal -/

theorem renumberPage_of_tooLarge (h : maxOrdinal < page) (buffer : Bytes) :
    renumberPage buffer page = (.error
      { cause := .ordinalTooLarge .page page, context := [("ordinal", "page")] }, buffer) := by
  unfold renumberPage withPage ordinalBytes
  rw [if_pos h]
  rfl

theorem renumberPage_of_short (h : page ≤ maxOrdinal) (hshort : buffer.length < 2) :
    renumberPage buffer page = (.error { cause := .pageAadTooShort buffer.length }, buffer) := by
  unfold renumberPage withPage refuseIf
  rw [ordinalBytes_of_le h, if_pos hshort]
  rfl

/-- **The last two bytes are replaced** by those of an ordinal that fits. -/
theorem renumberPage_append (h : page ≤ maxOrdinal) (hold : old.length = 2) (front : Bytes) :
    renumberPage (front ++ old) page = (.ok (), front ++ Bytes.littleEndian 2 page) := by
  have hlong : ¬ (front ++ old).length < 2 := by
    rw [List.length_append, hold]
    exact Nat.not_lt.mpr (Nat.le_add_left 2 _)
  have hfront : (front ++ old).take ((front ++ old).length - 2) = front := by
    rw [List.length_append, hold, Nat.add_sub_cancel, List.take_left]
  unfold renumberPage withPage refuseIf
  rw [ordinalBytes_of_le h, if_neg hlong, hfront]
  rfl

/-- A buffer of two bytes or more ends with two bytes. -/
theorem exists_append_of_two_le (h : 2 ≤ buffer.length) :
    ∃ front old : Bytes, buffer = front ++ old ∧ old.length = 2 :=
  ⟨_, _, (List.take_append_drop (buffer.length - 2) buffer).symm, by
    rw [List.length_drop]; exact Nat.sub_sub_self h⟩

/-- **Numbering on fails exactly if the ordinal does not fit or the buffer is too short.** -/
theorem renumberPage_fails_iff : (∃ e, (renumberPage buffer page).1 = .error e) ↔
    maxOrdinal < page ∨ buffer.length < 2 := by
  constructor
  · rintro ⟨e, he⟩
    rcases Nat.lt_or_ge maxOrdinal page with hpage | hpage
    · exact .inl hpage
    · rcases Nat.lt_or_ge buffer.length 2 with hshort | hlong
      · exact .inr hshort
      · obtain ⟨front, old, rfl, hold⟩ := exists_append_of_two_le hlong
        rw [renumberPage_append hpage hold] at he
        cases he
  · intro h
    rcases Nat.lt_or_ge maxOrdinal page with hpage | hpage
    · exact ⟨_, congrArg Prod.fst (renumberPage_of_tooLarge hpage buffer)⟩
    · have hshort : buffer.length < 2 := h.resolve_left (Nat.not_lt.mpr hpage)
      exact ⟨_, congrArg Prod.fst (renumberPage_of_short hpage hshort)⟩

/-- A buffer that is not numbered on is left alone. -/
theorem renumberPage_of_error (h : (renumberPage buffer page).1 = .error e) :
    (renumberPage buffer page).2 = buffer := by
  unfold renumberPage at h ⊢
  cases hresult : withPage buffer page with
  | ok updated => rw [hresult] at h; cases h
  | error e => rfl

/-- A buffer that is numbered on has other last bytes, and nothing else changes. -/
theorem renumberPage_of_ok (h : (renumberPage buffer page).1 = .ok ()) :
    ∃ front old new, buffer = front ++ old ∧ old.length = 2 ∧ new.length = 2 ∧
      (renumberPage buffer page).2 = front ++ new := by
  have hnot : ¬ (maxOrdinal < page ∨ buffer.length < 2) := by
    rw [← renumberPage_fails_iff, h]
    rintro ⟨e, he⟩
    cases he
  obtain ⟨hpage, hlong⟩ := not_or.mp hnot
  obtain ⟨front, old, rfl, hold⟩ := exists_append_of_two_le (Nat.not_lt.mp hlong)
  exact ⟨front, old, _, rfl, hold, Bytes.length_littleEndian 2 page,
    congrArg Prod.snd (renumberPage_append (Nat.not_lt.mp hpage) hold front)⟩

/-! ### One ordinal after the other -/

/-- A buffer that ends with an ordinal ends with the last one that fits. -/
theorem renumberPages_append (front : Bytes) (start : Nat) (pages : List Nat) :
    renumberPages (front ++ Bytes.littleEndian 2 start) pages =
      front ++ Bytes.littleEndian 2 (lastPage start pages) := by
  induction pages generalizing start with
  | nil => rfl
  | cons page pages ih =>
    unfold lastPage renumberPages
    rw [List.foldl_cons]
    by_cases h : page ≤ maxOrdinal
    · rw [renumberPage_append h (Bytes.length_littleEndian 2 start),
        List.filter_cons_of_pos (by simpa using h), List.getLastD_cons]
      exact ih page
    · rw [renumberPage_of_tooLarge (Nat.not_le.mp h), List.filter_cons_of_neg (by simpa using h)]
      exact ih start

theorem lastPage_le (h : start ≤ maxOrdinal) (pages : List Nat) :
    lastPage start pages ≤ maxOrdinal := by
  unfold lastPage
  rw [List.getLastD_eq_getLast?]
  cases hlast : (pages.filter (· ≤ maxOrdinal)).getLast? with
  | none => exact h
  | some page => simpa using (List.mem_filter.mp (List.mem_of_getLast? hlast)).2

/-! ### Additional data of pages -/

namespace ModuleKind

/-- What the additional data of all pages of a column have in front of the page's ordinal. -/
def pageFront (kind : ModuleKind) (fileAad : Bytes) (o : Ordinals) : Bytes :=
  fileAad ++ [kind.tag] ++ Bytes.littleEndian 2 o.rowGroup ++ Bytes.littleEndian 2 o.column

/-- **The additional data of pages differ in the last two bytes only.** -/
theorem aad_withPage (hkind : kind.hasPage = true) (hrowGroup : o.rowGroup ≤ maxOrdinal)
    (hcolumn : o.column ≤ maxOrdinal) (fileAad : Bytes) (page : Nat) :
    kind.aad fileAad { o with page } =
      (ordinalBytes .page page).map (kind.pageFront fileAad o ++ ·) := by
  have hfooter : kind ≠ .footer := by
    rintro rfl
    cases hkind
  unfold aad
  rw [if_neg hfooter, hkind, ordinalBytes_of_le hrowGroup, ordinalBytes_of_le hcolumn]
  cases ordinalBytes .page page <;> rfl

/-- The ordinals of a page that has additional data fit. -/
theorem le_of_aad_eq_ok (hkind : kind.hasPage = true) (h : kind.aad fileAad o = .ok buffer) :
    o.rowGroup ≤ maxOrdinal ∧ o.column ≤ maxOrdinal ∧ o.page ≤ maxOrdinal := by
  have hfits := fits_of_aad_eq_ok h
  have hroles : kind.roles = [.rowGroup, .column, .page] := by cases kind <;> cases hkind <;> rfl
  unfold Fits at hfits
  rw [hroles] at hfits
  exact ⟨hfits .rowGroup (by decide), hfits .column (by decide), hfits .page (by decide)⟩

/-- The buffer of a page begins and stays as the front that all pages share and an ordinal. -/
theorem renumberPages_aad (hkind : kind.hasPage = true)
    (h : kind.aad fileAad o = .ok buffer) (pages : List Nat) : renumberPages buffer pages =
      kind.pageFront fileAad o ++ Bytes.littleEndian 2 (lastPage o.page pages) := by
  obtain ⟨hrowGroup, hcolumn, hstart⟩ := le_of_aad_eq_ok hkind h
  have hbegin := aad_withPage hkind hrowGroup hcolumn fileAad o.page
  rw [h, ordinalBytes_of_le hstart] at hbegin
  rw [Except.ok.inj hbegin]
  exact renumberPages_append _ _ _

end ModuleKind

/-- **Numbering on is as good as building anew.** A buffer that begins as the additional data of a
page holds, after any sequence of ordinals, those of the last page whose ordinal fits; and one more
ordinal comes to the additional data that would be built with it, or to the same error, and then the
buffer is left alone. Whatever a buffer holds, numbering it on fails exactly if the ordinal does not
fit or there are no two bytes; then it is left alone, and otherwise only its last two bytes
change. -/
theorem renumberPage_rebuilds :
    (∀ (kind : ModuleKind) fileAad o aad, (kind = .dataPage ∨ kind = .dataPageHeader) →
      kind.aad fileAad o = .ok aad → ∀ pages,
      kind.aad fileAad { o with page := lastPage o.page pages } = .ok (renumberPages aad pages) ∧
      ∀ page, renumberPage (renumberPages aad pages) page =
        match kind.aad fileAad { o with page } with
        | .ok rebuilt => (.ok (), rebuilt)
        | .error e => (.error e, renumberPages aad pages)) ∧
    ∀ buffer page,
      ((∃ e, (renumberPage buffer page).1 = .error e) ↔
        maxOrdinal < page ∨ buffer.length < 2) ∧
      (∀ e, (renumberPage buffer page).1 = .error e → (renumberPage buffer page).2 = buffer) ∧
      ((renumberPage buffer page).1 = .ok () → ∃ front old new, buffer = front ++ old ∧
        old.length = 2 ∧ new.length = 2 ∧ (renumberPage buffer page).2 = front ++ new) := by
  refine ⟨fun kind fileAad o aad hkind haad pages => ?_, fun buffer page =>
    ⟨renumberPage_fails_iff, fun e => renumberPage_of_error, renumberPage_of_ok⟩⟩
  have hpage : kind.hasPage = true := by rcases hkind with rfl | rfl <;> rfl
  obtain ⟨hrowGroup, hcolumn, hstart⟩ := kind.le_of_aad_eq_ok hpage haad
  have hbuild := ModuleKind.aad_withPage hpage hrowGroup hcolumn fileAad
  rw [ModuleKind.renumberPages_aad hpage haad]
  refine ⟨?_, fun page => ?_⟩
  · rw [hbuild, ordinalBytes_of_le (lastPage_le hstart pages)]
    rfl
  · rw [hbuild]
    rcases Nat.lt_or_ge maxOrdinal page with hlarge | hfits
    · rw [renumberPage_of_tooLarge hlarge, ordinalBytes, if_pos hlarge]
      rfl
    · rw [renumberPage_append hfits (Bytes.length_littleEndian 2 _), ordinalBytes_of_le hfits]
      rfl

/-- The header of a page is numbered on three times, once in vain. -/
theorem renumberPage_rebuilds_header :
    ModuleKind.dataPageHeader.aad [7] ⟨1, 2, 0⟩ = .ok [7, 4, 1, 0, 2, 0, 0, 0] ∧
      ModuleKind.dataPageHeader.aad [7] ⟨1, 2, 300⟩ =
        .ok (renumberPages [7, 4, 1, 0, 2, 0, 0, 0] [5, 300, 32768]) ∧
      (renumberPage (renumberPages [7, 4, 1, 0, 2, 0, 0, 0] [5, 300, 32768]) 32767) =
        (.ok (), [7, 4, 1, 0, 2, 0, 255, 127]) := by
  have hbegin : ModuleKind.dataPageHeader.aad [7] ⟨1, 2, 0⟩ = .ok [7, 4, 1, 0, 2, 0, 0, 0] := rfl
  obtain ⟨hheld, hnext⟩ := renumberPage_rebuilds.1 .dataPageHeader [7] ⟨1, 2, 0⟩ _ (.inr rfl) hbegin
    [5, 300, 32768]
  exact ⟨hbegin, hheld, hnext 32767⟩

end ModularEncryption
