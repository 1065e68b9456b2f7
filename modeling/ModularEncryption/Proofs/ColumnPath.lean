import ModularEncryption.ColumnPath

/-! # Dotted texts and the paths they stand for

Cutting a text at its dots and joining segments by dots are the standard operations on lists of
characters (`splitDots_eq_splitOn`, `joinDots_eq_intercalate`). Every text is the dotted text of one
path that it tells, the path with a segment more than the text has dots. A path is told by its
dotted text exactly if it has a segment and no segment has a dot of its own
(`ofDotted_toDotted_iff`): the path without segments has the text of the path with one empty
segment, and a segment with a dot is cut in two. -/

namespace ModularEncryption.ColumnPath

/-- **The paths that dotted texts tell**: there is a segment, and no segment has a dot. -/
structure Plain (p : ColumnPath) : Prop where
  segments_ne_nil : p.segments ≠ []
  dotFree : ∀ segment ∈ p.segments, '.' ∉ segment.toList

/-! ### Cutting and joining -/

theorem splitDots_eq_splitOn (cs : List Char) : splitDots cs = cs.splitOn '.' := by
  induction cs with
  | nil => rfl
  | cons c cs ih =>
    rw [splitDots, ih, List.splitOn_cons_eq_if_modifyHead]
    by_cases hc : c = '.'
    · rw [if_pos hc, if_pos (beq_iff_eq.mpr hc)]
    · rw [if_neg hc, if_neg (mt beq_iff_eq.mp hc)]
      obtain ⟨part, parts, hparts⟩ := List.exists_cons_of_ne_nil (List.splitOn_ne_nil '.' cs)
      rw [hparts, List.modifyHead_cons]

theorem joinDots_eq_intercalate (parts : List (List Char)) :
    joinDots parts = ['.'].intercalate parts := by
  induction parts with
  | nil => rfl
  | cons part parts ih =>
    cases parts with
    | nil => rw [joinDots, List.intercalate_singleton]
    | cons q qs =>
      rw [joinDots, ih, List.intercalate_cons_cons, List.append_assoc, List.singleton_append]
      exact List.cons_ne_nil q qs

/-- There is one part more than there are dots. -/
theorem length_splitDots (cs : List Char) : (splitDots cs).length = cs.count '.' + 1 := by
  induction cs with
  | nil => rfl
  | cons c cs ih =>
    rw [splitDots]
    by_cases hc : c = '.'
    · rw [if_pos hc, hc, List.length_cons, ih, List.count_cons_self]
    · obtain ⟨part, parts, hparts⟩ := List.exists_cons_of_ne_nil (splitDots_ne_nil cs)
      rw [if_neg hc, List.count_cons_of_ne hc, ← ih, hparts, List.length_cons, List.length_cons]

theorem dot_not_mem_of_mem_splitDots {cs part : List Char} (h : part ∈ splitDots cs) :
    '.' ∉ part := by
  induction cs generalizing part with
  | nil =>
    rw [splitDots, List.mem_singleton] at h
    rw [h]
    exact List.not_mem_nil
  | cons c cs ih =>
    rw [splitDots] at h
    by_cases hc : c = '.'
    · rw [if_pos hc, List.mem_cons] at h
      rcases h with rfl | h
      · exact List.not_mem_nil
      · exact ih h
    · obtain ⟨first, parts, hparts⟩ := List.exists_cons_of_ne_nil (splitDots_ne_nil cs)
      rw [if_neg hc, hparts, List.mem_cons] at h
      rcases h with rfl | h
      · -- the first part has one character more, and it is no dot
        have hfirst : '.' ∉ first := ih (hparts ▸ List.mem_cons_self)
        exact List.not_mem_cons_of_ne_of_not_mem (Ne.symm hc) hfirst
      · exact ih (hparts ▸ List.mem_cons_of_mem first h)

/-- Parts without dots, joined, are cut apart again. -/
theorem splitDots_joinDots {parts : List (List Char)} (hne : parts ≠ [])
    (hfree : ∀ part ∈ parts, '.' ∉ part) : splitDots (joinDots parts) = parts := by
  rw [splitDots_eq_splitOn, joinDots_eq_intercalate]
  exact List.splitOn_intercalate '.' hfree hne

/-! ### Paths -/

theorem length_segments_ofDotted (s : String) :
    (ofDotted s).segments.length = s.toList.count '.' + 1 := by
  rw [ofDotted, List.length_map, length_splitDots]

/-- A text tells a path that is plain. -/
theorem plain_ofDotted (s : String) : (ofDotted s).Plain where
  segments_ne_nil := by
    rw [ofDotted, Ne, List.map_eq_nil_iff]
    exact splitDots_ne_nil s.toList
  dotFree segment h := by
    obtain ⟨part, hpart, rfl⟩ := List.mem_map.mp h
    rw [String.toList_ofList]
    exact dot_not_mem_of_mem_splitDots hpart

theorem ofDotted_toDotted {p : ColumnPath} (h : p.Plain) : ofDotted p.toDotted = p := by
  have hne : p.segments.map String.toList ≠ [] := mt List.map_eq_nil_iff.mp h.segments_ne_nil
  have hfree : ∀ part ∈ p.segments.map String.toList, '.' ∉ part := by
    intro part hpart
    obtain ⟨segment, hsegment, rfl⟩ := List.mem_map.mp hpart
    exact h.dotFree segment hsegment
  rw [ofDotted, toDotted, String.toList_ofList, splitDots_joinDots hne hfree, List.map_map]
  simp [Function.comp_def]

/-- **A path is told by its dotted text exactly if it is plain.** -/
theorem ofDotted_toDotted_iff {p : ColumnPath} : ofDotted p.toDotted = p ↔ p.Plain :=
  ⟨fun h => h ▸ plain_ofDotted p.toDotted, ofDotted_toDotted⟩

/-- Two plain paths with one dotted text are the same. -/
theorem eq_of_toDotted_eq {p q : ColumnPath} (hp : p.Plain) (hq : q.Plain)
    (h : p.toDotted = q.toDotted) : p = q := by
  rw [← ofDotted_toDotted hp, h, ofDotted_toDotted hq]

/-- **Texts and plain paths correspond.** A text, cut at its dots and joined again, is the same; it
has one segment more than dots, and none of them has a dot. A path, joined and cut again, is the
same exactly if it is plain. So different texts tell different paths, and different plain paths have
different texts. -/
theorem dotted_inverse :
    (∀ s, (ofDotted s).toDotted = s ∧ (ofDotted s).segments.length = s.toList.count '.' + 1 ∧
      ∀ segment ∈ (ofDotted s).segments, '.' ∉ segment.toList) ∧
    (∀ p : ColumnPath, ofDotted p.toDotted = p ↔ p.Plain) ∧
    Function.Injective ofDotted ∧
    ∀ p q : ColumnPath, p.Plain → q.Plain → p.toDotted = q.toDotted → p = q := by
  refine ⟨fun s => ?_, fun p => ofDotted_toDotted_iff, ?_, fun p q => eq_of_toDotted_eq⟩
  · exact ⟨toDotted_ofDotted s, length_segments_ofDotted s, (plain_ofDotted s).dotFree⟩
  · exact Function.LeftInverse.injective toDotted_ofDotted

/-- The text `a..` tells a path of three segments, two of them empty; the paths without segments and
with a dot in a segment are not told by their texts. -/
theorem dotted_inverse_empty_segments :
    (ofDotted "a..").Plain ∧ Plain ⟨["a", "", ""]⟩ ∧
      (ofDotted "a..").toDotted = toDotted ⟨["a", "", ""]⟩ ∧ ofDotted "a.." = ⟨["a", "", ""]⟩ ∧
      (ofDotted "a..").segments.length = 3 ∧
      ofDotted (toDotted ⟨[]⟩) ≠ ⟨[]⟩ ∧ ofDotted (toDotted ⟨["a.b"]⟩) ≠ ⟨["a.b"]⟩ := by
  obtain ⟨htext, hpath, -, hplain⟩ := dotted_inverse
  have hpq : (ofDotted "a..").toDotted = toDotted ⟨["a", "", ""]⟩ := (htext "a..").1
  have hp : (ofDotted "a..").Plain := plain_ofDotted "a.."
  have hq : Plain ⟨["a", "", ""]⟩ := ⟨by decide, by decide⟩
  refine ⟨hp, hq, hpq, hplain _ _ hp hq hpq, (htext "a..").2.1, fun h => ?_, fun h => ?_⟩
  · exact ((hpath _).mp h).segments_ne_nil rfl
  · exact ((hpath _).mp h).dotFree "a.b" (by decide) (by decide)

end ModularEncryption.ColumnPath
