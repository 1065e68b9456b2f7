import ModularEncryption.Text.Listing

/-! # Column paths

A column is named by its path, the names of the fields that lead to it. Written as text the segments
are joined by dots (`toDotted`), and a dotted text is cut at its dots (`ofDotted`). Two columns are
the same if their segments are, whatever the dotted text; where paths are sorted, the segments are
compared one after the other (`compare`).

A text, cut and joined, is the same again (`toDotted_ofDotted`). -/

namespace ModularEncryption

/-- The path of a column. -/
structure ColumnPath where
  segments : List String
deriving DecidableEq, Repr

namespace ColumnPath

/-- The parts of a list of characters between its dots. -/
def splitDots : List Char → List (List Char)
  | [] => [[]]
  | c :: cs =>
    if c = '.' then [] :: splitDots cs
    else
      match splitDots cs with
      | [] => [[c]]
      | part :: parts => (c :: part) :: parts

/-- The parts joined by dots. -/
def joinDots : List (List Char) → List Char
  | [] => []
  | [part] => part
  | part :: parts => part ++ '.' :: joinDots parts

/-- The path whose segments are the parts of a text between its dots. -/
def ofDotted (s : String) : ColumnPath := ⟨(splitDots s.toList).map String.ofList⟩

/-- The segments joined by dots. -/
def toDotted (p : ColumnPath) : String := String.ofList (joinDots (p.segments.map String.toList))

/-- The order of two lists of segments, the first difference deciding. -/
def compareSegments : List String → List String → Ordering
  | [], [] => .eq
  | [], _ :: _ => .lt
  | _ :: _, [] => .gt
  | s :: ss, t :: ts => if s < t then .lt else if t < s then .gt else compareSegments ss ts

/-- The order of two paths. -/
def compare (p q : ColumnPath) : Ordering := compareSegments p.segments q.segments

/-- The listing of a path. -/
def listing (p : ColumnPath) : Text.Listing :=
  .record "ColumnPath" [.field "parts" (.sequence (p.segments.map .text))]

theorem splitDots_ne_nil : ∀ cs, splitDots cs ≠ []
  | [] => by simp [splitDots]
  | c :: cs => by
    rw [splitDots]
    split
    · simp
    · split <;> simp

theorem joinDots_splitDots : ∀ cs, joinDots (splitDots cs) = cs
  | [] => rfl
  | c :: cs => by
    have ih := joinDots_splitDots cs
    have hne := splitDots_ne_nil cs
    rw [splitDots]
    split
    · next h =>
      obtain ⟨part, parts, hp⟩ := List.exists_cons_of_ne_nil hne
      rw [hp] at ih ⊢
      simp [joinDots, ih, h]
    · obtain ⟨part, parts, hp⟩ := List.exists_cons_of_ne_nil hne
      rw [hp] at ih ⊢
      cases parts with
      | nil => simpa [joinDots] using ih
      | cons q qs => simpa [joinDots] using ih

/-- A text, cut at its dots and joined again, is the same. -/
theorem toDotted_ofDotted (s : String) : (ofDotted s).toDotted = s := by
  simp [toDotted, ofDotted, List.map_map, Function.comp_def, joinDots_splitDots]

end ColumnPath

end ModularEncryption
