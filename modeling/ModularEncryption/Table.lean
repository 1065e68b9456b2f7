/-! # Finite tables

A table gives keys values, at most one each; its entries stand in the order in which their keys were
last given a value. Looking up what was just put in gives it back, and other keys keep theirs
(`get?_insert`). -/

namespace ModularEncryption

/-- A finite table. -/
structure Table (κ α : Type) where
  entries : List (κ × α)
deriving DecidableEq, Repr

namespace Table

variable {κ α : Type} [DecidableEq κ]

/-- The table without entries. -/
def empty : Table κ α := ⟨[]⟩

/-- The value of a key. -/
def get? (t : Table κ α) (k : κ) : Option α := t.entries.lookup k

/-- The table with the value of a key set. -/
def insert (t : Table κ α) (k : κ) (a : α) : Table κ α :=
  ⟨t.entries.filter (fun e => e.1 ≠ k) ++ [(k, a)]⟩

/-- Whether a key has a value. -/
def contains (t : Table κ α) (k : κ) : Bool := (t.get? k).isSome

/-- The table of a list of entries, later entries prevailing over earlier ones. -/
def ofList (entries : List (κ × α)) : Table κ α :=
  entries.foldl (fun t e => t.insert e.1 e.2) empty

/-- The number of entries. -/
def size (t : Table κ α) : Nat := t.entries.length

/-- The keys that have a value. -/
def keys (t : Table κ α) : List κ := t.entries.map Prod.fst

/-- The values. -/
def values (t : Table κ α) : List α := t.entries.map Prod.snd

omit [DecidableEq κ] in
theorem lookup_append [BEq κ] (k : κ) : ∀ (l m : List (κ × α)),
    (l ++ m).lookup k = (l.lookup k).or (m.lookup k)
  | [], _ => by simp
  | (a, b) :: l, m => by
    simp only [List.cons_append, List.lookup_cons]
    cases k == a <;> simp [lookup_append k l m]

theorem lookup_filter_ne (k k' : κ) : ∀ l : List (κ × α),
    (l.filter fun e => e.1 ≠ k).lookup k' = if k' = k then none else l.lookup k'
  | [] => by simp
  | (a, b) :: l => by
    have ih := lookup_filter_ne k k' l
    by_cases ha : a = k
    · subst ha
      rw [List.filter_cons_of_neg (by simp), ih, List.lookup_cons]
      by_cases hk : k' = a
      · rw [if_pos hk, if_pos hk]
      · rw [if_neg hk, if_neg hk, beq_false_of_ne hk]
    · rw [List.filter_cons_of_pos (by simpa using ha), List.lookup_cons, List.lookup_cons, ih]
      by_cases hk : k' = a
      · subst hk; simp [ha]
      · rw [beq_false_of_ne hk]

@[simp] theorem get?_empty (k : κ) : (empty : Table κ α).get? k = none := rfl

/-- What a key gets is what it has; the other keys are left alone. -/
theorem get?_insert (t : Table κ α) (k k' : κ) (a : α) :
    (t.insert k a).get? k' = if k' = k then some a else t.get? k' := by
  simp only [get?, insert, lookup_append, lookup_filter_ne]
  by_cases h : k' = k
  · subst h; simp
  · have : (k' == k) = false := by simpa using h
    simp [List.lookup_cons, h, this]

@[simp] theorem get?_insert_self (t : Table κ α) (k : κ) (a : α) :
    (t.insert k a).get? k = some a := by simp [get?_insert]

theorem get?_insert_of_ne (t : Table κ α) {k k' : κ} (a : α) (h : k' ≠ k) :
    (t.insert k a).get? k' = t.get? k' := by simp [get?_insert, h]

end Table

end ModularEncryption
