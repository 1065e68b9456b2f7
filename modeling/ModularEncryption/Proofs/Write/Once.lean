import ModularEncryption.Write.Column

/-! # Values that are given once

Some choices give a value that is to be given once; a function `once?` tells which value of which
sort. From a sequence of choices all values of one sort can be read off (`Choices.given`), and
nothing is given twice if there is at most one of each (`Choices.NoRepeat`).

A draft keeps the first value of each sort and notes every further one as a contradiction
(`FillsOnce`). So after one more choice it still holds the first of the values given
(`FillsOnce.slot_eq`). -/

namespace ModularEncryption

theorem length_append_singleton_le_one_iff {α : Type} {l : List α} {a : α} :
    (l ++ [a]).length ≤ 1 ↔ l = [] := by
  rw [List.length_append, List.length_singleton, ← List.length_eq_zero_iff]
  omega

namespace Choices

section Given

variable {κ : Type} (once? : κ → Option (OnceOnly × Bytes))

/-- The value of a choice, if it is of the sort that is asked for. -/
def valueOf? (what : OnceOnly) (choice : κ) : Option Bytes :=
  (once? choice).bind fun said => if said.1 = what then some said.2 else none

/-- All values of a sort that is to be given once. -/
def given (what : OnceOnly) (choices : List κ) : List Bytes :=
  choices.filterMap (valueOf? once? what)

/-- Nothing is given twice. -/
def NoRepeat (choices : List κ) : Prop := ∀ what, (given once? what choices).length ≤ 1

end Given

variable {κ : Type} {once? : κ → Option (OnceOnly × Bytes)} {choices : List κ} {choice : κ}
  {what : OnceOnly} {bytes : Bytes}

theorem given_append_of_once (h : once? choice = some (what, bytes)) (w : OnceOnly) :
    given once? w (choices ++ [choice]) =
      given once? w choices ++ if what = w then [bytes] else [] := by
  by_cases hw : what = w <;> simp [given, valueOf?, h, hw]

theorem given_append_of_once_eq_none (h : once? choice = none) (w : OnceOnly) :
    given once? w (choices ++ [choice]) = given once? w choices := by
  simp [given, valueOf?, h]

/-- One more value makes a repetition exactly if there was one of its sort before. -/
theorem noRepeat_append_iff (h : once? choice = some (what, bytes)) :
    NoRepeat once? (choices ++ [choice]) ↔
      NoRepeat once? choices ∧ given once? what choices = [] := by
  simp only [NoRepeat, given_append_of_once h]
  constructor
  · intro hnone
    refine ⟨fun w => ?_, ?_⟩
    · have hw := hnone w
      rw [List.length_append] at hw
      omega
    · have hwhat := hnone what
      rwa [if_pos rfl, length_append_singleton_le_one_iff] at hwhat
  · rintro ⟨hnone, hempty⟩ w
    by_cases hw : what = w
    · rw [if_pos hw, length_append_singleton_le_one_iff, ← hw]
      exact hempty
    · rw [if_neg hw, List.append_nil]
      exact hnone w

end Choices

/-! ### Drafts that keep the first value -/

theorem setOnce_fst {α : Type} (slot : Option α) (value : α) (what : OnceOnly)
    (conflicts : List Conflict) : (setOnce slot value what conflicts).1 = slot.or (some value) := by
  cases slot <;> rfl

theorem setOnce_snd {α : Type} (slot : Option α) (value : α) (what : OnceOnly)
    (conflicts : List Conflict) : (setOnce slot value what conflicts).2 =
      if slot.isNone then conflicts else conflicts ++ [.value what] := by
  cases slot <;> rfl

/-- **One value is filled in**: only its own slot changes, and only if it was empty; else there is
one more contradiction. -/
structure FillsOnce (slot slot' : OnceOnly → Option Bytes) (conflicts conflicts' : List Conflict)
    (what : OnceOnly) (bytes : Bytes) : Prop where
  slot_self : slot' what = (slot what).or (some bytes)
  slot_ne : ∀ w, w ≠ what → slot' w = slot w
  conflicts_eq : conflicts' =
    if (slot what).isNone then conflicts else conflicts ++ [.value what]

namespace FillsOnce

variable {slot slot' : OnceOnly → Option Bytes} {conflicts conflicts' : List Conflict}
  {what : OnceOnly} {bytes : Bytes}

/-- No contradiction is met exactly if there was none before and nothing had been given. -/
theorem conflicts_eq_nil_iff (h : FillsOnce slot slot' conflicts conflicts' what bytes) :
    conflicts' = [] ↔ slot what = none ∧ conflicts = [] := by
  rw [h.conflicts_eq]
  cases slot what <;> simp

variable {κ : Type} {once? : κ → Option (OnceOnly × Bytes)} {choices : List κ} {choice : κ}

/-- The first value of each sort is still the one that is held. -/
theorem slot_eq (h : FillsOnce slot slot' conflicts conflicts' what bytes)
    (hchoice : once? choice = some (what, bytes))
    (hslot : ∀ w, slot w = (Choices.given once? w choices).head?) (w : OnceOnly) :
    slot' w = (Choices.given once? w (choices ++ [choice])).head? := by
  rw [Choices.given_append_of_once hchoice, List.head?_append, ← hslot]
  by_cases hw : what = w
  · subst hw
    rw [if_pos rfl]
    exact h.slot_self
  · rw [if_neg hw, h.slot_ne w (Ne.symm hw), List.head?_nil, Option.or_none]

end FillsOnce

end ModularEncryption
