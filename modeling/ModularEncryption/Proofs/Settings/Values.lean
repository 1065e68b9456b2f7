import Mathlib.Algebra.Group.Nat.Defs
import Mathlib.Data.List.Forall2
import Mathlib.Data.List.TakeWhile
import ModularEncryption.Settings

/-! # What the texts of settings denote

A setting is read from a text by taking off the blanks at both ends (`Text.trim_eq_iff`) and reading
what is left as a number (`Text.Decimal.read_eq_ok_iff`), as the name of a suite
(`CipherSuite.ofName?_eq_some_iff`) or as a truth value (`Settings.readTruth_eq_ok_iff`). Each of
these is said here without the way in which it is read: a number is an optional plus sign and some
digits that have a value of 64 bits, and the name of a suite may have any of its letters in lower
case. -/

namespace ModularEncryption

namespace Text

/-! ### Texts without blanks at their ends -/

/-- **A text is another one without the blanks at both ends.** -/
def Trims (s t : String) : Prop :=
  ∃ front back, s.toList = front ++ t.toList ++ back ∧ (∀ c ∈ front, isBlank c) ∧
    (∀ c ∈ back, isBlank c) ∧ (∀ c ∈ t.toList.head?, ¬ isBlank c) ∧
    ∀ c ∈ t.toList.getLast?, ¬ isBlank c

section Trim

variable {front rest : List Char}

theorem dropWhile_append (hfront : ∀ c ∈ front, isBlank c) (hrest : ∀ c ∈ rest.head?, ¬ isBlank c) :
    (front ++ rest).dropWhile isBlank = rest := by
  rw [List.dropWhile_append_of_pos hfront]
  cases rest with
  | nil => rfl
  | cons c cs => exact List.dropWhile_cons_of_neg (hrest c rfl)

theorem not_isBlank_of_head?_dropWhile (cs : List Char) :
    ∀ c ∈ (cs.dropWhile isBlank).head?, ¬ isBlank c := by
  intro c hc
  have hnot := List.head?_dropWhile_not isBlank cs
  rw [Option.mem_def.mp hc] at hnot
  simpa using hnot

/-- Blanks around a text that has none at its ends are taken off. -/
theorem trim_of_trims {s t : String} (h : Trims s t) : trim s = t := by
  obtain ⟨front, back, hs, hfront, hback, hhead, hlast⟩ := h
  have hreverse : (back.reverse ++ t.toList.reverse).dropWhile isBlank = t.toList.reverse := by
    refine dropWhile_append (fun c hc => hback c (List.mem_reverse.mp hc)) ?_
    rw [List.head?_reverse]
    exact hlast
  have hdrop : ((front ++ t.toList ++ back).dropWhile isBlank).reverse.dropWhile isBlank =
      t.toList.reverse := by
    cases ht : t.toList with
    | nil =>
      -- there is nothing but blanks
      have hall : ∀ c ∈ front ++ back, isBlank c := fun c hc =>
        (List.mem_append.mp hc).elim (hfront c) (hback c)
      have hnil : (front ++ back).dropWhile isBlank = [] :=
        List.dropWhile_eq_nil_iff.mpr hall
      rw [List.append_nil, hnil]
      rfl
    | cons c cs =>
      have hrest : ∀ d ∈ (t.toList ++ back).head?, ¬ isBlank d := by
        rw [ht, List.cons_append, List.head?_cons]
        rw [ht, List.head?_cons] at hhead
        exact hhead
      rw [← ht, List.append_assoc, dropWhile_append hfront hrest, List.reverse_append, hreverse]
  rw [trim, trimChars, hs, hdrop, List.reverse_reverse, String.ofList_toList]

theorem trims_trim (s : String) : Trims s (trim s) := by
  have htrim : (trim s).toList =
      ((s.toList.dropWhile isBlank).reverse.dropWhile isBlank).reverse := by
    rw [trim, String.toList_ofList, trimChars]
  have hdrop : s.toList.dropWhile isBlank = (trim s).toList ++
      ((s.toList.dropWhile isBlank).reverse.takeWhile isBlank).reverse := by
    rw [htrim, ← List.reverse_append, List.takeWhile_append_dropWhile, List.reverse_reverse]
  refine ⟨s.toList.takeWhile isBlank,
    ((s.toList.dropWhile isBlank).reverse.takeWhile isBlank).reverse, ?_, ?_, ?_, ?_, ?_⟩
  · rw [List.append_assoc, ← hdrop, List.takeWhile_append_dropWhile]
  · exact fun c hc => List.mem_takeWhile_imp hc
  · exact fun c hc => List.mem_takeWhile_imp (List.mem_reverse.mp hc)
  · intro c hc
    -- what is left at the front is at the front of what the first blanks were taken off
    refine not_isBlank_of_head?_dropWhile s.toList c ?_
    rw [hdrop, List.head?_append, Option.mem_def.mp hc]
    rfl
  · rw [htrim, List.getLast?_reverse]
    exact not_isBlank_of_head?_dropWhile _

/-- **Trimming takes off the blanks at both ends, and no more.** -/
theorem trim_eq_iff {s t : String} : trim s = t ↔ Trims s t :=
  ⟨fun h => h ▸ trims_trim s, trim_of_trims⟩

end Trim

namespace Decimal

/-! ### Numbers -/

/-- **A text writes a number**: digits, one at least, and perhaps a plus sign before them. -/
def Writes (s : String) (n : Nat) : Prop :=
  ∃ digits, (s.toList = digits ∨ s.toList = '+' :: digits) ∧ digits ≠ [] ∧
    (∀ c ∈ digits, c.isDigit = true) ∧ n = Nat.ofDigitChars 10 digits 0

theorem bound_eq : bound = 2 ^ 64 := rfl

theorem digit?_eq_some_iff {c : Char} {d : Nat} :
    digit? c = some d ↔ c.isDigit = true ∧ d = c.toNat - '0'.toNat := by
  have hdigit : c.isDigit = true ↔ '0' ≤ c ∧ c ≤ '9' := by
    simp [Char.isDigit, Char.le_def]
  rw [digit?, hdigit]
  by_cases h : '0' ≤ c ∧ c ≤ '9' <;> simp [h, eq_comm]

/-- More digits make no number smaller. -/
theorem le_ofDigitChars (cs : List Char) (n : Nat) : n ≤ Nat.ofDigitChars 10 cs n := by
  induction cs generalizing n with
  | nil => exact Nat.le_of_eq Nat.ofDigitChars_nil.symm
  | cons c cs ih =>
    rw [Nat.ofDigitChars_cons]
    exact Nat.le_trans (by omega) (ih _)

theorem readDigits_eq_ok_iff {cs : List Char} {n m : Nat} (hn : n < bound) :
    readDigits n cs = .ok m ↔
      (∀ c ∈ cs, c.isDigit = true) ∧ m = Nat.ofDigitChars 10 cs n ∧ m < bound := by
  induction cs generalizing n with
  | nil =>
    rw [readDigits, Except.ok.injEq, Nat.ofDigitChars_nil]
    constructor
    · rintro rfl
      exact ⟨by simp, rfl, hn⟩
    · rintro ⟨-, rfl, -⟩
      rfl
  | cons c cs ih =>
    rw [readDigits, Nat.ofDigitChars_cons, List.forall_mem_cons]
    cases hc : digit? c with
    | none =>
      have hdigit : ¬ c.isDigit = true := fun h => by
        rw [digit?_eq_some_iff.mpr ⟨h, rfl⟩] at hc
        cases hc
      simp [hdigit]
    | some d =>
      obtain ⟨hdigit, rfl⟩ := digit?_eq_some_iff.mp hc
      rw [Nat.mul_comm n 10]
      by_cases hlt : 10 * n + (c.toNat - '0'.toNat) < bound
      · simp only [if_pos hlt, ih hlt, hdigit, true_and]
      · -- a number that has grown too large stays so
        have hle := le_ofDigitChars cs (10 * n + (c.toNat - '0'.toNat))
        simp only [if_neg hlt, reduceCtorEq, false_iff]
        rintro ⟨-, rfl, hm⟩
        omega

theorem writes_of_plus {s : String} {cs : List Char} (hs : s.toList = '+' :: cs) {n : Nat} :
    Writes s n ↔
      cs ≠ [] ∧ (∀ c ∈ cs, c.isDigit = true) ∧ n = Nat.ofDigitChars 10 cs 0 := by
  constructor
  · rintro ⟨digits, hdigits | hdigits, hne, hall, hn⟩
    · -- the sign is no digit
      have hplus : '+' ∈ digits := hdigits ▸ hs ▸ List.mem_cons_self
      exact absurd (hall '+' hplus) (by decide)
    · rw [hs, List.cons.injEq] at hdigits
      rw [hdigits.2]
      exact ⟨hne, hall, hn⟩
  · rintro ⟨hne, hall, hn⟩
    exact ⟨cs, .inr hs, hne, hall, hn⟩

theorem writes_of_ne_plus {s : String} (hs : s.toList.head? ≠ some '+') {n : Nat} :
    Writes s n ↔ s.toList ≠ [] ∧ (∀ c ∈ s.toList, c.isDigit = true) ∧
      n = Nat.ofDigitChars 10 s.toList 0 := by
  constructor
  · rintro ⟨digits, rfl | hdigits, hne, hall, hn⟩
    · exact ⟨hne, hall, hn⟩
    · rw [hdigits] at hs
      exact absurd rfl hs
  · rintro ⟨hne, hall, hn⟩
    exact ⟨s.toList, .inl rfl, hne, hall, hn⟩

/-- **The texts that are read as numbers are those that write a number of 64 bits.** -/
theorem read_eq_ok_iff {s : String} {n : Nat} : read s = .ok n ↔ Writes s n ∧ n < 2 ^ 64 := by
  have hzero : 0 < bound := by decide
  rw [← bound_eq]
  cases hs : s.toList with
  | nil =>
    rw [writes_of_ne_plus (by simp [hs])]
    simp [read, hs]
  | cons c cs =>
    by_cases hc : c = '+'
    · subst hc
      rw [writes_of_plus hs]
      cases cs with
      | nil => simp [read, hs]
      | cons d ds =>
        have hread : read s = readDigits 0 (d :: ds) := by simp only [read, hs]
        rw [hread, readDigits_eq_ok_iff hzero]
        simp [and_assoc]
    · have hread : read s = readDigits 0 s.toList := by simp [read, hs, hc]
      rw [writes_of_ne_plus (by simpa [hs] using hc), hread, readDigits_eq_ok_iff hzero]
      simp [hs, and_assoc]

end Decimal

end Text

namespace CipherSuite

/-! ### Names of suites -/

/-- **A text is a name, in which letters may stand in lower case.** -/
def SpelledAs (s name : String) : Prop :=
  List.Forall₂ (fun c d => c = d ∨ c = d.toLower) s.toList name.toList

theorem toNat_toLower (d : Char) :
    d.toLower.toNat = if 'A' ≤ d ∧ d ≤ 'Z' then d.toNat + 32 else d.toNat := by
  have hval : (d.val ≥ 'A'.val ∧ d.val ≤ 'Z'.val) ↔ 'A' ≤ d ∧ d ≤ 'Z' := Iff.rfl
  unfold Char.toLower
  by_cases hd : 'A' ≤ d ∧ d ≤ 'Z'
  · have hle : d.val.toNat ≤ 90 := hd.2
    rw [dif_pos (hval.mpr hd), if_pos hd]
    show (d.val + 32).toNat = d.val.toNat + 32
    rw [UInt32.toNat_add, Nat.mod_eq_of_lt]
    · rfl
    · show d.val.toNat + 32 < 2 ^ 32
      omega
  · rw [dif_neg (mt hval.mp hd), if_neg hd]

theorem toNat_upperChar (c : Char) :
    (upperChar c).toNat = if 'a' ≤ c ∧ c ≤ 'z' then c.toNat - 32 else c.toNat := by
  have hletters : ∀ n ≤ 122, (Char.ofNat (n - 32)).toNat = n - 32 := by decide
  unfold upperChar
  by_cases hc : 'a' ≤ c ∧ c ≤ 'z'
  · rw [if_pos hc, if_pos hc, hletters c.toNat hc.2]
  · rw [if_neg hc, if_neg hc]

/-- A character that is no small letter is the capital of itself and of its small letter. -/
theorem upperChar_eq_iff {c d : Char} (hd : ¬ ('a' ≤ d ∧ d ≤ 'z')) :
    upperChar c = d ↔ c = d ∨ c = d.toLower := by
  have hle : ∀ x y : Char, x ≤ y ↔ x.toNat ≤ y.toNat := fun _ _ => Iff.rfl
  simp only [← Char.toNat_inj, toNat_upperChar, toNat_toLower, hle, Char.reduceToNat] at hd ⊢
  split <;> split <;> omega

theorem not_lower_of_mem_name {suite : CipherSuite} :
    ∀ d ∈ suite.name.toList, ¬ ('a' ≤ d ∧ d ≤ 'z') := by
  cases suite <;> simp [CipherSuite.name]

theorem map_upperChar_eq_iff {cs ds : List Char} (hds : ∀ d ∈ ds, ¬ ('a' ≤ d ∧ d ≤ 'z')) :
    cs.map upperChar = ds ↔ List.Forall₂ (fun c d => c = d ∨ c = d.toLower) cs ds := by
  induction cs generalizing ds with
  | nil => cases ds <;> simp
  | cons c cs ih =>
    cases ds with
    | nil => simp
    | cons d ds =>
      rw [List.map_cons, List.cons.injEq, List.forall₂_cons,
        upperChar_eq_iff (hds d List.mem_cons_self),
        ih fun d' hd' => hds d' (List.mem_cons_of_mem d hd')]

theorem ofList_map_upperChar_eq_iff {s : String} {suite : CipherSuite} :
    String.ofList (s.toList.map upperChar) = suite.name ↔ SpelledAs s suite.name := by
  rw [← String.toList_inj, String.toList_ofList, map_upperChar_eq_iff not_lower_of_mem_name,
    SpelledAs]

/-- **The texts that name a suite are its name with any letters in lower case.** -/
theorem ofName?_eq_some_iff {s : String} {suite : CipherSuite} :
    ofName? s = some suite ↔ SpelledAs s suite.name := by
  have hne : aesGcmV1.name ≠ aesGcmCtrV1.name := by decide
  rw [← ofList_map_upperChar_eq_iff, ofName?]
  cases suite with
  | aesGcmV1 => simp
  | aesGcmCtrV1 =>
    by_cases h : String.ofList (s.toList.map upperChar) = aesGcmV1.name
    · simp [h, hne]
    · simp [h]

end CipherSuite

namespace Settings

/-! ### Values of settings -/

variable {text : String}

theorem readNumber_eq_ok_iff {n : Nat} :
    readNumber text = .ok n ↔ Text.Decimal.Writes text n ∧ n < 2 ^ 64 := by
  rw [readNumber, mapError_eq_ok_iff, Text.Decimal.read_eq_ok_iff]

theorem readTruth_eq_ok_iff {b : Bool} :
    readTruth text = .ok b ↔ text = if b then "true" else "false" := by
  unfold readTruth
  by_cases htrue : text = "true"
  · cases b <;> simp [htrue]
  · by_cases hfalse : text = "false" <;> cases b <;> simp [htrue, hfalse]

theorem readSuite_eq_ok_iff {suite : CipherSuite} :
    readSuite text = .ok suite ↔ CipherSuite.SpelledAs text suite.name := by
  rw [← CipherSuite.ofName?_eq_some_iff, readSuite]
  cases CipherSuite.ofName? text <;> simp

end Settings

end ModularEncryption
