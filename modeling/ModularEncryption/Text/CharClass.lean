/-! # Classes of characters

A class of characters is kept as the ranges of the numbers of its characters. A table of a class
lists its ranges as words, each one number in hexadecimal or two joined by a dash. The tables of
this library follow version 17 of Unicode. -/

namespace ModularEncryption.Text

/-- The number of a hexadecimal digit in lower case. -/
def hexDigit (c : Char) : Nat :=
  if c.toNat < 'a'.toNat then c.toNat - '0'.toNat else c.toNat - 'a'.toNat + 10

/-- The number with the given hexadecimal digits. -/
def ofHex (digits : List Char) : Nat := digits.foldl (fun n c => n * 16 + hexDigit c) 0

/-- The first and the last number of the range that a word stands for. -/
def readRange (word : String) : Nat × Nat :=
  let (first, rest) := word.toList.span (· ≠ '-')
  match rest with
  | [] => (ofHex first, ofHex first)
  | _ :: last => (ofHex first, ofHex last)

/-- A class of characters, as ranges of numbers with both ends in them. -/
structure CharClass where
  /-- The first and the last number of each range. -/
  ranges : List (Nat × Nat)

namespace CharClass

/-- The class that a table lists, given by its lines. -/
def ofTable (lines : List String) : CharClass :=
  ⟨lines.flatMap fun line => (line.splitOn " ").map readRange⟩

/-- Whether a character belongs to the class. -/
def contains (k : CharClass) (c : Char) : Bool :=
  k.ranges.any fun (first, last) => first ≤ c.toNat && c.toNat ≤ last

end CharClass

end ModularEncryption.Text
