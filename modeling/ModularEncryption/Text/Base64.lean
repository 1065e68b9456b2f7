import ModularEncryption.Bytes

/-! # Base64

Binary data in text: each group of three bytes is written with four symbols of six bits, a last
group of one or two bytes with two or three symbols filled up to four by `=`. `decode` reads only
what `encode` writes: all groups are full, the padding is there, and the bits that a last group
leaves over are zero. It says what it met first, from the left: a byte that is no symbol, or then a
last group of the wrong length, with the wrong padding, or with bits left over.

A trailing byte that cannot begin a group is looked at before all else. -/

namespace ModularEncryption.Text.Base64

/-- Why bytes are not in base64. -/
inductive Fault where
  | invalidSymbol (byte : UInt8) (offset : Nat)
  | invalidLength (length : Nat)
  | invalidLastSymbol (byte : UInt8) (offset : Nat)
  | invalidPadding
deriving DecidableEq, Repr

/-- The wording of a fault. -/
def Fault.message : Fault → String
  | .invalidSymbol byte offset => s!"Invalid symbol {byte.toNat}, offset {offset}."
  | .invalidLength length => s!"Invalid input length: {length}"
  | .invalidLastSymbol byte offset => s!"Invalid last symbol {byte.toNat}, offset {offset}."
  | .invalidPadding => "Invalid padding"

/-- The symbol of a number below 64. -/
def symbol (n : Nat) : UInt8 :=
  UInt8.ofNat (if n < 26 then 65 + n else if n < 52 then 71 + n else if n < 62 then n - 4
    else if n = 62 then 43 else 47)

/-- The number of a symbol. -/
def value? (b : UInt8) : Option Nat :=
  let n := b.toNat
  if 65 ≤ n ∧ n ≤ 90 then some (n - 65)
  else if 97 ≤ n ∧ n ≤ 122 then some (n - 71)
  else if 48 ≤ n ∧ n ≤ 57 then some (n + 4)
  else if n = 43 then some 62
  else if n = 47 then some 63
  else none

/-- The padding byte. -/
def pad : UInt8 := 61

theorem value?_symbol : ∀ n < 64, value? (symbol n) = some n := by decide

theorem symbol_of_value? {b : UInt8} {n : Nat} (h : value? b = some n) :
    symbol n = b ∧ n < 64 ∧ b ≠ pad := by
  have key : ∀ k : Fin 256, ∀ n, value? (UInt8.ofNat k) = some n →
      symbol n = UInt8.ofNat k ∧ n < 64 ∧ UInt8.ofNat k ≠ pad := by
    intro k n hn
    have all : ∀ k : Fin 256, (value? (UInt8.ofNat k)).all (fun n =>
        decide (symbol n = UInt8.ofNat k ∧ n < 64 ∧ UInt8.ofNat k ≠ pad)) = true := by
      decide +kernel
    have hk := all k
    rw [hn] at hk
    simpa using hk
  simpa using key ⟨b.toNat, b.toNat_lt⟩ n (by simpa using h)

/-! ### Writing -/

/-- The base64 form of a byte string. -/
def encode : Bytes → Bytes
  | a :: b :: c :: bs =>
    symbol (a.toNat / 4) :: symbol (a.toNat % 4 * 16 + b.toNat / 16) ::
      symbol (b.toNat % 16 * 4 + c.toNat / 64) :: symbol (c.toNat % 64) :: encode bs
  | [a, b] =>
    [symbol (a.toNat / 4), symbol (a.toNat % 4 * 16 + b.toNat / 16), symbol (b.toNat % 16 * 4), pad]
  | [a] => [symbol (a.toNat / 4), symbol (a.toNat % 4 * 16), pad, pad]
  | [] => []

/-! ### Reading -/

/-- The number of the symbol at an offset. -/
def value (offset : Nat) (b : UInt8) : Except Fault Nat :=
  match value? b with
  | some n => .ok n
  | none => .error (.invalidSymbol b offset)

/-- The three bytes of a full group. -/
def group (offset : Nat) (a b c d : UInt8) : Except Fault Bytes := do
  let w ← value offset a
  let x ← value (offset + 1) b
  let y ← value (offset + 2) c
  let z ← value (offset + 3) d
  return [UInt8.ofNat (w * 4 + x / 16), UInt8.ofNat (x % 16 * 16 + y / 4),
    UInt8.ofNat (y % 4 * 64 + z)]

/-- The values of the symbols of a last group, met from the left; `padding` is the offset of the
first padding byte seen so far. Padding may begin in the third place only, and no symbol may follow
it. -/
def lastValues (start : Nat) : (place : Nat) → (padding : Option Nat) → Bytes →
    Except Fault (List Nat)
  | _, _, [] => .ok []
  | place, padding, b :: bs =>
    if b = pad then
      if place < 2 then .error (.invalidSymbol pad (start + place))
      else lastValues start (place + 1) (some (padding.getD (start + place))) bs
    else
      match padding with
      | some offset => .error (.invalidSymbol pad offset)
      | none => do
        let n ← value (start + place) b
        let ns ← lastValues start (place + 1) none bs
        return n :: ns

/-- The fault of a last group whose symbol in a place has bits left over. -/
def leftOver (start : Nat) (bs : Bytes) (place : Nat) : Fault :=
  .invalidLastSymbol (bs.getD place pad) (start + place)

/-- The bytes that the values of a last group make up; padding must fill it up to four, and the bits
left over must be zero. -/
def lastBytes (start : Nat) (bs : Bytes) : List Nat → Except Fault Bytes
  | [w, x, y, z] =>
    .ok [UInt8.ofNat (w * 4 + x / 16), UInt8.ofNat (x % 16 * 16 + y / 4),
      UInt8.ofNat (y % 4 * 64 + z)]
  | [w, x, y] =>
    if bs.length ≠ 4 then .error .invalidPadding
    else if y % 4 ≠ 0 then .error (leftOver start bs 2)
    else .ok [UInt8.ofNat (w * 4 + x / 16), UInt8.ofNat (x % 16 * 16 + y / 4)]
  | [w, x] =>
    if bs.length ≠ 4 then .error .invalidPadding
    else if x % 16 ≠ 0 then .error (leftOver start bs 1)
    else .ok [UInt8.ofNat (w * 4 + x / 16)]
  | values => .error (.invalidLength (start + values.length))

/-- The bytes of a last group of one to four bytes. -/
def lastGroup (start : Nat) (bs : Bytes) : Except Fault Bytes := do
  let values ← lastValues start 0 none bs
  lastBytes start bs values

/-- The bytes of the groups from an offset on. -/
def decodeFrom : (offset : Nat) → Bytes → Except Fault Bytes
  | _, [] => .ok []
  | offset, a :: b :: c :: d :: e :: bs => do
    let bytes ← group offset a b c d
    let rest ← decodeFrom (offset + 4) (e :: bs)
    return bytes ++ rest
  | offset, bs => lastGroup offset bs

/-- The last byte of a text whose length is one more than a multiple of four, with its offset, if it
is neither a symbol nor padding. -/
def strayByte? (bs : Bytes) : Option Fault :=
  match bs.getLast? with
  | some b =>
    if bs.length % 4 = 1 ∧ b ≠ pad ∧ value? b = none then
      some (.invalidSymbol b (bs.length - 1))
    else none
  | none => none

/-- The byte string whose base64 form is given. -/
def decode (bs : Bytes) : Except Fault Bytes :=
  match strayByte? bs with
  | some fault => .error fault
  | none => decodeFrom 0 bs

end ModularEncryption.Text.Base64
