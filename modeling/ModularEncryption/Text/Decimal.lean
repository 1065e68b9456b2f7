/-! # Decimal numbers of 64 bits

Numbers in settings are written in ASCII digits, with an optional plus sign and any number of
leading zeros, and must be less than `2 ^ 64`. They are read from the left, so of a bad digit and a
value that has grown too large the one met first is reported. -/

namespace ModularEncryption.Text.Decimal

/-- Why a text is not a number. -/
inductive Fault where
  | empty
  | invalidDigit
  | tooLarge
deriving DecidableEq, Repr

/-- The wording of a fault. -/
def Fault.message : Fault → String
  | .empty => "cannot parse integer from empty string"
  | .invalidDigit => "invalid digit found in string"
  | .tooLarge => "number too large to fit in target type"

/-- The least number that is too large. -/
def bound : Nat := 0x10000000000000000

/-- The value of an ASCII digit. -/
def digit? (c : Char) : Option Nat :=
  if '0' ≤ c ∧ c ≤ '9' then some (c.toNat - '0'.toNat) else none

/-- The number `n` continued by further digits. -/
def readDigits : (n : Nat) → List Char → Except Fault Nat
  | n, [] => .ok n
  | n, c :: cs =>
    match digit? c with
    | none => .error .invalidDigit
    | some d => if n * 10 + d < bound then readDigits (n * 10 + d) cs else .error .tooLarge

/-- The number that a text denotes. -/
def read (s : String) : Except Fault Nat :=
  match s.toList with
  | [] => .error .empty
  | ['+'] => .error .invalidDigit
  | '+' :: cs => readDigits 0 cs
  | cs => readDigits 0 cs

end ModularEncryption.Text.Decimal
