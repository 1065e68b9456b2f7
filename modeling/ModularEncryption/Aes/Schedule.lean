import ModularEncryption.Aes.Word
import ModularEncryption.Bytes

/-! # Round keys

The key schedule extends a key of `n` words, four, six or eight, window by window: each word of the
next window is the sum of the word in the same place of the last window and of its predecessor, and
the first word of a window (and the middle one, when a window has eight) takes its predecessor
through the substitution first. The first `4 · (n + 7)` words, four by four, are the round keys. -/

namespace ModularEncryption.Aes

namespace Word

/-- The words whose bytes are `bs`; a rest of fewer than four bytes is left out. -/
def ofBytes : Bytes → List Word
  | a :: b :: c :: d :: bs => ⟨a, b, c, d⟩ :: ofBytes bs
  | _ => []

/-- What the word in place `i` of a window adds to, given its predecessor, the windows' width and
the round constant. -/
def stepped (width : Nat) (constant : UInt8) (i : Nat) (previous : Word) : Word :=
  if i = 0 then (previous.rotate.map Aes.substitute).add ⟨constant, 0, 0, 0⟩
  else if width = 8 ∧ i = 4 then previous.map Aes.substitute
  else previous

/-- The words of the next window from place `i` on. -/
def nextWindow (width : Nat) (constant : UInt8) : (i : Nat) → Word → List Word → List Word
  | _, _, [] => []
  | i, previous, w :: ws =>
    let word := w.add (stepped width constant i previous)
    word :: nextWindow width constant (i + 1) word ws

/-- The words of `count` windows, the given one first. -/
def windows : (count : Nat) → UInt8 → List Word → List Word
  | 0, _, _ => []
  | count + 1, constant, window =>
    window ++ windows count (double constant)
      (nextWindow window.length constant 0 (window.getLastD ⟨0, 0, 0, 0⟩) window)

end Word

/-- The states made of four words each; a rest of fewer than four words is left out. -/
def State.ofWords : List Word → List State
  | a :: b :: c :: d :: ws => ⟨a, b, c, d⟩ :: ofWords ws
  | _ => []

/-- The round keys of a key; eleven windows are enough for every width. -/
def roundKeys (key : Bytes) : List State :=
  let window := Word.ofBytes key
  (State.ofWords (Word.windows 11 1 window)).take (window.length + 7)

end ModularEncryption.Aes
