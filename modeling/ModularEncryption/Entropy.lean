import ModularEncryption.Error.Basic
import ModularEncryption.Nonce

/-! # Random bytes

Random bytes come from one stream, and `position` tells how much of it is used up. A draw takes the
next bytes and moves the position past them; nothing moves it back, so no byte is handed out twice.
An operation that draws runs in `Drawing`, where what was drawn stays used up even if the operation
fails afterwards. -/

namespace ModularEncryption

/-- A stream of random bytes, used up to a position. -/
structure Entropy where
  stream : Nat → UInt8
  position : Nat

/-- An operation that draws random bytes and may fail. -/
abbrev Drawing := ExceptT Error (StateM Entropy)

namespace Entropy

/-- The next `n` bytes. -/
def next (e : Entropy) (n : Nat) : Bytes :=
  (List.range n).map fun i => e.stream (e.position + i)

/-- The stream with the next `n` bytes used up. -/
def skip (e : Entropy) (n : Nat) : Entropy := { e with position := e.position + n }

@[simp] theorem length_next (e : Entropy) (n : Nat) : (e.next n).length = n := by simp [next]

/-- Takes the next `n` bytes. -/
def draw (n : Nat) : Drawing Bytes := fun e => (.ok (e.next n), e.skip n)

/-- Takes the bytes of a nonce. -/
def drawNonce : Drawing Nonce :=
  fun e => (.ok ⟨e.next Nonce.length, by simp [Nonce.length]⟩, e.skip Nonce.length)

end Entropy

end ModularEncryption
