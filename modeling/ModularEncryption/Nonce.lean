import ModularEncryption.Block

/-! # Nonces

A nonce is twelve bytes, fresh for each text encrypted under a key. With a number of four bytes
behind it it makes a counter block; the block ciphers of both modes are fed with such blocks. -/

namespace ModularEncryption

/-- Twelve bytes that tell the texts encrypted under one key apart. -/
structure Nonce where
  bytes : Bytes
  length_eq : bytes.length = 12
deriving DecidableEq

namespace Nonce

/-- The number of bytes of a nonce. -/
def length : Nat := 12

/-- The nonce of the given bytes, if they are twelve. -/
def ofBytes? (bs : Bytes) : Option Nonce := if h : bs.length = 12 then some ⟨bs, h⟩ else none

/-- The block of the nonce followed by `i` as a number of four bytes. -/
def counterBlock (nonce : Nonce) (i : Nat) : Block :=
  Block.ofBytes (nonce.bytes ++ Bytes.bigEndian 4 i)

end Nonce

end ModularEncryption
