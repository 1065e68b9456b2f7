import ModularEncryption.Keystream
import ModularEncryption.Nonce

/-! # Galois/counter mode

The mode enciphers with a key stream whose counter starts at `2`, and authenticates the ciphertext
together with additional data by a tag: a polynomial hash under the key `cipher 0`, masked with the
enciphered counter block `1`. The hash multiplies blocks as polynomials over the two-element field,
first bit lowest, reduced by `x¹²⁸ + x⁷ + x² + x + 1`.

`decrypt` accepts a tag exactly when it is the one of the given ciphertext (`decrypt_eq_some_iff`)
and then returns the text that was encrypted (`decrypt_encrypt`). -/

namespace ModularEncryption.Gcm

/-! ### The hash -/

/-- The product of a block with `x`. -/
def timesX (b : Block) : Block :=
  (b >>> 1) ^^^ (if b.getLsbD 0 then BitVec.ofNat 128 (0xe1 <<< 120) else 0)

/-- The multiples `b`, `b · x`, … summed over the last `n` coefficients of `a`. -/
def mulLast (a : Block) : (n : Nat) → Block → Block
  | 0, _ => 0
  | n + 1, b => (if a.getLsbD n then b else 0) ^^^ mulLast a n (timesX b)

/-- The product of two blocks. -/
def mul (a b : Block) : Block := mulLast a 128 b

/-- The hash of blocks under a key, by Horner's scheme. -/
def hash (key : Block) (blocks : List Block) : Block :=
  blocks.foldl (fun sum b => mul (sum ^^^ b) key) 0

/-- What is hashed: the additional data and the ciphertext, each filled up with zeros to whole
blocks, and then a block of their lengths in bits. -/
def hashInput (aad ciphertext : Bytes) : List Block :=
  Block.ofText aad ++ Block.ofText ciphertext ++
    [Block.ofBytes (Bytes.bigEndian 8 (8 * aad.length) ++
      Bytes.bigEndian 8 (8 * ciphertext.length))]

/-! ### Encryption -/

/-- The key stream of a nonce. -/
def stream (cipher : Block → Block) (nonce : Nonce) (i : Nat) : Block :=
  cipher (nonce.counterBlock (i + 2))

/-- The number of bytes of a tag. -/
def tagLength : Nat := 16

/-- The tag of a ciphertext with its additional data. -/
def tag (cipher : Block → Block) (nonce : Nonce) (aad ciphertext : Bytes) : Bytes :=
  (hash (cipher 0) (hashInput aad ciphertext) ^^^ cipher (nonce.counterBlock 1)).toBytes

/-- The ciphertext of a text and its tag. -/
def encrypt (cipher : Block → Block) (nonce : Nonce) (aad text : Bytes) : Bytes × Bytes :=
  let ciphertext := Keystream.apply (stream cipher nonce) text
  (ciphertext, tag cipher nonce aad ciphertext)

/-- The text of a ciphertext, if the tag is right. -/
def decrypt (cipher : Block → Block) (nonce : Nonce) (aad ciphertext received : Bytes) :
    Option Bytes :=
  if received = tag cipher nonce aad ciphertext then
    some (Keystream.apply (stream cipher nonce) ciphertext)
  else none

@[simp] theorem length_tag (cipher : Block → Block) (nonce : Nonce) (aad ciphertext : Bytes) :
    (tag cipher nonce aad ciphertext).length = tagLength := by
  simp [tag, tagLength]

/-- Decryption gives back what was encrypted. -/
theorem decrypt_encrypt (cipher : Block → Block) (nonce : Nonce) (aad text : Bytes) :
    decrypt cipher nonce aad (encrypt cipher nonce aad text).1 (encrypt cipher nonce aad text).2 =
      some text := by
  simp [decrypt, encrypt, Keystream.apply_apply]

/-- A text is decrypted exactly from its own ciphertext and tag. -/
theorem decrypt_eq_some_iff {cipher : Block → Block} {nonce : Nonce}
    {aad ciphertext received text : Bytes} :
    decrypt cipher nonce aad ciphertext received = some text ↔
      (ciphertext, received) = encrypt cipher nonce aad text := by
  constructor
  · intro h
    simp only [decrypt, Option.ite_none_right_eq_some, Option.some.injEq] at h
    obtain ⟨rfl, rfl⟩ := h
    simp [encrypt, Keystream.apply_apply]
  · intro h
    have h₁ := congrArg Prod.fst h
    have h₂ := congrArg Prod.snd h
    simp only at h₁ h₂
    rw [h₁, h₂, decrypt_encrypt]

end ModularEncryption.Gcm
