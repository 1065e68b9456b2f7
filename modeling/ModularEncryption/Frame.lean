import ModularEncryption.AesKey
import ModularEncryption.Ctr
import ModularEncryption.Error.Refusal
import ModularEncryption.Gcm

/-! # Cipher frames

A module is written as a frame: the number of bytes that follow, as four bytes with the lowest
first; the nonce; the ciphertext; and in Galois/counter mode the tag. A cipher of a mode and a key
makes frames (`encrypt`) and reads them (`decrypt`).

A frame has the length it states (`length_of_encryptWith`). -/

namespace ModularEncryption

/-- The modes in which modules are encrypted. -/
inductive Mode where
  /-- Galois/counter mode, which authenticates the module and its additional data. -/
  | gcm
  /-- Counter mode, which does not. -/
  | ctr
deriving DecidableEq, Repr

namespace Mode

/-- The number of bytes of the tag of a frame. -/
def tagLength : Mode → Nat
  | .gcm => Gcm.tagLength
  | .ctr => 0

/-- The listing of a mode. -/
def listing : Mode → Text.Listing
  | .gcm => .word "Gcm"
  | .ctr => .word "Ctr"

end Mode

/-- The number of bytes in which a frame states its length. -/
def sizeLength : Nat := 4

/-- The greatest length that a frame may state. -/
def maxFrameLength : Nat := 0x7fffffff

/-- The first twelve bytes as a nonce; bytes that are missing count as zeros. -/
def Nonce.ofFront (bs : Bytes) : Nonce := ⟨bs.padTo 12, by simp⟩

/-- The length that a frame states. -/
def frameLength (frame : Bytes) : Except Error Nat :=
  if frame.length < sizeLength then .error { cause := .frameWithoutLength frame.length }
  else .ok (Bytes.ofLittleEndian (frame.take sizeLength))

/-- A mode with a key. -/
structure FrameCipher where
  mode : Mode
  key : AesKey
deriving DecidableEq

namespace FrameCipher

/-- The cipher of a mode and the bytes of a key. -/
def ofBytes (mode : Mode) (bs : Bytes) : Except Error FrameCipher :=
  (AesKey.ofBytes bs).map (⟨mode, ·⟩)

/-- What follows the nonce in the frame of a text. -/
def body (c : FrameCipher) (nonce : Nonce) (aad text : Bytes) : Bytes :=
  match c.mode with
  | .gcm =>
    let (ciphertext, tag) := Gcm.encrypt c.key.encipher nonce aad text
    ciphertext ++ tag
  | .ctr => Ctr.apply c.key.encipher (nonce.counterBlock 1) text

/-- The length that the frame of a text of the given length states. -/
def statedLength (c : FrameCipher) (length : Nat) : Nat :=
  Nonce.length + length + c.mode.tagLength

/-- The frame of a text under a nonce. -/
def encryptWith (c : FrameCipher) (nonce : Nonce) (aad text : Bytes) : Except Error Bytes :=
  if maxFrameLength < c.statedLength text.length then
    .error { cause := .moduleTooLarge text.length }
  else
    .ok (Bytes.littleEndian sizeLength (c.statedLength text.length) ++ nonce.bytes ++
      c.body nonce aad text)

/-- The frame of a text under a fresh nonce. -/
def encrypt (c : FrameCipher) (aad text : Bytes) : Drawing Bytes := do
  let nonce ← Entropy.drawNonce
  c.encryptWith nonce aad text

/-- The text of what follows the nonce in a frame. -/
def decryptBody (c : FrameCipher) (nonce : Nonce) (aad body : Bytes) : Except Error Bytes :=
  match c.mode with
  | .gcm =>
    let ciphertext := body.take (body.length - Gcm.tagLength)
    let tag := body.drop (body.length - Gcm.tagLength)
    match Gcm.decrypt c.key.encipher nonce aad ciphertext tag with
    | some text => .ok text
    | none => .error { cause := .frameTag, sources := [.wrongTag] }
  | .ctr => .ok (Ctr.apply c.key.encipher (nonce.counterBlock 1) body)

/-- The text of a frame. Its lengths are checked first and, where there is one, its tag. -/
def decrypt (c : FrameCipher) (aad frame : Bytes) : Except Error Bytes := do
  let stated ← frameLength frame
  let least := c.statedLength 0
  refuseIf (stated < least) (.frameTooShort least stated)
  let rest := frame.drop sizeLength
  refuseIf (rest.length ≠ stated) (.frameLength stated rest.length)
  c.decryptBody (Nonce.ofFront rest) aad (rest.drop Nonce.length)

/-- The listing of a cipher that reads frames; the key is kept back. -/
def listing (c : FrameCipher) : Text.Listing :=
  .redacted "AesDecryptor" [.field "mode" c.mode.listing]

theorem length_body (c : FrameCipher) (nonce : Nonce) (aad text : Bytes) :
    (c.body nonce aad text).length = text.length + c.mode.tagLength := by
  unfold body
  cases c.mode <;> simp [Gcm.encrypt, Mode.tagLength]

/-- A frame is four bytes longer than it states. -/
theorem length_of_encryptWith {c : FrameCipher} {nonce : Nonce} {aad text frame : Bytes}
    (h : c.encryptWith nonce aad text = .ok frame) :
    frame.length = sizeLength + c.statedLength text.length := by
  unfold encryptWith at h
  split at h
  · cases h
  · cases h
    simp [length_body, nonce.length_eq, statedLength, Nonce.length]
    omega

end FrameCipher

end ModularEncryption
