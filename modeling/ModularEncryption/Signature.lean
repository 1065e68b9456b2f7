import ModularEncryption.Frame

/-! # Signatures of plaintext footers

A footer that is not encrypted may be signed: the signature is a nonce followed by the tag that the
footer, encrypted under the signing key, would have. It is the right one for a footer if its tag is
the tag under its own nonce. -/

namespace ModularEncryption.Signature

/-- The number of bytes of a signature. -/
def length : Nat := Nonce.length + Gcm.tagLength

/-- The tag that a footer has under a signing key and a nonce. -/
def tag (key : AesKey) (nonce : Nonce) (aad footer : Bytes) : Except Error Bytes :=
  if maxFrameLength < FrameCipher.statedLength ⟨.gcm, key⟩ footer.length then
    .error { cause := .moduleTooLarge footer.length }
  else .ok (Gcm.encrypt key.encipher nonce aad footer).2

/-- The signature of a footer under a fresh nonce. -/
def sign (key : AesKey) (aad footer : Bytes) : Drawing Bytes := do
  let nonce ← Entropy.drawNonce
  let t ← tag key nonce aad footer
  return nonce.bytes ++ t

/-- Whether a signature of the right length is that of a footer. -/
def matches? (key : AesKey) (aad footer signature : Bytes) : Except Error Bool := do
  let t ← tag key (Nonce.ofFront signature) aad footer
  return t == signature.drop Nonce.length

end ModularEncryption.Signature
