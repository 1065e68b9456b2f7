import ModularEncryption.Block

/-! # Key streams

A key stream is given block by block; text is enciphered and deciphered by adding the stream to it
bytewise. `apply` works through the text in pieces of 16 bytes. Byte `j` of the text meets byte
`j mod 16` of block `j / 16` and nothing else (`apply_eq_mapIdx`), so `apply` keeps the length
(`length_apply`) and undoes itself (`apply_apply`). -/

namespace ModularEncryption.Keystream

/-- The pieces of a text of 16 bytes each, added to the stream from block `i` on. -/
def applyFrom (stream : Nat → Block) : (i : Nat) → List Bytes → Bytes
  | _, [] => []
  | i, piece :: pieces => piece.xor (stream i).toBytes ++ applyFrom stream (i + 1) pieces

/-- The text added to the stream. -/
def apply (stream : Nat → Block) (text : Bytes) : Bytes := applyFrom stream 0 (text.chunks 16)

/-- Byte `j` of the stream. -/
def byte (stream : Nat → Block) (j : Nat) : UInt8 :=
  have h : j % 16 < (stream (j / 16)).toBytes.length := by rw [Block.length_toBytes]; omega
  (stream (j / 16)).toBytes[j % 16]

theorem xor_toBytes_eq_mapIdx (stream : Nat → Block) (i : Nat) {piece : Bytes}
    (h : piece.length ≤ 16) :
    piece.xor (stream i).toBytes = piece.mapIdx fun j b => b ^^^ byte stream (16 * i + j) := by
  apply List.ext_getElem
  · simp; omega
  · intro j h₁ h₂
    simp only [Bytes.length_xor, Block.length_toBytes] at h₁
    have hj : j < 16 := by omega
    have hdiv : (16 * i + j) / 16 = i := by omega
    have hmod : (16 * i + j) % 16 = j := by omega
    simp only [Bytes.xor, List.getElem_zipWith, List.getElem_mapIdx, byte, hdiv, hmod]

theorem applyFrom_takeChunks (stream : Nat → Block) : ∀ (limit i : Nat) (text : Bytes),
    text.length ≤ limit → applyFrom stream i (text.takeChunks 16 limit) =
      text.mapIdx fun j b => b ^^^ byte stream (16 * i + j)
  | 0, i, text, h => by
    have : text = [] := List.length_eq_zero_iff.mp (by omega)
    subst this
    rfl
  | limit + 1, i, text, h => by
    rw [Bytes.takeChunks]
    split
    · next he =>
      have : text = [] := by simpa using he
      subst this
      rfl
    · next he =>
      have hpos : 0 < text.length := by cases text <;> simp_all
      rw [applyFrom, applyFrom_takeChunks stream limit (i + 1) (text.drop 16)
          (by rw [List.length_drop]; omega),
        xor_toBytes_eq_mapIdx stream i (by rw [List.length_take]; omega)]
      conv => rhs; rw [← List.take_append_drop 16 text, List.mapIdx_append]
      congr 1
      by_cases hlen : text.length < 16
      · simp [List.drop_eq_nil_of_le (Nat.le_of_lt hlen)]
      · have : (text.take 16).length = 16 := by simp; omega
        rw [this]
        congr 1
        funext j b
        congr 2
        omega

/-- Byte `j` of the text meets byte `j` of the stream. -/
theorem apply_eq_mapIdx (stream : Nat → Block) (text : Bytes) :
    apply stream text = text.mapIdx fun j b => b ^^^ byte stream j := by
  have h := applyFrom_takeChunks stream text.length 0 text (Nat.le_refl _)
  simpa [apply, Bytes.chunks] using h

@[simp] theorem length_apply (stream : Nat → Block) (text : Bytes) :
    (apply stream text).length = text.length := by
  simp [apply_eq_mapIdx]

/-- Adding the stream twice gives the text back. -/
theorem apply_apply (stream : Nat → Block) (text : Bytes) :
    apply stream (apply stream text) = text := by
  rw [apply_eq_mapIdx, apply_eq_mapIdx]
  apply List.ext_getElem
  · simp
  · intro j h₁ h₂
    simp only [List.getElem_mapIdx, UInt8.xor_assoc, UInt8.xor_self, UInt8.xor_zero]

end ModularEncryption.Keystream
