import ModularEncryption.Keystream
import ModularEncryption.Nonce

/-! # Counter mode

The stream of counter mode enciphers the blocks `start`, `start + 1`, …, counted in 128 bits.
`apply` works through the text in pieces of 4096 bytes and lets the counter run on from piece to
piece; the result is the single pass over the whole text (`apply_eq_singlePass`). -/

namespace ModularEncryption.Ctr

/-- The stream of the cipher from the counter block `start` on. -/
def stream (cipher : Block → Block) (start : Block) (i : Nat) : Block :=
  cipher (start + BitVec.ofNat 128 i)

/-- The number of bytes worked through at a time. -/
def pieceLength : Nat := 4096

/-- The pieces of a text, each added to the stream from where the last one ended. -/
def applyPieces (cipher : Block → Block) : (counter : Block) → List Bytes → Bytes
  | _, [] => []
  | counter, piece :: pieces =>
    Keystream.apply (stream cipher counter) piece ++
      applyPieces cipher (counter + BitVec.ofNat 128 ((piece.length + 15) / 16)) pieces

/-- The text added to the stream, piece by piece. -/
def apply (cipher : Block → Block) (start : Block) (text : Bytes) : Bytes :=
  applyPieces cipher start (text.chunks pieceLength)

/-- The text added to the stream in one pass. -/
def singlePass (cipher : Block → Block) (start : Block) (text : Bytes) : Bytes :=
  Keystream.apply (stream cipher start) text

theorem stream_add (cipher : Block → Block) (start : Block) (n i : Nat) :
    stream cipher (start + BitVec.ofNat 128 n) i = stream cipher start (n + i) := by
  rw [stream, stream, BitVec.add_assoc, BitVec.ofNat_add]

theorem byte_stream_add (cipher : Block → Block) (start : Block) (n j : Nat) :
    Keystream.byte (stream cipher (start + BitVec.ofNat 128 n)) j =
      Keystream.byte (stream cipher start) (16 * n + j) := by
  have hdiv : (16 * n + j) / 16 = n + j / 16 := by omega
  have hmod : (16 * n + j) % 16 = j % 16 := by omega
  simp only [Keystream.byte, hdiv, hmod, stream_add]

theorem applyPieces_takeChunks (cipher : Block → Block) : ∀ (limit : Nat) (start : Block)
    (text : Bytes), text.length ≤ limit →
      applyPieces cipher start (text.takeChunks pieceLength limit) = singlePass cipher start text
  | 0, start, text, h => by
    have : text = [] := List.length_eq_zero_iff.mp (by omega)
    subst this
    rfl
  | limit + 1, start, text, h => by
    rw [Bytes.takeChunks]
    split
    · next he =>
      have : text = [] := by simpa using he
      subst this
      rfl
    · next he =>
      have hpos : 0 < text.length := by cases text <;> simp_all
      rw [applyPieces, applyPieces_takeChunks cipher limit _ (text.drop pieceLength)
        (by simp [pieceLength]; omega)]
      simp only [singlePass, Keystream.apply_eq_mapIdx, byte_stream_add]
      conv => rhs; rw [← List.take_append_drop pieceLength text, List.mapIdx_append]
      congr 1
      by_cases hlen : text.length < pieceLength
      · simp [List.drop_eq_nil_of_le (Nat.le_of_lt hlen)]
      · have hfull : (text.take pieceLength).length = 4096 := by
          simp [pieceLength] at hlen ⊢; omega
        rw [hfull]
        congr 1
        funext j b
        congr 2
        omega

/-- Working piece by piece gives the single pass. -/
theorem apply_eq_singlePass (cipher : Block → Block) (start : Block) (text : Bytes) :
    apply cipher start text = singlePass cipher start text :=
  applyPieces_takeChunks cipher text.length start text (Nat.le_refl _)

@[simp] theorem length_apply (cipher : Block → Block) (start : Block) (text : Bytes) :
    (apply cipher start text).length = text.length := by
  simp [apply_eq_singlePass, singlePass]

/-- Counter mode undoes itself. -/
theorem apply_apply (cipher : Block → Block) (start : Block) (text : Bytes) :
    apply cipher start (apply cipher start text) = text := by
  rw [apply_eq_singlePass, apply_eq_singlePass, singlePass, singlePass, Keystream.apply_apply]

end ModularEncryption.Ctr
