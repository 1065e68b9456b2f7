import ModularEncryption.Bytes

/-! # Blocks of 128 bits

A block is what the block cipher permutes and what the hash of Galois/counter mode multiplies. As a
bit vector it is the big-endian number of its 16 bytes: `ofBytes` reads it (zeros fill up a short
last piece), `toBytes` writes it. On 16 bytes these undo each other (`ofBytes_toBytes`,
`toBytes_ofBytes`). -/

namespace ModularEncryption

/-- A block of 128 bits; its first byte is the most significant one. -/
abbrev Block := BitVec 128

namespace Block

/-- The block of the first 16 bytes of `bs`, filled up with zeros. -/
def ofBytes (bs : Bytes) : Block := BitVec.ofNat 128 (Bytes.ofBigEndian (bs.padTo 16))

/-- The 16 bytes of a block. -/
def toBytes (b : Block) : Bytes := Bytes.bigEndian 16 b.toNat

/-- The blocks that make up `bs`, the last one filled up with zeros. -/
def ofText (bs : Bytes) : List Block := (bs.chunks 16).map ofBytes

@[simp] theorem length_toBytes (b : Block) : b.toBytes.length = 16 := by simp [toBytes]

theorem ofBigEndian_eq_ofLittleEndian (bs : Bytes) :
    Bytes.ofBigEndian bs = Bytes.ofLittleEndian bs.reverse := by
  have step : ∀ (bs : Bytes) (n : Nat),
      bs.foldr (fun b n => n * 256 + b.toNat) n =
        Bytes.ofLittleEndian bs + 256 ^ bs.length * n := by
    intro bs n
    induction bs with
    | nil => simp [Bytes.ofLittleEndian]
    | cons b bs ih =>
      have hpow : 256 ^ (bs.length + 1) * n = 256 * (256 ^ bs.length * n) := by
        rw [Nat.pow_succ, Nat.mul_right_comm, Nat.mul_comm]
      simp only [List.foldr_cons, ih, Bytes.ofLittleEndian, List.length_cons, hpow]
      omega
  have h := step bs.reverse 0
  rw [List.foldr_reverse] at h
  simpa [Bytes.ofBigEndian] using h

/-- A block is read back from its bytes. -/
theorem ofBytes_toBytes (b : Block) : ofBytes b.toBytes = b := by
  have hpad : Bytes.padTo 16 b.toBytes = b.toBytes := by
    have h := Bytes.padTo_length b.toBytes
    rwa [length_toBytes] at h
  have hlt : b.toNat < Nat.pow 256 16 := b.isLt
  rw [ofBytes, hpad, ofBigEndian_eq_ofLittleEndian, toBytes, Bytes.bigEndian, List.reverse_reverse,
    Bytes.ofLittleEndian_littleEndian 16 _ hlt, BitVec.ofNat_toNat, BitVec.setWidth_eq]

theorem ofLittleEndian_lt : ∀ bs : Bytes, Bytes.ofLittleEndian bs < Nat.pow 256 bs.length
  | [] => Nat.zero_lt_one
  | b :: bs => by
    have ih := ofLittleEndian_lt bs
    have hb : b.toNat < 256 := b.toNat_lt
    have hpow : Nat.pow 256 (b :: bs).length = Nat.pow 256 bs.length * 256 := rfl
    rw [Bytes.ofLittleEndian, hpow]
    omega

/-- Sixteen bytes are read back from their block. -/
theorem toBytes_ofBytes {bs : Bytes} (h : bs.length = 16) : (ofBytes bs).toBytes = bs := by
  have hpad : bs.padTo 16 = bs := by rw [← h, Bytes.padTo_length]
  have hlt : Bytes.ofLittleEndian bs.reverse < 2 ^ 128 := by
    have := ofLittleEndian_lt bs.reverse
    rw [List.length_reverse, h] at this
    exact this
  have hlen : bs.reverse.length = 16 := by rw [List.length_reverse, h]
  rw [toBytes, ofBytes, hpad, ofBigEndian_eq_ofLittleEndian, BitVec.toNat_ofNat,
    Nat.mod_eq_of_lt hlt, Bytes.bigEndian, ← hlen, Bytes.littleEndian_ofLittleEndian,
    List.reverse_reverse]

end Block

end ModularEncryption
