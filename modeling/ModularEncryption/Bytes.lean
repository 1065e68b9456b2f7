/-! # Byte strings

A byte string is a list of bytes. This module holds what the rest of the library does with them: the
bytewise exclusive or (`xor`), numbers written with a fixed number of bytes in either order
(`littleEndian`, `bigEndian`) and read back (`ofLittleEndian`, `ofBigEndian`), zero padding
(`padTo`) and cutting into pieces (`chunks`).

A number below `256 ^ w` survives being written with `w` bytes (`ofLittleEndian_littleEndian`, and
the other way round `littleEndian_ofLittleEndian`). -/

namespace ModularEncryption

/-- A byte string. -/
abbrev Bytes := List UInt8

namespace Bytes

/-! ### Exclusive or -/

/-- The bytewise exclusive or, as long as the shorter operand. -/
def xor (a b : Bytes) : Bytes := List.zipWith (fun x y => x ^^^ y) a b

@[simp] theorem length_xor (a b : Bytes) : (xor a b).length = min a.length b.length := by
  simp [xor]

/-! ### Numbers of fixed width -/

/-- The `width` low bytes of `n`, the lowest first. -/
def littleEndian : (width n : Nat) → Bytes
  | 0, _ => []
  | width + 1, n => UInt8.ofNat n :: littleEndian width (n / 256)

/-- The `width` low bytes of `n`, the highest first. -/
def bigEndian (width n : Nat) : Bytes := (littleEndian width n).reverse

/-- The number whose bytes, the lowest first, are `bs`. -/
def ofLittleEndian : Bytes → Nat
  | [] => 0
  | b :: bs => b.toNat + 256 * ofLittleEndian bs

/-- The number whose bytes, the highest first, are `bs`. -/
def ofBigEndian (bs : Bytes) : Nat := bs.foldl (fun n b => n * 256 + b.toNat) 0

@[simp] theorem length_littleEndian : ∀ width n, (littleEndian width n).length = width
  | 0, _ => rfl
  | width + 1, n => by simp [littleEndian, length_littleEndian width]

@[simp] theorem length_bigEndian (width n : Nat) : (bigEndian width n).length = width := by
  simp [bigEndian]

/-- A number that fits into its bytes is read back from them. -/
theorem ofLittleEndian_littleEndian : ∀ width n, n < Nat.pow 256 width →
    ofLittleEndian (littleEndian width n) = n
  | 0, n, h => by
    have : n = 0 := Nat.lt_one_iff.mp h
    simp [littleEndian, ofLittleEndian, this]
  | width + 1, n, h => by
    have hpow : Nat.pow 256 (width + 1) = Nat.pow 256 width * 256 := rfl
    have ih := ofLittleEndian_littleEndian width (n / 256)
      (Nat.div_lt_of_lt_mul (by rw [hpow] at h; omega))
    simp only [littleEndian, ofLittleEndian, ih, UInt8.toNat_ofNat']
    omega

/-- A byte string is what its own number, written with as many bytes, gives. -/
theorem littleEndian_ofLittleEndian : ∀ bs : Bytes,
    littleEndian bs.length (ofLittleEndian bs) = bs
  | [] => rfl
  | b :: bs => by
    have ih := littleEndian_ofLittleEndian bs
    have hb : b.toNat < 256 := b.toNat_lt
    have hq : (b.toNat + 256 * ofLittleEndian bs) / 256 = ofLittleEndian bs := by omega
    simp only [List.length_cons, littleEndian, ofLittleEndian, hq, ih]
    congr 1
    apply UInt8.toNat_inj.mp
    rw [UInt8.toNat_ofNat']
    omega

/-! ### Padding and pieces -/

/-- The first `n` bytes of `bs`, filled up with zeros. -/
def padTo (n : Nat) (bs : Bytes) : Bytes := (bs ++ List.replicate (n - bs.length) 0).take n

@[simp] theorem length_padTo (n : Nat) (bs : Bytes) : (padTo n bs).length = n := by
  simp [padTo]; omega

theorem padTo_length (bs : Bytes) : padTo bs.length bs = bs := by simp [padTo]

/-- At most `limit` pieces of `n` bytes each, from the front; the last one may be shorter. -/
def takeChunks (n : Nat) : (limit : Nat) → Bytes → List Bytes
  | 0, _ => []
  | limit + 1, bs => if bs.isEmpty then [] else bs.take n :: takeChunks n limit (bs.drop n)

/-- The pieces of `n` bytes each that make up `bs`; the last one may be shorter. -/
def chunks (n : Nat) (bs : Bytes) : List Bytes := takeChunks n bs.length bs

end Bytes

end ModularEncryption
