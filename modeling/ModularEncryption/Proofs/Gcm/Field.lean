import Mathlib.Algebra.CharP.Two
import Mathlib.FieldTheory.Finite.Extension
import Mathlib.RingTheory.AdjoinRoot
import Mathlib.Tactic.ComputeDegree
import ModularEncryption.Gcm

/-! # Blocks form a field

The hash of Galois/counter mode multiplies blocks. A block stands for a class of polynomials over
the two-element field (`element`), the exclusive or for the sum (`element_xor`), and the product of
blocks for the product of classes (`element_mul`); only the block of zeros stands for zero
(`eq_zero_of_element`).

The classes have no zero divisors, since the modulus is irreducible (`irreducible_modulus`). This
is Rabin's test (`irreducible_of_root_pow`): the class of `x` comes back after 128 squarings, so
every irreducible factor has a degree dividing 128, and after 64 squarings it differs from itself
by a unit, so no factor has a smaller degree. Both are found by squaring blocks. Hence a product
with a block other than zero determines its other factor (`mul_right_cancel`). -/

namespace ModularEncryption.Gcm

open Polynomial

/-! ### Rabin's test -/

theorem dvd_two_pow_of_ne {d n : Nat} (h : d ∣ 2 ^ (n + 1)) (hne : d ≠ 2 ^ (n + 1)) :
    d ∣ 2 ^ n := by
  obtain ⟨k, hk, rfl⟩ := (Nat.dvd_prime_pow Nat.prime_two).mp h
  have hlast : k ≠ n + 1 := fun hkn => hne (by rw [hkn])
  exact Nat.pow_dvd_pow 2 (by omega)

/-- **Rabin's test** for a polynomial over a finite field whose degree is a power of two. -/
theorem irreducible_of_root_pow {K : Type} [Field K] [Finite K] {f : K[X]} {n : Nat}
    (hdeg : f.natDegree = 2 ^ (n + 1))
    (hback : AdjoinRoot.root f ^ Nat.card K ^ 2 ^ (n + 1) = AdjoinRoot.root f)
    (hunit : IsUnit (AdjoinRoot.root f ^ Nat.card K ^ 2 ^ n - AdjoinRoot.root f)) :
    Irreducible f := by
  have hmk : ∀ m, AdjoinRoot.mk f (X ^ Nat.card K ^ m - X) =
      AdjoinRoot.root f ^ Nat.card K ^ m - AdjoinRoot.root f := by
    intro m
    rw [map_sub, map_pow, AdjoinRoot.mk_X]
  have hdvd : f ∣ X ^ Nat.card K ^ 2 ^ (n + 1) - X := by
    rw [← AdjoinRoot.mk_eq_zero, hmk, hback, sub_self]
  have hpos : 0 < f.natDegree := by
    rw [hdeg]
    exact Nat.two_pow_pos (n + 1)
  have hzero : f ≠ 0 := ne_zero_of_natDegree_gt hpos
  have hproper : ¬ IsUnit f := fun h => hpos.ne' (natDegree_eq_zero_of_isUnit h)
  obtain ⟨q, hirr, hq⟩ := WfDvdMonoid.exists_irreducible_factor hproper hzero
  have hqdeg : q.natDegree ∣ 2 ^ (n + 1) :=
    hirr.natDegree_dvd_of_dvd_X_pow_card_pow_sub_X (hq.trans hdvd)
  by_cases hfull : q.natDegree = 2 ^ (n + 1)
  · exact (associated_of_dvd_of_natDegree_le hq hzero (by rw [hdeg, hfull])).irreducible hirr
  · -- a factor of smaller degree would divide `f` and what is a unit modulo `f`
    have hhalf : q ∣ X ^ Nat.card K ^ 2 ^ n - X :=
      hirr.natDegree_dvd_iff_dvd_X_pow_card_pow_sub_X.mp (dvd_two_pow_of_ne hqdeg hfull)
    rw [← hmk] at hunit
    obtain ⟨g, hg⟩ := AdjoinRoot.mk_surjective hunit.unit⁻¹.val
    have hone : AdjoinRoot.mk f ((X ^ Nat.card K ^ 2 ^ n - X) * g - 1) = 0 := by
      rw [map_sub, map_mul, hg, IsUnit.mul_val_inv, map_one, sub_self]
    have hqone : q ∣ 1 :=
      (dvd_sub_right (hhalf.mul_right g)).mp (hq.trans (AdjoinRoot.mk_eq_zero.mp hone))
    exact absurd (isUnit_of_dvd_one hqone) hirr.not_isUnit

/-! ### Classes of polynomials -/

/-- The polynomial by which products of blocks are reduced. -/
noncomputable def modulus : (ZMod 2)[X] := X ^ 128 + (X ^ 7 + X ^ 2 + X + 1)

theorem monic_modulus : modulus.Monic := by
  unfold modulus
  apply monic_X_pow_add
  compute_degree!

theorem natDegree_modulus : modulus.natDegree = 128 := by
  unfold modulus
  compute_degree!

/-- The polynomials up to multiples of the modulus. -/
abbrev Quotient : Type := AdjoinRoot modulus

/-- The class of `x`. -/
noncomputable abbrev root : Quotient := AdjoinRoot.root modulus

instance : Nontrivial Quotient := by
  refine AdjoinRoot.nontrivial modulus ?_
  rw [degree_eq_natDegree monic_modulus.ne_zero, natDegree_modulus]
  decide

instance : CharP Quotient 2 :=
  charP_of_injective_algebraMap (algebraMap (ZMod 2) Quotient).injective 2

theorem root_pow : root ^ 128 = root ^ 7 + root ^ 2 + root + 1 := by
  have h : AdjoinRoot.mk modulus modulus = 0 := AdjoinRoot.mk_self
  conv_lhs at h => arg 2; unfold modulus
  simp only [map_add, map_pow, map_one, AdjoinRoot.mk_X] at h
  rwa [CharTwo.add_eq_zero] at h

/-! ### Blocks as classes -/

/-- The polynomial of a block, whose first bit is the constant coefficient. -/
noncomputable def polynomial (b : Block) : (ZMod 2)[X] :=
  ∑ i ∈ Finset.range 128, if b.getMsbD i then X ^ i else 0

theorem coeff_polynomial (b : Block) (n : Nat) :
    (polynomial b).coeff n = if b.getMsbD n then 1 else 0 := by
  have hterm : ∀ i, (if b.getMsbD i then (X : (ZMod 2)[X]) ^ i else 0).coeff n =
      if n = i then (if b.getMsbD n then 1 else 0) else 0 := by
    intro i
    by_cases hi : n = i
    · subst hi
      by_cases hb : b.getMsbD n <;> simp [hb]
    · by_cases hb : b.getMsbD i <;> simp [hb, hi, coeff_X_pow]
  rw [polynomial, finsetSum_coeff, Finset.sum_congr rfl fun i _ => hterm i, Finset.sum_ite_eq]
  by_cases hn : n < 128
  · rw [if_pos (Finset.mem_range.mpr hn)]
  · rw [if_neg (mt Finset.mem_range.mp hn), BitVec.getMsbD_of_ge _ _ (by omega)]
    rfl

theorem degree_polynomial_lt (b : Block) : (polynomial b).degree < modulus.degree := by
  rw [degree_eq_natDegree monic_modulus.ne_zero, natDegree_modulus, degree_lt_iff_coeff_zero]
  intro m hm
  rw [coeff_polynomial, BitVec.getMsbD_of_ge _ _ hm]
  rfl

/-- A block as a class of polynomials. -/
noncomputable def element (b : Block) : Quotient := AdjoinRoot.mk modulus (polynomial b)

theorem element_eq_sum (b : Block) :
    element b = ∑ i ∈ Finset.range 128, if b.getMsbD i then root ^ i else 0 := by
  simp only [element, polynomial, map_sum, apply_ite (AdjoinRoot.mk modulus), map_pow, map_zero,
    AdjoinRoot.mk_X]

/-- A block, given by the places of its bits, as a sum of powers. -/
theorem element_of_bits {b : Block} {places : Finset Nat}
    (h : (Finset.range 128).filter (fun i => b.getMsbD i = true) = places) :
    element b = ∑ i ∈ places, root ^ i := by
  rw [element_eq_sum, ← Finset.sum_filter, h]

/-- Only the block of zeros stands for zero. -/
theorem eq_zero_of_element {b : Block} (h : element b = 0) : b = 0 := by
  have hpoly : polynomial b = 0 := by
    by_contra hne
    exact AdjoinRoot.mk_ne_zero_of_degree_lt monic_modulus hne (degree_polynomial_lt b) h
  apply BitVec.eq_of_getMsbD_eq
  intro i _
  have hcoeff := coeff_polynomial b i
  rw [hpoly, coeff_zero] at hcoeff
  cases hb : b.getMsbD i with
  | false => simp
  | true => simp [hb] at hcoeff

theorem element_zero : element 0 = 0 := by
  rw [element_eq_sum]
  exact Finset.sum_eq_zero fun i _ => by simp

theorem element_xor (a b : Block) : element (a ^^^ b) = element a + element b := by
  rw [element_eq_sum, element_eq_sum, element_eq_sum, ← Finset.sum_add_distrib]
  refine Finset.sum_congr rfl fun i _ => ?_
  rw [BitVec.getMsbD_xor]
  cases a.getMsbD i <;> cases b.getMsbD i <;> simp [CharTwo.add_self_eq_zero]

theorem element_ite (p : Bool) (b : Block) :
    element (if p then b else 0) = if p then element b else 0 := by
  cases p with
  | false => exact element_zero
  | true => rfl

/-! ### Products -/

theorem element_reduction :
    element (BitVec.ofNat 128 (0xe1 <<< 120)) = root ^ 7 + root ^ 2 + root + 1 := by
  have hbits : (Finset.range 128).filter
      (fun i => (BitVec.ofNat 128 (0xe1 <<< 120)).getMsbD i = true) = {7, 2, 1, 0} := by
    decide +kernel
  rw [element_of_bits hbits]
  simp [add_assoc]

theorem element_shift (b : Block) :
    element (b >>> 1) =
      ∑ i ∈ Finset.range 127, if b.getMsbD i then root ^ (i + 1) else 0 := by
  have hfirst : (b >>> 1).getMsbD 0 = false := by simp
  rw [element_eq_sum, Finset.sum_range_succ', hfirst]
  simp only [Bool.false_eq_true, if_false, add_zero]
  refine Finset.sum_congr rfl fun i hi => ?_
  have hi : i < 127 := Finset.mem_range.mp hi
  have hbit : (b >>> 1).getMsbD (i + 1) = b.getMsbD i := by
    simp; omega
  rw [hbit]

theorem element_timesX (b : Block) : element (timesX b) = root * element b := by
  have hlast : b.getLsbD 0 = b.getMsbD 127 := by
    rw [BitVec.getLsbD_eq_getMsbD]
    simp
  have hmul : root * element b =
      element (b >>> 1) + if b.getMsbD 127 then root ^ 128 else 0 := by
    rw [element_shift, element_eq_sum, Finset.mul_sum, Finset.sum_range_succ]
    simp only [mul_ite, mul_zero, ← pow_succ']
  rw [timesX, element_xor, element_ite, element_reduction, hmul, hlast, root_pow]

theorem element_mulLast (a : Block) (n : Nat) (b : Block) :
    element (mulLast a n b) =
      (∑ i ∈ Finset.range n, if a.getLsbD (n - 1 - i) then root ^ i else 0) * element b := by
  induction n generalizing b with
  | zero => rw [mulLast, element_zero, Finset.sum_range_zero, zero_mul]
  | succ n ih =>
    have hplace : ∀ i, n + 1 - 1 - (i + 1) = n - 1 - i := by omega
    rw [mulLast, element_xor, element_ite, ih, element_timesX, Finset.sum_range_succ', add_mul]
    simp only [hplace, pow_succ, ite_mul, Finset.sum_mul, zero_mul, mul_assoc]
    rw [add_comm]
    simp

/-- The product of blocks stands for the product of the classes. -/
theorem element_mul (a b : Block) : element (mul a b) = element a * element b := by
  have hsum : ∑ i ∈ Finset.range 128, (if a.getMsbD i then root ^ i else 0) =
      ∑ i ∈ Finset.range 128, if a.getLsbD (128 - 1 - i) then root ^ i else 0 := by
    refine Finset.sum_congr rfl fun i hi => ?_
    have hi : i < 128 := Finset.mem_range.mp hi
    rw [BitVec.getMsbD_eq_getLsbD, decide_eq_true hi, Bool.true_and]
  rw [mul, element_mulLast, element_eq_sum a, hsum]

/-! ### The modulus is irreducible -/

/-- A block squared `n` times. -/
def squareTimes : (n : Nat) → Block → Block
  | 0, b => b
  | n + 1, b => squareTimes n (mul b b)

theorem element_squareTimes (n : Nat) (b : Block) :
    element (squareTimes n b) = element b ^ 2 ^ n := by
  induction n generalizing b with
  | zero => rw [squareTimes, pow_zero, pow_one]
  | succ n ih => rw [squareTimes, ih, element_mul, ← pow_two, ← pow_mul, ← pow_succ']

/-- The block of `1`. -/
def oneBlock : Block := 0x80000000000000000000000000000000

/-- The block of `x`. -/
def xBlock : Block := 0x40000000000000000000000000000000

/-- The block of `x` squared 64 times. -/
def middleBlock : Block := 0x6f9945a9e519a7229d4c1ad657f8a686

/-- The inverse of what `middleBlock` differs by from `xBlock`. -/
def inverseBlock : Block := 0x180da934bf53158251c13dbb149f5279

theorem element_oneBlock : element oneBlock = 1 := by
  have hbits : (Finset.range 128).filter (fun i => oneBlock.getMsbD i = true) = {0} := by
    decide +kernel
  rw [element_of_bits hbits, Finset.sum_singleton, pow_zero]

theorem element_xBlock : element xBlock = root := by
  have hbits : (Finset.range 128).filter (fun i => xBlock.getMsbD i = true) = {1} := by
    decide +kernel
  rw [element_of_bits hbits, Finset.sum_singleton, pow_one]

theorem squareTimes_xBlock : squareTimes 64 xBlock = middleBlock := by decide +kernel

theorem squareTimes_middleBlock : squareTimes 64 middleBlock = xBlock := by decide +kernel

theorem mul_inverseBlock : mul (middleBlock ^^^ xBlock) inverseBlock = oneBlock := by
  decide +kernel

/-- **The modulus is irreducible.** -/
theorem irreducible_modulus : Irreducible modulus := by
  have hdeg : modulus.natDegree = 2 ^ (6 + 1) := natDegree_modulus
  have hmiddle : root ^ 2 ^ 64 = element middleBlock := by
    rw [← element_xBlock, ← element_squareTimes, squareTimes_xBlock]
  have hback : root ^ 2 ^ 128 = root := by
    rw [show 128 = 64 + 64 from rfl, pow_add, pow_mul, hmiddle, ← element_squareTimes,
      squareTimes_middleBlock, element_xBlock]
  have hinverse : (root ^ 2 ^ 64 - root) * element inverseBlock = 1 := by
    rw [hmiddle, ← element_xBlock, CharTwo.sub_eq_add, ← element_xor, ← element_mul,
      mul_inverseBlock, element_oneBlock]
  apply irreducible_of_root_pow hdeg
  · rw [Nat.card_zmod]
    exact hback
  · rw [Nat.card_zmod]
    exact IsUnit.of_mul_eq_one _ hinverse

instance : IsDomain Quotient := AdjoinRoot.isDomain_of_prime irreducible_modulus.prime

/-- **A product with a block other than zero determines its other factor.** -/
theorem mul_right_cancel {a b key : Block} (hkey : key ≠ 0) (h : mul a key = mul b key) :
    a = b := by
  have hzero : element (a ^^^ b) * element key = 0 := by
    rw [element_xor, add_mul, ← element_mul, ← element_mul, h, CharTwo.add_self_eq_zero]
  have hfactor : element (a ^^^ b) = 0 ∨ element key = 0 := mul_eq_zero.mp hzero
  rcases hfactor with hab | hk
  · exact BitVec.xor_eq_zero_iff.mp (eq_zero_of_element hab)
  · exact absurd (eq_zero_of_element hk) hkey

end ModularEncryption.Gcm
