import ModularEncryption.Proofs.Gcm.Field

/-! # Tags of texts that differ in one byte

Under a hash key other than zero the hash tells apart what differs in one block (`hash_ne`). A text
with one byte changed (`Bytes.xorAt`) differs from the text in one block (`exists_ofText_xorAt`),
and what is hashed with it does so too; so the two have different tags (`tag_xorAt_ne`). Under a
hash key of zero all texts have the same tag (`tag_eq_of_zero`). Two nonces give one ciphertext
different tags under every injective cipher (`tag_ne_of_nonce`). -/

namespace ModularEncryption

/-! ### One byte changed -/

namespace Bytes

/-- The bytes with a mask added to the one at place `i`. -/
def xorAt (bs : Bytes) (i : Nat) (mask : UInt8) : Bytes := bs.modify i (· ^^^ mask)

@[simp] theorem length_xorAt (bs : Bytes) (i : Nat) (mask : UInt8) :
    (bs.xorAt i mask).length = bs.length := List.length_modify ..

theorem xorAt_ne {bs : Bytes} {i : Nat} (h : i < bs.length) {mask : UInt8} (hmask : mask ≠ 0) :
    bs.xorAt i mask ≠ bs := by
  intro heq
  have hbyte : bs[i] ^^^ mask = bs[i] := by
    have hget := congrArg (·[i]?) heq
    simpa [xorAt, List.getElem?_modify_eq, h] using hget
  apply hmask
  calc mask = bs[i] ^^^ (bs[i] ^^^ mask) := by
        rw [← UInt8.xor_assoc, UInt8.xor_self, UInt8.zero_xor]
    _ = 0 := by rw [hbyte, UInt8.xor_self]

theorem take_xorAt (bs : Bytes) (i n : Nat) (mask : UInt8) :
    (bs.xorAt i mask).take n = xorAt (bs.take n) i mask := List.take_modify ..

theorem xorAt_of_length_le {bs : Bytes} {i : Nat} (h : bs.length ≤ i) (mask : UInt8) :
    bs.xorAt i mask = bs := List.modify_eq_self h

theorem drop_xorAt_of_lt {i n : Nat} (h : i < n) (bs : Bytes) (mask : UInt8) :
    (bs.xorAt i mask).drop n = bs.drop n := List.drop_modify_of_lt _ _ _ _ h

theorem drop_xorAt_of_le {i n : Nat} (h : n ≤ i) (bs : Bytes) (mask : UInt8) :
    (bs.xorAt i mask).drop n = xorAt (bs.drop n) (i - n) mask := List.drop_modify_of_ge _ _ _ _ h

theorem xorAt_append_left {as : Bytes} {i : Nat} (h : i < as.length) (bs : Bytes)
    (mask : UInt8) : xorAt (as ++ bs) i mask = as.xorAt i mask ++ bs := by
  rw [← List.take_append_drop as.length (xorAt (as ++ bs) i mask), take_xorAt, List.take_left,
    drop_xorAt_of_lt h, List.drop_left]

theorem xorAt_append_right {as : Bytes} {i : Nat} (h : as.length ≤ i) (bs : Bytes)
    (mask : UInt8) : xorAt (as ++ bs) i mask = as ++ bs.xorAt (i - as.length) mask := by
  rw [← List.take_append_drop as.length (xorAt (as ++ bs) i mask), take_xorAt, List.take_left,
    xorAt_of_length_le h, drop_xorAt_of_le h, List.drop_left]

/-! ### Texts as blocks -/

theorem takeChunks_eq {n : Nat} (hn : 0 < n) : ∀ {limit limit' : Nat} {bs : Bytes},
    bs.length ≤ limit → bs.length ≤ limit' → takeChunks n limit bs = takeChunks n limit' bs
  | 0, limit', bs, h, _ => by
    have hnil : bs = [] := List.length_eq_zero_iff.mp (by omega)
    subst hnil
    cases limit' <;> rfl
  | limit + 1, 0, bs, _, h => by
    have hnil : bs = [] := List.length_eq_zero_iff.mp (by omega)
    subst hnil
    rfl
  | limit + 1, limit' + 1, bs, h, h' => by
    unfold takeChunks
    split
    · rfl
    · next hne =>
      have hpos : 0 < bs.length := by cases bs <;> simp_all
      have hdrop : (bs.drop n).length = bs.length - n := List.length_drop ..
      have hrest : takeChunks n limit (bs.drop n) = takeChunks n limit' (bs.drop n) :=
        takeChunks_eq hn (by omega) (by omega)
      rw [hrest]

theorem chunks_eq_cons {n : Nat} (hn : 0 < n) {bs : Bytes} (h : bs ≠ []) :
    chunks n bs = bs.take n :: chunks n (bs.drop n) := by
  cases bs with
  | nil => exact absurd rfl h
  | cons b bs =>
    have hdrop : ((b :: bs).drop n).length ≤ bs.length := by
      rw [List.length_drop, List.length_cons]
      omega
    have hrest := takeChunks_eq hn hdrop (Nat.le_refl _)
    rw [chunks, List.length_cons, takeChunks, hrest]
    rfl

end Bytes

namespace Block

theorem ofText_eq_cons {text : Bytes} (h : text ≠ []) :
    ofText text = ofBytes (text.take 16) :: ofText (text.drop 16) := by
  rw [ofText, Bytes.chunks_eq_cons (by decide) h, List.map_cons, ofText]

/-- Up to 16 bytes are told by their block and their number. -/
theorem eq_of_ofBytes {as bs : Bytes} (hlen : as.length = bs.length) (hshort : as.length ≤ 16)
    (h : ofBytes as = ofBytes bs) : as = bs := by
  have hpad : ∀ cs : Bytes, (ofBytes cs).toBytes = cs.padTo 16 := by
    intro cs
    have hlen : (cs.padTo 16).length = 16 := Bytes.length_padTo 16 cs
    have hback := Bytes.padTo_length (cs.padTo 16)
    rw [hlen] at hback
    rw [← toBytes_ofBytes hlen, ofBytes, ofBytes, hback]
  have htake : ∀ cs : Bytes, cs.length ≤ 16 → (cs.padTo 16).take cs.length = cs := by
    intro cs hcs
    rw [Bytes.padTo, List.take_take, Nat.min_eq_left hcs, List.take_left]
  calc as = (as.padTo 16).take as.length := (htake as hshort).symm
    _ = (bs.padTo 16).take bs.length := by rw [← hpad, ← hpad, h, hlen]
    _ = bs := htake bs (by omega)

/-- **A text with one byte changed differs in one block.** -/
theorem exists_ofText_xorAt {mask : UInt8} (hmask : mask ≠ 0) : ∀ {i : Nat} {text : Bytes},
    i < text.length → ∃ front b b' rest, b ≠ b' ∧ ofText text = front ++ b :: rest ∧
      ofText (text.xorAt i mask) = front ++ b' :: rest := by
  intro i
  -- the induction takes one block off the front until the byte lies in the first one
  induction i using Nat.strong_induction_on with
  | _ i ih =>
    intro text hi
    have hne : text ≠ [] := by rintro rfl; simp at hi
    have hne' : text.xorAt i mask ≠ [] := by
      intro h
      have := congrArg List.length h
      simp only [Bytes.length_xorAt, List.length_nil] at this
      omega
    rw [ofText_eq_cons hne, ofText_eq_cons hne', Bytes.take_xorAt]
    by_cases hfirst : i < 16
    · have hplace : i < (text.take 16).length := by
        rw [List.length_take]
        omega
      refine ⟨[], _, _, _, fun h => ?_, rfl, by rw [Bytes.drop_xorAt_of_lt hfirst]; rfl⟩
      exact Bytes.xorAt_ne hplace hmask
        (eq_of_ofBytes (Bytes.length_xorAt ..) (by simp) h.symm)
    · have hrest : i - 16 < (text.drop 16).length := by
        rw [List.length_drop]
        omega
      obtain ⟨front, b, b', rest, hb, htext, hchanged⟩ := ih (i - 16) (by omega) hrest
      have hkept : Bytes.xorAt (text.take 16) i mask = text.take 16 :=
        Bytes.xorAt_of_length_le (by rw [List.length_take]; omega) mask
      refine ⟨ofBytes (text.take 16) :: front, b, b', rest, hb, by rw [htext]; rfl, ?_⟩
      rw [hkept, Bytes.drop_xorAt_of_le (by omega), hchanged]
      rfl

end Block

namespace Gcm

/-! ### The hash -/

theorem foldl_hash_cancel {key : Block} (hkey : key ≠ 0) (blocks : List Block) {s t : Block}
    (h : blocks.foldl (fun sum b => mul (sum ^^^ b) key) s =
      blocks.foldl (fun sum b => mul (sum ^^^ b) key) t) : s = t := by
  induction blocks generalizing s t with
  | nil => exact h
  | cons b blocks ih => exact (BitVec.xor_left_inj b).mp (mul_right_cancel hkey (ih h))

/-- **The hash tells apart what differs in one block.** -/
theorem hash_ne {key : Block} (hkey : key ≠ 0) (front : List Block) {b b' : Block} (hb : b ≠ b')
    (rest : List Block) : hash key (front ++ b :: rest) ≠ hash key (front ++ b' :: rest) := by
  intro h
  rw [hash, hash, List.foldl_append, List.foldl_append, List.foldl_cons, List.foldl_cons] at h
  exact hb ((BitVec.xor_right_inj _).mp (mul_right_cancel hkey (foldl_hash_cancel hkey rest h)))

theorem mul_zero_right (a : Block) : mul a 0 = 0 := by
  apply eq_zero_of_element
  rw [element_mul, element_zero, mul_zero]

theorem hash_zero (blocks : List Block) : hash 0 blocks = 0 := by
  induction blocks with
  | nil => rfl
  | cons b blocks ih => rwa [hash, List.foldl_cons, mul_zero_right]

/-! ### The tag -/

theorem tag_eq_iff {cipher : Block → Block} {nonce : Nonce} {aad ciphertext ciphertext' : Bytes} :
    tag cipher nonce aad ciphertext = tag cipher nonce aad ciphertext' ↔
      hash (cipher 0) (hashInput aad ciphertext) = hash (cipher 0) (hashInput aad ciphertext') := by
  constructor
  · intro h
    have hblock := congrArg Block.ofBytes h
    rw [tag, tag, Block.ofBytes_toBytes, Block.ofBytes_toBytes] at hblock
    exact (BitVec.xor_left_inj _).mp hblock
  · intro h
    rw [tag, tag, h]

/-- **A changed byte changes the tag**, if the hash key is not zero. -/
theorem tag_xorAt_ne {cipher : Block → Block} (hkey : cipher 0 ≠ 0) (nonce : Nonce) (aad : Bytes)
    {ciphertext : Bytes} {i : Nat} (hi : i < ciphertext.length) {mask : UInt8}
    (hmask : mask ≠ 0) :
    tag cipher nonce aad ciphertext ≠ tag cipher nonce aad (ciphertext.xorAt i mask) := by
  obtain ⟨front, b, b', rest, hb, htext, hchanged⟩ := Block.exists_ofText_xorAt hmask hi
  rw [ne_eq, tag_eq_iff, hashInput, hashInput, htext, hchanged, Bytes.length_xorAt]
  simp only [List.append_assoc, List.cons_append]
  simp only [← List.append_assoc]
  exact hash_ne hkey _ hb _

/-- Under a hash key of zero the tag does not depend on the ciphertext. -/
theorem tag_eq_of_zero {cipher : Block → Block} (hkey : cipher 0 = 0) (nonce : Nonce)
    (aad ciphertext ciphertext' : Bytes) :
    tag cipher nonce aad ciphertext = tag cipher nonce aad ciphertext' := by
  rw [tag_eq_iff, hkey, hash_zero, hash_zero]

/-- **Another nonce gives another tag.** -/
theorem tag_ne_of_nonce {cipher : Block → Block} (hcipher : Function.Injective cipher)
    {nonce nonce' : Nonce} (hnonce : nonce.bytes ≠ nonce'.bytes) (aad ciphertext : Bytes) :
    tag cipher nonce aad ciphertext ≠ tag cipher nonce' aad ciphertext := by
  intro h
  have hblock := congrArg Block.ofBytes h
  rw [tag, tag, Block.ofBytes_toBytes, Block.ofBytes_toBytes] at hblock
  have hcounter := hcipher ((BitVec.xor_right_inj _).mp hblock)
  have hlen : ∀ n : Nonce, (n.bytes ++ Bytes.bigEndian 4 1).length = 16 := by
    intro n
    rw [List.length_append, n.length_eq, Bytes.length_bigEndian]
  have hbytes := Block.eq_of_ofBytes (by rw [hlen, hlen]) (by rw [hlen]) hcounter
  exact hnonce (List.append_cancel_right hbytes)

end Gcm

end ModularEncryption
