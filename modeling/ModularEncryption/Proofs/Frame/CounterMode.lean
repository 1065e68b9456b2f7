import ModularEncryption.Proofs.Frame.RoundTrip

/-! # The pad of counter mode

Counter mode counts its blocks in 128 bits, from the nonce followed by the number one on. Other
programs count in the last four bytes of the block alone, so that byte `i` of a text meets byte
`i mod 16` of the enciphered block `nonce ++ (1 + i / 16)` (`padByte`). The two agree as long as the
count does not run over into the nonce (`Nonce.counterBlock_add`), and a frame is too short for that
(`blocks_counterBlock`).

What the mode does to a text follows from its pad (`apply_counterBlock`): encrypting and decrypting
are one map, a changed bit of the ciphertext is a changed bit of the text, and since a counter block
shows its nonce (`Nonce.eq_of_counterBlock_eq`), no block is enciphered for two nonces
(`body_eq_mapIdx`). -/

namespace ModularEncryption

/-! ### Numbers in more than one part -/

theorem Bytes.ofLittleEndian_append : ∀ low high : Bytes,
    ofLittleEndian (low ++ high) =
      ofLittleEndian low + Nat.pow 256 low.length * ofLittleEndian high
  | [], high => by simp [ofLittleEndian]
  | b :: low, high => by
    have hpow : Nat.pow 256 (b :: low).length * ofLittleEndian high =
        256 * (Nat.pow 256 low.length * ofLittleEndian high) := by
      show Nat.pow 256 low.length * 256 * ofLittleEndian high = _
      rw [Nat.mul_right_comm, Nat.mul_comm]
    rw [hpow, List.cons_append, ofLittleEndian, ofLittleEndian, ofLittleEndian_append low high]
    omega

/-- The bytes of higher value stand in front. -/
theorem Bytes.ofBigEndian_append (high low : Bytes) :
    ofBigEndian (high ++ low) = ofBigEndian high * Nat.pow 256 low.length + ofBigEndian low := by
  simp only [Block.ofBigEndian_eq_ofLittleEndian, List.reverse_append, ofLittleEndian_append,
    List.length_reverse]
  rw [Nat.mul_comm, Nat.add_comm]

theorem Bytes.ofBigEndian_bigEndian {width n : Nat} (h : n < Nat.pow 256 width) :
    ofBigEndian (bigEndian width n) = n := by
  rw [Block.ofBigEndian_eq_ofLittleEndian, bigEndian, List.reverse_reverse,
    ofLittleEndian_littleEndian width n h]

theorem Block.toNat_ofBytes {bs : Bytes} (h : bs.length = 16) :
    (ofBytes bs).toNat = Bytes.ofBigEndian bs := by
  have hpad : bs.padTo 16 = bs := by rw [← h, Bytes.padTo_length]
  have hlt : Bytes.ofBigEndian bs < 2 ^ 128 := by
    have := ofLittleEndian_lt bs.reverse
    rw [List.length_reverse, h] at this
    rw [ofBigEndian_eq_ofLittleEndian]
    exact this
  rw [ofBytes, hpad, BitVec.toNat_ofNat, Nat.mod_eq_of_lt hlt]

/-! ### Counter blocks -/

namespace Nonce

variable (nonce : Nonce)

theorem length_bytes_append (i : Nat) : (nonce.bytes ++ Bytes.bigEndian 4 i).length = 16 := by
  rw [List.length_append, nonce.length_eq, Bytes.length_bigEndian]

/-- The bytes of a counter block are those of its nonce and of its number. -/
theorem toBytes_counterBlock (i : Nat) :
    (nonce.counterBlock i).toBytes = nonce.bytes ++ Bytes.bigEndian 4 i :=
  Block.toBytes_ofBytes (nonce.length_bytes_append i)

theorem toNat_counterBlock {i : Nat} (h : i < 0x100000000) :
    (nonce.counterBlock i).toNat = Bytes.ofBigEndian nonce.bytes * 0x100000000 + i := by
  rw [counterBlock, Block.toNat_ofBytes (nonce.length_bytes_append i), Bytes.ofBigEndian_append,
    Bytes.length_bigEndian, Bytes.ofBigEndian_bigEndian h]

/-- Counting in 128 bits is counting in the last four bytes, while the count fits into these. -/
theorem counterBlock_add {i j : Nat} (h : i + j < 0x100000000) :
    nonce.counterBlock i + BitVec.ofNat 128 j = nonce.counterBlock (i + j) := by
  have hi := nonce.toNat_counterBlock (i := i) (by omega)
  have hij := nonce.toNat_counterBlock h
  have hlt := (nonce.counterBlock (i + j)).isLt
  -- the sum is the number of a block again, so adding in 128 bits loses nothing
  apply BitVec.eq_of_toNat_eq
  rw [BitVec.toNat_add, BitVec.toNat_ofNat, hi, hij]
  omega

/-- A counter block shows its nonce. -/
theorem eq_of_counterBlock_eq {m n : Nonce} {i j : Nat}
    (h : m.counterBlock i = n.counterBlock j) : m = n := by
  have hbytes := congrArg Block.toBytes h
  rw [toBytes_counterBlock, toBytes_counterBlock] at hbytes
  have hlength : m.bytes.length = n.bytes.length := by rw [m.length_eq, n.length_eq]
  exact bytes_injective (List.append_inj_left hbytes hlength)

end Nonce

/-! ### The pad -/

namespace Ctr

/-- Byte `i` of the pad of a nonce: it is taken from the block of the nonce and of the number of
four bytes `1 + i / 16`, enciphered. -/
def padByte (cipher : Block → Block) (nonce : Nonce) (i : Nat) : UInt8 :=
  (cipher (Block.ofBytes (nonce.bytes ++ Bytes.bigEndian 4 (1 + i / 16)))).toBytes.getD (i % 16) 0

/-- The blocks enciphered for a text of the given length, counted in 128 bits. -/
def blocks (start : Block) (length : Nat) : List Block :=
  (List.range ((length + 15) / 16)).map fun j => start + BitVec.ofNat 128 j

variable {cipher cipher' : Block → Block} {start : Block} {nonce : Nonce} {text : Bytes}

theorem mem_blocks_of_lt {length i : Nat} (h : i < length) :
    start + BitVec.ofNat 128 (i / 16) ∈ blocks start length :=
  List.mem_map.mpr ⟨i / 16, List.mem_range.mpr (by omega), rfl⟩

/-- Byte `i` of a text meets the block counted `i / 16` steps from the first. -/
theorem apply_eq_mapIdx (cipher : Block → Block) (start : Block) (text : Bytes) :
    apply cipher start text = text.mapIdx fun i b =>
      b ^^^ (cipher (start + BitVec.ofNat 128 (i / 16))).toBytes.getD (i % 16) 0 := by
  rw [apply_eq_singlePass, singlePass, Keystream.apply_eq_mapIdx]
  congr 1
  funext i b
  simp [Keystream.byte, stream, List.getD_eq_getElem?_getD, Nat.mod_lt]

/-- The result depends on what the cipher makes of the enciphered blocks only. -/
theorem apply_congr (h : ∀ block ∈ blocks start text.length, cipher' block = cipher block) :
    apply cipher' start text = apply cipher start text := by
  rw [apply_eq_mapIdx, apply_eq_mapIdx]
  refine List.mapIdx_eq_mapIdx_iff.mpr fun i hi => ?_
  rw [h _ (mem_blocks_of_lt hi)]

/-- The count of a text that fits into a frame does not reach the nonce. -/
theorem one_add_lt_of_fits {length j : Nat} (h : Nonce.length + length ≤ maxFrameLength)
    (hj : j < (length + 15) / 16) : 1 + j < 0x100000000 := by
  simp only [Nonce.length, maxFrameLength] at h
  omega

/-- **The blocks of a text that fits into a frame are those of its nonce.** -/
theorem blocks_counterBlock {length : Nat} (h : Nonce.length + length ≤ maxFrameLength) :
    blocks (nonce.counterBlock 1) length =
      (List.range ((length + 15) / 16)).map fun j => nonce.counterBlock (1 + j) :=
  List.map_congr_left fun _ hj =>
    nonce.counterBlock_add (one_add_lt_of_fits h (List.mem_range.mp hj))

/-- **A text that fits into a frame is added to the pad of its nonce.** -/
theorem apply_counterBlock (cipher : Block → Block)
    (h : Nonce.length + text.length ≤ maxFrameLength) :
    apply cipher (nonce.counterBlock 1) text =
      text.mapIdx fun i b => b ^^^ padByte cipher nonce i := by
  rw [apply_eq_mapIdx]
  refine List.mapIdx_eq_mapIdx_iff.mpr fun i hi => ?_
  rw [nonce.counterBlock_add (one_add_lt_of_fits h (by omega : i / 16 < (text.length + 15) / 16))]
  rfl

/-- No block is enciphered for two nonces. -/
theorem not_mem_blocks {nonce' : Nonce} {length length' : Nat} {block : Block}
    (hne : nonce' ≠ nonce) (h : Nonce.length + length ≤ maxFrameLength)
    (h' : Nonce.length + length' ≤ maxFrameLength)
    (hmem : block ∈ blocks (nonce.counterBlock 1) length) :
    block ∉ blocks (nonce'.counterBlock 1) length' := by
  intro hmem'
  rw [blocks_counterBlock h, List.mem_map] at hmem
  rw [blocks_counterBlock h', List.mem_map] at hmem'
  obtain ⟨j, -, rfl⟩ := hmem
  obtain ⟨j', -, hblock⟩ := hmem'
  exact hne (Nonce.eq_of_counterBlock_eq hblock)

/-- Bits changed before are bits changed afterwards. -/
theorem apply_modify (cipher : Block → Block) (start : Block) (text : Bytes) (i : Nat)
    (mask : UInt8) : apply cipher start (text.modify i (· ^^^ mask)) =
      (apply cipher start text).modify i (· ^^^ mask) := by
  rw [apply_eq_mapIdx, apply_eq_mapIdx]
  apply List.ext_getElem?
  intro j
  simp only [List.getElem?_mapIdx, List.getElem?_modify]
  cases text[j]? with
  | none => rfl
  | some b =>
    by_cases hij : i = j
    · simp only [hij, Option.map_some, if_true, Option.map_eq_map, UInt8.xor_assoc,
        UInt8.xor_comm mask]
    · simp only [hij, Option.map_some, if_false, Option.map_eq_map]

end Ctr

/-! ### Frames of counter mode -/

namespace FrameCipher

variable {c : FrameCipher} {nonce : Nonce}

theorem body_of_ctr (hmode : c.mode = .ctr) (nonce : Nonce) (aad text : Bytes) :
    c.body nonce aad text = Ctr.apply c.key.encipher (nonce.counterBlock 1) text := by
  simp only [body, hmode]

theorem encryptWith_of_ctr (hmode : c.mode = .ctr) (nonce : Nonce) (aad : Bytes) {text : Bytes}
    (h : Nonce.length + text.length ≤ maxFrameLength) :
    c.encryptWith nonce aad text =
      .ok (frameOf nonce (Ctr.apply c.key.encipher (nonce.counterBlock 1) text)) := by
  rw [← body_of_ctr hmode nonce aad text, encryptWith_eq_ok_iff]
  refine ⟨?_, rfl⟩
  simpa [statedLength, hmode, Mode.tagLength] using h

theorem decrypt_of_ctr (hmode : c.mode = .ctr) (nonce : Nonce) (aad : Bytes) {body : Bytes}
    (h : Nonce.length + body.length ≤ maxFrameLength) :
    c.decrypt aad (frameOf nonce body) =
      .ok (Ctr.apply c.key.encipher (nonce.counterBlock 1) body) := by
  rw [decrypt_frameOf c nonce aad (by simp [hmode, Mode.tagLength]) h]
  simp only [decryptBody, hmode]

/-- **The pad of counter mode.** For a text that fits into a frame, the counter blocks are those of
the nonce and of numbers of four bytes; what the pieces come to is what one pass gives, each byte
added to its byte of the pad, so that a byte depends on the key, the nonce, its place and itself.
Reading a frame does to its body what writing does to the text, and a changed bit of the
ciphertext changes that bit of the text alone. No other block is asked of the cipher, and none is
shared with another nonce. -/
theorem body_eq_mapIdx (hmode : c.mode = .ctr) (nonce : Nonce) (aad : Bytes) {text : Bytes}
    (h : 12 + text.length ≤ 0x7fffffff) :
    (Ctr.blocks (nonce.counterBlock 1) text.length).map Block.toBytes =
        (List.range ((text.length + 15) / 16)).map (fun j =>
          nonce.bytes ++ Bytes.bigEndian 4 (1 + j)) ∧
      c.body nonce aad text = text.mapIdx (fun i b =>
        b ^^^ Ctr.padByte c.key.encipher nonce i) ∧
      c.body nonce aad text = Ctr.singlePass c.key.encipher (nonce.counterBlock 1) text ∧
      (∀ (aad' text' : Bytes) (i : Nat), text'[i]? = text[i]? →
        (c.body nonce aad' text')[i]? = (c.body nonce aad text)[i]?) ∧
      c.encryptWith nonce aad text = .ok (frameOf nonce (c.body nonce aad text)) ∧
      (∀ aad', c.decrypt aad' (frameOf nonce text) = .ok (c.body nonce aad text)) ∧
      (∀ (aad' : Bytes) (i : Nat) (mask : UInt8),
        c.decrypt aad' (frameOf nonce ((c.body nonce aad text).modify i (· ^^^ mask))) =
          .ok (text.modify i (· ^^^ mask))) ∧
      (∀ cipher : Block → Block,
        (∀ block ∈ Ctr.blocks (nonce.counterBlock 1) text.length,
          cipher block = c.key.encipher block) →
        Ctr.apply cipher (nonce.counterBlock 1) text = c.body nonce aad text) ∧
      ∀ (nonce' : Nonce) (text' : Bytes), nonce' ≠ nonce → 12 + text'.length ≤ 0x7fffffff →
        ∀ block ∈ Ctr.blocks (nonce.counterBlock 1) text.length,
          block ∉ Ctr.blocks (nonce'.counterBlock 1) text'.length := by
  have hbody : ∀ aad text, c.body nonce aad text = _ := body_of_ctr hmode nonce
  simp only [hbody]
  refine ⟨?_, Ctr.apply_counterBlock _ h, Ctr.apply_eq_singlePass _ _ _, ?_,
    encryptWith_of_ctr hmode nonce aad h, fun aad' => decrypt_of_ctr hmode nonce aad' h, ?_,
    fun cipher => Ctr.apply_congr, fun nonce' text' hne h' block => Ctr.not_mem_blocks hne h h'⟩
  · rw [Ctr.blocks_counterBlock h, List.map_map]
    exact List.map_congr_left fun j _ => nonce.toBytes_counterBlock (1 + j)
  · intro aad' text' i hbyte
    rw [Ctr.apply_eq_mapIdx, Ctr.apply_eq_mapIdx, List.getElem?_mapIdx, List.getElem?_mapIdx, hbyte]
  · intro aad' i mask
    have hfits : Nonce.length + ((Ctr.apply c.key.encipher (nonce.counterBlock 1) text).modify i
        (· ^^^ mask)).length ≤ maxFrameLength := by
      rw [List.length_modify, Ctr.length_apply]
      exact h
    rw [decrypt_of_ctr hmode nonce aad' hfits, Ctr.apply_modify, Ctr.apply_apply]

/-- Twenty bytes under a key of zeros take the blocks of the numbers one and two. -/
theorem body_eq_mapIdx_twenty :
    12 + (List.replicate 20 (65 : UInt8)).length ≤ 0x7fffffff ∧
      ∃ c, ofBytes .ctr (List.replicate 24 0) = .ok c ∧ c.mode = .ctr ∧
        (Ctr.blocks (Nonce.counterBlock ⟨List.replicate 12 7, rfl⟩ 1) 20).map Block.toBytes =
          [List.replicate 12 7 ++ [0, 0, 0, 1], List.replicate 12 7 ++ [0, 0, 0, 2]] ∧
        c.body ⟨List.replicate 12 7, rfl⟩ [] (List.replicate 20 65) =
          (List.replicate 20 65).mapIdx (fun i b =>
            b ^^^ Ctr.padByte c.key.encipher ⟨List.replicate 12 7, rfl⟩ i) := by
  have hfits : 12 + (List.replicate 20 (65 : UInt8)).length ≤ 0x7fffffff := by decide
  refine ⟨hfits, _, ofBytes_of_length .ctr (by decide), rfl, ?_⟩
  obtain ⟨hblocks, hbody, -⟩ := body_eq_mapIdx (c := ⟨.ctr, ⟨List.replicate 24 0, by decide⟩⟩) rfl
    ⟨List.replicate 12 7, rfl⟩ [] hfits
  exact ⟨hblocks.trans (by decide), hbody⟩

end FrameCipher

end ModularEncryption
