import ModularEncryption.Frame

/-! # Frames are read as they were written

A frame is its stated length, its nonce and its body, laid end to end (`frameOf`). Reading cuts it
in the same places: the length is read back whatever follows (`frameLength_frameOf`), and the rest
is read by the body alone (`decrypt_frameOf`). A body gives back the text it was made of, in counter
mode whatever the additional data are (`decryptBody_body`). So every text that fits into a frame is
read back from it, and a text that does not fit is refused (`ofBytes_encryptWith_decrypt`). -/

namespace ModularEncryption

/-! ### Nonces -/

theorem Nonce.bytes_injective {m n : Nonce} (h : m.bytes = n.bytes) : m = n := by
  cases m; cases n; cases h; rfl

theorem Nonce.bytes_ofFront {bs : Bytes} (h : Nonce.length ≤ bs.length) :
    (Nonce.ofFront bs).bytes = bs.take Nonce.length := by
  simp only [Nonce.ofFront, Bytes.padTo]
  exact List.take_append_of_le_length h

theorem Nonce.ofFront_append (nonce : Nonce) (rest : Bytes) :
    Nonce.ofFront (nonce.bytes ++ rest) = nonce := by
  have hlen : nonce.bytes.length = Nonce.length := nonce.length_eq
  apply Nonce.bytes_injective
  rw [Nonce.bytes_ofFront (by simp; omega), ← hlen, List.take_left]

/-! ### The parts of a frame -/

/-- The frame with a nonce and a body. -/
def frameOf (nonce : Nonce) (body : Bytes) : Bytes :=
  Bytes.littleEndian sizeLength (Nonce.length + body.length) ++ (nonce.bytes ++ body)

theorem length_frameOf (nonce : Nonce) (body : Bytes) :
    (frameOf nonce body).length = sizeLength + (Nonce.length + body.length) := by
  have hnonce : nonce.bytes.length = Nonce.length := nonce.length_eq
  simp [frameOf, hnonce]

theorem drop_size_frameOf (nonce : Nonce) (body : Bytes) :
    (frameOf nonce body).drop sizeLength = nonce.bytes ++ body :=
  List.drop_left' (Bytes.length_littleEndian _ _)

theorem lt_of_le_maxFrameLength {n : Nat} (h : n ≤ maxFrameLength) :
    n < Nat.pow 256 sizeLength := by
  have hpow : Nat.pow 256 sizeLength = 0x100000000 := rfl
  simp only [maxFrameLength] at h
  omega

/-- **The length of a frame is read back, whatever follows the frame.** -/
theorem frameLength_frameOf (nonce : Nonce) {body : Bytes}
    (h : Nonce.length + body.length ≤ maxFrameLength) (rest : Bytes) :
    frameLength (frameOf nonce body ++ rest) = .ok (Nonce.length + body.length) := by
  have hlen := length_frameOf nonce body
  have hlong : ¬ (frameOf nonce body ++ rest).length < sizeLength := by
    rw [List.length_append]; omega
  have htake : (frameOf nonce body ++ rest).take sizeLength =
      Bytes.littleEndian sizeLength (Nonce.length + body.length) := by
    rw [frameOf, List.append_assoc]
    exact List.take_left' (Bytes.length_littleEndian _ _)
  rw [frameLength, if_neg hlong, htake,
    Bytes.ofLittleEndian_littleEndian _ _ (lt_of_le_maxFrameLength h)]

/-! ### Reading a body -/

namespace FrameCipher

theorem ofBytes_of_length (mode : Mode) {key : Bytes} (h : key.length ∈ validKeyLengths) :
    ofBytes mode key = .ok ⟨mode, ⟨key, h⟩⟩ := by
  have hk : AesKey.ofBytes key = .ok ⟨key, h⟩ := AesKey.ofBytes_eq_ok_iff.mpr rfl
  rw [ofBytes, hk]
  rfl

/-- A body gives back its text; in counter mode the additional data do not matter. -/
theorem decryptBody_body (c : FrameCipher) (nonce : Nonce) {aad aad' : Bytes} (text : Bytes)
    (h : c.mode = .gcm → aad' = aad) :
    c.decryptBody nonce aad' (c.body nonce aad text) = .ok text := by
  obtain ⟨mode, key⟩ := c
  cases mode with
  | gcm =>
    obtain rfl := h rfl
    have hopen := Gcm.decrypt_encrypt key.encipher nonce aad' text
    have htag : (Gcm.encrypt key.encipher nonce aad' text).2.length = Gcm.tagLength := by
      simp [Gcm.encrypt]
    simp only [decryptBody, body, List.length_append, htag, Nat.add_sub_cancel, List.take_left,
      List.drop_left, hopen]
  | ctr => simp only [decryptBody, body, Ctr.apply_apply]

/-- A frame with room for a tag, and short enough to be written, is read by its body. -/
theorem decrypt_frameOf (c : FrameCipher) (nonce : Nonce) (aad : Bytes) {body : Bytes}
    (hroom : c.mode.tagLength ≤ body.length)
    (hfit : Nonce.length + body.length ≤ maxFrameLength) :
    c.decrypt aad (frameOf nonce body) = c.decryptBody nonce aad body := by
  have hnonce : nonce.bytes.length = Nonce.length := nonce.length_eq
  have hstated := frameLength_frameOf nonce hfit []
  rw [List.append_nil] at hstated
  have hleast : ¬ Nonce.length + body.length < c.statedLength 0 := by
    simp only [statedLength]; omega
  have hlength : ¬ (nonce.bytes ++ body).length ≠ Nonce.length + body.length := by
    simp [hnonce]
  simp only [decrypt, hstated, drop_size_frameOf, refuseIf, if_neg hleast, if_neg hlength,
    Nonce.ofFront_append, List.drop_left' hnonce, bind, Except.bind]

/-! ### Writing a frame -/

theorem statedLength_eq (c : FrameCipher) (nonce : Nonce) (aad text : Bytes) :
    c.statedLength text.length = Nonce.length + (c.body nonce aad text).length := by
  rw [length_body, statedLength, Nat.add_assoc]

/-- What is written is the frame of the text's body, and it is written if it fits. -/
theorem encryptWith_eq_ok_iff {c : FrameCipher} {nonce : Nonce} {aad text frame : Bytes} :
    c.encryptWith nonce aad text = .ok frame ↔
      c.statedLength text.length ≤ maxFrameLength ∧
        frame = frameOf nonce (c.body nonce aad text) := by
  rw [frameOf, ← statedLength_eq, ← List.append_assoc, encryptWith]
  split
  · next h => simp; omega
  · next h => simp only [Except.ok.injEq, eq_comm (b := frame)]; simp; omega

/-- **What was encrypted is decrypted.** -/
theorem decrypt_of_encryptWith {c : FrameCipher} {nonce : Nonce} {aad aad' text frame : Bytes}
    (h : c.encryptWith nonce aad text = .ok frame) (haad : c.mode = .gcm → aad' = aad) :
    c.decrypt aad' frame = .ok text := by
  obtain ⟨hfit, rfl⟩ := encryptWith_eq_ok_iff.mp h
  rw [statedLength_eq c nonce aad] at hfit
  rw [decrypt_frameOf c nonce aad' (by rw [length_body]; omega) hfit,
    decryptBody_body c nonce text haad]

theorem frameLength_of_encryptWith {c : FrameCipher} {nonce : Nonce} {aad text frame : Bytes}
    (h : c.encryptWith nonce aad text = .ok frame) (rest : Bytes) :
    frameLength (frame ++ rest) = .ok (frame.length - sizeLength) := by
  obtain ⟨hfit, rfl⟩ := encryptWith_eq_ok_iff.mp h
  rw [statedLength_eq c nonce aad] at hfit
  rw [frameLength_frameOf nonce hfit, length_frameOf, Nat.add_sub_cancel_left]

theorem nonce_of_encryptWith {c : FrameCipher} {nonce : Nonce} {aad text frame : Bytes}
    (h : c.encryptWith nonce aad text = .ok frame) :
    (frame.drop sizeLength).take Nonce.length = nonce.bytes := by
  obtain ⟨-, rfl⟩ := encryptWith_eq_ok_iff.mp h
  rw [drop_size_frameOf]
  exact List.take_left' nonce.length_eq

/-- **Frames**: under every key and in both modes, a text that fits becomes a frame that tells its
length and its nonce and from which the text is read back; a text that does not fit is refused. -/
theorem ofBytes_encryptWith_decrypt (mode : Mode) (key : Bytes)
    (hkey : key.length ∈ validKeyLengths) (nonce : Nonce) (aad text : Bytes) :
    ∃ c, ofBytes mode key = .ok c ∧
      (12 + text.length + mode.tagLength ≤ 0x7fffffff →
        ∃ frame, c.encryptWith nonce aad text = .ok frame ∧
          frame.length = 4 + 12 + text.length + mode.tagLength ∧
          (frame.drop 4).take 12 = nonce.bytes ∧
          (∀ rest, frameLength (frame ++ rest) = .ok (frame.length - 4)) ∧
          ∀ aad', (mode = .gcm → aad' = aad) → c.decrypt aad' frame = .ok text) ∧
      (0x7fffffff < 12 + text.length + mode.tagLength →
        ∃ e, c.encryptWith nonce aad text = .error e ∧ e.kind = .dataInvalid) := by
  refine ⟨_, ofBytes_of_length mode hkey, fun hfit => ?_, fun hlarge => ?_⟩
  · have h : encryptWith ⟨mode, ⟨key, hkey⟩⟩ nonce aad text = .ok _ :=
      encryptWith_eq_ok_iff.mpr ⟨hfit, rfl⟩
    refine ⟨_, h, ?_, nonce_of_encryptWith h, frameLength_of_encryptWith h, fun aad' haad => ?_⟩
    · rw [length_of_encryptWith h]
      simp only [statedLength, Nonce.length, sizeLength]
      omega
    · exact decrypt_of_encryptWith h haad
  · exact ⟨_, if_pos hlarge, rfl⟩

/-- Five bytes in counter mode under a key of zeros, read with other additional data. -/
theorem ofBytes_encryptWith_decrypt_hello :
    (List.replicate 24 (0 : UInt8)).length ∈ validKeyLengths ∧
      12 + [104, 101, 108, 108, 111].length + Mode.ctr.tagLength ≤ 0x7fffffff ∧
      ∃ c frame, ofBytes .ctr (List.replicate 24 0) = .ok c ∧
        c.encryptWith ⟨List.replicate 12 7, rfl⟩ [1] [104, 101, 108, 108, 111] = .ok frame ∧
        frame.length = 21 ∧ c.decrypt [2] frame = .ok [104, 101, 108, 108, 111] := by
  refine ⟨by decide, by decide, ?_⟩
  obtain ⟨c, hc, hfit, -⟩ := ofBytes_encryptWith_decrypt .ctr (List.replicate 24 0) (by decide)
    ⟨List.replicate 12 7, rfl⟩ [1] [104, 101, 108, 108, 111]
  obtain ⟨frame, hframe, hlen, -, -, hread⟩ := hfit (by decide)
  exact ⟨c, frame, hc, hframe, hlen, hread [2] (by decide)⟩

end FrameCipher

end ModularEncryption
