import ModularEncryption.Proofs.Frame.Acceptance
import ModularEncryption.Proofs.Gcm.Tag

/-! # Frames that were tampered with

Bytes that start with the stated length of a frame and have another length than the frame are
malformed (`malformed_of_length_ne`), and so is a frame whose stated length was changed
(`malformed_xorAt`). A byte changed behind the stated length leaves a frame with another nonce,
another ciphertext or another tag (`xorAt_nonce`, `xorAt_body`). Such a frame is refused exactly if
its tag is not the one of its nonce and ciphertext (`refuses_frameOf_iff`), so in Galois/counter
mode a changed nonce or tag is always found, and a changed ciphertext if and only if the hash key is
not zero (`ofBytes_tampered`). -/

namespace ModularEncryption

/-! ### Lengths -/

theorem stated_frameOf (nonce : Nonce) {body : Bytes}
    (h : Nonce.length + body.length ≤ maxFrameLength) :
    Bytes.ofLittleEndian ((frameOf nonce body).take sizeLength) = Nonce.length + body.length := by
  have htake : (frameOf nonce body).take sizeLength =
      Bytes.littleEndian sizeLength (Nonce.length + body.length) :=
    List.take_left' (Bytes.length_littleEndian _ _)
  rw [htake, Bytes.ofLittleEndian_littleEndian _ _ (lt_of_le_maxFrameLength h)]

/-- **Bytes that are too few or too many for the length they state are malformed.** -/
theorem malformed_of_length_ne (mode : Mode) (nonce : Nonce) {body bytes : Bytes}
    (hfit : Nonce.length + body.length ≤ maxFrameLength)
    (hstated : sizeLength ≤ bytes.length →
      bytes.take sizeLength = (frameOf nonce body).take sizeLength)
    (hlen : bytes.length ≠ (frameOf nonce body).length) : Malformed mode bytes := by
  rw [length_frameOf] at hlen
  by_cases hsize : bytes.length < sizeLength
  · exact .inl hsize
  · refine .inr (.inr fun h => hlen ?_)
    have hread := stated_frameOf nonce hfit
    rw [← hstated (by omega)] at hread
    have : bytes.length - sizeLength = Nonce.length + body.length := h.symm.trans hread
    omega

theorem eq_of_ofLittleEndian {as bs : Bytes} (hlen : as.length = bs.length)
    (h : Bytes.ofLittleEndian as = Bytes.ofLittleEndian bs) : as = bs := by
  rw [← Bytes.littleEndian_ofLittleEndian as, ← Bytes.littleEndian_ofLittleEndian bs, h, hlen]

/-- **A frame whose stated length was changed is malformed.** -/
theorem malformed_xorAt (mode : Mode) (nonce : Nonce) {body : Bytes}
    (hfit : Nonce.length + body.length ≤ maxFrameLength) {i : Nat} (hi : i < sizeLength)
    {mask : UInt8} (hmask : mask ≠ 0) : Malformed mode ((frameOf nonce body).xorAt i mask) := by
  refine .inr (.inr fun h => ?_)
  have hlong : i < ((frameOf nonce body).take sizeLength).length := by
    rw [List.length_take, length_frameOf]
    omega
  rw [Bytes.length_xorAt, length_frameOf] at h
  refine Bytes.xorAt_ne hlong hmask (eq_of_ofLittleEndian (Bytes.length_xorAt ..) ?_)
  rw [← Bytes.take_xorAt, stated_frameOf nonce hfit]
  exact h.trans (Nat.add_sub_cancel_left ..)

/-! ### A byte changed behind the stated length -/

/-- The nonce with a mask added to the byte at place `i`. -/
def Nonce.xorAt (nonce : Nonce) (i : Nat) (mask : UInt8) : Nonce :=
  ⟨nonce.bytes.xorAt i mask, by rw [Bytes.length_xorAt, nonce.length_eq]⟩

theorem xorAt_nonce (nonce : Nonce) (body : Bytes) {i : Nat} (hi : sizeLength ≤ i)
    (hi' : i < sizeLength + Nonce.length) (mask : UInt8) :
    (frameOf nonce body).xorAt i mask = frameOf (nonce.xorAt (i - sizeLength) mask) body := by
  have hnonce : nonce.bytes.length = Nonce.length := nonce.length_eq
  rw [frameOf, Bytes.xorAt_append_right (by rwa [Bytes.length_littleEndian]),
    Bytes.length_littleEndian, Bytes.xorAt_append_left (by omega)]
  rfl

theorem xorAt_body (nonce : Nonce) (body : Bytes) {i : Nat} (hi : sizeLength + Nonce.length ≤ i)
    (mask : UInt8) : (frameOf nonce body).xorAt i mask =
      frameOf nonce (body.xorAt (i - (sizeLength + Nonce.length)) mask) := by
  have hnonce : nonce.bytes.length = Nonce.length := nonce.length_eq
  rw [frameOf, Bytes.xorAt_append_right (by rw [Bytes.length_littleEndian]; omega),
    Bytes.length_littleEndian, Bytes.xorAt_append_right (by omega), hnonce, frameOf,
    Bytes.length_xorAt, Nat.sub_sub]

namespace FrameCipher

/-! ### Refusals -/

/-- The bytes are refused as a frame, with an error of the given kind. -/
def Refuses (c : FrameCipher) (aad bytes : Bytes) (kind : ErrorKind) : Prop :=
  ∃ e, c.decrypt aad bytes = .error e ∧ e.kind = kind

/-- **A frame is refused exactly if its tag is not the one of its nonce and ciphertext.** -/
theorem refuses_frameOf_iff {key : AesKey} {nonce : Nonce} {aad ciphertext tag : Bytes}
    (htag : tag.length = Gcm.tagLength)
    (hfit : Nonce.length + (ciphertext ++ tag).length ≤ maxFrameLength) :
    Refuses ⟨.gcm, key⟩ aad (frameOf nonce (ciphertext ++ tag)) .integrityFailure ↔
      tag ≠ Gcm.tag key.encipher nonce aad ciphertext := by
  have hread : decrypt ⟨.gcm, key⟩ aad (frameOf nonce (ciphertext ++ tag)) =
      decryptParts ⟨.gcm, key⟩ nonce aad ciphertext tag := by
    rw [decrypt_frameOf _ nonce aad _ hfit, decryptBody_append _ nonce aad ciphertext htag]
    rw [List.length_append, htag]
    exact Nat.le_add_left ..
  rw [Refuses, hread]
  simp only [decryptParts, Gcm.decrypt]
  by_cases h : tag = Gcm.tag key.encipher nonce aad ciphertext
  · simp [h]
  · rw [if_neg h]
    exact ⟨fun _ => h, fun _ => ⟨_, rfl, rfl⟩⟩

variable {key : AesKey} {nonce : Nonce} {aad ciphertext : Bytes} {i : Nat} {mask : UInt8}

/-- The frame of a ciphertext with its tag. -/
def sealed (key : AesKey) (nonce : Nonce) (aad ciphertext : Bytes) : Bytes :=
  frameOf nonce (ciphertext ++ Gcm.tag key.encipher nonce aad ciphertext)

theorem refuses_xorAt_nonce (hi : sizeLength ≤ i) (hi' : i < sizeLength + Nonce.length)
    (hmask : mask ≠ 0)
    (hfit : Nonce.length + (ciphertext.length + Gcm.tagLength) ≤ maxFrameLength) :
    Refuses ⟨.gcm, key⟩ aad ((sealed key nonce aad ciphertext).xorAt i mask) .integrityFailure := by
  have hnonce : nonce.bytes.length = Nonce.length := nonce.length_eq
  have hchanged : nonce.bytes ≠ (nonce.xorAt (i - sizeLength) mask).bytes :=
    (Bytes.xorAt_ne (by omega) hmask).symm
  rw [sealed, xorAt_nonce nonce _ hi hi', refuses_frameOf_iff (Gcm.length_tag ..) (by simpa)]
  exact Gcm.tag_ne_of_nonce (fun _ _ h => Aes.encipher_injective h) hchanged aad ciphertext

theorem refuses_xorAt_ciphertext (hi : sizeLength + Nonce.length ≤ i)
    (hi' : i < sizeLength + Nonce.length + ciphertext.length) (hmask : mask ≠ 0)
    (hfit : Nonce.length + (ciphertext.length + Gcm.tagLength) ≤ maxFrameLength) :
    Refuses ⟨.gcm, key⟩ aad ((sealed key nonce aad ciphertext).xorAt i mask) .integrityFailure ↔
      key.encipher 0 ≠ 0 := by
  have hplace : i - (sizeLength + Nonce.length) < ciphertext.length := by omega
  rw [sealed, xorAt_body nonce _ hi, Bytes.xorAt_append_left hplace,
    refuses_frameOf_iff (Gcm.length_tag ..) (by simpa)]
  constructor
  · intro h hzero
    exact h (Gcm.tag_eq_of_zero hzero nonce aad _ _)
  · intro hkey
    exact Gcm.tag_xorAt_ne hkey nonce aad hplace hmask

theorem refuses_xorAt_tag (hi : sizeLength + Nonce.length + ciphertext.length ≤ i)
    (hi' : i < (sealed key nonce aad ciphertext).length) (hmask : mask ≠ 0)
    (hfit : Nonce.length + (ciphertext.length + Gcm.tagLength) ≤ maxFrameLength) :
    Refuses ⟨.gcm, key⟩ aad ((sealed key nonce aad ciphertext).xorAt i mask) .integrityFailure := by
  have hlen : (sealed key nonce aad ciphertext).length =
      sizeLength + (Nonce.length + (ciphertext.length + Gcm.tagLength)) := by
    rw [sealed, length_frameOf, List.length_append, Gcm.length_tag]
  rw [sealed, xorAt_body nonce _ (by omega), Bytes.xorAt_append_right (by omega),
    refuses_frameOf_iff (by simp) (by simpa)]
  exact Bytes.xorAt_ne (by rw [Gcm.length_tag]; omega) hmask

/-! ### Resized frames -/

theorem refuses_of_malformed (c : FrameCipher) (aad : Bytes) {bytes : Bytes}
    (h : Malformed c.mode bytes) : c.Refuses aad bytes .dataInvalid := decrypt_of_malformed c aad h

/-- **A proper prefix of a frame is refused.** -/
theorem refuses_take (c : FrameCipher) (nonce : Nonce) (aad : Bytes) {body : Bytes}
    (hfit : Nonce.length + body.length ≤ maxFrameLength) {n : Nat}
    (hn : n < (frameOf nonce body).length) :
    c.Refuses aad ((frameOf nonce body).take n) .dataInvalid := by
  apply refuses_of_malformed
  apply malformed_of_length_ne c.mode nonce hfit
  · intro hsize
    rw [List.length_take] at hsize
    rw [List.take_take, Nat.min_eq_left (by omega)]
  · rw [List.length_take]
    omega

/-- **A frame with bytes behind it is refused.** -/
theorem refuses_append (c : FrameCipher) (nonce : Nonce) (aad : Bytes) {body : Bytes}
    (hfit : Nonce.length + body.length ≤ maxFrameLength) {extra : Bytes} (hextra : extra ≠ []) :
    c.Refuses aad (frameOf nonce body ++ extra) .dataInvalid := by
  apply refuses_of_malformed
  apply malformed_of_length_ne c.mode nonce hfit
  · intro _
    rw [List.take_append_of_le_length (by rw [length_frameOf]; omega)]
  · have hpos := List.length_pos_iff.mpr hextra
    rw [List.length_append]
    omega

/-- **Tampering is found**: a frame in Galois/counter mode with one byte changed is refused, as
invalid data where the byte states the length and for its integrity where it belongs to the nonce or
the tag; a changed byte of the ciphertext is found if and only if the hash key is not zero. Frames
cut short or followed by more bytes are invalid data. -/
theorem ofBytes_tampered (key : Bytes) (hkey : key.length ∈ validKeyLengths) (nonce : Nonce)
    (aad text : Bytes) (hfit : 12 + text.length + 16 ≤ 0x7fffffff) :
    ∃ c frame, ofBytes .gcm key = .ok c ∧ c.encryptWith nonce aad text = .ok frame ∧
      (∀ i mask, mask ≠ 0 →
        (i < 4 → c.Refuses aad (frame.xorAt i mask) .dataInvalid) ∧
        (4 ≤ i → i < 16 → c.Refuses aad (frame.xorAt i mask) .integrityFailure) ∧
        (16 ≤ i → i < 16 + text.length →
          (c.Refuses aad (frame.xorAt i mask) .integrityFailure ↔ c.key.encipher 0 ≠ 0)) ∧
        (16 + text.length ≤ i → i < frame.length →
          c.Refuses aad (frame.xorAt i mask) .integrityFailure)) ∧
      (∀ n, n < frame.length → c.Refuses aad (frame.take n) .dataInvalid) ∧
      ∀ extra, extra ≠ [] → c.Refuses aad (frame ++ extra) .dataInvalid := by
  have hc := ofBytes_of_length .gcm hkey
  generalize (⟨key, hkey⟩ : AesKey) = k at hc
  obtain ⟨ciphertext, hciphertext⟩ : ∃ ciphertext, ciphertext =
    Keystream.apply (Gcm.stream k.encipher nonce) text := ⟨_, rfl⟩
  have hlen : ciphertext.length = text.length := by rw [hciphertext, Keystream.length_apply]
  have hframe : encryptWith ⟨.gcm, k⟩ nonce aad text = .ok (sealed k nonce aad ciphertext) :=
    encryptWith_eq_ok_iff.mpr ⟨hfit, by rw [hciphertext]; rfl⟩
  have hroom : Nonce.length + (ciphertext.length + Gcm.tagLength) ≤ maxFrameLength := by
    simp only [Nonce.length, Gcm.tagLength, maxFrameLength]
    omega
  have hbody : Nonce.length + (ciphertext ++ Gcm.tag k.encipher nonce aad ciphertext).length ≤
      maxFrameLength := by rwa [List.length_append, Gcm.length_tag]
  refine ⟨⟨.gcm, k⟩, sealed k nonce aad ciphertext, hc, hframe,
    fun i mask hmask => ⟨?_, ?_, ?_, ?_⟩, fun n hn => refuses_take _ nonce aad hbody hn,
    fun extra hextra => refuses_append _ nonce aad hbody hextra⟩
  · intro hi
    exact refuses_of_malformed _ aad (malformed_xorAt _ nonce hbody hi hmask)
  · intro hi hi'
    exact refuses_xorAt_nonce hi hi' hmask hroom
  · intro hi hi'
    rw [← hlen] at hi'
    exact refuses_xorAt_ciphertext hi hi' hmask hroom
  · intro hi hi'
    rw [← hlen] at hi
    exact refuses_xorAt_tag hi hi' hmask hroom

/-- A changed byte of the ciphertext of five bytes, under a key of zeros. -/
theorem ofBytes_tampered_hello :
    (List.replicate 16 (0 : UInt8)).length ∈ validKeyLengths ∧
      12 + [104, 101, 108, 108, 111].length + 16 ≤ 0x7fffffff ∧
      ∃ c frame, ofBytes .gcm (List.replicate 16 0) = .ok c ∧
        c.encryptWith ⟨List.replicate 12 7, rfl⟩ [1] [104, 101, 108, 108, 111] = .ok frame ∧
        c.Refuses [1] (frame.xorAt 18 0x80) .integrityFailure := by
  refine ⟨by decide, by decide, ?_⟩
  obtain ⟨c, frame, hc, hframe, hchanged, -⟩ := ofBytes_tampered (List.replicate 16 0) (by decide)
    ⟨List.replicate 12 7, rfl⟩ [1] [104, 101, 108, 108, 111] (by decide)
  have hciphertext := (hchanged 18 0x80 (by decide)).2.2.1 (by decide) (by decide)
  have hkey : c.key.encipher 0 ≠ 0 := by
    cases hc
    decide +kernel
  exact ⟨c, frame, hc, hframe, hciphertext.mpr hkey⟩

end FrameCipher

end ModularEncryption
