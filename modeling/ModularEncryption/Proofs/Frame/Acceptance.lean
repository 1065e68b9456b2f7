import ModularEncryption.Proofs.Frame.RoundTrip

/-! # What is read as a frame

Any bytes may be offered as a frame. They are malformed (`Malformed`) if they are too short for a
length, or state a length that leaves no room for nonce and tag, or one that is not theirs; all
other bytes are the frame of some nonce and body (`exists_eq_frameOf`). Malformed bytes are refused
as invalid data, and of the others counter mode reads every one and Galois/counter mode those with
the right tag. What is read is exactly what was written: the text, encrypted again under the nonce
of the frame, gives the same frame (`encryptWith_of_decrypt`).

Reading cuts the frame at places computed from its length. `decryptInBounds` takes each cut only if
its places lie within the frame, and it never has to give up (`decryptInBounds_eq`). -/

namespace ModularEncryption

/-- Bytes that are no frame of a mode. -/
def Malformed (mode : Mode) (frame : Bytes) : Prop :=
  frame.length < 4 ∨ Bytes.ofLittleEndian (frame.take 4) < 12 + mode.tagLength ∨
    Bytes.ofLittleEndian (frame.take 4) ≠ frame.length - 4

/-- **Bytes that are not malformed are the frame of a nonce and a body**, with room for a tag. -/
theorem exists_eq_frameOf {mode : Mode} {frame : Bytes} (h : ¬ Malformed mode frame) :
    ∃ nonce body, frame = frameOf nonce body ∧ mode.tagLength ≤ body.length := by
  simp only [Malformed, not_or, Nat.not_lt, Decidable.not_not] at h
  obtain ⟨hsize, hleast, hstated⟩ := h
  have htake : (frame.take 4).length = 4 := by rw [List.length_take]; omega
  have hrest : 12 ≤ (frame.drop 4).length := by rw [List.length_drop]; omega
  refine ⟨Nonce.ofFront (frame.drop 4), (frame.drop 4).drop 12, ?_, ?_⟩
  · have hbody : Nonce.length + ((frame.drop 4).drop 12).length =
        Bytes.ofLittleEndian (frame.take 4) := by
      rw [List.length_drop, List.length_drop, hstated, Nonce.length]; omega
    have hback := Bytes.littleEndian_ofLittleEndian (frame.take 4)
    rw [htake] at hback
    calc frame = frame.take 4 ++ frame.drop 4 := (List.take_append_drop 4 frame).symm
      _ = frame.take 4 ++ ((frame.drop 4).take 12 ++ (frame.drop 4).drop 12) := by
        rw [List.take_append_drop 12]
      _ = frameOf (Nonce.ofFront (frame.drop 4)) ((frame.drop 4).drop 12) := by
        rw [frameOf, Nonce.bytes_ofFront hrest, hbody, sizeLength, hback]
        rfl
  · rw [List.length_drop, List.length_drop]; omega

namespace FrameCipher

/-! ### Refusals -/

theorem actual_ne_stated {c : FrameCipher} {frame : Bytes} (h : Malformed c.mode frame)
    (hsize : ¬ frame.length < sizeLength)
    (hleast : ¬ Bytes.ofLittleEndian (frame.take sizeLength) < c.statedLength 0) :
    (frame.drop sizeLength).length ≠ Bytes.ofLittleEndian (frame.take sizeLength) := by
  rw [List.length_drop]
  rcases h with h | h | h
  · exact absurd h hsize
  · exact absurd h hleast
  · exact Ne.symm h

theorem decrypt_of_malformed (c : FrameCipher) (aad : Bytes) {frame : Bytes}
    (h : Malformed c.mode frame) : ∃ e, c.decrypt aad frame = .error e ∧ e.kind = .dataInvalid := by
  unfold decrypt frameLength
  by_cases hsize : frame.length < sizeLength
  · rw [if_pos hsize]
    exact ⟨_, rfl, rfl⟩
  · rw [if_neg hsize]
    simp only [bind, Except.bind, refuseIf]
    by_cases hleast : Bytes.ofLittleEndian (frame.take sizeLength) < c.statedLength 0
    · rw [if_pos hleast]
      exact ⟨_, rfl, rfl⟩
    · rw [if_neg hleast, if_pos (actual_ne_stated h hsize hleast)]
      exact ⟨_, rfl, rfl⟩

theorem decryptBody_of_ctr {c : FrameCipher} (h : c.mode = .ctr) (nonce : Nonce)
    (aad body : Bytes) : ∃ text, c.decryptBody nonce aad body = .ok text := by
  simp only [decryptBody, h]
  exact ⟨_, rfl⟩

/-- The only thing wrong with a body is its tag. -/
theorem decryptBody_cases (c : FrameCipher) (nonce : Nonce) (aad body : Bytes) :
    (∃ text, c.decryptBody nonce aad body = .ok text) ∨
      ∃ e, c.decryptBody nonce aad body = .error e ∧ e.kind = .integrityFailure := by
  unfold decryptBody
  cases c.mode with
  | gcm =>
    dsimp only
    split
    · exact .inl ⟨_, rfl⟩
    · exact .inr ⟨_, rfl, rfl⟩
  | ctr => exact .inl ⟨_, rfl⟩

theorem statedLength_le {c : FrameCipher} {nonce : Nonce} {aad text body : Bytes}
    (h : c.body nonce aad text = body) (hlen : (frameOf nonce body).length ≤ 4 + maxFrameLength) :
    c.statedLength text.length ≤ maxFrameLength := by
  rw [length_frameOf, sizeLength] at hlen
  rw [statedLength_eq c nonce aad, h]
  omega

theorem decrypt_of_wellFormed {c : FrameCipher} (aad : Bytes) {frame : Bytes}
    (h : ¬ Malformed c.mode frame) (hlen : frame.length ≤ 4 + maxFrameLength) :
    ∃ nonce body, frame = frameOf nonce body ∧ c.mode.tagLength ≤ body.length ∧
      c.decrypt aad frame = c.decryptBody nonce aad body := by
  obtain ⟨nonce, body, rfl, hroom⟩ := exists_eq_frameOf h
  refine ⟨nonce, body, rfl, hroom, decrypt_frameOf c nonce aad hroom ?_⟩
  rw [length_frameOf, sizeLength] at hlen
  omega

/-- Invalid data are the malformed bytes. -/
theorem decrypt_dataInvalid_iff {c : FrameCipher} {aad frame : Bytes}
    (hlen : frame.length ≤ 4 + maxFrameLength) :
    (∃ e, c.decrypt aad frame = .error e ∧ e.kind = .dataInvalid) ↔ Malformed c.mode frame := by
  refine ⟨?_, decrypt_of_malformed c aad⟩
  rintro ⟨e, he, hkind⟩
  apply Classical.byContradiction
  intro h
  obtain ⟨nonce, body, rfl, -, hread⟩ := decrypt_of_wellFormed aad h hlen
  rw [hread] at he
  rcases decryptBody_cases c nonce aad body with ⟨text, hok⟩ | ⟨e', he', hkind'⟩
  · rw [hok] at he; cases he
  · rw [he'] at he; cases he
    rw [hkind'] at hkind; cases hkind

/-! ### Encrypting again -/

theorem body_of_decryptBody {c : FrameCipher} {nonce : Nonce} {aad body text : Bytes}
    (h : c.decryptBody nonce aad body = .ok text) : c.body nonce aad text = body := by
  obtain ⟨mode, key⟩ := c
  cases mode with
  | gcm =>
    simp only [decryptBody] at h
    split at h
    · next hopen =>
      cases h
      have hseal := Gcm.decrypt_eq_some_iff.mp hopen
      simp only [FrameCipher.body, ← hseal, List.take_append_drop]
    · cases h
  | ctr =>
    simp only [decryptBody] at h
    cases h
    simp only [FrameCipher.body, Ctr.apply_apply]

/-- **A text that was read, encrypted under the nonce of its frame, gives the frame.** -/
theorem encryptWith_of_decrypt {c : FrameCipher} {aad frame text : Bytes}
    (hlen : frame.length ≤ 4 + maxFrameLength) (h : c.decrypt aad frame = .ok text) :
    ∃ nonce : Nonce, nonce.bytes = (frame.drop sizeLength).take Nonce.length ∧
      c.encryptWith nonce aad text = .ok frame := by
  have hwell : ¬ Malformed c.mode frame := by
    intro hbad
    obtain ⟨e, he, -⟩ := decrypt_of_malformed c aad hbad
    rw [h] at he; cases he
  obtain ⟨nonce, body, rfl, -, hread⟩ := decrypt_of_wellFormed aad hwell hlen
  have hbody := body_of_decryptBody (hread ▸ h)
  have hwrite : c.encryptWith nonce aad text = .ok (frameOf nonce body) :=
    encryptWith_eq_ok_iff.mpr ⟨statedLength_le hbody hlen, by rw [hbody]⟩
  exact ⟨nonce, (nonce_of_encryptWith hwrite).symm, hwrite⟩

/-- Under one nonce, a text has one frame at most. -/
theorem eq_of_decrypt {c : FrameCipher} {aad frame frame' text : Bytes}
    (hlen : frame.length ≤ 4 + maxFrameLength) (hlen' : frame'.length ≤ 4 + maxFrameLength)
    (hnonce : (frame.drop sizeLength).take Nonce.length =
      (frame'.drop sizeLength).take Nonce.length)
    (h : c.decrypt aad frame = .ok text) (h' : c.decrypt aad frame' = .ok text) :
    frame = frame' := by
  obtain ⟨nonce, hn, hwrite⟩ := encryptWith_of_decrypt hlen h
  obtain ⟨nonce', hn', hwrite'⟩ := encryptWith_of_decrypt hlen' h'
  obtain rfl : nonce = nonce' := Nonce.bytes_injective (by rw [hn, hn', hnonce])
  exact Except.ok.inj (hwrite.symm.trans hwrite')

end FrameCipher

/-! ### Cutting within bounds -/

/-- The bytes from place `i` up to place `j`, if both places are within the byte string. -/
def Bytes.slice? (bs : Bytes) (i j : Nat) : Option Bytes :=
  if i ≤ j ∧ j ≤ bs.length then some ((bs.take j).drop i) else none

/-- What is left of a length, if enough is there to be taken off. -/
def lengthAfter? (length taken : Nat) : Option Nat :=
  if taken ≤ length then some (length - taken) else none

/-- A piece is found between the places where it begins and ends. -/
theorem Bytes.slice?_append {a b rest : Bytes} {i j : Nat} (hi : a.length = i)
    (hj : i + b.length = j) : Bytes.slice? (a ++ (b ++ rest)) i j = some b := by
  subst hi hj
  have hin : a.length ≤ a.length + b.length ∧ a.length + b.length ≤ (a ++ (b ++ rest)).length := by
    simp only [List.length_append]; omega
  rw [Bytes.slice?, if_pos hin, ← List.append_assoc, List.take_left' (by simp), List.drop_left]

namespace FrameCipher

/-- The text of a ciphertext and a tag. -/
def decryptParts (c : FrameCipher) (nonce : Nonce) (aad ciphertext tag : Bytes) :
    Except Error Bytes :=
  match c.mode with
  | .gcm =>
    match Gcm.decrypt c.key.encipher nonce aad ciphertext tag with
    | some text => .ok text
    | none => .error { cause := .frameTag, sources := [.wrongTag] }
  | .ctr => .ok (Ctr.apply c.key.encipher (nonce.counterBlock 1) ciphertext)

/-- `decrypt` with the nonce, the ciphertext and the tag cut out between two places each; nothing,
if a place lies outside the frame, a length is less than what is taken off it, or a nonce or a tag
comes out with the wrong length. -/
def decryptInBounds (c : FrameCipher) (aad frame : Bytes) : Option (Except Error Bytes) :=
  match frameLength frame with
  | .error e => some (.error e)
  | .ok stated =>
    if stated < c.statedLength 0 then
      some (.error { cause := .frameTooShort (c.statedLength 0) stated })
    else do
      let actual ← lengthAfter? frame.length sizeLength
      if actual ≠ stated then return .error { cause := .frameLength stated actual }
      let front ← frame.slice? sizeLength (sizeLength + Nonce.length)
      let nonce ← Nonce.ofBytes? front
      let bodyEnd ← lengthAfter? frame.length c.mode.tagLength
      let ciphertext ← frame.slice? (sizeLength + Nonce.length) bodyEnd
      let tag ← frame.slice? bodyEnd frame.length
      if tag.length = c.mode.tagLength then return c.decryptParts nonce aad ciphertext tag
      else none

theorem decryptBody_eq_decryptParts (c : FrameCipher) (nonce : Nonce) (aad body : Bytes) :
    c.decryptBody nonce aad body =
      c.decryptParts nonce aad (body.take (body.length - c.mode.tagLength))
        (body.drop (body.length - c.mode.tagLength)) := by
  obtain ⟨mode, key⟩ := c
  cases mode with
  | gcm => rfl
  | ctr =>
    have htake : body.take (body.length - Mode.ctr.tagLength) = body := List.take_length
    rw [htake]
    rfl

theorem decryptBody_append (c : FrameCipher) (nonce : Nonce) (aad ciphertext : Bytes) {tag : Bytes}
    (h : tag.length = c.mode.tagLength) :
    c.decryptBody nonce aad (ciphertext ++ tag) = c.decryptParts nonce aad ciphertext tag := by
  rw [decryptBody_eq_decryptParts, List.length_append, h, Nat.add_sub_cancel, List.take_left,
    List.drop_left]

/-- The frame of a ciphertext and a tag is cut into its nonce and the two of them. -/
theorem decryptInBounds_frameOf (c : FrameCipher) (nonce : Nonce) (aad ciphertext : Bytes)
    {tag : Bytes} (htag : tag.length = c.mode.tagLength)
    (hfit : Nonce.length + (ciphertext ++ tag).length ≤ maxFrameLength) :
    c.decryptInBounds aad (frameOf nonce (ciphertext ++ tag)) =
      some (c.decryptParts nonce aad ciphertext tag) := by
  have hnonce : nonce.bytes.length = Nonce.length := nonce.length_eq
  have hnonceBack : Nonce.ofBytes? nonce.bytes = some nonce := dif_pos nonce.length_eq
  have hstated := frameLength_frameOf nonce hfit []
  have hlength := length_frameOf nonce (ciphertext ++ tag)
  obtain ⟨size, hsize, hframe⟩ : ∃ size, size.length = sizeLength ∧
      frameOf nonce (ciphertext ++ tag) = size ++ (nonce.bytes ++ (ciphertext ++ tag)) :=
    ⟨_, Bytes.length_littleEndian _ _, rfl⟩
  -- from here on the frame is known by its length and its pieces only
  generalize frameOf nonce (ciphertext ++ tag) = frame at *
  rw [List.append_nil] at hstated
  rw [List.length_append] at hstated hlength
  have hleast : ¬ Nonce.length + (ciphertext.length + tag.length) < c.statedLength 0 := by
    simp only [statedLength]; omega
  have hactual : lengthAfter? frame.length sizeLength =
      some (Nonce.length + (ciphertext.length + tag.length)) := by
    rw [lengthAfter?, if_pos (by omega)]; congr 1; omega
  have hbodyEnd : lengthAfter? frame.length c.mode.tagLength =
      some (sizeLength + Nonce.length + ciphertext.length) := by
    rw [lengthAfter?, if_pos (by omega)]; congr 1; omega
  have hfront : frame.slice? sizeLength (sizeLength + Nonce.length) = some nonce.bytes := by
    rw [hframe]
    exact Bytes.slice?_append hsize (by omega)
  have hciphertext : frame.slice? (sizeLength + Nonce.length)
      (sizeLength + Nonce.length + ciphertext.length) = some ciphertext := by
    rw [hframe, ← List.append_assoc]
    exact Bytes.slice?_append (by rw [List.length_append]; omega) rfl
  have hreceived : frame.slice? (sizeLength + Nonce.length + ciphertext.length) frame.length =
      some tag := by
    have hsplit : frame = size ++ nonce.bytes ++ ciphertext ++ (tag ++ []) := by
      simp only [hframe, List.append_assoc, List.append_nil]
    rw [hlength, hsplit]
    exact Bytes.slice?_append (by simp only [List.length_append]; omega) (by omega)
  simp only [decryptInBounds, hstated, if_neg hleast, hactual, hfront, hnonceBack, hbodyEnd,
    hciphertext, hreceived, if_pos htag, ne_eq, not_true_eq_false, if_false, Option.bind_eq_bind,
    Option.bind_some]
  rfl

theorem decryptInBounds_of_malformed {c : FrameCipher} {aad frame : Bytes}
    (h : Malformed c.mode frame) : c.decryptInBounds aad frame = some (c.decrypt aad frame) := by
  unfold decryptInBounds decrypt frameLength
  by_cases hsize : frame.length < sizeLength
  · rw [if_pos hsize]
    rfl
  · rw [if_neg hsize]
    by_cases hleast : Bytes.ofLittleEndian (frame.take sizeLength) < c.statedLength 0
    · simp only [bind, Except.bind, refuseIf, if_pos hleast]
    · have hactual : lengthAfter? frame.length sizeLength =
          some (frame.drop sizeLength).length := by
        rw [lengthAfter?, if_pos (by omega), List.length_drop]
      have hstated : (frame.drop sizeLength).length ≠
          Bytes.ofLittleEndian (frame.take sizeLength) := actual_ne_stated h hsize hleast
      simp only [bind, Except.bind, refuseIf, if_neg hleast, hactual, Option.bind_some,
        if_pos hstated]
      rfl

/-- **Every cut lies within the frame**: reading is always defined. -/
theorem decryptInBounds_eq {c : FrameCipher} {aad frame : Bytes}
    (hlen : frame.length ≤ 4 + maxFrameLength) :
    c.decryptInBounds aad frame = some (c.decrypt aad frame) := by
  by_cases h : Malformed c.mode frame
  · exact decryptInBounds_of_malformed h
  · obtain ⟨nonce, body, rfl, hroom, hread⟩ := decrypt_of_wellFormed aad h hlen
    have hsplit := List.take_append_drop (body.length - c.mode.tagLength) body
    have htag : (body.drop (body.length - c.mode.tagLength)).length = c.mode.tagLength := by
      rw [List.length_drop]; omega
    have hfit : Nonce.length + body.length ≤ maxFrameLength := by
      rw [length_frameOf, sizeLength] at hlen; omega
    rw [hread, ← hsplit, decryptBody_append c nonce aad _ htag]
    exact decryptInBounds_frameOf c nonce aad _ htag (by rwa [hsplit])

/-! ### What is read -/

/-- **Frames that are read are frames that were written**: under every key and in both modes all
cuts lie within the bytes, invalid data are the malformed bytes, of the others counter mode reads
every one and Galois/counter mode reads or finds a wrong tag, and a text that is read gives its
frame when it is encrypted under the nonce found there. -/
theorem ofBytes_decrypt_exact (mode : Mode) (key : Bytes) (hkey : key.length ∈ validKeyLengths)
    (aad frame : Bytes) (hlen : frame.length ≤ 4 + 0x7fffffff) :
    ∃ c, ofBytes mode key = .ok c ∧
      c.decryptInBounds aad frame = some (c.decrypt aad frame) ∧
      ((∃ e, c.decrypt aad frame = .error e ∧ e.kind = .dataInvalid) ↔ Malformed mode frame) ∧
      (¬ Malformed mode frame → mode = .ctr → ∃ text, c.decrypt aad frame = .ok text) ∧
      (¬ Malformed mode frame → mode = .gcm → (∃ text, c.decrypt aad frame = .ok text) ∨
        ∃ e, c.decrypt aad frame = .error e ∧ e.kind = .integrityFailure) ∧
      (∀ text, c.decrypt aad frame = .ok text →
        ∃ nonce : Nonce, nonce.bytes = (frame.drop 4).take 12 ∧
          c.encryptWith nonce aad text = .ok frame) ∧
      ∀ frame' text, frame'.length ≤ 4 + 0x7fffffff →
        (frame'.drop 4).take 12 = (frame.drop 4).take 12 →
        c.decrypt aad frame = .ok text → c.decrypt aad frame' = .ok text → frame' = frame := by
  refine ⟨_, ofBytes_of_length mode hkey, decryptInBounds_eq hlen, decrypt_dataInvalid_iff hlen,
    fun hwell hctr => ?_, fun hwell _ => ?_, fun text h => encryptWith_of_decrypt hlen h,
    fun frame' text hlen' hnonce h h' => eq_of_decrypt hlen' hlen hnonce h' h⟩
  · obtain ⟨nonce, body, -, -, hread⟩ := decrypt_of_wellFormed (c := ⟨mode, ⟨key, hkey⟩⟩)
      aad hwell hlen
    rw [hread]
    exact decryptBody_of_ctr hctr nonce aad body
  · obtain ⟨nonce, body, -, -, hread⟩ := decrypt_of_wellFormed (c := ⟨mode, ⟨key, hkey⟩⟩)
      aad hwell hlen
    rw [hread]
    exact decryptBody_cases _ nonce aad body

/-- A frame with a body of one byte, in counter mode under a key of zeros. -/
theorem ofBytes_decrypt_exact_one :
    (List.replicate 16 (0 : UInt8)).length ∈ validKeyLengths ∧
      ([13, 0, 0, 0] ++ List.replicate 13 (5 : UInt8)).length ≤ 4 + 0x7fffffff ∧
      ∃ c text, ofBytes .ctr (List.replicate 16 0) = .ok c ∧
        c.decrypt [] ([13, 0, 0, 0] ++ List.replicate 13 5) = .ok text ∧
        c.encryptWith ⟨List.replicate 12 5, rfl⟩ [] text =
          .ok ([13, 0, 0, 0] ++ List.replicate 13 5) := by
  refine ⟨by decide, by decide, ?_⟩
  obtain ⟨c, hc, -, -, hread, -, hagain, -⟩ := ofBytes_decrypt_exact .ctr (List.replicate 16 0)
    (by decide) [] ([13, 0, 0, 0] ++ List.replicate 13 5) (by decide)
  obtain ⟨text, htext⟩ := hread (by unfold Malformed; decide) rfl
  obtain ⟨nonce, hnonce, hwrite⟩ := hagain text htext
  obtain rfl : nonce = ⟨List.replicate 12 5, rfl⟩ := Nonce.bytes_injective hnonce
  exact ⟨c, text, hc, htext, hwrite⟩

end FrameCipher

end ModularEncryption
