import Mathlib.Data.List.TakeDrop
import ModularEncryption.Keys.Material
import ModularEncryption.Text.Base64.Canonical

/-! # The text of key material is canonical

The text of key material ends its wrapped key at the first colon, since what base64 writes are ASCII
characters other than the colon (`span_serialize`), and from these characters the bytes of the
wrapped key are read again (`encode_asciiChars`). So the parts come back, colons in the name of the
master key included (`parse_serialize`).

What is read is cut at its first colon, too, and base64 is canonical. So nothing is read but what is
written for a wrapped key and a name that are there (`text_canonical`). -/

namespace ModularEncryption

namespace Text.Base64

theorem ascii_of_mem_encode {bs : Bytes} {b : UInt8} (h : b ∈ encode bs) :
    b.toNat < 128 ∧ b.toNat ≠ 58 := by
  have hsymbol : ∀ n < 64, (symbol n).toNat < 128 ∧ (symbol n).toNat ≠ 58 := by decide
  rcases mem_encode h with rfl | ⟨n, hn, rfl⟩
  · decide
  · exact hsymbol n hn

end Text.Base64

namespace KeyMaterial

/-! ### ASCII characters -/

theorem toNat_ofNat_of_lt {n : Nat} (h : n < 128) : (Char.ofNat n).toNat = n := by
  have hvalid : n.isValidChar := .inl (by omega)
  rw [Char.ofNat, dif_pos hvalid]
  rfl

/-- The bytes of ASCII characters are those by which they are given. -/
theorem encode_asciiChars {bs : Bytes} (h : ∀ b ∈ bs, b.toNat < 128) :
    Text.Utf8.encode (String.ofList (asciiChars bs)) = bs := by
  have hone : ∀ b : UInt8, b.toNat < 128 → String.utf8EncodeChar (Char.ofNat b.toNat) = [b] := by
    intro b hb
    have hval : (Char.ofNat b.toNat).val.toNat = b.toNat := toNat_ofNat_of_lt hb
    unfold String.utf8EncodeChar
    simp only [hval]
    rw [if_pos (by omega), UInt8.ofNat_toNat]
  have hall : (asciiChars bs).flatMap String.utf8EncodeChar = bs := by
    induction bs with
    | nil => rfl
    | cons b bs ih =>
      obtain ⟨hb, hbs⟩ := List.forall_mem_cons.mp h
      have hcons : asciiChars (b :: bs) = Char.ofNat b.toNat :: asciiChars bs := rfl
      rw [hcons, List.flatMap_cons, hone b hb, ih hbs]
      rfl
  rw [Text.Utf8.encode, String.toByteArray_ofList, List.utf8Encode, hall]
  simp

theorem ne_colon {b : UInt8} (hb : b.toNat < 128) (hcolon : b.toNat ≠ 58) :
    Char.ofNat b.toNat ≠ ':' := by
  intro h
  apply hcolon
  rw [← toNat_ofNat_of_lt hb, h]
  rfl

/-! ### The parts of the text -/

/-- The first colon ends the wrapped key. -/
theorem span_serialize (m : KeyMaterial) :
    m.serialize.toList.span (· ≠ ':') =
      (asciiChars (Text.Base64.encode m.wrappedKey), ':' :: m.masterKeyId.toList) := by
  have hascii : ∀ c ∈ asciiChars (Text.Base64.encode m.wrappedKey), (decide (c ≠ ':')) = true := by
    intro c hc
    obtain ⟨b, hb, rfl⟩ := List.mem_map.mp hc
    obtain ⟨hlt, hne⟩ := Text.Base64.ascii_of_mem_encode hb
    exact decide_eq_true (ne_colon hlt hne)
  rw [serialize, String.toList_ofList, List.span_eq_takeWhile_dropWhile,
    List.takeWhile_append_of_pos hascii, List.dropWhile_append_of_pos hascii]
  simp

/-- **Different key material has different texts.** -/
theorem serialize_injective {m m' : KeyMaterial} (h : m.serialize = m'.serialize) : m = m' := by
  have hspan := span_serialize m
  rw [h, span_serialize m'] at hspan
  obtain ⟨hkey, hid⟩ := Prod.mk.inj hspan
  have hencode : Text.Base64.encode m.wrappedKey = Text.Base64.encode m'.wrappedKey := by
    rw [← encode_asciiChars fun b hb => (Text.Base64.ascii_of_mem_encode hb).1, ← hkey,
      encode_asciiChars fun b hb => (Text.Base64.ascii_of_mem_encode hb).1]
  have hwrapped : m.wrappedKey = m'.wrappedKey := by
    have hdecode := Text.Base64.decode_encode m.wrappedKey
    rw [hencode, Text.Base64.decode_encode] at hdecode
    exact (Except.ok.inj hdecode).symm
  have hname : m.masterKeyId = m'.masterKeyId :=
    (String.toList_inj.mp (List.cons.inj hid).2).symm
  cases m
  cases m'
  cases hwrapped
  cases hname
  rfl

/-- **Key material with a wrapped key and a name is read as it was written.** -/
theorem parse_serialize {m : KeyMaterial} (hkey : m.wrappedKey ≠ []) (hid : m.masterKeyId ≠ "") :
    parse m.serialize = .ok m := by
  have hencoded : (asciiChars (Text.Base64.encode m.wrappedKey)).isEmpty = false := by
    cases hempty : (asciiChars (Text.Base64.encode m.wrappedKey)).isEmpty with
    | false => rfl
    | true =>
      have hnil := List.map_eq_nil_iff.mp (List.isEmpty_iff.mp hempty)
      exact absurd (Text.Base64.encode_eq_nil hnil) hkey
  have hname : m.masterKeyId.toList.isEmpty = false := by
    cases hempty : m.masterKeyId.toList.isEmpty with
    | false => rfl
    | true => exact absurd (String.toList_eq_nil_iff.mp (List.isEmpty_iff.mp hempty)) hid
  have hbytes : Text.Utf8.encode
      (String.ofList (asciiChars (Text.Base64.encode m.wrappedKey))) =
        Text.Base64.encode m.wrappedKey :=
    encode_asciiChars fun b hb => (Text.Base64.ascii_of_mem_encode hb).1
  unfold parse
  rw [span_serialize]
  simp only [hencoded, hname, Bool.or_self, Bool.false_eq_true, if_false, hbytes,
    Text.Base64.decode_encode, String.ofList_toList]

/-! ### Only what was written is read -/

/-- A text is cut in two at its first colon. -/
theorem toList_of_span {s : String} {c : Char} {encoded name : List Char}
    (h : s.toList.span (· ≠ ':') = (encoded, c :: name)) : s.toList = encoded ++ ':' :: name := by
  rw [List.span_eq_takeWhile_dropWhile] at h
  obtain ⟨hencoded, hrest⟩ := Prod.mk.inj h
  have hcolon : c = ':' := by
    have hhead := List.head?_dropWhile_not (fun c => decide (c ≠ ':')) s.toList
    rw [hrest] at hhead
    simpa using hhead
  rw [hcolon] at hrest
  rw [← hencoded, ← hrest, List.takeWhile_append_dropWhile]

/-- Characters whose bytes are those of a base64 form are the characters of that form. -/
theorem eq_asciiChars {encoded : List Char} {bs : Bytes}
    (h : Text.Utf8.encode (String.ofList encoded) = Text.Base64.encode bs) :
    encoded = asciiChars (Text.Base64.encode bs) := by
  rw [← encode_asciiChars fun b hb => (Text.Base64.ascii_of_mem_encode hb).1] at h
  exact String.ofList_inj.mp (Text.Utf8.encode_injective h)

/-- **Only the text of key material with a wrapped key and a name is read.** -/
theorem eq_serialize_of_parse {s : String} {m : KeyMaterial} (h : parse s = .ok m) :
    s = m.serialize ∧ m.wrappedKey ≠ [] ∧ m.masterKeyId ≠ "" := by
  unfold parse at h
  cases hspan : s.toList.span (· ≠ ':') with
  | mk encoded rest =>
    cases rest with
    | nil => simp only [hspan] at h; cases h
    | cons c name =>
      simp only [hspan, Bool.or_eq_true, List.isEmpty_iff] at h
      split at h
      · cases h
      · next hparts =>
        obtain ⟨hencoded, hname⟩ := not_or.mp hparts
        split at h
        · cases h
        · next wrapped hdecode =>
          cases h
          have hchars := eq_asciiChars (Text.Base64.decode_eq_ok_iff.mp hdecode)
          refine ⟨?_, ?_, ?_⟩
          · rw [serialize, ← hchars, String.toList_ofList, ← toList_of_span hspan,
              String.ofList_toList]
          · rintro rfl
            exact hencoded hchars
          · intro hempty
            exact hname (String.ofList_inj.mp hempty)

theorem kind_of_parse_eq_error {s : String} {e : Error}
    (h : parse s = .error e) : e.kind = .dataInvalid := by
  unfold parse at h
  dsimp only at h
  split at h
  · cases h; rfl
  · split at h
    · cases h; rfl
    · split at h <;> cases h
      rfl

/-- **The text of key material is canonical.** A text is read as key material exactly if it is the
text of that material, and neither the wrapped key nor the name is empty. So no two texts are read
as the same material, and all others are refused as malformed. -/
theorem text_canonical (s : String) :
    (∀ m, parse s = .ok m ↔ s = m.serialize ∧ m.wrappedKey ≠ [] ∧ m.masterKeyId ≠ "") ∧
      (∀ s' m, parse s = .ok m → parse s' = .ok m → s = s') ∧
      ((∀ m : KeyMaterial, m.wrappedKey ≠ [] → m.masterKeyId ≠ "" → s ≠ m.serialize) →
        ∃ e, parse s = .error e ∧ e.kind = .dataInvalid) := by
  refine ⟨fun m => ⟨eq_serialize_of_parse, ?_⟩, fun s' m h h' => ?_, fun hother => ?_⟩
  · rintro ⟨rfl, hkey, hid⟩
    exact parse_serialize hkey hid
  · rw [(eq_serialize_of_parse h).1, (eq_serialize_of_parse h').1]
  · cases hparse : parse s with
    | error e => exact ⟨e, rfl, kind_of_parse_eq_error hparse⟩
    | ok m =>
      obtain ⟨hs, hkey, hid⟩ := eq_serialize_of_parse hparse
      exact absurd hs (hother m hkey hid)

end KeyMaterial

end ModularEncryption
