import ModularEncryption.Error.Refusal
import ModularEncryption.Text.Base64

/-! # Base64 is canonical

Every byte string has one base64 form, and nothing else is read: `decode_eq_ok_iff`. The form has a
length divisible by four (`length_encode_mod_four`) and is made of symbols and padding
(`mem_encode`). -/

namespace ModularEncryption.Text.Base64

/-! ### Symbols -/

theorem value_eq_ok_iff {offset n : Nat} {b : UInt8} :
    value offset b = .ok n ↔ value? b = some n := by
  unfold value
  cases value? b <;> simp

theorem value_symbol (offset : Nat) {n : Nat} (h : n < 64) : value offset (symbol n) = .ok n :=
  value_eq_ok_iff.mpr (value?_symbol n h)

theorem symbol_ne_pad {n : Nat} (h : n < 64) : symbol n ≠ pad :=
  (symbol_of_value? (value?_symbol n h)).2.2

/-! ### What is written -/

theorem length_encode_mod_four : ∀ bs : Bytes, (encode bs).length % 4 = 0
  | a :: b :: c :: bs => by
    have ih := length_encode_mod_four bs
    simp only [encode, List.length_cons]
    omega
  | [a, b] => by simp [encode]
  | [a] => by simp [encode]
  | [] => by simp [encode]

theorem encode_eq_nil {bs : Bytes} (h : encode bs = []) : bs = [] := by
  match bs with
  | [] => rfl
  | [a] => simp [encode] at h
  | [a, b] => simp [encode] at h
  | a :: b :: c :: bs => simp [encode] at h

/-- The bytes written are symbols and padding. -/
theorem mem_encode : ∀ {bs : Bytes} {x : UInt8}, x ∈ encode bs → x = pad ∨ ∃ n < 64, x = symbol n
  | [], x, h => by simp [encode] at h
  | [a], x, h => by
    have := a.toNat_lt
    simp only [encode, List.mem_cons, List.not_mem_nil, or_false] at h
    rcases h with rfl | rfl | rfl | rfl
    · exact Or.inr ⟨_, by omega, rfl⟩
    · exact Or.inr ⟨_, by omega, rfl⟩
    · exact Or.inl rfl
    · exact Or.inl rfl
  | [a, b], x, h => by
    have := a.toNat_lt
    have := b.toNat_lt
    simp only [encode, List.mem_cons, List.not_mem_nil, or_false] at h
    rcases h with rfl | rfl | rfl | rfl
    · exact Or.inr ⟨_, by omega, rfl⟩
    · exact Or.inr ⟨_, by omega, rfl⟩
    · exact Or.inr ⟨_, by omega, rfl⟩
    · exact Or.inl rfl
  | a :: b :: c :: bs, x, h => by
    have := a.toNat_lt
    have := b.toNat_lt
    have := c.toNat_lt
    simp only [encode, List.mem_cons] at h
    rcases h with rfl | rfl | rfl | rfl | h
    · exact Or.inr ⟨_, by omega, rfl⟩
    · exact Or.inr ⟨_, by omega, rfl⟩
    · exact Or.inr ⟨_, by omega, rfl⟩
    · exact Or.inr ⟨_, by omega, rfl⟩
    · exact mem_encode h

/-! ### Reading what was written -/

theorem ofNat_toNat {n : Nat} {b : UInt8} (h : n = b.toNat) : UInt8.ofNat n = b := by
  rw [h, UInt8.ofNat_toNat]

theorem group_encode (offset : Nat) (a b c : UInt8) :
    group offset (symbol (a.toNat / 4)) (symbol (a.toNat % 4 * 16 + b.toNat / 16))
      (symbol (b.toNat % 16 * 4 + c.toNat / 64)) (symbol (c.toNat % 64)) = .ok [a, b, c] := by
  have ha := a.toNat_lt
  have hb := b.toNat_lt
  have hc := c.toNat_lt
  rw [group, value_symbol _ (by omega), value_symbol _ (by omega), value_symbol _ (by omega),
    value_symbol _ (by omega)]
  show Except.ok _ = _
  rw [ofNat_toNat (b := a) (by omega), ofNat_toNat (b := b) (by omega),
    ofNat_toNat (b := c) (by omega)]

theorem lastValues_symbol (start place : Nat) {n : Nat} (h : n < 64) (bs : Bytes) :
    lastValues start place none (symbol n :: bs) =
      (lastValues start (place + 1) none bs).map (n :: ·) := by
  rw [lastValues, if_neg (symbol_ne_pad h)]
  simp only [value_symbol _ h]
  cases lastValues start (place + 1) none bs <;> rfl

theorem lastGroup_one (start : Nat) (a : UInt8) :
    lastGroup start (encode [a]) = .ok [a] := by
  have ha := a.toNat_lt
  have hv : lastValues start 0 none (encode [a]) = .ok [a.toNat / 4, a.toNat % 4 * 16] := by
    simp only [encode]
    rw [lastValues_symbol _ _ (by omega), lastValues_symbol _ _ (by omega)]
    rfl
  have hmod : ¬ a.toNat % 4 * 16 % 16 ≠ 0 := by omega
  rw [lastGroup, hv]
  show lastBytes start (encode [a]) [_, _] = _
  rw [lastBytes, if_neg (by simp [encode]), if_neg hmod, ofNat_toNat (b := a) (by omega)]

theorem lastGroup_two (start : Nat) (a b : UInt8) :
    lastGroup start (encode [a, b]) = .ok [a, b] := by
  have ha := a.toNat_lt
  have hb := b.toNat_lt
  have hv : lastValues start 0 none (encode [a, b]) =
      .ok [a.toNat / 4, a.toNat % 4 * 16 + b.toNat / 16, b.toNat % 16 * 4] := by
    simp only [encode]
    rw [lastValues_symbol _ _ (by omega), lastValues_symbol _ _ (by omega),
      lastValues_symbol _ _ (by omega)]
    rfl
  have hmod : ¬ b.toNat % 16 * 4 % 4 ≠ 0 := by omega
  rw [lastGroup, hv]
  show lastBytes start (encode [a, b]) [_, _, _] = _
  rw [lastBytes, if_neg (by simp [encode]), if_neg hmod, ofNat_toNat (b := a) (by omega),
    ofNat_toNat (b := b) (by omega)]

theorem lastGroup_three (start : Nat) (a b c : UInt8) :
    lastGroup start (encode [a, b, c]) = .ok [a, b, c] := by
  have ha := a.toNat_lt
  have hb := b.toNat_lt
  have hc := c.toNat_lt
  have hv : lastValues start 0 none (encode [a, b, c]) =
      .ok [a.toNat / 4, a.toNat % 4 * 16 + b.toNat / 16, b.toNat % 16 * 4 + c.toNat / 64,
        c.toNat % 64] := by
    simp only [encode]
    rw [lastValues_symbol _ _ (by omega), lastValues_symbol _ _ (by omega),
      lastValues_symbol _ _ (by omega), lastValues_symbol _ _ (by omega)]
    rfl
  rw [lastGroup, hv]
  show Except.ok _ = _
  rw [ofNat_toNat (b := a) (by omega), ofNat_toNat (b := b) (by omega),
    ofNat_toNat (b := c) (by omega)]

theorem decodeFrom_encode : ∀ (bs : Bytes) (offset : Nat),
    decodeFrom offset (encode bs) = .ok bs
  | [], offset => rfl
  | [a], offset => lastGroup_one offset a
  | [a, b], offset => lastGroup_two offset a b
  | a :: b :: c :: bs, offset => by
    have ih := decodeFrom_encode bs (offset + 4)
    rw [encode]
    cases he : encode bs with
    | nil =>
      rw [encode_eq_nil he]
      exact lastGroup_three offset a b c
    | cons e es =>
      rw [he] at ih
      rw [decodeFrom, group_encode, ih]
      rfl

theorem strayByte?_of_length {bs : Bytes} (h : bs.length % 4 ≠ 1) : strayByte? bs = none := by
  unfold strayByte?
  split
  · rw [if_neg (fun hh => h hh.1)]
  · rfl

/-- What is written is read back. -/
theorem decode_encode (bs : Bytes) : decode (encode bs) = .ok bs := by
  have h := length_encode_mod_four bs
  rw [decode, strayByte?_of_length (by omega), decodeFrom_encode]

/-! ### Only what is written is read -/

theorem toNat_ofNat {n : Nat} (h : n < 256) : (UInt8.ofNat n).toNat = n := by
  rw [UInt8.toNat_ofNat']
  exact Nat.mod_eq_of_lt h

theorem encode_of_group {offset : Nat} {a b c d : UInt8} {out : Bytes}
    (h : group offset a b c d = .ok out) (bs : Bytes) :
    encode (out ++ bs) = a :: b :: c :: d :: encode bs := by
  simp only [group, bind_eq_ok_iff, value_eq_ok_iff] at h
  obtain ⟨w, hw, x, hx, y, hy, z, hz, h⟩ := h
  cases h
  obtain ⟨rfl, hw, -⟩ := symbol_of_value? hw
  obtain ⟨rfl, hx, -⟩ := symbol_of_value? hx
  obtain ⟨rfl, hy, -⟩ := symbol_of_value? hy
  obtain ⟨rfl, hz, -⟩ := symbol_of_value? hz
  have h₁ : (w * 4 + x / 16) / 4 = w := by omega
  have h₂ : (w * 4 + x / 16) % 4 * 16 + (x % 16 * 16 + y / 4) / 16 = x := by omega
  have h₃ : (x % 16 * 16 + y / 4) % 16 * 4 + (y % 4 * 64 + z) / 64 = y := by omega
  have h₄ : (y % 4 * 64 + z) % 64 = z := by omega
  simp only [List.cons_append, List.nil_append, encode]
  rw [toNat_ofNat (by omega), toNat_ofNat (by omega), toNat_ofNat (by omega), h₁, h₂, h₃, h₄]

theorem lastValues_padded {start offset : Nat} : ∀ {bs : Bytes} {place : Nat} {ns : List Nat},
    lastValues start place (some offset) bs = .ok ns →
      ns = [] ∧ bs = List.replicate bs.length pad
  | [], _, _, h => by cases h; exact ⟨rfl, rfl⟩
  | b :: bs, place, ns, h => by
    rw [lastValues] at h
    split at h
    · next hb =>
      split at h
      · cases h
      · obtain ⟨rfl, hbs⟩ := lastValues_padded h
        subst hb
        refine ⟨rfl, ?_⟩
        rw [List.length_cons, List.replicate_succ, ← hbs]
    · cases h

/-- A last group is made of symbols and then of padding. -/
theorem eq_of_lastValues {start : Nat} : ∀ {bs : Bytes} {place : Nat} {ns : List Nat},
    lastValues start place none bs = .ok ns →
      (∀ n ∈ ns, n < 64) ∧ ∃ k, bs = ns.map symbol ++ List.replicate k pad
  | [], _, _, h => by cases h; exact ⟨by simp, 0, rfl⟩
  | b :: bs, place, ns, h => by
    rw [lastValues] at h
    split at h
    · next hb =>
      split at h
      · cases h
      · obtain ⟨rfl, hbs⟩ := lastValues_padded h
        subst hb
        refine ⟨by simp, bs.length + 1, ?_⟩
        rw [List.map_nil, List.nil_append, List.replicate_succ, ← hbs]
    · simp only [bind_eq_ok_iff, value_eq_ok_iff] at h
      obtain ⟨n, hn, ns', hns, h⟩ := h
      cases h
      obtain ⟨rfl, hlt, -⟩ := symbol_of_value? hn
      obtain ⟨hall, k, rfl⟩ := eq_of_lastValues hns
      refine ⟨?_, k, rfl⟩
      intro m hm
      rcases List.mem_cons.mp hm with rfl | hm
      · exact hlt
      · exact hall m hm

theorem encode_of_lastBytes {start k : Nat} : ∀ {values : List Nat} {out : Bytes},
    (∀ n ∈ values, n < 64) → (values.map symbol ++ List.replicate k pad).length ≤ 4 →
    lastBytes start (values.map symbol ++ List.replicate k pad) values = .ok out →
      encode out = values.map symbol ++ List.replicate k pad
  | [w, x, y, z], out, hall, hlen, h => by
    have hw : w < 64 := hall w (by simp)
    have hx : x < 64 := hall x (by simp)
    have hy : y < 64 := hall y (by simp)
    have hz : z < 64 := hall z (by simp)
    have hk : k = 0 := by simp at hlen; omega
    subst hk
    have hg : group 0 (symbol w) (symbol x) (symbol y) (symbol z) = .ok out := by
      rw [group, value_symbol _ hw, value_symbol _ hx, value_symbol _ hy, value_symbol _ hz]
      exact h
    have := encode_of_group hg []
    rwa [List.append_nil] at this
  | [w, x, y], out, hall, _, h => by
    have hw : w < 64 := hall w (by simp)
    have hx : x < 64 := hall x (by simp)
    have hy : y < 64 := hall y (by simp)
    rw [lastBytes] at h
    split at h
    · cases h
    · next hlen =>
      split at h
      · cases h
      · next hrest =>
        have hk : k = 1 := by simp at hlen; omega
        subst hk
        cases h
        have h₁ : (w * 4 + x / 16) / 4 = w := by omega
        have h₂ : (w * 4 + x / 16) % 4 * 16 + (x % 16 * 16 + y / 4) / 16 = x := by omega
        have h₃ : (x % 16 * 16 + y / 4) % 16 * 4 = y := by omega
        rw [encode, toNat_ofNat (by omega), toNat_ofNat (by omega), h₁, h₂, h₃]
        rfl
  | [w, x], out, hall, _, h => by
    have hw : w < 64 := hall w (by simp)
    have hx : x < 64 := hall x (by simp)
    rw [lastBytes] at h
    split at h
    · cases h
    · next hlen =>
      split at h
      · cases h
      · next hrest =>
        have hk : k = 2 := by simp at hlen; omega
        subst hk
        cases h
        have h₁ : (w * 4 + x / 16) / 4 = w := by omega
        have h₂ : (w * 4 + x / 16) % 4 * 16 = x := by omega
        rw [encode, toNat_ofNat (by omega), h₁, h₂]
        rfl
  | [], _, _, _, h => by cases h
  | [_], _, _, _, h => by cases h
  | _ :: _ :: _ :: _ :: _ :: _, _, _, _, h => by cases h

theorem encode_of_lastGroup {start : Nat} {bs out : Bytes} (hlen : bs.length ≤ 4)
    (h : lastGroup start bs = .ok out) : encode out = bs := by
  rw [lastGroup, bind_eq_ok_iff] at h
  obtain ⟨values, hv, h⟩ := h
  obtain ⟨hall, k, rfl⟩ := eq_of_lastValues hv
  exact encode_of_lastBytes hall hlen h

theorem encode_of_decodeFrom : ∀ {bs : Bytes} {offset : Nat} {out : Bytes},
    decodeFrom offset bs = .ok out → encode out = bs
  | [], offset, out, h => by cases h; rfl
  | a :: b :: c :: d :: e :: bs, offset, out, h => by
    simp only [decodeFrom, bind_eq_ok_iff] at h
    obtain ⟨first, hfirst, rest, hrest, h⟩ := h
    cases h
    rw [encode_of_group hfirst, encode_of_decodeFrom hrest]
  | [a], offset, out, h => encode_of_lastGroup (by simp) h
  | [a, b], offset, out, h => encode_of_lastGroup (by simp) h
  | [a, b, c], offset, out, h => encode_of_lastGroup (by simp) h
  | [a, b, c, d], offset, out, h => encode_of_lastGroup (by simp) h

/-- A byte string is read exactly from its own base64 form. -/
theorem decode_eq_ok_iff {s bs : Bytes} : decode s = .ok bs ↔ s = encode bs := by
  constructor
  · intro h
    unfold decode at h
    split at h
    · cases h
    · exact (encode_of_decodeFrom h).symm
  · rintro rfl
    exact decode_encode bs

end ModularEncryption.Text.Base64
