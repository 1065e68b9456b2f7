import ModularEncryption.Bytes

/-! # UTF-8

Text is stored as its UTF-8 bytes. `decode` reads them back, or says where they stop being
well-formed: at a sequence of bytes that no character has (`Fault.invalid`), with the length of its
part that could still have begun a character, or at a character cut off by the end
(`Fault.incomplete`). What `encode` writes is always read back (`decode_encode`), and nothing else
is read (`decode_eq_ok_iff`). -/

namespace ModularEncryption.Text.Utf8

/-- Why bytes are not well-formed. -/
inductive Fault where
  /-- The `length` bytes from `offset` on begin no character. -/
  | invalid (length offset : Nat)
  /-- The bytes end within the character that begins at `offset`. -/
  | incomplete (offset : Nat)
deriving DecidableEq, Repr

/-- The wording of a fault. -/
def Fault.message : Fault → String
  | .invalid length offset =>
    s!"invalid utf-8 sequence of {length} bytes from index {offset}"
  | .incomplete offset => s!"incomplete utf-8 byte sequence from index {offset}"

/-- The ranges of the bytes that must follow the first byte of a character, if it can be one. -/
def owedAfter (b : UInt8) : Option (List (UInt8 × UInt8)) :=
  let any : UInt8 × UInt8 := (0x80, 0xbf)
  if b < 0x80 then some []
  else if b < 0xc2 then none
  else if b < 0xe0 then some [any]
  else if b = 0xe0 then some [(0xa0, 0xbf), any]
  else if b = 0xed then some [(0x80, 0x9f), any]
  else if b < 0xf0 then some [any, any]
  else if b = 0xf0 then some [(0x90, 0xbf), any, any]
  else if b < 0xf4 then some [any, any, any]
  else if b = 0xf4 then some [(0x80, 0x8f), any, any]
  else none

/-- The first fault of the remaining bytes, when `seen` bytes of the character that begins at
`start` have been read and the bytes in the ranges `owed` must follow. -/
def firstFault : (start seen : Nat) → (owed : List (UInt8 × UInt8)) → Bytes → Option Fault
  | _, _, [], [] => none
  | start, _, _ :: _, [] => some (.incomplete start)
  | start, seen, [], b :: bs =>
    match owedAfter b with
    | some owed => firstFault (start + seen) 1 owed bs
    | none => some (.invalid 1 (start + seen))
  | start, seen, (low, high) :: owed, b :: bs =>
    if low ≤ b ∧ b ≤ high then firstFault start (seen + 1) owed bs
    else some (.invalid seen start)

/-- The bytes of a text. -/
def encode (s : String) : Bytes := s.toByteArray.data.toList

/-- The text with the given bytes, or their first fault. -/
def decode (bs : Bytes) : Except Fault String :=
  match String.fromUTF8? ⟨bs.toArray⟩ with
  | some s => .ok s
  | none => .error ((firstFault 0 0 [] bs).getD (.incomplete bs.length))

theorem fromUTF8?_eq_some_iff {a : ByteArray} {s : String} :
    String.fromUTF8? a = some s ↔ s.toByteArray = a := by
  constructor
  · intro h
    simp only [String.fromUTF8?, Option.dite_none_right_eq_some, Option.some.injEq] at h
    obtain ⟨_, rfl⟩ := h
    rfl
  · rintro rfl
    simp only [String.fromUTF8?, s.isValidUTF8, ↓reduceDIte]
    rfl

/-- Bytes are read as a text exactly if they are the bytes of that text. -/
theorem decode_eq_ok_iff {bs : Bytes} {s : String} : decode bs = .ok s ↔ bs = encode s := by
  have bytes : (⟨bs.toArray⟩ : ByteArray) = s.toByteArray ↔ bs = encode s := by
    rw [encode]
    constructor
    · intro h; rw [← h]
    · rintro rfl; rfl
  rw [← bytes, eq_comm (a := (⟨bs.toArray⟩ : ByteArray)), ← fromUTF8?_eq_some_iff, decode]
  cases String.fromUTF8? ⟨bs.toArray⟩ <;> simp

/-- The bytes of a text are read back. -/
theorem decode_encode (s : String) : decode (encode s) = .ok s := decode_eq_ok_iff.mpr rfl

theorem encode_injective {s t : String} (h : encode s = encode t) : s = t :=
  Except.ok.inj ((decode_encode s).symm.trans (decode_eq_ok_iff.mpr h))

end ModularEncryption.Text.Utf8
