import ModularEncryption.Aes.Cipher
import ModularEncryption.Entropy
import ModularEncryption.Text.Listing

/-! # Keys

A key has 16, 24 or 32 bytes, which its type guarantees: `ofBytes` refuses all other lengths
(`ofBytes_eq_ok_iff`). It stands for a permutation of blocks (`encipher`), and its listing tells its
length only. -/

namespace ModularEncryption

/-- The lengths that keys may have. -/
def validKeyLengths : List Nat := [16, 24, 32]

/-- A key of a valid length. -/
structure AesKey where
  bytes : Bytes
  length_mem : bytes.length ∈ validKeyLengths
deriving DecidableEq

namespace AesKey

/-- The key of the given bytes. -/
def ofBytes (bs : Bytes) : Except Error AesKey :=
  if bs.isEmpty then .error { cause := .emptyKey }
  else if h : bs.length ∈ validKeyLengths then .ok ⟨bs, h⟩
  else .error { cause := .keyLength bs.length }

/-- The key of bytes that may be given; if their number is not valid, the error is made of it and of
what was wrong. -/
def ofOption (wrap : (length : Nat) → Error → Error) :
    Option Bytes → Except Error (Option AesKey)
  | none => .ok none
  | some bs =>
    match ofBytes bs with
    | .ok key => .ok (some key)
    | .error e => .error (wrap bs.length e)

/-- The number of bytes. -/
def length (k : AesKey) : Nat := k.bytes.length

/-- A key of random bytes; they are used up even if there are too many or too few. -/
def generate (length : Nat) : Drawing AesKey := do
  let bs ← Entropy.draw length
  ofBytes bs

/-- The permutation of blocks that the key stands for. -/
def encipher (k : AesKey) : Block → Block := Aes.encipher (Aes.roundKeys k.bytes)

/-- The listing of a key, which keeps its bytes back. -/
def listing (k : AesKey) : Text.Listing := .redacted "SecureKey" [.field "len" (.nat k.length)]

theorem ofBytes_eq_ok_iff {bs : Bytes} {k : AesKey} : ofBytes bs = .ok k ↔ k.bytes = bs := by
  obtain ⟨kb, hk⟩ := k
  unfold ofBytes
  constructor
  · intro h
    split at h
    · cases h
    · split at h
      · cases h; rfl
      · cases h
  · rintro rfl
    have hne : kb.isEmpty = false := by
      cases kb with
      | nil => simp [validKeyLengths] at hk
      | cons => rfl
    simp [hne, hk]

theorem ofBytes_of_mem {bs : Bytes} (h : bs.length ∈ validKeyLengths) :
    ofBytes bs = .ok ⟨bs, h⟩ := ofBytes_eq_ok_iff.mpr rfl

theorem ofBytes_of_not_mem {bs : Bytes} (h : bs.length ∉ validKeyLengths) :
    ofBytes bs =
      .error { cause := if bs.isEmpty then .emptyKey else .keyLength bs.length } := by
  unfold ofBytes
  by_cases hempty : bs.isEmpty = true
  · rw [if_pos hempty, if_pos hempty]
  · rw [if_neg hempty, if_neg hempty, dif_neg h]

/-- A key that is given by its bytes. -/
theorem map_bytes_eq_some_iff {bs : Bytes} {key : Option AesKey} :
    key.map (·.bytes) = some bs ↔ ∃ h : bs.length ∈ validKeyLengths, key = some ⟨bs, h⟩ := by
  constructor
  · intro h
    obtain ⟨k, rfl, rfl⟩ := Option.map_eq_some_iff.mp h
    exact ⟨k.length_mem, rfl⟩
  · rintro ⟨h, rfl⟩
    rfl

theorem kind_of_ofBytes_eq_error {bs : Bytes} {e : Error} (h : ofBytes bs = .error e) :
    e.kind = .configuration := by
  unfold ofBytes at h
  split at h
  · cases h; rfl
  · split at h
    · cases h
    · cases h; rfl

section OfOption

variable {wrap : (length : Nat) → Error → Error} {given : Option Bytes}

theorem ofOption_eq_ok_iff {key : Option AesKey} :
    ofOption wrap given = .ok key ↔ key.map (·.bytes) = given := by
  cases given with
  | none => cases key <;> simp [ofOption]
  | some bs =>
    rw [map_bytes_eq_some_iff]
    by_cases h : bs.length ∈ validKeyLengths
    · simp [ofOption, ofBytes_of_mem h, h, eq_comm]
    · simp [ofOption, ofBytes_of_not_mem h, h]

theorem ofOption_eq_error_iff {e : Error} : ofOption wrap given = .error e ↔
    ∃ bs source, given = some bs ∧ ofBytes bs = .error source ∧ wrap bs.length source = e := by
  cases given with
  | none => simp [ofOption]
  | some bs => cases h : ofBytes bs <;> simp [ofOption, h]

theorem kind_of_ofOption_eq_error
    (hwrap : ∀ n e, e.kind = .configuration → (wrap n e).kind = .configuration) {e : Error}
    (h : ofOption wrap given = .error e) : e.kind = .configuration := by
  obtain ⟨bs, source, -, hbytes, rfl⟩ := ofOption_eq_error_iff.mp h
  exact hwrap _ _ (kind_of_ofBytes_eq_error hbytes)

end OfOption

end AesKey

end ModularEncryption
