import ModularEncryption.Keys.Service
import ModularEncryption.Proofs.Frame.RoundTrip

/-! # What was wrapped is unwrapped

A data key wrapped under a master key is a frame, and the frame gives the key back
(`unwrap_of_wrap`). It goes on doing so while master keys are added under new names
(`unwrap_of_extends`), and under a name that is known every short key is wrapped
(`wrap_of_get?`). -/

namespace ModularEncryption

namespace FrameCipher

theorem encryptWith_of_encrypt {c : FrameCipher} {aad text frame : Bytes} {e e' : Entropy}
    (h : c.encrypt aad text e = (.ok frame, e')) :
    ∃ nonce, c.encryptWith nonce aad text = .ok frame :=
  ⟨_, congrArg Prod.fst h⟩

theorem ne_nil_of_encryptWith {c : FrameCipher} {nonce : Nonce} {aad text frame : Bytes}
    (h : c.encryptWith nonce aad text = .ok frame) : frame ≠ [] := by
  have hlen := length_of_encryptWith h
  rintro rfl
  simp only [List.length_nil, sizeLength] at hlen
  omega

end FrameCipher

namespace MasterKeys

/-- All master keys are there, and perhaps more. -/
def Extends (m' m : MasterKeys) : Prop :=
  ∀ id key, Table.get? m id = some key → Table.get? m' id = some key

theorem Extends.refl (m : MasterKeys) : m.Extends m := fun _ _ h => h

theorem extends_of_add {m m' : MasterKeys} {id : String} {bytes : Bytes}
    (hnew : Table.get? m id = none) (h : m.add id bytes = .ok m') : m'.Extends m := by
  unfold add at h
  cases hkey : AesKey.ofBytes bytes with
  | error e => rw [hkey] at h; cases h
  | ok key =>
    rw [hkey] at h
    cases h
    intro id' key' hget
    have hne : id' ≠ id := by
      rintro rfl
      rw [hnew] at hget
      cases hget
    rw [Table.get?_insert_of_ne m key hne, hget]

theorem cipher_eq_ok_iff {m : MasterKeys} {id : String} {c : FrameCipher} :
    m.cipher id = .ok c ↔ ∃ key, Table.get? m id = some key ∧ c = ⟨.gcm, key⟩ := by
  unfold cipher
  cases Table.get? m id with
  | none => simp
  | some key => simp [eq_comm]

theorem unwrap_of_extends {m m' : MasterKeys} (h : m'.Extends m) {wrapped : Bytes} {id : String}
    {key : Bytes} (hunwrap : m.unwrap wrapped id = .ok key) : m'.unwrap wrapped id = .ok key := by
  obtain ⟨c, hc, hdecrypt⟩ := bind_eq_ok_iff.mp hunwrap
  obtain ⟨master, hmaster, rfl⟩ := cipher_eq_ok_iff.mp hc
  have hc' : m'.cipher id = .ok ⟨.gcm, master⟩ :=
    cipher_eq_ok_iff.mpr ⟨master, h id master hmaster, rfl⟩
  exact bind_eq_ok_iff.mpr ⟨_, hc', hdecrypt⟩

/-- **A wrapped key is unwrapped again**, and it is never empty. -/
theorem unwrap_of_wrap {m : MasterKeys} {key wrapped : Bytes} {id : String} {e e' : Entropy}
    (h : m.wrap key id e = (.ok wrapped, e')) : m.unwrap wrapped id = .ok key ∧ wrapped ≠ [] := by
  cases hc : m.cipher id with
  | error err =>
    simp only [wrap, hc] at h
    cases h
  | ok c =>
    simp only [wrap, hc] at h
    obtain ⟨nonce, hframe⟩ := FrameCipher.encryptWith_of_encrypt h
    refine ⟨bind_eq_ok_iff.mpr ⟨c, hc, mapError_eq_ok_iff.mpr ?_⟩,
      FrameCipher.ne_nil_of_encryptWith hframe⟩
    exact FrameCipher.decrypt_of_encryptWith hframe fun _ => rfl

/-- **A key that is not too long is wrapped under every master key.** -/
theorem wrap_of_get? {m : MasterKeys} {id : String} {master : AesKey}
    (h : Table.get? m id = some master) {key : Bytes} (hkey : key.length ≤ 32) (e : Entropy) :
    ∃ wrapped e', m.wrap key id e = (.ok wrapped, e') := by
  have hc : m.cipher id = .ok ⟨.gcm, master⟩ := cipher_eq_ok_iff.mpr ⟨master, h, rfl⟩
  have hfit : FrameCipher.statedLength ⟨.gcm, master⟩ key.length ≤ maxFrameLength := by
    simp only [FrameCipher.statedLength, Nonce.length, Mode.tagLength, Gcm.tagLength,
      maxFrameLength]
    omega
  have hwrap : m.wrap key id e = (FrameCipher.encryptWith ⟨.gcm, master⟩
      ⟨e.next Nonce.length, e.length_next _⟩ (aad id) key, e.skip Nonce.length) := by
    simp only [wrap, hc]
    rfl
  rw [FrameCipher.encryptWith_eq_ok_iff.mpr ⟨hfit, rfl⟩] at hwrap
  exact ⟨_, _, hwrap⟩

end MasterKeys

end ModularEncryption
