import ModularEncryption.Proofs.Draws.Operations
import ModularEncryption.Proofs.Redaction.Blank

/-! # Keys in custody, without their bytes

Of a key service only the names of its master keys and whether it works are kept
(`KeyService.blank`), of a manager everything but its cache (`KeyManager.blank`), and of a store
only whether it works (`KeyStore.blank`).

That is enough to say how a custody goes on. A service with other master keys of the same names and
lengths answers where this one answers, with the same random bytes used up (`wrapped_blank`), so the
same key is generated and counted (`generateKey_blank`); and what is retrieved leaves no trace but
in caches (`blank_retrieveKey`). -/

namespace ModularEncryption

namespace MasterKeys

/-- Master keys of zeros. -/
def blank (m : MasterKeys) : MasterKeys := Table.mapValues AesKey.blank m

@[simp] theorem blank_blank (m : MasterKeys) : m.blank.blank = m.blank :=
  Table.mapValues_mapValues_self AesKey.blank_blank m

@[simp] theorem listing_blank (m : MasterKeys) : m.blank.listing = m.listing := by
  simp [listing, blank]

theorem blank_insert (m : MasterKeys) (id : String) (key : AesKey) :
    blank (Table.insert m id key) = Table.insert m.blank id key.blank :=
  (Table.insert_mapValues AesKey.blank m id key).symm

theorem add_blank (m : MasterKeys) (id : String) (bytes : Bytes) :
    m.blank.add id (Bytes.blank bytes) = blank <$> m.add id bytes := by
  rw [add, add, AesKey.ofBytes_blank]
  cases AesKey.ofBytes bytes with
  | error e => rfl
  | ok key => exact congrArg Except.ok (blank_insert m id key).symm

/-- A key is wrapped by the cipher of the master key, if there is one. -/
theorem wrap_eq (m : MasterKeys) (key : Bytes) (id : String) (e : Entropy) :
    m.wrap key id e = match Table.get? m id with
      | some master => FrameCipher.encrypt ⟨.gcm, master⟩ (aad id) key e
      | none =>
        (.error { cause := .masterKeyUnknown, context := [("master_key_id", id)] }, e) := by
  cases hget : Table.get? m id <;> simp only [wrap, cipher, hget] <;> rfl

end MasterKeys

section Fate

variable {ε α : Type}

/-- What an operation comes to, whatever its value is. -/
def fate (x : Except ε α) : Except ε Unit := (fun _ => ()) <$> x

theorem fate_ok (a : α) : fate (.ok a : Except ε α) = .ok () := rfl

theorem fate_error (e : ε) : fate (.error e : Except ε α) = .error e := rfl

end Fate

namespace FrameCipher

/-- A text is encrypted or refused for its length alone. -/
theorem fate_encryptWith (c : FrameCipher) (nonce : Nonce) (aad text : Bytes) :
    fate (c.encryptWith nonce aad text) =
      if maxFrameLength < c.statedLength text.length then
        .error { cause := .moduleTooLarge text.length }
      else .ok () := by
  unfold encryptWith
  split
  · exact fate_error _
  · exact fate_ok _

theorem fate_encrypt_congr {c c' : FrameCipher} {text text' : Bytes} (hmode : c'.mode = c.mode)
    (hlength : text'.length = text.length) (aad : Bytes) (e : Entropy) :
    fate (c'.encrypt aad text' e).1 = fate (c.encrypt aad text e).1 := by
  rw [encrypt_apply, encrypt_apply, fate_encryptWith, fate_encryptWith, statedLength,
    statedLength, hmode, hlength]

end FrameCipher

namespace KeyService

/-- The service with master keys of zeros, which was not asked yet. -/
def blank (s : KeyService) : KeyService :=
  { s with masterKeys := s.masterKeys.blank, wraps := 0, unwraps := 0 }

/-- What services have in common that do not differ but in bytes of keys. -/
theorem blank_eq_iff {s s' : KeyService} : s'.blank = s.blank ↔
    s'.masterKeys.blank = s.masterKeys.blank ∧ s'.serverSide = s.serverSide ∧
      s'.outage = s.outage := by
  simp [blank]

@[simp] theorem blank_blank (s : KeyService) : s.blank.blank = s.blank := by
  simp [blank]

/-- **A service wraps a key or refuses it whatever bytes there are** in that key and in its own, and
uses up the same random bytes. -/
theorem wrapped_blank (s : KeyService) {key key' : Bytes} (h : key'.length = key.length)
    (id : String) (e : Entropy) :
    fate (s.blank.wrapped key' id e).1 = fate (s.wrapped key id e).1 ∧
      (s.blank.wrapped key' id e).2 = (s.wrapped key id e).2 := by
  have houtage : s.blank.outage = s.outage := rfl
  unfold wrapped
  rw [houtage]
  cases s.outage with
  | some error => exact ⟨rfl, rfl⟩
  | none =>
    have hget : Table.get? s.blank.masterKeys id = (Table.get? s.masterKeys id).map AesKey.blank :=
      Table.get?_mapValues ..
    simp only [MasterKeys.wrap_eq, hget]
    cases Table.get? s.masterKeys id with
    | none => exact ⟨rfl, rfl⟩
    | some master =>
      simp only [Option.map_some]
      have hmode : (⟨.gcm, master.blank⟩ : FrameCipher).mode =
          (⟨.gcm, master⟩ : FrameCipher).mode :=
        rfl
      exact ⟨FrameCipher.fate_encrypt_congr hmode h (MasterKeys.aad id) e, by
        rw [FrameCipher.encrypt_apply, FrameCipher.encrypt_apply]⟩

/-- Services that differ in the bytes of keys wrap or refuse alike. -/
theorem wrapped_congr {s s' : KeyService} (h : s'.blank = s.blank) {key key' : Bytes}
    (hkey : key'.length = key.length) (id : String) (e : Entropy) :
    fate (s'.wrapped key' id e).1 = fate (s.wrapped key id e).1 ∧
      (s'.wrapped key' id e).2 = (s.wrapped key id e).2 := by
  obtain ⟨hfate, hrest⟩ := s.wrapped_blank hkey id e
  obtain ⟨hfate', hrest'⟩ := s'.wrapped_blank (rfl : key'.length = _) id e
  rw [h] at hfate' hrest'
  exact ⟨hfate'.symm.trans hfate, hrest'.symm.trans hrest⟩

/-- A service is asked, and it is only counted. -/
theorem wrap_eq (s : KeyService) (key : Bytes) (id : String) (e : Entropy) :
    s.wrap key id e = ((s.wrapped key id e).1, { s with wraps := s.wraps + 1 },
      (s.wrapped key id e).2) := rfl

end KeyService

/-- The store without what is kept in it. -/
def KeyStore.blank (s : KeyStore) : KeyStore := { s with materials := .empty }

theorem KeyStore.blank_eq_iff {s s' : KeyStore} : s'.blank = s.blank ↔ s'.outage = s.outage := by
  simp [KeyStore.blank]

/-- What is put into a store does not decide whether it is kept. -/
theorem KeyStore.fate_put_blank (s : KeyStore) (material material' fileId name : String) :
    fate (s.blank.put material' fileId name) = fate (s.put material fileId name) := by
  have houtage : s.blank.outage = s.outage := rfl
  unfold put
  rw [houtage]
  cases s.outage <;> rfl

theorem KeyStore.blank_of_put {s s' : KeyStore} {material fileId name : String}
    (h : s.put material fileId name = .ok s') : s'.blank = s.blank := by
  unfold put at h
  split at h <;> cases h
  rfl

/-- A cache of which nothing is known. -/
def KeyCache.blank : KeyCache := { lifetime := 0, capacity := 1, capacity_pos := Nat.one_pos }

/-- The manager without what is in its cache. -/
def KeyManager.blank (m : KeyManager) : KeyManager := { m with cache := .blank }

@[simp] theorem KeyManager.listing_blank (m : KeyManager) : m.blank.listing = m.listing := rfl

namespace Custody

/-- The custody with keys of zeros, and without what is kept in the cache and in the store. -/
def blank (c : Custody) : Custody :=
  { manager := c.manager.blank
    service := c.service.blank
    store := c.store.blank
    entropy := c.entropy
    now := c.now }

/-- What custodies have in common that do not differ but in keys. -/
theorem blank_eq_iff {c c' : Custody} : c'.blank = c.blank ↔
    c'.manager.blank = c.manager.blank ∧ c'.service.blank = c.service.blank ∧
      c'.store.blank = c.store.blank ∧ c'.entropy = c.entropy ∧ c'.now = c.now := by
  simp [blank]

variable (c : Custody)

@[simp] theorem blank_blank : c.blank.blank = c.blank := by
  simp [blank, KeyManager.blank, KeyStore.blank]

theorem place_blank (key : AesKey) (material material' : String) :
    DataKey.key <$> (c.blank.place key material').1 = DataKey.key <$> (c.place key material).1 ∧
      (c.blank.place key material').2.blank = (c.place key material).2.blank := by
  unfold place
  have hplacement : c.blank.manager.placement = c.manager.placement := rfl
  rw [hplacement]
  cases c.manager.placement with
  | inMetadata _ => exact ⟨rfl, c.blank_blank⟩
  | inStore fileId =>
    have hput := c.store.fate_put_blank material material' fileId c.manager.nextName
    have hname : c.blank.manager.nextName = c.manager.nextName := rfl
    have hstore : c.blank.store = c.store.blank := rfl
    simp only [hname, hstore]
    rcases cases_of_map_eq hput with ⟨e, hp, hp'⟩ | ⟨store, store', hp, hp', -⟩
    · rw [hp, hp']
      exact ⟨rfl, c.blank_blank⟩
    · have hblank : store'.blank = store.blank :=
        (KeyStore.blank_of_put hp').trans (KeyStore.blank_of_put hp).symm
      rw [hp, hp']
      refine ⟨rfl, ?_⟩
      simp only [blank, hblank, KeyManager.blank, KeyService.blank_blank]

/-- Where a key is placed does not depend on bytes of keys, nor on its material. -/
theorem place_congr {c d : Custody} (h : d.blank = c.blank) (key : AesKey)
    (material material' : String) :
    DataKey.key <$> (d.place key material').1 = DataKey.key <$> (c.place key material).1 ∧
      (d.place key material').2.blank = (c.place key material).2.blank := by
  obtain ⟨hkey, hblank⟩ := d.place_blank key material' material
  obtain ⟨hkey', hblank'⟩ := c.place_blank key material material
  rw [h] at hkey hblank
  exact ⟨hkey.symm.trans hkey', hblank.symm.trans hblank'⟩

theorem blank_askedToWrap (entropy : Entropy) :
    (c.blank.askedToWrap entropy).blank = (c.askedToWrap entropy).blank := by
  simp [askedToWrap, blank, KeyManager.blank, KeyService.blank, KeyStore.blank]

/-- **A key is generated whatever master keys there are**, and the same one; the manager counts it
either way. -/
theorem generateKey_blank (masterKeyId : String) :
    DataKey.key <$> (c.blank.generateKey masterKeyId).1 =
        DataKey.key <$> (c.generateKey masterKeyId).1 ∧
      (c.blank.generateKey masterKeyId).2.blank = (c.generateKey masterKeyId).2.blank := by
  have hlocal : c.blank.manager.wrapLocally = c.manager.wrapLocally := rfl
  have hlength : c.blank.manager.dataKeyLength = c.manager.dataKeyLength := rfl
  have hentropy : c.blank.entropy = c.entropy := rfl
  have hservice : c.blank.service = c.service.blank := rfl
  unfold generateKey
  simp only [hlocal, hlength, hentropy, hservice, KeyService.wrap_eq]
  cases c.manager.wrapLocally with
  | true => exact ⟨rfl, c.blank_blank⟩
  | false =>
    simp only [Bool.false_eq_true, if_false]
    cases AesKey.generate c.manager.dataKeyLength c.entropy with
    | mk generated entropy =>
      cases generated with
      | error e => exact ⟨rfl, blank_blank { c with entropy }⟩
      | ok key =>
        -- the service wraps the key in both cases or in neither
        obtain ⟨hfate, hrest⟩ := c.service.wrapped_blank (rfl : key.bytes.length = _)
          masterKeyId entropy
        have hasked := c.blank_askedToWrap (c.service.wrapped key.bytes masterKeyId entropy).2
        simp only [hrest]
        rcases cases_of_map_eq hfate with ⟨e, hw, hw'⟩ | ⟨wrapped, wrapped', hw, hw', -⟩
        · rw [hw, hw']
          exact ⟨rfl, hasked⟩
        · rw [hw, hw']
          exact place_congr hasked key _ _

/-- Custodies that differ in the bytes of keys, and in what is kept in caches and stores, generate
the same keys. -/
theorem generateKey_congr {c d : Custody} (h : d.blank = c.blank) (masterKeyId : String) :
    DataKey.key <$> (d.generateKey masterKeyId).1 = DataKey.key <$> (c.generateKey masterKeyId).1 ∧
      (d.generateKey masterKeyId).2.blank = (c.generateKey masterKeyId).2.blank := by
  obtain ⟨hkey, hblank⟩ := c.generateKey_blank masterKeyId
  obtain ⟨hkey', hblank'⟩ := d.generateKey_blank masterKeyId
  rw [h] at hkey' hblank'
  exact ⟨hkey'.symm.trans hkey, hblank'.symm.trans hblank⟩

/-- **Retrieving a key leaves no trace** but in the cache and in the count of questions. -/
theorem blank_retrieveKey (metadata : Bytes) :
    (c.retrieveKey metadata).2.blank = c.blank := by
  rcases c.retrieveKey_cases metadata with ⟨key, -, h⟩ | ⟨-, h⟩
  · rw [h]
    rfl
  · rw [h]
    rcases recoverKey_cases (c.withCache _) metadata with ⟨-, f, h⟩ | ⟨m, -, h⟩
    · rw [h]
      rfl
    · rw [h]
      rcases unwrap_cases (c.withCache _) metadata m with ⟨f, h⟩ | ⟨key, cache, -, -, h⟩
      · rw [h]
        rfl
      · rw [h]
        rfl

end Custody

end ModularEncryption
