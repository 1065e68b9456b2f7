import ModularEncryption.Proofs.Frame.Acceptance
import ModularEncryption.Proofs.Keys.Recovery

/-! # What a manager makes of metadata

Metadata for which nothing is cached lead to a key or to an error, step by step: they must be text,
the store must have material under it, the material must be legible, the service must know the
master key, and what it unwraps must be a key. `Custody.Verdict` says at which step they fail and of
which kind the error is. There is always a verdict (`exists_verdict`), and it is what a manager
whose service works and wraps keys itself comes to (`retrieveKey_of_verdict`). -/

namespace ModularEncryption

namespace FrameCipher

/-- A frame that is not malformed is read by its body, however long it is. -/
theorem exists_decryptBody {c : FrameCipher} (aad : Bytes) {frame : Bytes}
    (h : ¬ Malformed c.mode frame) :
    ∃ nonce body, c.decrypt aad frame = c.decryptBody nonce aad body := by
  simp only [Malformed, not_or, Nat.not_lt, Decidable.not_not] at h
  obtain ⟨hsize, hleast, hstated⟩ := h
  have hlong : ¬ frame.length < sizeLength := Nat.not_lt.mpr hsize
  have hroom : ¬ Bytes.ofLittleEndian (frame.take sizeLength) < c.statedLength 0 :=
    Nat.not_lt.mpr hleast
  have hactual : ¬ (frame.drop sizeLength).length ≠
      Bytes.ofLittleEndian (frame.take sizeLength) := by
    rw [List.length_drop]
    exact not_not.mpr hstated.symm
  refine ⟨Nonce.ofFront (frame.drop sizeLength), (frame.drop sizeLength).drop Nonce.length, ?_⟩
  simp only [decrypt, frameLength, if_neg hlong, refuseIf, if_neg hroom, if_neg hactual, bind,
    Except.bind]

end FrameCipher

namespace Custody

variable {c : Custody} {metadata : Bytes}

/-! ### Verdicts -/

/-- Metadata that are text lead to a text of key material: to themselves, or to what is stored under
them. -/
inductive LeadsTo (c : Custody) (metadata : Bytes) : String → Prop where
  | itself {text : String} {fileId : Option String} (hmetadata : metadata = Text.Utf8.encode text)
    (hplacement : c.manager.placement = .inMetadata fileId) : LeadsTo c metadata text
  | stored {name text fileId : String} (hmetadata : metadata = Text.Utf8.encode name)
    (hplacement : c.manager.placement = .inStore fileId) (hworks : c.store.outage = none)
    (hstored : c.store.materials.get? (fileId, name) = some text) : LeadsTo c metadata text

/-- Metadata lead to a key wrapped under a master key of the service. -/
structure LeadsToMaster (c : Custody) (metadata : Bytes) (m : KeyMaterial) (master : AesKey) :
    Prop where
  leads : ∃ text, c.LeadsTo metadata text ∧ KeyMaterial.parse text = .ok m
  known : Table.get? c.service.masterKeys m.masterKeyId = some master

/-- The key that metadata lead to, or the kind of the error that is met on the way to it. -/
inductive Verdict (c : Custody) (metadata : Bytes) : Except ErrorKind AesKey → Prop where
  | notText (h : ∀ text, metadata ≠ Text.Utf8.encode text) :
    Verdict c metadata (.error .dataInvalid)
  | storeFails {name fileId : String} {e : Error} (hmetadata : metadata = Text.Utf8.encode name)
    (hplacement : c.manager.placement = .inStore fileId) (houtage : c.store.outage = some e) :
    Verdict c metadata (.error e.kind)
  | nothingStored {name fileId : String} (hmetadata : metadata = Text.Utf8.encode name)
    (hplacement : c.manager.placement = .inStore fileId) (hworks : c.store.outage = none)
    (hnone : c.store.materials.get? (fileId, name) = none) : Verdict c metadata (.error .notFound)
  | illegible {text : String} {e : Error} (hleads : c.LeadsTo metadata text)
    (hparse : KeyMaterial.parse text = .error e) : Verdict c metadata (.error .dataInvalid)
  | masterUnknown {text : String} {m : KeyMaterial} (hleads : c.LeadsTo metadata text)
    (hparse : KeyMaterial.parse text = .ok m)
    (hnone : Table.get? c.service.masterKeys m.masterKeyId = none) :
    Verdict c metadata (.error .missingKey)
  | malformed {m : KeyMaterial} {master : AesKey} (hleads : c.LeadsToMaster metadata m master)
    (hmalformed : Malformed .gcm m.wrappedKey) : Verdict c metadata (.error .dataInvalid)
  | wrongTag {m : KeyMaterial} {master : AesKey} (hleads : c.LeadsToMaster metadata m master)
    (hwell : ¬ Malformed .gcm m.wrappedKey)
    (hrefused : ∀ text, FrameCipher.decrypt ⟨.gcm, master⟩ (MasterKeys.aad m.masterKeyId)
      m.wrappedKey ≠ .ok text) : Verdict c metadata (.error .integrityFailure)
  | wrongLength {m : KeyMaterial} {master : AesKey} {bytes : Bytes}
    (hleads : c.LeadsToMaster metadata m master)
    (hread : FrameCipher.decrypt ⟨.gcm, master⟩ (MasterKeys.aad m.masterKeyId) m.wrappedKey =
      .ok bytes)
    (hlength : bytes.length ∉ validKeyLengths) : Verdict c metadata (.error .configuration)
  | key {m : KeyMaterial} {master key : AesKey} (hleads : c.LeadsToMaster metadata m master)
    (hread : FrameCipher.decrypt ⟨.gcm, master⟩ (MasterKeys.aad m.masterKeyId) m.wrappedKey =
      .ok key.bytes) : Verdict c metadata (.ok key)

theorem exists_verdict_of_master {m : KeyMaterial} {master : AesKey}
    (hleads : c.LeadsToMaster metadata m master) : ∃ verdict, c.Verdict metadata verdict := by
  by_cases hmalformed : Malformed .gcm m.wrappedKey
  · exact ⟨_, .malformed hleads hmalformed⟩
  · cases hread : FrameCipher.decrypt ⟨.gcm, master⟩ (MasterKeys.aad m.masterKeyId)
      m.wrappedKey with
    | error e => exact ⟨_, .wrongTag hleads hmalformed (by rw [hread]; simp)⟩
    | ok bytes =>
      by_cases hlength : bytes.length ∈ validKeyLengths
      · exact ⟨.ok ⟨bytes, hlength⟩, .key hleads hread⟩
      · exact ⟨_, .wrongLength hleads hread hlength⟩

theorem exists_verdict_of_leadsTo {text : String} (hleads : c.LeadsTo metadata text) :
    ∃ verdict, c.Verdict metadata verdict := by
  cases hparse : KeyMaterial.parse text with
  | error e => exact ⟨_, .illegible hleads hparse⟩
  | ok m =>
    cases hmaster : Table.get? c.service.masterKeys m.masterKeyId with
    | none => exact ⟨_, .masterUnknown hleads hparse hmaster⟩
    | some master => exact exists_verdict_of_master ⟨⟨text, hleads, hparse⟩, hmaster⟩

/-- **There is a verdict on all metadata.** -/
theorem exists_verdict (c : Custody) (metadata : Bytes) :
    ∃ verdict, c.Verdict metadata verdict := by
  cases hdecode : Text.Utf8.decode metadata with
  | error fault =>
    refine ⟨_, .notText fun text h => ?_⟩
    rw [Text.Utf8.decode_eq_ok_iff.mpr h] at hdecode
    cases hdecode
  | ok name =>
    have hmetadata := Text.Utf8.decode_eq_ok_iff.mp hdecode
    cases hplacement : c.manager.placement with
    | inMetadata fileId => exact exists_verdict_of_leadsTo (.itself hmetadata hplacement)
    | inStore fileId =>
      cases hout : c.store.outage with
      | some e => exact ⟨_, .storeFails hmetadata hplacement hout⟩
      | none =>
        cases hstored : c.store.materials.get? (fileId, name) with
        | none => exact ⟨_, .nothingStored hmetadata hplacement hout hstored⟩
        | some text =>
          exact exists_verdict_of_leadsTo (.stored hmetadata hplacement hout hstored)

/-! ### Verdicts are what retrieving keys comes to -/

/-- A result is an error of the given kind. -/
def FailsAs (result : Except Failure Bytes) (kind : ErrorKind) : Prop :=
  ∃ e : Error, result = .error (.error e) ∧ e.kind = kind

/-- A result is what a verdict says: an error of its kind, or its key, if the clock can show when
that will expire. -/
def Meets (c : Custody) (result : Except Failure Bytes) : Except ErrorKind AesKey → Prop
  | .error kind => FailsAs result kind
  | .ok key => result = if c.now + c.manager.cache.lifetime < endOfTime then .ok key.bytes
      else .error .clockOverflow

theorem material_of_leadsTo {text : String} (h : c.LeadsTo metadata text) :
    c.material metadata = KeyMaterial.parse text := by
  cases h with
  | itself hmetadata hplacement => rw [hmetadata, material_encode, hplacement]
  | stored hmetadata hplacement hworks hstored =>
    rw [hmetadata, material_encode, hplacement]
    simp only [KeyStore.fetch, hworks, hstored]
    rfl

theorem material_of_notText (h : ∀ text, metadata ≠ Text.Utf8.encode text) :
    ∃ e, c.material metadata = .error e ∧ e.kind = .dataInvalid := by
  unfold material
  cases hdecode : Text.Utf8.decode metadata with
  | error fault => exact ⟨_, rfl, rfl⟩
  | ok text => exact absurd (Text.Utf8.decode_eq_ok_iff.mp hdecode) (h text)

/-- What the store says instead of giving material is said about the metadata. -/
theorem material_of_fetch_error {name fileId : String} {e : Error}
    (hmetadata : metadata = Text.Utf8.encode name)
    (hplacement : c.manager.placement = .inStore fileId)
    (hfetch : c.store.fetch fileId name = .error e) : c.material metadata = .error e := by
  rw [hmetadata, material_encode, hplacement]
  simp only [hfetch]
  rfl

/-- A service that works decrypts what is wrapped under a master key that it knows. -/
theorem unwrapped_of_master (hworks : c.service.outage = none) {m : KeyMaterial} {master : AesKey}
    (h : Table.get? c.service.masterKeys m.masterKeyId = some master) :
    c.service.unwrapped m.wrappedKey m.masterKeyId =
      (FrameCipher.decrypt ⟨.gcm, master⟩ (MasterKeys.aad m.masterKeyId) m.wrappedKey).mapError
        (·.withContext "master_key_id" m.masterKeyId) := by
  simp only [KeyService.unwrapped, hworks, MasterKeys.unwrap, MasterKeys.cipher, h]
  rfl

theorem unwrapped_of_masterUnknown (hworks : c.service.outage = none) {m : KeyMaterial}
    (h : Table.get? c.service.masterKeys m.masterKeyId = none) :
    ∃ e, c.service.unwrapped m.wrappedKey m.masterKeyId = .error e ∧ e.kind = .missingKey := by
  simp only [KeyService.unwrapped, hworks, MasterKeys.unwrap, MasterKeys.cipher, h]
  exact ⟨_, rfl, rfl⟩

section Recovery

variable (hlocal : c.manager.wrapLocally = false)
include hlocal

theorem recoverKey_of_material_error {e : Error} {kind : ErrorKind}
    (h : c.material metadata = .error e) (hkind : e.kind = kind) :
    FailsAs (c.recoverKey metadata).1 kind := by
  unfold recoverKey
  rw [hlocal, h]
  exact ⟨_, rfl, (Error.kind_withContext ..).trans hkind⟩

theorem recoverKey_of_unwrapped_error {m : KeyMaterial} {e : Error} {kind : ErrorKind}
    (hm : c.material metadata = .ok m)
    (h : c.service.unwrapped m.wrappedKey m.masterKeyId = .error e) (hkind : e.kind = kind) :
    FailsAs (c.recoverKey metadata).1 kind := by
  unfold recoverKey unwrap KeyService.unwrap
  rw [hlocal, hm]
  simp only [h]
  exact ⟨e, rfl, hkind⟩

theorem recoverKey_of_wrongLength {m : KeyMaterial} {bytes : Bytes}
    (hm : c.material metadata = .ok m)
    (h : c.service.unwrapped m.wrappedKey m.masterKeyId = .ok bytes)
    (hlength : bytes.length ∉ validKeyLengths) :
    FailsAs (c.recoverKey metadata).1 .configuration := by
  cases hkey : AesKey.ofBytes bytes with
  | ok key =>
    rw [← AesKey.ofBytes_eq_ok_iff.mp hkey] at hlength
    exact absurd key.length_mem hlength
  | error e =>
    unfold recoverKey unwrap KeyService.unwrap
    rw [hlocal, hm]
    simp only [h, hkey]
    exact ⟨e, rfl, AesKey.kind_of_ofBytes_eq_error hkey⟩

end Recovery

/-- A wrapped key that the master key does not open is not recovered. -/
theorem recoverKey_of_decrypt_error (hlocal : c.manager.wrapLocally = false)
    (hworks : c.service.outage = none) {m : KeyMaterial} {master : AesKey} {e : Error}
    {kind : ErrorKind} (hm : c.material metadata = .ok m)
    (hmaster : Table.get? c.service.masterKeys m.masterKeyId = some master)
    (h : FrameCipher.decrypt ⟨.gcm, master⟩ (MasterKeys.aad m.masterKeyId) m.wrappedKey =
      .error e) (hkind : e.kind = kind) : FailsAs (c.recoverKey metadata).1 kind := by
  have hunwrapped := unwrapped_of_master hworks hmaster
  rw [h] at hunwrapped
  exact recoverKey_of_unwrapped_error hlocal hm hunwrapped
    ((Error.kind_withContext ..).trans hkind)

theorem LeadsToMaster.material_eq {m : KeyMaterial} {master : AesKey}
    (h : c.LeadsToMaster metadata m master) : c.material metadata = .ok m := by
  obtain ⟨text, htext, hparse⟩ := h.leads
  exact (material_of_leadsTo htext).trans hparse

/-- **What is not in the cache is retrieved by the verdict on its metadata**, if the service works
and wraps keys itself. -/
theorem retrieveKey_of_verdict (hlocal : c.manager.wrapLocally = false)
    (hworks : c.service.outage = none) (hmissed : (c.manager.cache.get c.now metadata).1 = none)
    {verdict : Except ErrorKind AesKey} (h : c.Verdict metadata verdict) :
    c.Meets (c.retrieveKey metadata).1 verdict := by
  have hlifetime := c.manager.cache.lifetime_get c.now metadata
  have heq : c.retrieveKey metadata =
      (c.withCache (c.manager.cache.get c.now metadata).2).recoverKey metadata := by
    rcases c.retrieveKey_cases metadata with ⟨key, hfound, -⟩ | ⟨-, heq⟩
    · rw [hmissed] at hfound
      cases hfound
    · exact heq
  -- the way from metadata to a key does not depend on what is left of the cache
  generalize hcache : (c.manager.cache.get c.now metadata).2 = cache at heq hlifetime
  rw [heq]
  cases h with
  | notText h =>
    obtain ⟨e, hmaterial, hkind⟩ := material_of_notText (c := c) h
    exact recoverKey_of_material_error (c := c.withCache cache) hlocal hmaterial hkind
  | @storeFails name fileId e hmetadata hplacement houtage =>
    have hfetch : c.store.fetch fileId name = .error e := by
      simp only [KeyStore.fetch, houtage]
    exact recoverKey_of_material_error (c := c.withCache cache) hlocal
      (material_of_fetch_error (c := c) hmetadata hplacement hfetch) rfl
  | @nothingStored name fileId hmetadata hplacement hstore hnone =>
    have hfetch : c.store.fetch fileId name = .error { cause := .nothingStored, context :=
        [("file_id", fileId), ("key_name", name)] } := by
      simp only [KeyStore.fetch, hstore, hnone]
    exact recoverKey_of_material_error (c := c.withCache cache) hlocal
      (material_of_fetch_error (c := c) hmetadata hplacement hfetch) rfl
  | illegible hleads hparse =>
    exact recoverKey_of_material_error (c := c.withCache cache) hlocal
      ((material_of_leadsTo hleads).trans hparse) (KeyMaterial.kind_of_parse_eq_error hparse)
  | masterUnknown hleads hparse hnone =>
    obtain ⟨e, hunwrapped, hkind⟩ := unwrapped_of_masterUnknown hworks hnone
    exact recoverKey_of_unwrapped_error (c := c.withCache cache) hlocal
      ((material_of_leadsTo hleads).trans hparse) hunwrapped hkind
  | malformed hleads hmalformed =>
    obtain ⟨e, hread, hkind⟩ := FrameCipher.decrypt_of_malformed ⟨.gcm, _⟩ _ hmalformed
    exact recoverKey_of_decrypt_error (c := c.withCache cache) hlocal hworks hleads.material_eq
      hleads.known hread hkind
  | @wrongTag m master hleads hwell hrefused =>
    obtain ⟨nonce, body, hread⟩ := FrameCipher.exists_decryptBody (c := ⟨.gcm, master⟩)
      (MasterKeys.aad m.masterKeyId) hwell
    rcases FrameCipher.decryptBody_cases ⟨.gcm, master⟩ nonce (MasterKeys.aad m.masterKeyId) body
      with ⟨text, hok⟩ | ⟨e, herror, hkind⟩
    · exact absurd (hread.trans hok) (hrefused text)
    · exact recoverKey_of_decrypt_error (c := c.withCache cache) hlocal hworks hleads.material_eq
        hleads.known (hread.trans herror) hkind
  | wrongLength hleads hread hlength =>
    have hunwrapped := unwrapped_of_master hworks hleads.known
    rw [hread] at hunwrapped
    exact recoverKey_of_wrongLength (c := c.withCache cache) hlocal hleads.material_eq hunwrapped
      hlength
  | key hleads hread =>
    have hunwrapped := unwrapped_of_master hworks hleads.known
    rw [hread] at hunwrapped
    rw [Meets, ← hlifetime]
    exact recoverKey_eq (c := c.withCache cache) hlocal hworks
      ⟨_, hleads.material_eq, unwrap_of_unwrapped hunwrapped⟩

end Custody

end ModularEncryption
