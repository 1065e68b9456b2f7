import ModularEncryption.Proofs.Keys.Recovery

/-! # Generating keys

A generation that fails only asked the service and used up random bytes. One that succeeds hands out
a key that the service can unwrap again from what was placed, in the metadata or in the store under
the next name (`generateKey_cases`). It drew the key, had it wrapped and placed it
(`of_generateKey`); so the metadata that are handed out lead to material of the key
(`generated_of_generateKey`), and the key is made of random bytes that were not used before
(`entropy_of_generateKey`). Names in the store never repeat (`keyName_injective`), and a name that
was free takes nothing away from what metadata stood for before (`StandsFor.withStored`). -/

namespace ModularEncryption

/-- The name of the key with a number in the store. -/
def keyName (n : Nat) : String := s!"k{n}"

/-- **Numbers make different names.** -/
theorem keyName_injective {m n : Nat} (h : keyName m = keyName n) : m = n := by
  have happend : "k" ++ Nat.repr m = "k" ++ Nat.repr n := h
  have hdigits : Nat.toDigits 10 m = Nat.toDigits 10 n :=
    String.ofList_inj.mp ((String.append_right_inj "k").mp happend)
  rw [← Nat.ofDigitChars_ten_toDigits (n := m), hdigits, Nat.ofDigitChars_ten_toDigits]

namespace KeyStore

variable {s : KeyStore}

/-- The store with material kept under a name of a file. -/
def keep (s : KeyStore) (fileId name material : String) : KeyStore :=
  { s with materials := s.materials.insert (fileId, name) material }

theorem put_eq (h : s.outage = none) (material fileId name : String) :
    s.put material fileId name = .ok (s.keep fileId name material) := by
  simp only [put, keep, h]

theorem of_put {s' : KeyStore} {material fileId name : String}
    (h : s.put material fileId name = .ok s') :
    s.outage = none ∧ s' = s.keep fileId name material := by
  cases hout : s.outage with
  | some e => simp only [put, hout] at h; cases h
  | none =>
    rw [put_eq hout] at h
    exact ⟨rfl, (Except.ok.inj h).symm⟩

theorem fetch_keep_self (h : s.outage = none) (fileId name material : String) :
    (s.keep fileId name material).fetch fileId name = .ok material := by
  simp only [fetch, keep, h, Table.get?_insert_self]

/-- Material under a free name replaces nothing. -/
theorem fetch_keep_of_free {fileId name : String}
    (hfree : s.materials.get? (fileId, name) = none) (material : String)
    {fileId' name' material' : String} (h : s.fetch fileId' name' = .ok material') :
    (s.keep fileId name material).fetch fileId' name' = .ok material' := by
  unfold fetch at h ⊢
  unfold keep
  cases hout : s.outage with
  | some e => simp only [hout] at h; cases h
  | none =>
    simp only [hout] at h ⊢
    have hne : (fileId', name') ≠ (fileId, name) := by
      intro heq
      rw [heq, hfree] at h
      cases h
    rw [Table.get?_insert_of_ne _ _ hne]
    exact h

end KeyStore

namespace Custody

variable {c : Custody} {key : AesKey} {masterKeyId : String} {wrapped : Bytes}

/-- The custody after the service was asked to wrap a key. -/
def askedToWrap (c : Custody) (entropy : Entropy) : Custody :=
  { c with service := { c.service with wraps := c.service.wraps + 1 }, entropy }

theorem onlyCache_askedToWrap (c : Custody) (entropy : Entropy) :
    (c.askedToWrap entropy).OnlyCache c :=
  ⟨.refl _, rfl, rfl, rfl, rfl, rfl⟩

theorem onlyCache_withEntropy (c : Custody) (entropy : Entropy) :
    Custody.OnlyCache { c with entropy } c :=
  ⟨.refl _, rfl, rfl, rfl, rfl, rfl⟩

theorem outage_of_wrapped {s : KeyService} {key wrapped : Bytes} {id : String} {e e' : Entropy}
    (h : s.wrapped key id e = (.ok wrapped, e')) : s.outage = none := by
  unfold KeyService.wrapped at h
  cases hout : s.outage with
  | some err => rw [hout] at h; cases h
  | none => rfl

theorem unwrap_of_wrapped {s : KeyService} {key wrapped : Bytes} {id : String} {e e' : Entropy}
    (h : s.wrapped key id e = (.ok wrapped, e')) :
    s.masterKeys.unwrap wrapped id = .ok key ∧ wrapped ≠ [] := by
  rw [KeyService.wrapped, outage_of_wrapped h] at h
  exact MasterKeys.unwrap_of_wrap h

/-- **What generating a key can come to**: it fails, or a key that the service has wrapped is
placed. -/
theorem generateKey_cases (c : Custody) (masterKeyId : String) :
    (∃ e c', c.generateKey masterKeyId = (.error e, c') ∧ c'.OnlyCache c ∧
      c'.manager = c.manager) ∨
    ∃ key wrapped entropy, c.service.masterKeys.unwrap wrapped masterKeyId = .ok key.bytes ∧
      wrapped ≠ [] ∧ c.generateKey masterKeyId =
        (c.askedToWrap entropy).place key (KeyMaterial.serialize ⟨wrapped, masterKeyId⟩) := by
  unfold generateKey
  cases hlocal : c.manager.wrapLocally with
  | true => exact .inl ⟨_, c, rfl, .refl c, rfl⟩
  | false =>
    cases hgenerate : AesKey.generate c.manager.dataKeyLength c.entropy with
    | mk generated entropy =>
      cases generated with
      | error e =>
        exact .inl ⟨e, { c with entropy }, rfl, onlyCache_withEntropy c entropy, rfl⟩
      | ok key =>
        cases hwrapped : c.service.wrapped key.bytes masterKeyId entropy with
        | mk answer entropy' =>
          simp only [KeyService.wrap, hwrapped]
          cases answer with
          | error e =>
            exact .inl ⟨_, c.askedToWrap entropy', rfl, c.onlyCache_askedToWrap entropy', rfl⟩
          | ok wrapped =>
            obtain ⟨hunwrap, hne⟩ := unwrap_of_wrapped hwrapped
            exact .inr ⟨key, wrapped, entropy', hunwrap, hne, rfl⟩

/-- **What a generation that succeeds has done**: it drew a key, had the service wrap it, and placed
it. -/
theorem of_generateKey {c' : Custody} {dataKey : DataKey}
    (h : c.generateKey masterKeyId = (.ok dataKey, c')) :
    ∃ key wrapped drawn entropy, c.manager.wrapLocally = false ∧
      AesKey.generate c.manager.dataKeyLength c.entropy = (.ok key, drawn) ∧
      c.service.wrapped key.bytes masterKeyId drawn = (.ok wrapped, entropy) ∧
      (c.askedToWrap entropy).place key (KeyMaterial.serialize ⟨wrapped, masterKeyId⟩) =
        (.ok dataKey, c') := by
  unfold generateKey at h
  cases hlocal : c.manager.wrapLocally with
  | true => rw [hlocal] at h; cases h
  | false =>
    cases hgenerate : AesKey.generate c.manager.dataKeyLength c.entropy with
    | mk generated drawn =>
      cases generated with
      | error e => simp only [hlocal, hgenerate] at h; cases h
      | ok key =>
        cases hwrapped : c.service.wrapped key.bytes masterKeyId drawn with
        | mk answer entropy =>
          simp only [hlocal, hgenerate, KeyService.wrap, hwrapped] at h
          cases answer with
          | error e => cases h
          | ok wrapped => exact ⟨key, wrapped, drawn, entropy, rfl, rfl, hwrapped, h⟩

/-! ### Placing keys -/

/-- The custody with material kept under the next name of a file. -/
def withStored (c : Custody) (fileId material : String) : Custody :=
  { c with
    store := c.store.keep fileId (keyName c.manager.counter) material
    manager := { c.manager with counter := c.manager.counter + 1 } }

/-- **What placing a key can come to**, if the store works: its material is the metadata, or it is
kept under the next name, and the name is. -/
theorem place_cases (c : Custody) (hstore : c.store.outage = none) (key : AesKey)
    (material : String) :
    (∃ fileId, c.manager.placement = .inMetadata fileId ∧
      c.place key material = (.ok ⟨key, Text.Utf8.encode material⟩, c)) ∨
    ∃ fileId, c.manager.placement = .inStore fileId ∧
      c.place key material =
        (.ok ⟨key, Text.Utf8.encode (keyName c.manager.counter)⟩,
          c.withStored fileId material) := by
  unfold place
  cases hplacement : c.manager.placement with
  | inMetadata fileId => exact .inl ⟨fileId, rfl, rfl⟩
  | inStore fileId =>
    simp only [KeyStore.put_eq hstore]
    exact .inr ⟨fileId, rfl, rfl⟩

/-- Only the store and what the manager counts were changed. -/
structure OnlyStore (c' c : Custody) : Prop where
  wrapLocally_eq : c'.manager.wrapLocally = c.manager.wrapLocally
  cache_eq : c'.manager.cache = c.manager.cache
  service_eq : c'.service = c.service
  entropy_eq : c'.entropy = c.entropy

/-- Placing a key hands it out, and changes the store at most. -/
theorem of_place {c' : Custody} {material : String} {dataKey : DataKey}
    (h : c.place key material = (.ok dataKey, c')) : dataKey.key = key ∧ c'.OnlyStore c := by
  unfold place at h
  cases hplacement : c.manager.placement with
  | inMetadata _ =>
    simp only [hplacement] at h
    cases h
    exact ⟨rfl, rfl, rfl, rfl, rfl⟩
  | inStore fileId =>
    cases hput : c.store.put material fileId c.manager.nextName with
    | error e => simp only [hplacement, hput] at h; cases h
    | ok store =>
      simp only [hplacement, hput] at h
      cases h
      exact ⟨rfl, rfl, rfl, rfl, rfl⟩

/-- The metadata of a key that is placed lead to the text that is placed. -/
theorem material_of_place {c' : Custody} {text : String} {dataKey : DataKey}
    (h : c.place key text = (.ok dataKey, c')) :
    c'.material dataKey.metadata = KeyMaterial.parse text := by
  unfold place at h
  cases hplacement : c.manager.placement with
  | inMetadata _ =>
    simp only [hplacement] at h
    cases h
    rw [material_encode, hplacement]
  | inStore fileId =>
    cases hput : c.store.put text fileId c.manager.nextName with
    | error e => simp only [hplacement, hput] at h; cases h
    | ok store =>
      obtain ⟨hworks, rfl⟩ := KeyStore.of_put hput
      simp only [hplacement, hput] at h
      cases h
      rw [material_encode]
      simp only [KeyStore.fetch_keep_self hworks]
      rfl

/-- **The metadata of a key that is placed stand for it.** -/
theorem standsFor_place (hstore : c.store.outage = none) (hid : masterKeyId ≠ "")
    (hne : wrapped ≠ [])
    (hunwrap : c.service.masterKeys.unwrap wrapped masterKeyId = .ok key.bytes) :
    ∃ metadata c', c.place key (KeyMaterial.serialize ⟨wrapped, masterKeyId⟩) =
      (.ok ⟨key, metadata⟩, c') ∧ c'.StandsFor metadata key := by
  have hplaced : ∃ metadata c', c.place key (KeyMaterial.serialize ⟨wrapped, masterKeyId⟩) =
      (.ok ⟨key, metadata⟩, c') := by
    rcases c.place_cases hstore key (KeyMaterial.serialize ⟨wrapped, masterKeyId⟩) with
      ⟨_, -, h⟩ | ⟨_, -, h⟩
    · exact ⟨_, _, h⟩
    · exact ⟨_, _, h⟩
  obtain ⟨metadata, c', h⟩ := hplaced
  refine ⟨metadata, c', h, ⟨wrapped, masterKeyId⟩, ?_, ?_⟩
  · exact (material_of_place h).trans (KeyMaterial.parse_serialize hne hid)
  · rw [(of_place h).2.service_eq]
    exact hunwrap

/-- Material under a free name takes nothing away from what metadata stand for. -/
theorem StandsFor.withStored {metadata : Bytes} (h : c.StandsFor metadata key) {fileId : String}
    (hfree : c.store.materials.get? (fileId, keyName c.manager.counter) = none)
    (material : String) : (c.withStored fileId material).StandsFor metadata key :=
  h.mono rfl (fun _ _ _ hfetch => KeyStore.fetch_keep_of_free hfree material hfetch) (.refl _)

/-! ### What a generation leaves behind -/

/-- Generating a key leaves the cache and the clock alone. -/
theorem cache_generateKey (c : Custody) (masterKeyId : String) :
    (c.generateKey masterKeyId).2.manager.cache = c.manager.cache ∧
      (c.generateKey masterKeyId).2.now = c.now := by
  rcases c.generateKey_cases masterKeyId with ⟨e, c', heq, honly, hmanager⟩ | ⟨_, _, _, -, -, heq⟩
  · rw [heq, hmanager]
    exact ⟨rfl, honly.now_eq⟩
  · rw [heq]
    unfold place
    split
    · exact ⟨rfl, rfl⟩
    · dsimp only
      split <;> exact ⟨rfl, rfl⟩

theorem cache_of_generateKey {c' : Custody} {result : Except Error DataKey}
    (h : c.generateKey masterKeyId = (result, c')) :
    c'.manager.cache = c.manager.cache ∧ c'.now = c.now := by
  have hkept := c.cache_generateKey masterKeyId
  rwa [h] at hkept

/-- A key was generated. The service works, and the metadata lead to material from which it unwraps
the key. -/
structure Generated (c : Custody) (masterKeyId : String) (dataKey : DataKey) : Prop where
  wrapsRemotely : c.manager.wrapLocally = false
  serviceWorks : c.service.outage = none
  material : ∃ wrapped, wrapped ≠ [] ∧
    c.material dataKey.metadata = KeyMaterial.parse (KeyMaterial.serialize ⟨wrapped, masterKeyId⟩) ∧
    c.service.masterKeys.unwrap wrapped masterKeyId = .ok dataKey.key.bytes

/-- **A key that is generated can be unwrapped from what its metadata lead to**, if that can be
read. -/
theorem generated_of_generateKey {c' : Custody} {dataKey : DataKey}
    (h : c.generateKey masterKeyId = (.ok dataKey, c')) :
    c'.Generated masterKeyId dataKey := by
  obtain ⟨key, wrapped, drawn, entropy, hlocal, -, hwrapped, hplaced⟩ := of_generateKey h
  obtain ⟨rfl, honly⟩ := of_place hplaced
  obtain ⟨hunwrap, hne⟩ := unwrap_of_wrapped hwrapped
  refine ⟨honly.wrapLocally_eq.trans hlocal, ?_, wrapped, hne, material_of_place hplaced, ?_⟩
  · rw [honly.service_eq]
    exact outage_of_wrapped hwrapped
  · rw [honly.service_eq]
    exact hunwrap

/-- The metadata of a generated key stand for it, if its master key has a name. -/
theorem Generated.standsFor {dataKey : DataKey} (h : c.Generated masterKeyId dataKey)
    (hid : masterKeyId ≠ "") :
    c.StandsFor dataKey.metadata dataKey.key := by
  obtain ⟨wrapped, hne, hmaterial, hunwrap⟩ := h.material
  rw [KeyMaterial.parse_serialize hne hid] at hmaterial
  exact ⟨_, hmaterial, hunwrap⟩

/-! ### Keys are generated -/

theorem exists_generate {length : Nat} (h : length ∈ validKeyLengths) (e : Entropy) :
    ∃ key : AesKey, AesKey.generate length e = (.ok key, e.skip length) := by
  have hlength : (e.next length).length ∈ validKeyLengths := by
    rw [Entropy.length_next]
    exact h
  have hkey : AesKey.ofBytes (e.next length) = .ok ⟨e.next length, hlength⟩ :=
    AesKey.ofBytes_eq_ok_iff.mpr rfl
  refine ⟨⟨e.next length, hlength⟩, ?_⟩
  show (AesKey.ofBytes (e.next length), e.skip length) = _
  rw [hkey]

theorem bytes_of_generate {length : Nat} {e e' : Entropy}
    (h : AesKey.generate length e = (.ok key, e')) :
    key.bytes = e.next length ∧ e' = e.skip length := by
  obtain ⟨hbytes, hskip⟩ : AesKey.ofBytes (e.next length) = .ok key ∧ e.skip length = e' :=
    Prod.mk.inj h
  exact ⟨AesKey.ofBytes_eq_ok_iff.mp hbytes, hskip.symm⟩

theorem length_le_of_valid (key : AesKey) : key.bytes.length ≤ 32 := by
  have hmem := key.length_mem
  simp only [validKeyLengths, List.mem_cons, List.not_mem_nil, or_false] at hmem
  omega

/-- **A service that works wraps keys under every master key that it knows.** -/
theorem exists_generateKey (hlocal : c.manager.wrapLocally = false)
    (hlength : c.manager.dataKeyLength ∈ validKeyLengths) (hworks : c.service.outage = none)
    (hstore : c.store.outage = none) {master : AesKey}
    (hmaster : Table.get? c.service.masterKeys masterKeyId = some master) :
    ∃ dataKey c', c.generateKey masterKeyId = (.ok dataKey, c') := by
  obtain ⟨key, hgenerate⟩ := exists_generate hlength c.entropy
  obtain ⟨wrapped, entropy, hwrap⟩ := MasterKeys.wrap_of_get? hmaster (length_le_of_valid key)
    (c.entropy.skip c.manager.dataKeyLength)
  have hwrapped : c.service.wrapped key.bytes masterKeyId
      (c.entropy.skip c.manager.dataKeyLength) = (.ok wrapped, entropy) := by
    unfold KeyService.wrapped
    rw [hworks]
    exact hwrap
  have hplace : c.generateKey masterKeyId =
      (c.askedToWrap entropy).place key (KeyMaterial.serialize ⟨wrapped, masterKeyId⟩) := by
    unfold generateKey KeyService.wrap
    simp only [hlocal, hgenerate, hwrapped]
    rfl
  rw [hplace]
  rcases (c.askedToWrap entropy).place_cases hstore key
    (KeyMaterial.serialize ⟨wrapped, masterKeyId⟩) with ⟨_, -, h⟩ | ⟨_, -, h⟩
  · exact ⟨_, _, h⟩
  · exact ⟨_, _, h⟩

/-! ### Random bytes -/

theorem entropy_of_wrapped {s : KeyService} {bytes : Bytes} {id : String} {e e' : Entropy}
    (h : s.wrapped bytes id e = (.ok wrapped, e')) : e' = e.skip Nonce.length := by
  rw [KeyService.wrapped, outage_of_wrapped h] at h
  cases hc : s.masterKeys.cipher id with
  | error err =>
    simp only [MasterKeys.wrap, hc] at h
    cases h
  | ok c =>
    simp only [MasterKeys.wrap, hc] at h
    exact (congrArg Prod.snd h).symm

/-- **A key is made of the next random bytes**, and those of a nonce are used up, too. -/
theorem entropy_of_generateKey {c' : Custody} {dataKey : DataKey}
    (h : c.generateKey masterKeyId = (.ok dataKey, c')) :
    dataKey.key.bytes = c.entropy.next c.manager.dataKeyLength ∧
      c'.entropy = (c.entropy.skip c.manager.dataKeyLength).skip Nonce.length := by
  obtain ⟨key, wrapped, drawn, entropy, -, hgenerate, hwrapped, hplaced⟩ := of_generateKey h
  obtain ⟨rfl, honly⟩ := of_place hplaced
  obtain ⟨hbytes, rfl⟩ := bytes_of_generate hgenerate
  rw [honly.entropy_eq]
  exact ⟨hbytes, entropy_of_wrapped hwrapped⟩

end Custody

end ModularEncryption
