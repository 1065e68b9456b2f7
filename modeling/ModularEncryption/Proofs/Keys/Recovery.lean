import ModularEncryption.Error.Refusal
import ModularEncryption.Keys.Manager
import ModularEncryption.Proofs.Keys.Cache
import ModularEncryption.Proofs.Keys.Material
import ModularEncryption.Proofs.Keys.Service

/-! # Recovering keys

Metadata stand for a key (`Custody.StandsFor`) if the material that they lead to is the key wrapped
under a master key of the service. Caches and outages have no part in it. A cache is right if every
key in it is the one that its metadata stand for. Recovering keys keeps a cache right and changes
nothing else (`retrieveKey_onlyCache`, `retrieveKey_holds`), and from a right cache or from a
service that works a key is recovered as what its metadata stand for
(`retrieveKey_of_standsFor`). -/

namespace ModularEncryption

/-- A manager has the configuration of another. -/
structure KeyManager.Like (m' m : KeyManager) : Prop where
  wrapLocally_eq : m'.wrapLocally = m.wrapLocally
  placement_eq : m'.placement = m.placement
  lifetime_eq : m'.cache.lifetime = m.cache.lifetime

theorem KeyManager.Like.refl (m : KeyManager) : m.Like m := ⟨rfl, rfl, rfl⟩

theorem KeyManager.Like.trans {m m' m'' : KeyManager} (h' : m''.Like m') (h : m'.Like m) :
    m''.Like m :=
  ⟨h'.wrapLocally_eq.trans h.wrapLocally_eq, h'.placement_eq.trans h.placement_eq,
    h'.lifetime_eq.trans h.lifetime_eq⟩

theorem KeyStore.isSome_of_fetch {s : KeyStore} {fileId name material : String}
    (h : s.fetch fileId name = .ok material) :
    (s.materials.get? (fileId, name)).isSome = true := by
  unfold fetch at h
  cases hget : s.materials.get? (fileId, name) with
  | some stored => rfl
  | none =>
    rw [hget] at h
    cases hout : s.outage with
    | some e => rw [hout] at h; cases h
    | none => rw [hout] at h; cases h

namespace Custody

variable {c c' : Custody} {metadata : Bytes} {key : AesKey}

/-! ### What metadata stand for -/

/-- The material that metadata lead to is a key wrapped under a master key of the service. -/
def StandsFor (c : Custody) (metadata : Bytes) (key : AesKey) : Prop :=
  ∃ m, c.material metadata = .ok m ∧
    c.service.masterKeys.unwrap m.wrappedKey m.masterKeyId = .ok key.bytes

theorem StandsFor.unique {key' : AesKey} (h : c.StandsFor metadata key)
    (h' : c.StandsFor metadata key') : key.bytes = key'.bytes := by
  obtain ⟨m, hm, hkey⟩ := h
  obtain ⟨m', hm', hkey'⟩ := h'
  obtain rfl : m = m' := Except.ok.inj (hm.symm.trans hm')
  exact Except.ok.inj (hkey.symm.trans hkey')

/-- The material of metadata that are text is parsed from the text, or from what is stored under
it. -/
theorem material_encode (c : Custody) (text : String) :
    c.material (Text.Utf8.encode text) =
      match c.manager.placement with
      | .inMetadata _ => KeyMaterial.parse text
      | .inStore fileId => c.store.fetch fileId text >>= KeyMaterial.parse := by
  unfold material
  cases c.manager.placement with
  | inMetadata _ => simp only [Text.Utf8.decode_encode]
  | inStore fileId => simp only [Text.Utf8.decode_encode]

theorem isSome_of_material {m : KeyMaterial} {fileId name : String}
    (hplacement : c.manager.placement = .inStore fileId)
    (h : c.material (Text.Utf8.encode name) = .ok m) :
    (c.store.materials.get? (fileId, name)).isSome = true := by
  rw [material_encode, hplacement] at h
  obtain ⟨stored, hstored, -⟩ := bind_eq_ok_iff.mp h
  exact KeyStore.isSome_of_fetch hstored

/-- What metadata stand for only depends on where material is kept, on the material that is kept
there and on the master keys, and more of these do no harm. -/
theorem StandsFor.mono (h : c.StandsFor metadata key)
    (hplacement : c'.manager.placement = c.manager.placement)
    (hstore : ∀ fileId name material, c.store.fetch fileId name = .ok material →
      c'.store.fetch fileId name = .ok material)
    (hmaster : c'.service.masterKeys.Extends c.service.masterKeys) :
    c'.StandsFor metadata key := by
  obtain ⟨m, hm, hkey⟩ := h
  refine ⟨m, ?_, MasterKeys.unwrap_of_extends hmaster hkey⟩
  cases hdecode : Text.Utf8.decode metadata with
  | error fault =>
    -- what is no text leads to no material
    simp only [material, hdecode] at hm
    cases hm
  | ok text =>
    obtain rfl := Text.Utf8.decode_eq_ok_iff.mp hdecode
    rw [material_encode] at hm ⊢
    rw [hplacement]
    cases hp : c.manager.placement with
    | inMetadata _ => simpa only [hp] using hm
    | inStore fileId =>
      simp only [hp] at hm ⊢
      obtain ⟨stored, hstored, hparse⟩ := bind_eq_ok_iff.mp hm
      exact bind_eq_ok_iff.mpr ⟨stored, hstore fileId text stored hstored, hparse⟩

theorem StandsFor.congr (hplacement : c'.manager.placement = c.manager.placement)
    (hstore : c'.store = c.store) (hmaster : c'.service.masterKeys = c.service.masterKeys) :
    c'.StandsFor = c.StandsFor := by
  unfold StandsFor material
  rw [hplacement, hstore, hmaster]

/-! ### Steps that change a cache only -/

/-- Nothing that keys are recovered from was changed; the cache may have been. -/
structure OnlyCache (c' c : Custody) : Prop where
  like : c'.manager.Like c.manager
  counter_eq : c'.manager.counter = c.manager.counter
  store_eq : c'.store = c.store
  masterKeys_eq : c'.service.masterKeys = c.service.masterKeys
  outage_eq : c'.service.outage = c.service.outage
  now_eq : c'.now = c.now

theorem OnlyCache.refl (c : Custody) : c.OnlyCache c :=
  ⟨.refl _, rfl, rfl, rfl, rfl, rfl⟩

theorem OnlyCache.trans {c'' : Custody} (h' : c''.OnlyCache c') (h : c'.OnlyCache c) :
    c''.OnlyCache c where
  like := h'.like.trans h.like
  counter_eq := h'.counter_eq.trans h.counter_eq
  store_eq := h'.store_eq.trans h.store_eq
  masterKeys_eq := h'.masterKeys_eq.trans h.masterKeys_eq
  outage_eq := h'.outage_eq.trans h.outage_eq
  now_eq := h'.now_eq.trans h.now_eq

/-- The custody with another cache. -/
def withCache (c : Custody) (cache : KeyCache) : Custody :=
  { c with manager := { c.manager with cache } }

theorem onlyCache_withCache (c : Custody) {cache : KeyCache}
    (h : cache.lifetime = c.manager.cache.lifetime) : (c.withCache cache).OnlyCache c :=
  ⟨⟨rfl, rfl, h⟩, rfl, rfl, rfl, rfl, rfl⟩

/-- The custody after the service was asked to unwrap a key. -/
def asked (c : Custody) : Custody :=
  { c with service := { c.service with unwraps := c.service.unwraps + 1 } }

theorem onlyCache_asked (c : Custody) : c.asked.OnlyCache c :=
  ⟨.refl _, rfl, rfl, rfl, rfl, rfl⟩

/-- **The service unwraps a key, and it is put into the cache; or only the service was asked.** -/
theorem unwrap_cases (c : Custody) (metadata : Bytes) (m : KeyMaterial) :
    (∃ f, c.unwrap metadata m = (.error f, c.asked)) ∨
      ∃ key cache, c.service.unwrapped m.wrappedKey m.masterKeyId = .ok key.bytes ∧
        c.manager.cache.insert c.now metadata key = .ok cache ∧
        c.unwrap metadata m = (.ok key.bytes, c.asked.withCache cache) := by
  unfold unwrap KeyService.unwrap
  cases hunwrapped : c.service.unwrapped m.wrappedKey m.masterKeyId with
  | error e => exact .inl ⟨.error e, rfl⟩
  | ok bytes =>
    cases hkey : AesKey.ofBytes bytes with
    | error e => exact .inl ⟨.error e, by simp only [hkey]; rfl⟩
    | ok key =>
      obtain rfl := AesKey.ofBytes_eq_ok_iff.mp hkey
      cases hinsert : c.manager.cache.insert c.now metadata key with
      | error f => exact .inl ⟨f, by simp only [hkey, hinsert]; rfl⟩
      | ok cache => exact .inr ⟨key, cache, rfl, hinsert, by simp only [hkey, hinsert]; rfl⟩

theorem unwrap_of_unwrapped {s : KeyService} {wrapped bytes : Bytes} {id : String}
    (h : s.unwrapped wrapped id = .ok bytes) : s.masterKeys.unwrap wrapped id = .ok bytes := by
  unfold KeyService.unwrapped at h
  cases hout : s.outage with
  | some e => rw [hout] at h; cases h
  | none => rwa [hout] at h

/-- What is done about a key that is not in the cache: there is no way to its material, or the
service is asked to unwrap that. -/
def recoverKey (c : Custody) (metadata : Bytes) : Except Failure Bytes × Custody :=
  if c.manager.wrapLocally then (.error (.error { cause := .localWrappingUnsupported }), c)
  else
    match c.material metadata with
    | .error e => (.error (.error (e.withContext "key_metadata" (Text.shown metadata))), c)
    | .ok m => c.unwrap metadata m

theorem recoverKey_cases (c : Custody) (metadata : Bytes) :
    ((c.manager.wrapLocally = true ∨ ∃ e, c.material metadata = .error e) ∧
      ∃ f, c.recoverKey metadata = (.error f, c)) ∨
    ∃ m, c.material metadata = .ok m ∧ c.recoverKey metadata = c.unwrap metadata m := by
  unfold recoverKey
  cases c.manager.wrapLocally with
  | true => exact .inl ⟨.inl rfl, _, rfl⟩
  | false =>
    cases c.material metadata with
    | error e => exact .inl ⟨.inr ⟨e, rfl⟩, _, rfl⟩
    | ok m => exact .inr ⟨m, rfl, rfl⟩

/-- **A key is found in the cache, or else recovered**, when the cache has been looked at. -/
theorem retrieveKey_cases (c : Custody) (metadata : Bytes) :
    (∃ key, (c.manager.cache.get c.now metadata).1 = some key ∧
      c.retrieveKey metadata =
        (.ok key.bytes, c.withCache (c.manager.cache.get c.now metadata).2)) ∨
    ((c.manager.cache.get c.now metadata).1 = none ∧
      c.retrieveKey metadata =
        (c.withCache (c.manager.cache.get c.now metadata).2).recoverKey metadata) := by
  unfold retrieveKey
  cases hget : c.manager.cache.get c.now metadata with
  | mk found cache =>
    cases found with
    | some key => exact .inl ⟨key, rfl, rfl⟩
    | none => exact .inr ⟨rfl, rfl⟩

/-! ### Recovery -/

theorem unwrap_onlyCache (c : Custody) (metadata : Bytes) (m : KeyMaterial) :
    (c.unwrap metadata m).2.OnlyCache c := by
  rcases c.unwrap_cases metadata m with ⟨f, h⟩ | ⟨key, cache, -, hinsert, h⟩
  · rw [h]
    exact onlyCache_asked c
  · rw [h]
    exact (onlyCache_withCache c.asked (KeyCache.lifetime_insert hinsert)).trans (onlyCache_asked c)

theorem recoverKey_onlyCache (c : Custody) (metadata : Bytes) :
    (c.recoverKey metadata).2.OnlyCache c := by
  rcases c.recoverKey_cases metadata with ⟨-, f, h⟩ | ⟨m, -, h⟩
  · rw [h]
    exact .refl c
  · rw [h]
    exact c.unwrap_onlyCache metadata m

/-- **Retrieving a key changes caches only.** -/
theorem retrieveKey_onlyCache (c : Custody) (metadata : Bytes) :
    (c.retrieveKey metadata).2.OnlyCache c := by
  have hget := onlyCache_withCache c (c.manager.cache.lifetime_get c.now metadata)
  rcases c.retrieveKey_cases metadata with ⟨key, -, h⟩ | ⟨-, h⟩
  · rw [h]
    exact hget
  · rw [h]
    exact (recoverKey_onlyCache _ metadata).trans hget

theorem unwrap_holds {m : KeyMaterial} (h : c.manager.cache.Holds c.StandsFor)
    (hm : c.material metadata = .ok m) :
    (c.unwrap metadata m).2.manager.cache.Holds c.StandsFor := by
  rcases c.unwrap_cases metadata m with ⟨f, heq⟩ | ⟨key, cache, hunwrapped, hinsert, heq⟩
  · rw [heq]
    exact h
  · rw [heq]
    exact h.insert ⟨m, hm, unwrap_of_unwrapped hunwrapped⟩ hinsert

theorem recoverKey_holds (h : c.manager.cache.Holds c.StandsFor) (metadata : Bytes) :
    (c.recoverKey metadata).2.manager.cache.Holds c.StandsFor := by
  rcases c.recoverKey_cases metadata with ⟨-, f, heq⟩ | ⟨m, hm, heq⟩
  · rw [heq]
    exact h
  · rw [heq]
    exact unwrap_holds h hm

/-- **Retrieving a key keeps a right cache right.** -/
theorem retrieveKey_holds (h : c.manager.cache.Holds c.StandsFor) (metadata : Bytes) :
    (c.retrieveKey metadata).2.manager.cache.Holds c.StandsFor := by
  have hget := (h.get c.now metadata).2
  rcases c.retrieveKey_cases metadata with ⟨key, -, heq⟩ | ⟨-, heq⟩
  · rw [heq]
    exact hget
  · rw [heq]
    exact recoverKey_holds (c := c.withCache _) hget metadata

/-- **What metadata stand for is recovered exactly if the clock can show when it will expire**, as
long as the service works. -/
theorem recoverKey_eq (hlocal : c.manager.wrapLocally = false) (hworks : c.service.outage = none)
    (h : c.StandsFor metadata key) :
    (c.recoverKey metadata).1 =
      if c.now + c.manager.cache.lifetime < endOfTime then .ok key.bytes
      else .error .clockOverflow := by
  obtain ⟨m, hm, hkey⟩ := h
  have hunwrapped : c.service.unwrapped m.wrappedKey m.masterKeyId = .ok key.bytes := by
    rw [KeyService.unwrapped, hworks]
    exact hkey
  have hbytes : AesKey.ofBytes key.bytes = .ok key := AesKey.ofBytes_eq_ok_iff.mpr rfl
  unfold recoverKey unwrap KeyService.unwrap
  simp only [hlocal, hm, hunwrapped, hbytes]
  by_cases hclock : c.now + c.manager.cache.lifetime < endOfTime
  · simp only [KeyCache.insert_eq _ key hclock, if_pos hclock]
    rfl
  · simp only [KeyCache.insert_of_late _ key hclock, if_neg hclock]
    rfl

theorem recoverKey_of_standsFor (hlocal : c.manager.wrapLocally = false)
    (hworks : c.service.outage = none) (hclock : c.now + c.manager.cache.lifetime < endOfTime)
    (h : c.StandsFor metadata key) : ∃ c', c.recoverKey metadata = (.ok key.bytes, c') := by
  have hresult := recoverKey_eq hlocal hworks h
  rw [if_pos hclock] at hresult
  exact ⟨_, Prod.ext hresult rfl⟩

/-- **A key is retrieved as what its metadata stand for**, if the service works, the cache is right
and what it takes in does not expire after the end of time. -/
theorem retrieveKey_of_standsFor (hlocal : c.manager.wrapLocally = false)
    (hworks : c.service.outage = none) (hclock : c.now + c.manager.cache.lifetime < endOfTime)
    (hcache : c.manager.cache.Holds c.StandsFor) (h : c.StandsFor metadata key) :
    ∃ c', c.retrieveKey metadata = (.ok key.bytes, c') := by
  rcases c.retrieveKey_cases metadata with ⟨key', hfound, heq⟩ | ⟨-, heq⟩
  · rw [h.unique ((hcache.get c.now metadata).1 key' hfound)]
    exact ⟨_, heq⟩
  · have hclock' : c.now + (c.manager.cache.get c.now metadata).2.lifetime < endOfTime := by
      rwa [KeyCache.lifetime_get]
    rw [heq]
    exact recoverKey_of_standsFor (c := c.withCache _) hlocal hworks hclock' h

end Custody

end ModularEncryption
