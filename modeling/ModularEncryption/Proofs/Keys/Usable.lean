import ModularEncryption.Proofs.Keys.Shared

/-! # Settings that are accepted can be used

Properties that are accepted give settings with keys of a valid length and with room in the cache
(`Settings.Usable`). So a manager is made for them if memory allows for its cache
(`create_of_usable`), and under every master key that the service knows it generates keys that are
retrieved again (`generateKey_of_usable`).

Nothing looks at how large the cache is to be, nor at how long keys are to stay in it. A manager is
made exactly if the table of its cache fits into memory, and a key is retrieved exactly if the clock
can show when it would expire (`retrieveKey_of_ofProperties`). So there are settings that are
accepted and cannot be used (`accepted_unusable`): for the largest cache no manager is made, and
with a lifetime that is longer than the clock runs keys are generated that nobody retrieves. -/

namespace ModularEncryption

/-! ### What settings are checked for -/

/-- What the checks of properties are about. -/
structure Settings.Usable (s : Settings) : Prop where
  length_mem : s.dataKeyLength ∈ validKeyLengths
  capacity_pos : 0 < s.keyCacheCapacity

/-- **Properties that are accepted give usable settings.** -/
theorem Settings.usable_of_ofProperties {properties : Table String String} {s : Settings}
    (h : ofProperties properties = .ok s) : s.Usable := by
  simp only [ofProperties, bind_eq_ok_iff, refuseIf_eq_ok_iff] at h
  obtain ⟨bits, -, -, hbits, capacity, -, -, hcapacity, suite, -, wrapLocally, -, seconds, -, h⟩ :=
    h
  cases h
  rw [not_or, not_not] at hbits
  exact ⟨not_not.mp hbits.2, Nat.pos_of_ne_zero hcapacity⟩

namespace KeyManager

/-- The manager that is made for usable settings. -/
def made {s : Settings} (h : s.Usable) (placement : Placement) : KeyManager :=
  { wrapLocally := s.wrapLocally
    placement
    dataKeyLength := s.dataKeyLength
    cache :=
      { lifetime := s.keyCacheLifetime
        capacity := s.keyCacheCapacity
        capacity_pos := h.capacity_pos } }

theorem exists_placementOf {hasStore : Bool} {fileId : Option String}
    (h : hasStore = true → fileId.isSome = true) :
    ∃ placement, placementOf hasStore fileId = .ok placement := by
  cases hasStore with
  | false => exact ⟨_, rfl⟩
  | true =>
    obtain ⟨id, rfl⟩ := Option.isSome_iff_exists.mp (h rfl)
    exact ⟨_, rfl⟩

variable {tableLimit : Nat} {hasStore : Bool} {fileId : Option String} {placement : Placement}

/-- If a store comes with a file, a manager is made exactly if its cache is. -/
theorem create_eq (s : Settings) (hplacement : placementOf hasStore fileId = .ok placement) :
    create tableLimit s true hasStore fileId = (do
      let cache ← KeyCache.create tableLimit s.keyCacheLifetime s.keyCacheCapacity
      return { wrapLocally := s.wrapLocally
               placement
               dataKeyLength := s.dataKeyLength
               cache }) := by
  have hrefuse : refuseIf (s.wrapLocally = false ∧ true = false)
      .serverSideWrappingUnsupported = .ok () := refuseIf_eq_ok_iff.mpr (by simp)
  simp only [create, hrefuse, hplacement]
  rfl

/-- **A manager is made for usable settings**, if a store comes with a file and memory allows for
the cache. -/
theorem create_of_usable {s : Settings} (h : s.Usable) (hlimit : s.keyCacheCapacity ≤ tableLimit)
    (hplacement : placementOf hasStore fileId = .ok placement) :
    create tableLimit s true hasStore fileId = .ok (made h placement) := by
  rw [create_eq s hplacement, KeyCache.create_of_le _ h.capacity_pos hlimit]
  rfl

/-- **No manager is made if memory does not allow for the cache.** -/
theorem create_of_lt {s : Settings} (hlimit : tableLimit < s.keyCacheCapacity)
    (hplacement : placementOf hasStore fileId = .ok placement) :
    create tableLimit s true hasStore fileId = .error .tableOverflow := by
  rw [create_eq s hplacement, KeyCache.create_of_lt _ hlimit]
  rfl

end KeyManager

namespace Custody

/-! ### Keys of a new manager -/

/-- **A key is retrieved by an empty cache exactly if the clock can show when it will expire.** -/
theorem retrieveKey_eq {c : Custody} {metadata : Bytes} {key : AesKey}
    (hlocal : c.manager.wrapLocally = false) (hworks : c.service.outage = none)
    (hcache : c.manager.cache.entries = []) (h : c.StandsFor metadata key) :
    (c.retrieveKey metadata).1 =
      if c.now + c.manager.cache.lifetime < endOfTime then .ok key.bytes
      else .error .clockOverflow := by
  have hget : c.manager.cache.get c.now metadata = (none, c.manager.cache) := by
    refine KeyCache.get_of_forall_ne fun e he => ?_
    rw [hcache] at he
    exact absurd he List.not_mem_nil
  rcases c.retrieveKey_cases metadata with ⟨key', hfound, -⟩ | ⟨-, heq⟩
  · rw [hget] at hfound
    cases hfound
  · rw [heq, hget]
    exact recoverKey_eq (c := c.withCache c.manager.cache) hlocal hworks h

end Custody

/-! ### From properties to keys -/

/-- A service and a store that work, and a master key with a name that the service knows. -/
structure KeyService.Serves (service : KeyService) (store : KeyStore) (masterKeyId : String) :
    Prop where
  serverSide : service.serverSide = true
  works : service.outage = none
  storeWorks : store.outage = none
  named : masterKeyId ≠ ""
  known : (Table.get? service.masterKeys masterKeyId).isSome = true

namespace Custody

variable {service : KeyService} {store : KeyStore} {masterKeyId : String}

/-- A manager for usable settings generates a key, and it is retrieved at every time from which the
clock goes on for its lifetime in the cache. -/
theorem generateKey_of_usable {s : Settings} (h : s.Usable)
    (hserves : service.Serves store masterKeyId) (hlocal : s.wrapLocally = false)
    (placement : Placement) (entropy : Entropy) (now : Instant) :
    ∃ dataKey c, Custody.generateKey ⟨.made h placement, service, store, entropy, now⟩ masterKeyId =
        (.ok dataKey, c) ∧
      ∀ later : Instant, (Custody.retrieveKey { c with now := later } dataKey.metadata).1 =
        if later + s.keyCacheLifetime < endOfTime then .ok dataKey.key.bytes
        else .error .clockOverflow := by
  obtain ⟨master, hmaster⟩ := Option.isSome_iff_exists.mp hserves.known
  obtain ⟨dataKey, c, hgenerate⟩ := exists_generateKey
    (c := ⟨.made h placement, service, store, entropy, now⟩) hlocal h.length_mem hserves.works
    hserves.storeWorks hmaster
  have hgenerated := generated_of_generateKey hgenerate
  have hcache : c.manager.cache = (KeyManager.made h placement).cache :=
    (cache_of_generateKey hgenerate).1
  refine ⟨dataKey, c, hgenerate, fun later => ?_⟩
  have hretrieve := retrieveKey_eq (c := { c with now := later }) hgenerated.wrapsRemotely
    hgenerated.serviceWorks (congrArg KeyCache.entries hcache)
    (hgenerated.standsFor hserves.named)
  have hlifetime : c.manager.cache.lifetime = s.keyCacheLifetime :=
    congrArg KeyCache.lifetime hcache
  simpa only [hlifetime] using hretrieve

end Custody

/-- **Settings that are accepted can be used**, as long as memory allows for the cache and the clock
goes on for the lifetime of keys in it. A manager is made, unless the table of its cache is too
large for memory; and unless keys are to be wrapped locally, it generates a key under every master
key that the service knows, and the key is retrieved at a time exactly if the clock can show when it
will expire. Neither the size of the cache nor the lifetime is looked at before. -/
theorem retrieveKey_of_ofProperties {properties : Table String String} {settings : Settings}
    {service : KeyService} {store : KeyStore} {masterKeyId : String}
    (haccepted : Settings.ofProperties properties = .ok settings)
    (hserves : service.Serves store masterKeyId) {hasStore : Bool} {fileId : Option String}
    (hfile : hasStore = true → fileId.isSome = true) (tableLimit : Nat) (entropy : Entropy)
    (now : Instant) :
    (tableLimit < settings.keyCacheCapacity →
      KeyManager.create tableLimit settings service.serverSide hasStore fileId =
        .error .tableOverflow) ∧
    (settings.keyCacheCapacity ≤ tableLimit →
      ∃ manager,
        KeyManager.create tableLimit settings service.serverSide hasStore fileId = .ok manager ∧
        (settings.wrapLocally = false →
          ∃ dataKey c, Custody.generateKey ⟨manager, service, store, entropy, now⟩ masterKeyId =
            (.ok dataKey, c) ∧
          ∀ later : Instant, (Custody.retrieveKey { c with now := later } dataKey.metadata).1 =
            if later + settings.keyCacheLifetime < endOfTime then .ok dataKey.key.bytes
            else .error .clockOverflow)) := by
  have husable := Settings.usable_of_ofProperties haccepted
  obtain ⟨placement, hplacement⟩ := KeyManager.exists_placementOf hfile
  rw [hserves.serverSide]
  refine ⟨fun hlimit => KeyManager.create_of_lt hlimit hplacement, fun hlimit => ?_⟩
  refine ⟨.made husable placement, KeyManager.create_of_usable husable hlimit hplacement,
    fun hlocal => ?_⟩
  exact Custody.generateKey_of_usable husable hserves hlocal placement entropy now

namespace Settings.Sample

/-- A service with one master key. -/
def service : KeyService := { masterKeys := .ofList [("m", SharedCustody.Sample.master)] }

theorem serves : service.Serves {} "m" := ⟨rfl, rfl, rfl, by decide, rfl⟩

/-- Keys of 256 bits, kept in the cache for a minute. -/
def minute : Table String String :=
  .ofList [("parquet.encryption.data.key.length.bits", "256"),
    ("parquet.encryption.key.cache.lifetime.seconds", " 60 ")]

/-- The settings with keys of 256 bits that are kept for a minute. -/
def minuteSettings : Settings :=
  { Settings.default with dataKeyLengthBits := 256, keyCacheLifetime := 60 * second }

theorem ofProperties_minute : ofProperties minute = .ok minuteSettings := by
  rfl

/-- The longest lifetime that is accepted. -/
def endless : Table String String :=
  .ofList [("parquet.encryption.key.cache.lifetime.seconds", "18446744073709551615")]

/-- The settings with the longest lifetime. -/
def endlessSettings : Settings :=
  { Settings.default with keyCacheLifetime := 18446744073709551615 * second }

theorem ofProperties_endless : ofProperties endless = .ok endlessSettings := by
  rfl

/-- The largest cache that is accepted. -/
def boundless : Table String String :=
  .ofList [("parquet.encryption.key.cache.capacity", "18446744073709551615")]

/-- The settings with the largest cache. -/
def boundlessSettings : Settings :=
  { Settings.default with keyCacheCapacity := 18446744073709551615 }

theorem ofProperties_boundless : ofProperties boundless = .ok boundlessSettings := by
  rfl

end Settings.Sample

open Settings.Sample in
/-- With memory for a thousand entries a key is generated for a file in a store, and retrieved a day
later; for the largest cache no manager is made. -/
theorem retrieveKey_of_ofProperties_minute :
    service.Serves {} "m" ∧ Settings.ofProperties boundless = .ok boundlessSettings ∧
      KeyManager.create 1000 boundlessSettings service.serverSide true (some "f") =
        .error .tableOverflow ∧
      Settings.ofProperties minute = .ok minuteSettings ∧ ∃ manager dataKey c,
        KeyManager.create 1000 minuteSettings service.serverSide true (some "f") = .ok manager ∧
        Custody.generateKey ⟨manager, service, {}, ⟨fun _ => 0, 0⟩, 0⟩ "m" = (.ok dataKey, c) ∧
        (Custody.retrieveKey { c with now := 86400 * second } dataKey.metadata).1 =
          .ok dataKey.key.bytes := by
  have hfile : true = true → (some "f").isSome = true := fun _ => rfl
  obtain ⟨hoverflow, -⟩ :=
    retrieveKey_of_ofProperties ofProperties_boundless serves hfile 1000 ⟨fun _ => 0, 0⟩ 0
  obtain ⟨-, hmade⟩ :=
    retrieveKey_of_ofProperties ofProperties_minute serves hfile 1000 ⟨fun _ => 0, 0⟩ 0
  obtain ⟨manager, hcreate, hkeys⟩ := hmade (by decide)
  obtain ⟨dataKey, c, hgenerate, hretrieve⟩ := hkeys rfl
  have hclock : 86400 * second + minuteSettings.keyCacheLifetime < endOfTime := by decide
  have hday := hretrieve (86400 * second)
  rw [if_pos hclock] at hday
  exact ⟨serves, ofProperties_boundless, hoverflow (by decide), ofProperties_minute, manager,
    dataKey, c, hcreate, hgenerate, hday⟩

open Settings.Sample in
/-- With the longest lifetime no key is retrieved: the clock runs over. -/
theorem retrieveKey_endless : endlessSettings.wrapLocally = false ∧ ∃ manager dataKey c,
    KeyManager.create 1000 endlessSettings service.serverSide false none = .ok manager ∧
      Custody.generateKey ⟨manager, service, {}, ⟨fun _ => 0, 0⟩, 0⟩ "m" = (.ok dataKey, c) ∧
      (c.retrieveKey dataKey.metadata).1 = .error .clockOverflow := by
  have husable := Settings.usable_of_ofProperties ofProperties_endless
  obtain ⟨dataKey, c, hgenerate, hretrieve⟩ := Custody.generateKey_of_usable husable serves rfl
    (.inMetadata none) ⟨fun _ => 0, 0⟩ 0
  have hlong : endOfTime ≤ endlessSettings.keyCacheLifetime := by decide
  have hclock : ¬ c.now + endlessSettings.keyCacheLifetime < endOfTime :=
    Nat.not_lt.mpr (Nat.le_trans hlong (Nat.le_add_left _ _))
  have hnow := hretrieve c.now
  rw [if_neg hclock] at hnow
  exact ⟨rfl, .made husable (.inMetadata none), dataKey, c,
    KeyManager.create_of_usable husable (by decide) rfl, hgenerate, hnow⟩

open Settings.Sample in
/-- **There are settings that are accepted and cannot be used.** For the largest cache no manager is
made, unless memory allows for a table of 2⁶⁴ - 1 entries; and with the longest lifetime a manager
is made and a key is generated, but the key is not retrieved. -/
theorem accepted_unusable :
    service.Serves {} "m" ∧
      (Settings.ofProperties boundless = .ok boundlessSettings ∧
        ∀ tableLimit < 18446744073709551615,
          KeyManager.create tableLimit boundlessSettings service.serverSide false none =
            .error .tableOverflow) ∧
      Settings.ofProperties endless = .ok endlessSettings ∧ endlessSettings.wrapLocally = false ∧
      ∃ manager dataKey c,
        KeyManager.create 1000 endlessSettings service.serverSide false none = .ok manager ∧
        Custody.generateKey ⟨manager, service, {}, ⟨fun _ => 0, 0⟩, 0⟩ "m" = (.ok dataKey, c) ∧
        (c.retrieveKey dataKey.metadata).1 = .error .clockOverflow :=
  have hboundless : ∀ tableLimit < boundlessSettings.keyCacheCapacity,
      KeyManager.create tableLimit boundlessSettings true false none = .error .tableOverflow :=
    fun _ hlimit => KeyManager.create_of_lt hlimit rfl
  ⟨serves, ⟨ofProperties_boundless, hboundless⟩, ofProperties_endless, retrieveKey_endless⟩

end ModularEncryption
