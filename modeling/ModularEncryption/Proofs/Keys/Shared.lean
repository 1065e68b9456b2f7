import ModularEncryption.Proofs.Keys.Generation

/-! # Managers that share a service and a store

Any number of managers of one configuration work over one service and one store, and one of them
generates keys (`SharedCustody`). Time passes, keys are generated and retrieved, caches are emptied,
further managers are made, master keys are added, and the service may be out of order for a while
(`SharedCustody.step`). What is asked of these events is said by `SharedCustody.Allows`: master keys
are named by something, new master keys have new names, and the clock does not run out.

Every key that was handed out is recovered from its metadata whenever the service works, by all the
managers (`retrieveKey_of_reaches`). This follows from an invariant (`SharedCustody.Sound`): the
metadata that were handed out stand for their keys, all caches are right, and no names in the store
are taken but those of the keys (`SharedCustody.Numbered`). Events keep the invariant because they
disturb nothing that keys are recovered from (`SharedCustody.Undisturbed`) or only add to it
(`Sound.addMasterKey`, `Sound.generate`). -/

namespace ModularEncryption

/-- Managers over one service and one store. -/
structure SharedCustody where
  /-- The manager that generates keys, with the service and the store. -/
  custody : Custody
  /-- The other managers, which generate nothing. -/
  others : List KeyManager
  /-- A manager of the configuration as it is made. -/
  fresh : KeyManager
  /-- The keys handed out so far, the first one first. -/
  handed : List DataKey

/-- What may happen; a manager is the one that generates keys, or another by its number. -/
inductive CustodyEvent where
  | generate (masterKeyId : String)
  | retrieve (manager : Option Nat) (metadata : Bytes)
  | evictExpired (manager : Option Nat)
  | clearCache (manager : Option Nat)
  | makeManager
  | pass (d : Duration)
  | addMasterKey (id : String) (bytes : Bytes)
  | setOutage (outage : Option Error)

namespace SharedCustody

/-! ### Events -/

/-- A manager with the service and the store. -/
def custodyOf (w : SharedCustody) : Option Nat → Option Custody
  | none => some w.custody
  | some i => w.others[i]?.map fun m => { w.custody with manager := m }

/-- A manager, the service and the store changed. -/
def withCustody (w : SharedCustody) (c : Custody) : Option Nat → SharedCustody
  | none => { w with custody := c }
  | some i =>
    { w with
      custody := { c with manager := w.custody.manager }
      others := w.others.set i c.manager }

/-- Lets a manager take a step, if there is one. -/
def act (w : SharedCustody) (manager : Option Nat) (f : Custody → Custody) : SharedCustody :=
  match w.custodyOf manager with
  | some c => w.withCustody (f c) manager
  | none => w

/-- The state after a key was generated, or was not. -/
def generate (w : SharedCustody) (masterKeyId : String) : SharedCustody :=
  match w.custody.generateKey masterKeyId with
  | (.ok key, c) => { w with custody := c, handed := w.handed ++ [key] }
  | (.error _, c) => { w with custody := c }

/-- The state with another service. -/
def withService (w : SharedCustody) (service : KeyService) : SharedCustody :=
  { w with custody := { w.custody with service } }

/-- The state after a master key was added, if its length is valid. -/
def addMasterKey (w : SharedCustody) (id : String) (bytes : Bytes) : SharedCustody :=
  match w.custody.service.masterKeys.add id bytes with
  | .ok masterKeys => w.withService { w.custody.service with masterKeys }
  | .error _ => w

/-- The state after an event. -/
def step (w : SharedCustody) : CustodyEvent → SharedCustody
  | .generate masterKeyId => w.generate masterKeyId
  | .retrieve manager metadata => w.act manager fun c => (c.retrieveKey metadata).2
  | .evictExpired manager =>
    w.act manager fun c => c.withCache (c.manager.cache.evictExpired c.now)
  | .clearCache manager => w.act manager fun c => c.withCache c.manager.cache.clear
  | .makeManager => { w with others := w.others ++ [w.fresh] }
  | .pass d => { w with custody := { w.custody with now := w.custody.now + d } }
  | .addMasterKey id bytes => w.addMasterKey id bytes
  | .setOutage outage => w.withService { w.custody.service with outage }

/-- What is asked of events. -/
def Allows (w : SharedCustody) : CustodyEvent → Prop
  | .generate masterKeyId => masterKeyId ≠ ""
  | .addMasterKey id _ => Table.get? w.custody.service.masterKeys id = none
  | .pass d => w.custody.now + d + w.fresh.cache.lifetime < endOfTime
  | _ => True

/-- A manager for settings begins, over a service and a store that has nothing of its file. -/
structure Starts (w : SharedCustody) (settings : Settings) (hasStore : Bool)
    (fileId : Option String) : Prop where
  wrapsRemotely : settings.wrapLocally = false
  created : ∃ tableLimit, KeyManager.create tableLimit settings w.custody.service.serverSide
    hasStore fileId = .ok w.fresh
  manager_eq : w.custody.manager = w.fresh
  others_eq : w.others = []
  handed_eq : w.handed = []
  storeWorks : w.custody.store.outage = none
  storeFree : ∀ id name, hasStore = true → fileId = some id →
    w.custody.store.materials.get? (id, name) = none
  clock : w.custody.now + settings.keyCacheLifetime < endOfTime

/-- The states that events can lead to. -/
inductive Reaches (settings : Settings) (hasStore : Bool) (fileId : Option String) :
    SharedCustody → Prop where
  | start {w : SharedCustody} (h : w.Starts settings hasStore fileId) :
      Reaches settings hasStore fileId w
  | step {w : SharedCustody} (h : Reaches settings hasStore fileId w) (event : CustodyEvent)
      (hevent : w.Allows event) : Reaches settings hasStore fileId (w.step event)

/-! ### The invariant -/

/-- The keys in the store are numbered in the order in which they were handed out, and no other
names are taken. -/
structure Numbered (w : SharedCustody) (fileId : String) : Prop where
  counter_eq : w.custody.manager.counter = w.handed.length
  names : ∀ n key, w.handed[n]? = some key → key.metadata = Text.Utf8.encode (keyName n)
  free : ∀ name, (∀ n < w.handed.length, name ≠ keyName n) →
    w.custody.store.materials.get? (fileId, name) = none

/-- **What every event keeps.** -/
structure Sound (w : SharedCustody) : Prop where
  wrapsRemotely : w.fresh.wrapLocally = false
  freshCache : w.fresh.cache.entries = []
  like : w.custody.manager.Like w.fresh
  othersLike : ∀ m ∈ w.others, m.Like w.fresh
  storeWorks : w.custody.store.outage = none
  clock : w.custody.now + w.fresh.cache.lifetime < endOfTime
  cache : w.custody.manager.cache.Holds w.custody.StandsFor
  othersCaches : ∀ m ∈ w.others, m.cache.Holds w.custody.StandsFor
  handed : ∀ key ∈ w.handed, w.custody.StandsFor key.metadata key.key
  numbered : ∀ fileId, w.fresh.placement = .inStore fileId → w.Numbered fileId

variable {w : SharedCustody}

/-- A manager as it is made has the settings, an empty cache and no key counted. -/
theorem of_create {tableLimit : Nat} {settings : Settings} {serverSide hasStore : Bool}
    {fileId : Option String} {m : KeyManager}
    (h : KeyManager.create tableLimit settings serverSide hasStore fileId = .ok m) :
    m.wrapLocally = settings.wrapLocally ∧
      KeyManager.placementOf hasStore fileId = .ok m.placement ∧
      m.cache.lifetime = settings.keyCacheLifetime ∧ m.cache.entries = [] ∧ m.counter = 0 := by
  obtain ⟨_, -, h⟩ := bind_eq_ok_iff.mp h
  obtain ⟨placement, hplacement, h⟩ := bind_eq_ok_iff.mp h
  obtain ⟨cache, hcache, h⟩ := bind_eq_ok_iff.mp h
  cases h
  obtain ⟨hlifetime, hentries⟩ := KeyCache.of_create hcache
  exact ⟨rfl, mapError_eq_ok_iff.mp hplacement, hlifetime, hentries, rfl⟩

theorem of_placementOf {hasStore : Bool} {fileId : Option String} {id : String}
    (h : KeyManager.placementOf hasStore fileId = .ok (.inStore id)) :
    hasStore = true ∧ fileId = some id := by
  cases hasStore with
  | false => cases h
  | true =>
    cases fileId with
    | none => cases h
    | some id' => cases h; exact ⟨rfl, rfl⟩

/-- **At the beginning the invariant holds.** -/
theorem sound_of_starts {settings : Settings} {hasStore : Bool} {fileId : Option String}
    (h : w.Starts settings hasStore fileId) : w.Sound := by
  obtain ⟨_, hcreated⟩ := h.created
  obtain ⟨hlocal, hplacement, hlifetime, hentries, hcounter⟩ := of_create hcreated
  refine ⟨hlocal.trans h.wrapsRemotely, hentries, ?_, ?_, h.storeWorks, ?_, ?_, ?_, ?_, ?_⟩
  · rw [h.manager_eq]
    exact .refl _
  · rw [h.others_eq]
    exact fun _ hm => absurd hm List.not_mem_nil
  · rw [hlifetime]
    exact h.clock
  · rw [h.manager_eq]
    intro e he
    rw [hentries] at he
    cases he
  · rw [h.others_eq]
    exact fun _ hm => absurd hm List.not_mem_nil
  · rw [h.handed_eq]
    exact fun _ hkey => absurd hkey List.not_mem_nil
  · intro id hid
    rw [hid] at hplacement
    obtain ⟨hstore, hfile⟩ := of_placementOf hplacement
    refine ⟨?_, ?_, fun name _ => h.storeFree id name hstore hfile⟩
    · rw [h.manager_eq, h.handed_eq, hcounter]
      rfl
    · rw [h.handed_eq]
      intro n key hkey
      cases hkey

/-! ### Events that disturb nothing -/

/-- What keys are recovered from is as it was, and the caches are right. -/
structure Undisturbed (w' w : SharedCustody) : Prop where
  fresh_eq : w'.fresh = w.fresh
  handed_eq : w'.handed = w.handed
  like : w'.custody.manager.Like w.custody.manager
  counter_eq : w'.custody.manager.counter = w.custody.manager.counter
  store_eq : w'.custody.store = w.custody.store
  masterKeys_eq : w'.custody.service.masterKeys = w.custody.service.masterKeys
  clock : w'.custody.now + w.fresh.cache.lifetime < endOfTime
  cache : w'.custody.manager.cache.Holds w.custody.StandsFor
  others : ∀ m ∈ w'.others, m.Like w.fresh ∧ m.cache.Holds w.custody.StandsFor

theorem Sound.undisturbed (h : w.Sound) {w' : SharedCustody} (hw' : w'.Undisturbed w) :
    w'.Sound := by
  have hstands : w'.custody.StandsFor = w.custody.StandsFor :=
    Custody.StandsFor.congr hw'.like.placement_eq hw'.store_eq hw'.masterKeys_eq
  refine ⟨?_, ?_, ?_, ?_, ?_, ?_, ?_, ?_, ?_, ?_⟩
  · rw [hw'.fresh_eq]
    exact h.wrapsRemotely
  · rw [hw'.fresh_eq]
    exact h.freshCache
  · rw [hw'.fresh_eq]
    exact hw'.like.trans h.like
  · rw [hw'.fresh_eq]
    exact fun m hm => (hw'.others m hm).1
  · rw [hw'.store_eq]
    exact h.storeWorks
  · rw [hw'.fresh_eq]
    exact hw'.clock
  · rw [hstands]
    exact hw'.cache
  · rw [hstands]
    exact fun m hm => (hw'.others m hm).2
  · rw [hstands, hw'.handed_eq]
    exact h.handed
  · rw [hw'.fresh_eq]
    intro fileId hplacement
    obtain ⟨hcounter, hnames, hfree⟩ := h.numbered fileId hplacement
    refine ⟨?_, ?_, ?_⟩
    · rw [hw'.counter_eq, hw'.handed_eq, hcounter]
    · rwa [hw'.handed_eq]
    · rwa [hw'.handed_eq, hw'.store_eq]

theorem Sound.others (h : w.Sound) :
    ∀ m ∈ w.others, m.Like w.fresh ∧ m.cache.Holds w.custody.StandsFor :=
  fun m hm => ⟨h.othersLike m hm, h.othersCaches m hm⟩

/-- One of the managers, of the configuration and with a right cache. -/
structure Member (c : Custody) (w : SharedCustody) : Prop where
  like : c.manager.Like w.fresh
  cache : c.manager.cache.Holds c.StandsFor
  standsFor_eq : c.StandsFor = w.custody.StandsFor
  store_eq : c.store = w.custody.store
  service_eq : c.service = w.custody.service
  now_eq : c.now = w.custody.now

theorem Sound.member (h : w.Sound) {manager : Option Nat} {c : Custody}
    (hc : w.custodyOf manager = some c) : Member c w := by
  cases manager with
  | none =>
    obtain rfl := Option.some.inj hc
    exact ⟨h.like, h.cache, rfl, rfl, rfl, rfl⟩
  | some i =>
    obtain ⟨m, hget, rfl⟩ := Option.map_eq_some_iff.mp hc
    obtain ⟨hlike, hright⟩ := h.others m (List.mem_of_getElem? hget)
    have hstands : Custody.StandsFor { w.custody with manager := m } = w.custody.StandsFor :=
      Custody.StandsFor.congr (hlike.placement_eq.trans h.like.placement_eq.symm) rfl rfl
    refine ⟨hlike, ?_, hstands, rfl, rfl, rfl⟩
    rwa [hstands]

/-- A step of a manager that only changes its cache, and keeps it right, disturbs nothing. -/
theorem Sound.undisturbed_act (h : w.Sound) (manager : Option Nat) {f : Custody → Custody}
    (hf : ∀ c, c.manager.cache.Holds c.StandsFor →
      (f c).OnlyCache c ∧ (f c).manager.cache.Holds c.StandsFor) :
    (w.act manager f).Undisturbed w := by
  unfold act
  cases hc : w.custodyOf manager with
  | none => exact ⟨rfl, rfl, .refl _, rfl, rfl, rfl, h.clock, h.cache, h.others⟩
  | some c =>
    have hmember := h.member hc
    obtain ⟨honly, hcache⟩ := hf c hmember.cache
    have hstore : (f c).store = w.custody.store := honly.store_eq.trans hmember.store_eq
    have hmaster : (f c).service.masterKeys = w.custody.service.masterKeys := by
      rw [honly.masterKeys_eq, hmember.service_eq]
    have hclock : (f c).now + w.fresh.cache.lifetime < endOfTime := by
      rw [honly.now_eq, hmember.now_eq]
      exact h.clock
    rw [hmember.standsFor_eq] at hcache
    cases manager with
    | none =>
      obtain rfl := Option.some.inj hc
      exact ⟨rfl, rfl, honly.like, honly.counter_eq, hstore, hmaster, hclock, hcache, h.others⟩
    | some i =>
      refine ⟨rfl, rfl, .refl _, rfl, hstore, hmaster, hclock, h.cache, fun m hm => ?_⟩
      rcases List.mem_or_eq_of_mem_set hm with hm | rfl
      · exact h.others m hm
      · exact ⟨honly.like.trans hmember.like, hcache⟩

theorem Sound.undisturbed_makeManager (h : w.Sound) : (w.step .makeManager).Undisturbed w := by
  refine ⟨rfl, rfl, .refl _, rfl, rfl, rfl, h.clock, h.cache, fun m hm => ?_⟩
  rcases List.mem_append.mp hm with hm | hm
  · exact h.others m hm
  · cases List.mem_singleton.mp hm
    refine ⟨.refl _, fun e he => ?_⟩
    rw [h.freshCache] at he
    cases he

/-! ### Events that add something -/

/-- A new master key leaves the metadata that stood for keys standing for them. -/
theorem Sound.addMasterKey (h : w.Sound) {id : String} (bytes : Bytes)
    (hnew : Table.get? w.custody.service.masterKeys id = none) :
    (w.addMasterKey id bytes).Sound := by
  unfold SharedCustody.addMasterKey
  cases hadd : w.custody.service.masterKeys.add id bytes with
  | error e => exact h
  | ok masterKeys =>
    have hkeeps : ∀ metadata key, w.custody.StandsFor metadata key →
        (w.withService { w.custody.service with masterKeys }).custody.StandsFor metadata key :=
      fun _ _ hstands => hstands.mono rfl (fun _ _ _ hfetch => hfetch)
        (MasterKeys.extends_of_add hnew hadd)
    exact ⟨h.wrapsRemotely, h.freshCache, h.like, h.othersLike, h.storeWorks, h.clock,
      h.cache.mono hkeeps, fun m hm => (h.othersCaches m hm).mono hkeeps,
      fun key hkey => hkeeps _ _ (h.handed key hkey),
      fun fileId hplacement => ⟨(h.numbered fileId hplacement).counter_eq,
        (h.numbered fileId hplacement).names, (h.numbered fileId hplacement).free⟩⟩

/-- The names that follow are still free after one more key was stored. -/
theorem Numbered.store {fileId : String} (h : w.Numbered fileId) (material : String)
    {key : DataKey} (hkey : key.metadata = Text.Utf8.encode (keyName w.handed.length)) :
    Numbered { w with
      custody := w.custody.withStored fileId material
      handed := w.handed ++ [key] } fileId where
  counter_eq := by
    simp only [Custody.withStored, h.counter_eq, List.length_append, List.length_singleton]
  names n key' hget := by
    rcases Nat.lt_trichotomy n w.handed.length with hlt | rfl | hgt
    · rw [List.getElem?_append_left hlt] at hget
      exact h.names n key' hget
    · rw [List.getElem?_append_right (Nat.le_refl _), Nat.sub_self] at hget
      cases hget
      exact hkey
    · rw [List.getElem?_eq_none (by simp only [List.length_append, List.length_singleton]; omega)]
        at hget
      cases hget
  free name hname := by
    simp only [List.length_append, List.length_singleton] at hname
    have hlast : name ≠ keyName w.custody.manager.counter := by
      rw [h.counter_eq]
      exact hname _ (by omega)
    have hne : (fileId, name) ≠ (fileId, keyName w.custody.manager.counter) :=
      fun heq => hlast (Prod.mk.inj heq).2
    simp only [Custody.withStored, KeyStore.keep, Table.get?_insert_of_ne _ _ hne]
    exact h.free name fun n hn => hname n (by omega)

theorem Numbered.free_next {fileId : String} (h : w.Numbered fileId) :
    w.custody.store.materials.get? (fileId, keyName w.custody.manager.counter) = none := by
  refine h.free _ fun n hn heq => ?_
  have hnumber := keyName_injective heq
  rw [h.counter_eq] at hnumber
  omega

/-- A key that is handed out where what metadata stood for before is kept. -/
theorem Sound.handOut (h : w.Sound) {c' : Custody} {key : DataKey}
    (hlike : c'.manager.Like w.custody.manager)
    (hcache : c'.manager.cache = w.custody.manager.cache)
    (hstore : c'.store.outage = none) (hnow : c'.now = w.custody.now)
    (hkeeps : ∀ metadata key, w.custody.StandsFor metadata key → c'.StandsFor metadata key)
    (hkey : c'.StandsFor key.metadata key.key)
    (hnumbered : ∀ fileId, w.fresh.placement = .inStore fileId →
      Numbered { w with custody := c', handed := w.handed ++ [key] } fileId) :
    Sound { w with custody := c', handed := w.handed ++ [key] } where
  wrapsRemotely := h.wrapsRemotely
  freshCache := h.freshCache
  like := hlike.trans h.like
  othersLike := h.othersLike
  storeWorks := hstore
  clock := by
    rw [hnow]
    exact h.clock
  cache := by
    rw [hcache]
    exact h.cache.mono hkeeps
  othersCaches m hm := (h.othersCaches m hm).mono hkeeps
  handed key' hkey' := by
    rcases List.mem_append.mp hkey' with hkey' | hkey'
    · exact hkeeps _ _ (h.handed key' hkey')
    · cases List.mem_singleton.mp hkey'
      exact hkey
  numbered := hnumbered

/-- **A key that is placed is handed out with metadata that stand for it.** -/
theorem Sound.place (h : w.Sound) {key : AesKey} {wrapped : Bytes} {masterKeyId : String}
    (hid : masterKeyId ≠ "") (hne : wrapped ≠ [])
    (hunwrap : w.custody.service.masterKeys.unwrap wrapped masterKeyId = .ok key.bytes) :
    ∃ dataKey c', w.custody.place key (KeyMaterial.serialize ⟨wrapped, masterKeyId⟩) =
      (.ok dataKey, c') ∧ Sound { w with custody := c', handed := w.handed ++ [dataKey] } := by
  obtain ⟨metadata, c', hplace, hstands⟩ := Custody.standsFor_place h.storeWorks hid hne hunwrap
  refine ⟨⟨key, metadata⟩, c', hplace, ?_⟩
  rcases w.custody.place_cases h.storeWorks key (KeyMaterial.serialize ⟨wrapped, masterKeyId⟩) with
    ⟨fileId, hplacement, hplace'⟩ | ⟨fileId, hplacement, hplace'⟩
  · cases hplace.symm.trans hplace'
    refine h.handOut (.refl _) rfl h.storeWorks rfl (fun _ _ hkeeps => hkeeps) hstands ?_
    intro id hid'
    rw [← h.like.placement_eq, hplacement] at hid'
    cases hid'
  · cases hplace.symm.trans hplace'
    -- the counter never goes back, so the name is free and nothing in the store is replaced
    have hnumbered := h.numbered fileId (h.like.placement_eq.symm.trans hplacement)
    refine h.handOut ⟨rfl, rfl, rfl⟩ rfl h.storeWorks rfl
      (fun _ _ hkeeps => hkeeps.withStored hnumbered.free_next _) hstands ?_
    intro id hid'
    rw [← h.like.placement_eq, hplacement] at hid'
    cases hid'
    exact hnumbered.store _ (by rw [hnumbered.counter_eq])

/-- The service was asked for something; the manager did not change. -/
theorem Sound.undisturbed_custody (h : w.Sound) {c : Custody} (hc : c.OnlyCache w.custody)
    (hmanager : c.manager = w.custody.manager) : Undisturbed { w with custody := c } w where
  fresh_eq := rfl
  handed_eq := rfl
  like := hc.like
  counter_eq := hc.counter_eq
  store_eq := hc.store_eq
  masterKeys_eq := hc.masterKeys_eq
  clock := by
    rw [hc.now_eq]
    exact h.clock
  cache := by
    rw [hmanager]
    exact h.cache
  others := h.others

/-- **Generating a key keeps the invariant**, whether it succeeds or fails. -/
theorem Sound.generate (h : w.Sound) {masterKeyId : String} (hid : masterKeyId ≠ "") :
    (w.generate masterKeyId).Sound := by
  unfold SharedCustody.generate
  rcases w.custody.generateKey_cases masterKeyId with
    ⟨e, c', hgenerate, hc', hmanager⟩ | ⟨key, wrapped, entropy, hunwrap, hne, hgenerate⟩
  · rw [hgenerate]
    exact h.undisturbed (h.undisturbed_custody hc' hmanager)
  · have hasked := h.undisturbed
      (h.undisturbed_custody (w.custody.onlyCache_askedToWrap entropy) rfl)
    obtain ⟨dataKey, c', hplace, hsound⟩ := hasked.place hid hne hunwrap
    rw [hgenerate, hplace]
    exact hsound

/-! ### Whole runs -/

/-- **Every event that is allowed keeps the invariant.** -/
theorem Sound.step (h : w.Sound) {event : CustodyEvent} (hevent : w.Allows event) :
    (w.step event).Sound := by
  cases event with
  | generate masterKeyId => exact h.generate hevent
  | retrieve manager metadata =>
    exact h.undisturbed (h.undisturbed_act manager fun c hc =>
      ⟨c.retrieveKey_onlyCache metadata, Custody.retrieveKey_holds hc metadata⟩)
  | evictExpired manager =>
    exact h.undisturbed (h.undisturbed_act manager fun c hc =>
      ⟨c.onlyCache_withCache rfl, hc.evictExpired c.now⟩)
  | clearCache manager =>
    exact h.undisturbed (h.undisturbed_act manager fun c hc =>
      ⟨c.onlyCache_withCache rfl, KeyCache.Holds.clear c.manager.cache⟩)
  | makeManager => exact h.undisturbed h.undisturbed_makeManager
  | pass d => exact h.undisturbed ⟨rfl, rfl, .refl _, rfl, rfl, rfl, hevent, h.cache, h.others⟩
  | addMasterKey id bytes => exact h.addMasterKey bytes hevent
  | setOutage outage =>
    exact h.undisturbed ⟨rfl, rfl, .refl _, rfl, rfl, rfl, h.clock, h.cache, h.others⟩

theorem sound_of_reaches {settings : Settings} {hasStore : Bool} {fileId : Option String}
    (h : Reaches settings hasStore fileId w) : w.Sound := by
  induction h with
  | start h => exact sound_of_starts h
  | step _ _ hevent ih => exact ih.step hevent

theorem fresh_act (w : SharedCustody) (manager : Option Nat) (f : Custody → Custody) :
    (w.act manager f).fresh = w.fresh := by
  unfold act
  split
  · cases manager <;> rfl
  · rfl

theorem fresh_generate (w : SharedCustody) (masterKeyId : String) :
    (w.generate masterKeyId).fresh = w.fresh := by
  unfold SharedCustody.generate
  split <;> rfl

theorem fresh_addMasterKey (w : SharedCustody) (id : String) (bytes : Bytes) :
    (w.addMasterKey id bytes).fresh = w.fresh := by
  unfold SharedCustody.addMasterKey
  split <;> rfl

theorem fresh_step (w : SharedCustody) (event : CustodyEvent) : (w.step event).fresh = w.fresh := by
  cases event with
  | generate masterKeyId => exact w.fresh_generate masterKeyId
  | retrieve manager metadata => exact w.fresh_act manager _
  | evictExpired manager => exact w.fresh_act manager _
  | clearCache manager => exact w.fresh_act manager _
  | makeManager => rfl
  | pass d => rfl
  | addMasterKey id bytes => exact w.fresh_addMasterKey id bytes
  | setOutage outage => rfl

/-- Material is kept where it was to be kept at the beginning. -/
theorem placement_of_reaches {settings : Settings} {hasStore : Bool} {fileId : Option String}
    (h : Reaches settings hasStore fileId w) :
    KeyManager.placementOf hasStore fileId = .ok w.fresh.placement := by
  induction h with
  | start h =>
    obtain ⟨_, hcreated⟩ := h.created
    exact (of_create hcreated).2.1
  | @step w _ event _ ih => rwa [fresh_step]

/-- Each manager retrieves what metadata stand for, from its cache or from the service. -/
theorem Sound.retrieveKey (h : w.Sound) (hworks : w.custody.service.outage = none)
    {manager : Option Nat} {c : Custody} (hc : w.custodyOf manager = some c) {metadata : Bytes}
    {key : AesKey} (hkey : w.custody.StandsFor metadata key) :
    ∃ c', c.retrieveKey metadata = (.ok key.bytes, c') := by
  have hmember := h.member hc
  rw [← hmember.service_eq] at hworks
  rw [← hmember.standsFor_eq] at hkey
  have hlocal := hmember.like.wrapLocally_eq.trans h.wrapsRemotely
  have hclock : c.now + c.manager.cache.lifetime < endOfTime := by
    rw [hmember.like.lifetime_eq, hmember.now_eq]
    exact h.clock
  exact Custody.retrieveKey_of_standsFor hlocal hworks hclock hmember.cache hkey

/-- The names in the store are those of the keys that were handed out. -/
theorem Sound.isSome_get?_iff (h : w.Sound) {fileId : String}
    (hplacement : w.fresh.placement = .inStore fileId) (name : String) :
    (w.custody.store.materials.get? (fileId, name)).isSome = true ↔
      ∃ n < w.handed.length, name = keyName n := by
  have hnumbered := h.numbered fileId hplacement
  constructor
  · intro hsome
    by_contra hother
    rw [hnumbered.free name fun n hn heq => hother ⟨n, hn, heq⟩] at hsome
    cases hsome
  · rintro ⟨n, hn, rfl⟩
    have hget := List.getElem?_eq_getElem hn
    obtain ⟨m, hm, -⟩ := h.handed _ (List.mem_of_getElem? hget)
    rw [hnumbered.names n _ hget] at hm
    exact Custody.isSome_of_material (h.like.placement_eq.trans hplacement) hm

/-- **Keys that were handed out are recovered**: after every run, whenever the service works, each
manager retrieves each key from its metadata exactly as it was handed out. With a store, the
metadata are the names of the keys, numbered in the order in which they were handed out, and these
are all the names of the file in the store. -/
theorem retrieveKey_of_reaches {settings : Settings} {hasStore : Bool} {fileId : Option String}
    (h : Reaches settings hasStore fileId w) :
    (w.custody.service.outage = none → ∀ dataKey ∈ w.handed, ∀ manager c,
      w.custodyOf manager = some c →
        ∃ c', c.retrieveKey dataKey.metadata = (.ok dataKey.key.bytes, c')) ∧
    (∀ id, hasStore = true → fileId = some id →
      (∀ (n : Nat) (dataKey : DataKey), w.handed[n]? = some dataKey →
        dataKey.metadata = Text.Utf8.encode s!"k{n}") ∧
      ∀ name, (w.custody.store.materials.get? (id, name)).isSome = true ↔
        ∃ n < w.handed.length, name = s!"k{n}") := by
  have hsound := sound_of_reaches h
  refine ⟨?_, ?_⟩
  · intro hworks dataKey hmem manager c hc
    exact hsound.retrieveKey hworks hc (hsound.handed dataKey hmem)
  · rintro id rfl rfl
    have hplacement : w.fresh.placement = .inStore id :=
      (Except.ok.inj (placement_of_reaches h)).symm
    exact ⟨(hsound.numbered id hplacement).names, hsound.isSome_get?_iff hplacement⟩

namespace Sample

/-- A manager for the default settings as it is made, for a store and the file `f`. -/
def manager : KeyManager :=
  { wrapLocally := false
    placement := .inStore "f"
    dataKeyLength := 16
    cache := { lifetime := 600 * second, capacity := 1000, capacity_pos := by decide } }

/-- A master key of ones. -/
def master : AesKey := ⟨List.replicate 32 1, by decide⟩

/-- The manager with an empty store, over a service with one master key. -/
def beginning : SharedCustody :=
  { custody :=
      { manager
        service := { masterKeys := .ofList [("m", master)] }
        store := {}
        entropy := ⟨fun _ => 0, 0⟩
        now := 0 }
    others := []
    fresh := manager
    handed := [] }

theorem starts : beginning.Starts .default true (some "f") where
  wrapsRemotely := rfl
  created := ⟨1000, rfl⟩
  manager_eq := rfl
  others_eq := rfl
  handed_eq := rfl
  storeWorks := rfl
  storeFree _ _ _ _ := rfl
  clock := by decide

/-- The state after a key was generated. -/
def generated : SharedCustody := beginning.step (.generate "m")

/-- The state after another manager was made, too, and the service was found to work. -/
def ending : SharedCustody := (generated.step .makeManager).step (.setOutage none)

theorem reaches_ending : Reaches .default true (some "f") ending := by
  have hgenerated := Reaches.step (.start starts) (.generate "m") (show "m" ≠ "" by decide)
  exact .step (.step hgenerated .makeManager trivial) (.setOutage none) trivial

theorem generated_eq : ∃ dataKey custody,
    generated = { beginning with custody, handed := [dataKey] } := by
  obtain ⟨dataKey, custody, h⟩ : ∃ dataKey custody,
      beginning.custody.generateKey "m" = (.ok dataKey, custody) :=
    Custody.exists_generateKey rfl (by decide) rfl rfl (show _ = some master by rfl)
  refine ⟨dataKey, custody, ?_⟩
  show beginning.generate "m" = _
  rw [SharedCustody.generate, h]
  rfl

end Sample

/-- The manager that was made later retrieves the first key of the store. -/
theorem retrieveKey_of_reaches_later :
    Reaches .default true (some "f") Sample.ending ∧
      ∃ dataKey c c', Sample.ending.handed = [dataKey] ∧
        dataKey.metadata = Text.Utf8.encode "k0" ∧ Sample.ending.custodyOf (some 0) = some c ∧
        c.retrieveKey dataKey.metadata = (.ok dataKey.key.bytes, c') := by
  obtain ⟨hrecover, hstore⟩ := retrieveKey_of_reaches Sample.reaches_ending
  obtain ⟨dataKey, custody, hgenerated⟩ := Sample.generated_eq
  have hhanded : Sample.ending.handed = [dataKey] := by
    show Sample.generated.handed = [dataKey]
    rw [hgenerated]
  have hothers : Sample.ending.others = [Sample.manager] := by
    show Sample.generated.others ++ [Sample.generated.fresh] = [Sample.manager]
    rw [hgenerated]
    rfl
  have hcustody : Sample.ending.custodyOf (some 0) =
      some { Sample.ending.custody with manager := Sample.manager } := by
    rw [custodyOf, hothers]
    rfl
  obtain ⟨c', hretrieve⟩ := hrecover rfl dataKey (by simp only [hhanded, List.mem_singleton])
    (some 0) _ hcustody
  exact ⟨Sample.reaches_ending, dataKey, _, c', hhanded,
    (hstore "f" rfl rfl).1 0 dataKey (by rw [hhanded]; rfl), hcustody, hretrieve⟩

end SharedCustody

end ModularEncryption
