import ModularEncryption.Proofs.Keys.Shared

/-! # Managers that share a store

Any number of managers, each with a service and a file of its own choice, put the material of their
keys into one store (`SharedStore`). They are made at any time, generate keys in any order, and
anything may happen to their services in between (`SharedStore.step`).

Each manager numbers its keys from the beginning, and nobody asks the store which names are taken.
So a manager never replaces material of its own, but it may replace that of another manager for the
same file (`heldBy_or_replaced_run`). Where every file has one manager that generates keys, all
material stays; with two it is lost (`replaced_by_second`). What carries this is that the store has
the material of every key whose name was not used again later (`SharedStore.Sound`). -/

namespace ModularEncryption

/-- A manager with the service that it calls on, for a file in the store. -/
structure StoreClient where
  fileId : String
  manager : KeyManager
  service : KeyService

/-- A key that a manager handed out, with the name of its material in the store. -/
structure StoredKey where
  /-- The manager, by its number. -/
  client : Nat
  fileId : String
  number : Nat
  masterKeyId : String
  /-- The master keys of the service at that time. -/
  masterKeys : MasterKeys
  dataKey : DataKey

namespace StoredKey

/-- The store has the material that wraps the key. -/
def HeldBy (r : StoredKey) (s : KeyStore) : Prop :=
  ∃ wrapped, s.materials.get? (r.fileId, keyName r.number) =
      some (KeyMaterial.serialize ⟨wrapped, r.masterKeyId⟩) ∧
    r.masterKeys.unwrap wrapped r.masterKeyId = .ok r.dataKey.key.bytes

/-- The two keys have the same name in the store. -/
def SameName (r r' : StoredKey) : Prop := r.fileId = r'.fileId ∧ r.number = r'.number

end StoredKey

/-- Managers over one store. -/
structure SharedStore where
  clients : List StoreClient
  store : KeyStore
  entropy : Entropy
  now : Instant
  /-- The most entries that memory allows the table of a manager's cache to have. -/
  tableLimit : Nat
  /-- The keys handed out so far, the latest one first. -/
  handed : List StoredKey

/-- What may happen to managers over one store. -/
inductive StoreEvent where
  | join (settings : Settings) (service : KeyService) (fileId : String)
  | generate (client : Nat) (masterKeyId : String)
  | setService (client : Nat) (service : KeyService)

namespace SharedStore

/-! ### Events -/

/-- A manager with its service and the store. -/
def custodyOf (w : SharedStore) (k : StoreClient) : Custody :=
  { manager := k.manager, service := k.service, store := w.store, entropy := w.entropy,
    now := w.now }

/-- A manager, its service and the store changed. -/
def withCustody (w : SharedStore) (i : Nat) (k : StoreClient) (c : Custody) : SharedStore :=
  { w with
    clients := w.clients.set i { k with manager := c.manager, service := c.service }
    store := c.store
    entropy := c.entropy }

/-- A manager comes, if it can be made for its settings. -/
def join (w : SharedStore) (settings : Settings) (service : KeyService) (fileId : String) :
    SharedStore :=
  match KeyManager.create w.tableLimit settings service.serverSide true (some fileId) with
  | .ok manager => { w with clients := w.clients ++ [⟨fileId, manager, service⟩] }
  | .error _ => w

/-- A manager generates a key, or fails to. -/
def generateBy (w : SharedStore) (i : Nat) (k : StoreClient) (masterKeyId : String) :
    SharedStore :=
  match (w.custodyOf k).generateKey masterKeyId with
  | (.error _, c) => w.withCustody i k c
  | (.ok dataKey, c) =>
    { w.withCustody i k c with
      handed := ⟨i, k.fileId, k.manager.counter, masterKeyId, k.service.masterKeys, dataKey⟩ ::
        w.handed }

/-- The state after an event; one that is for a manager which is not there changes nothing. -/
def step (w : SharedStore) : StoreEvent → SharedStore
  | .join settings service fileId => w.join settings service fileId
  | .generate i masterKeyId =>
    match w.clients[i]? with
    | some k => w.generateBy i k masterKeyId
    | none => w
  | .setService i service =>
    match w.clients[i]? with
    | some k => { w with clients := w.clients.set i { k with service } }
    | none => w

/-- The state after a sequence of events. -/
def run (w : SharedStore) (events : List StoreEvent) : SharedStore := events.foldl step w

/-- A store that works, before there are any managers. -/
structure Starts (w : SharedStore) : Prop where
  clients_eq : w.clients = []
  handed_eq : w.handed = []
  storeWorks : w.store.outage = none

/-! ### The invariant -/

/-- The managers that there were are still there; they may have counted on, and new ones may have
come. All of them put material into the store. -/
structure Goes (w' w : SharedStore) : Prop where
  clients : ∀ (i : Nat) k, w.clients[i]? = some k →
    ∃ k', w'.clients[i]? = some k' ∧ k.manager.counter ≤ k'.manager.counter
  placement : ∀ k ∈ w'.clients, k.manager.placement = .inStore k.fileId

/-- **What every event keeps.** Keys have the names by which their managers counted, and the
material of a key is in the store unless its name was used again. -/
structure Sound (w : SharedStore) : Prop where
  storeWorks : w.store.outage = none
  placement : ∀ k ∈ w.clients, k.manager.placement = .inStore k.fileId
  metadata_eq : ∀ r ∈ w.handed, r.dataKey.metadata = Text.Utf8.encode (keyName r.number)
  counted : ∀ r ∈ w.handed, ∃ k, w.clients[r.client]? = some k ∧ r.number < k.manager.counter
  increasing : w.handed.Pairwise fun later r => later.client = r.client → r.number < later.number
  held : ∀ later r earlier, w.handed = later ++ r :: earlier →
    (∀ r' ∈ later, ¬ r'.SameName r) → r.HeldBy w.store

variable {w w' : SharedStore} {i : Nat} {k : StoreClient}

theorem sound_of_starts (h : w.Starts) : w.Sound where
  storeWorks := h.storeWorks
  placement := by
    rw [h.clients_eq]
    exact fun _ hk => absurd hk List.not_mem_nil
  metadata_eq := by
    rw [h.handed_eq]
    exact fun _ hr => absurd hr List.not_mem_nil
  counted := by
    rw [h.handed_eq]
    exact fun _ hr => absurd hr List.not_mem_nil
  increasing := by
    rw [h.handed_eq]
    exact .nil
  held := by
    rw [h.handed_eq]
    intro later r earlier hsplit
    exact absurd hsplit.symm (List.append_ne_nil_of_right_ne_nil later (List.cons_ne_nil r earlier))

/-- Where no key is handed out and the store is left alone, the invariant stays. -/
theorem Sound.goes (h : w.Sound) (hw' : w'.Goes w) (hstore : w'.store = w.store)
    (hhanded : w'.handed = w.handed) : w'.Sound where
  storeWorks := by
    rw [hstore]
    exact h.storeWorks
  placement := hw'.placement
  metadata_eq := by
    rw [hhanded]
    exact h.metadata_eq
  counted := by
    rw [hhanded]
    intro r hr
    obtain ⟨k, hk, hlt⟩ := h.counted r hr
    obtain ⟨k', hk', hle⟩ := hw'.clients r.client k hk
    exact ⟨k', hk', Nat.lt_of_lt_of_le hlt hle⟩
  increasing := by
    rw [hhanded]
    exact h.increasing
  held := by
    rw [hhanded, hstore]
    exact h.held

theorem Sound.goes_set (h : w.Sound) (hk : w.clients[i]? = some k) {m : StoreClient}
    (hfile : m.fileId = k.fileId) (hplacement : m.manager.placement = k.manager.placement)
    (hcounter : k.manager.counter ≤ m.manager.counter)
    (hclients : w'.clients = w.clients.set i m) : w'.Goes w where
  clients j kj hkj := by
    rw [hclients]
    by_cases hj : i = j
    · subst hj
      obtain rfl := Option.some.inj (hk.symm.trans hkj)
      obtain ⟨hlt, -⟩ := List.getElem?_eq_some_iff.mp hk
      exact ⟨m, List.getElem?_set_self hlt, hcounter⟩
    · exact ⟨kj, (List.getElem?_set_ne hj).trans hkj, Nat.le_refl _⟩
  placement kj hkj := by
    rw [hclients] at hkj
    rcases List.mem_or_eq_of_mem_set hkj with hkj | rfl
    · exact h.placement kj hkj
    · rw [hplacement, hfile]
      exact h.placement k (List.mem_of_getElem? hk)

theorem Sound.join (h : w.Sound) (settings : Settings) (service : KeyService) (fileId : String) :
    (w.join settings service fileId).Sound := by
  unfold SharedStore.join
  cases hcreate : KeyManager.create w.tableLimit settings service.serverSide true
      (some fileId) with
  | error e => exact h
  | ok manager =>
    refine h.goes ⟨fun i k hk => ?_, fun k hk => ?_⟩ rfl rfl
    · obtain ⟨hlt, -⟩ := List.getElem?_eq_some_iff.mp hk
      exact ⟨k, (List.getElem?_append_left hlt).trans hk, Nat.le_refl _⟩
    · rcases List.mem_append.mp hk with hk | hk
      · exact h.placement k hk
      · cases List.mem_singleton.mp hk
        obtain ⟨-, hplacement, -⟩ := SharedCustody.of_create hcreate
        exact (Except.ok.inj hplacement).symm

theorem Sound.setService (h : w.Sound) (i : Nat) (service : KeyService) :
    (w.step (.setService i service)).Sound := by
  unfold SharedStore.step
  cases hk : w.clients[i]? with
  | none => simpa only [hk] using h
  | some k =>
    simp only [hk]
    exact h.goes (h.goes_set hk (m := { k with service }) rfl rfl (Nat.le_refl _) rfl) rfl rfl

/-! ### A key is generated -/

/-- A key was wrapped for a manager, and its material was put into the store under the manager's
next name. -/
structure Puts (w : SharedStore) (k : StoreClient) (masterKeyId : String) (key : AesKey)
    (wrapped : Bytes) (c : Custody) : Prop where
  generateKey_eq : (w.custodyOf k).generateKey masterKeyId =
    (.ok ⟨key, Text.Utf8.encode (keyName k.manager.counter)⟩, c)
  unwrap_eq : k.service.masterKeys.unwrap wrapped masterKeyId = .ok key.bytes
  wrapped_ne : wrapped ≠ []
  manager_eq : c.manager = { k.manager with counter := k.manager.counter + 1 }
  masterKeys_eq : c.service.masterKeys = k.service.masterKeys
  outage_eq : c.service.outage = k.service.outage
  store_eq : c.store = w.store.keep k.fileId (keyName k.manager.counter)
    (KeyMaterial.serialize ⟨wrapped, masterKeyId⟩)

/-- The record of the next key of a manager. -/
def recordOf (i : Nat) (k : StoreClient) (masterKeyId : String) (key : AesKey) : StoredKey :=
  ⟨i, k.fileId, k.manager.counter, masterKeyId, k.service.masterKeys,
    ⟨key, Text.Utf8.encode (keyName k.manager.counter)⟩⟩

/-- **What generating a key can come to**: it fails and leaves the store alone, or a wrapped key is
put into the store. -/
theorem Sound.generateBy_cases (h : w.Sound) (hk : w.clients[i]? = some k) (masterKeyId : String) :
    (∃ e c, (w.custodyOf k).generateKey masterKeyId = (.error e, c) ∧ c.manager = k.manager ∧
      c.store = w.store ∧ w.generateBy i k masterKeyId = w.withCustody i k c) ∨
    ∃ key wrapped c, w.Puts k masterKeyId key wrapped c ∧
      w.generateBy i k masterKeyId =
        { w.withCustody i k c with handed := recordOf i k masterKeyId key :: w.handed } := by
  have hplacement : (w.custodyOf k).manager.placement = .inStore k.fileId :=
    h.placement k (List.mem_of_getElem? hk)
  unfold generateBy
  rcases (w.custodyOf k).generateKey_cases masterKeyId with
    ⟨e, c, hgenerate, honly, hmanager⟩ | ⟨key, wrapped, entropy, hunwrap, hne, hgenerate⟩
  · rw [hgenerate]
    exact .inl ⟨e, c, rfl, hmanager, honly.store_eq, rfl⟩
  · rcases ((w.custodyOf k).askedToWrap entropy).place_cases h.storeWorks key
      (KeyMaterial.serialize ⟨wrapped, masterKeyId⟩) with
      ⟨fileId, hinMetadata, -⟩ | ⟨fileId, hinStore, hplace⟩
    · cases hplacement.symm.trans hinMetadata
    · cases hplacement.symm.trans hinStore
      have hputs := hgenerate.trans hplace
      rw [hputs]
      exact .inr ⟨key, wrapped, _, ⟨hputs, hunwrap, hne, rfl, rfl, rfl, rfl⟩, rfl⟩

/-- Material that is put under another name leaves that of a key where it is. -/
theorem heldBy_keep {r r' : StoredKey} {s : KeyStore} (h : r.HeldBy s) (hname : ¬ r'.SameName r)
    (material : String) : r.HeldBy (s.keep r'.fileId (keyName r'.number) material) := by
  obtain ⟨wrapped, hget, hunwrap⟩ := h
  refine ⟨wrapped, ?_, hunwrap⟩
  have hne : (r.fileId, keyName r.number) ≠ (r'.fileId, keyName r'.number) := by
    intro heq
    obtain ⟨hfile, hnumber⟩ := Prod.mk.inj heq
    exact hname ⟨hfile.symm, (keyName_injective hnumber).symm⟩
  exact (Table.get?_insert_of_ne _ material hne).trans hget

theorem heldBy_keep_self {r : StoredKey} {wrapped : Bytes} (s : KeyStore)
    (hunwrap : r.masterKeys.unwrap wrapped r.masterKeyId = .ok r.dataKey.key.bytes) :
    r.HeldBy (s.keep r.fileId (keyName r.number)
      (KeyMaterial.serialize ⟨wrapped, r.masterKeyId⟩)) :=
  ⟨wrapped, Table.get?_insert_self _ _ _, hunwrap⟩

/-- **A key that is handed out goes by a name that its manager has not used**, and takes away at
most the material of keys that go by the same name. -/
theorem Sound.handOut (h : w.Sound) (hw' : w'.Goes w) {r : StoredKey} {wrapped : Bytes}
    (hk : w.clients[r.client]? = some k) (hnumber : r.number = k.manager.counter)
    (hcounted : ∃ k', w'.clients[r.client]? = some k' ∧ r.number < k'.manager.counter)
    (hmetadata : r.dataKey.metadata = Text.Utf8.encode (keyName r.number))
    (hunwrap : r.masterKeys.unwrap wrapped r.masterKeyId = .ok r.dataKey.key.bytes)
    (hstore : w'.store = w.store.keep r.fileId (keyName r.number)
      (KeyMaterial.serialize ⟨wrapped, r.masterKeyId⟩))
    (hhanded : w'.handed = r :: w.handed) : w'.Sound where
  storeWorks := by
    rw [hstore]
    exact h.storeWorks
  placement := hw'.placement
  metadata_eq := by
    rw [hhanded]
    exact List.forall_mem_cons.mpr ⟨hmetadata, h.metadata_eq⟩
  counted := by
    rw [hhanded]
    refine List.forall_mem_cons.mpr ⟨hcounted, fun r' hr' => ?_⟩
    obtain ⟨k₁, hk₁, hlt⟩ := h.counted r' hr'
    obtain ⟨k', hk', hle⟩ := hw'.clients r'.client k₁ hk₁
    exact ⟨k', hk', Nat.lt_of_lt_of_le hlt hle⟩
  increasing := by
    rw [hhanded]
    refine List.pairwise_cons.mpr ⟨fun r' hr' hclient => ?_, h.increasing⟩
    obtain ⟨k₁, hk₁, hlt⟩ := h.counted r' hr'
    rw [← hclient, hk] at hk₁
    cases hk₁
    rw [hnumber]
    exact hlt
  held := by
    rw [hhanded, hstore]
    intro later r' earlier hsplit hlater
    -- the key itself was just stored; an older one keeps its material under another name
    cases later with
    | nil =>
      cases hsplit
      exact heldBy_keep_self w.store hunwrap
    | cons r₁ later =>
      obtain ⟨rfl, hrest⟩ := List.cons.inj hsplit
      obtain ⟨hname, hlater⟩ := List.forall_mem_cons.mp hlater
      exact heldBy_keep (h.held later r' earlier hrest hlater) hname _

theorem Sound.generateBy (h : w.Sound) (hk : w.clients[i]? = some k) (masterKeyId : String) :
    (w.generateBy i k masterKeyId).Sound := by
  obtain ⟨hlt, -⟩ := List.getElem?_eq_some_iff.mp hk
  have hgoes : ∀ c : Custody, c.manager.placement = k.manager.placement →
      k.manager.counter ≤ c.manager.counter → (w.withCustody i k c).Goes w :=
    fun c hplacement hcounter => h.goes_set hk
      (m := { k with manager := c.manager, service := c.service }) rfl hplacement hcounter rfl
  rcases h.generateBy_cases hk masterKeyId with
    ⟨e, c, -, hmanager, hstore, heq⟩ | ⟨key, wrapped, c, hputs, heq⟩
  · rw [heq]
    exact h.goes (hgoes c (by rw [hmanager]) (Nat.le_of_eq (by rw [hmanager]))) hstore rfl
  · rw [heq]
    have hcounted : k.manager.counter < c.manager.counter := by
      rw [hputs.manager_eq]
      exact Nat.lt_succ_self _
    have hgoes' := hgoes c (by rw [hputs.manager_eq]) (Nat.le_of_lt hcounted)
    exact h.handOut (r := recordOf i k masterKeyId key) ⟨hgoes'.clients, hgoes'.placement⟩ hk rfl
      ⟨_, List.getElem?_set_self hlt, hcounted⟩ rfl hputs.unwrap_eq hputs.store_eq rfl

/-! ### Whole runs -/

theorem step_generate (hk : w.clients[i]? = some k) (masterKeyId : String) :
    w.step (.generate i masterKeyId) = w.generateBy i k masterKeyId := by
  unfold SharedStore.step
  simp only [hk]

theorem Sound.step (h : w.Sound) (event : StoreEvent) : (w.step event).Sound := by
  cases event with
  | join settings service fileId => exact h.join settings service fileId
  | setService i service => exact h.setService i service
  | generate i masterKeyId =>
    cases hk : w.clients[i]? with
    | none =>
      unfold SharedStore.step
      simpa only [hk] using h
    | some k =>
      rw [step_generate hk]
      exact h.generateBy hk masterKeyId

/-- **A run keeps the invariant.** -/
theorem Sound.run (h : w.Sound) (events : List StoreEvent) : (w.run events).Sound := by
  induction events generalizing w with
  | nil => exact h
  | cons event events ih => exact ih (h.step event)

/-- The material of a key is in the store, or another manager has put that of a later key under the
same name. -/
theorem Sound.heldBy_or_replaced (h : w.Sound) {later earlier : List StoredKey} {r : StoredKey}
    (hsplit : w.handed = later ++ r :: earlier) :
    r.HeldBy w.store ∨ ∃ r' ∈ later, r'.SameName r ∧ r'.client ≠ r.client := by
  rcases Classical.em (∃ r' ∈ later, r'.SameName r) with ⟨r', hr', hname⟩ | hnone
  · refine .inr ⟨r', hr', hname, fun hclient => ?_⟩
    have hincreasing := h.increasing
    rw [hsplit, List.pairwise_append] at hincreasing
    obtain ⟨-, -, hacross⟩ := hincreasing
    -- a manager only counts on, so it does not use a name again
    have hlt := hacross r' hr' r List.mem_cons_self hclient
    rw [hname.2] at hlt
    exact Nat.lt_irrefl _ hlt
  · exact .inl (h.held later r earlier hsplit fun r' hr' hname => hnone ⟨r', hr', hname⟩)

/-- **Material stays, unless another manager for the same file takes its name.** In every run of
managers over one store, a key's metadata are the name of its material, and the store has the
material that wraps the key, unless a manager other than the key's own has handed out a later key
under the same name of the same file. So where no file has two managers that hand out keys, the
material of every key is there. -/
theorem heldBy_or_replaced_run (h : w.Starts) (events : List StoreEvent) :
    (∀ later r earlier, (w.run events).handed = later ++ r :: earlier →
      r.dataKey.metadata = Text.Utf8.encode s!"k{r.number}" ∧
        (r.HeldBy (w.run events).store ∨
          ∃ r' ∈ later, r'.SameName r ∧ r'.client ≠ r.client)) ∧
    ((∀ r ∈ (w.run events).handed, ∀ r' ∈ (w.run events).handed, r'.fileId = r.fileId →
        r'.client = r.client) →
      ∀ r ∈ (w.run events).handed, r.HeldBy (w.run events).store) := by
  have hsound := (sound_of_starts h).run events
  refine ⟨fun later r earlier hsplit => ⟨?_, hsound.heldBy_or_replaced hsplit⟩,
    fun hone r hr => ?_⟩
  · refine hsound.metadata_eq r ?_
    rw [hsplit]
    exact List.mem_append_right later List.mem_cons_self
  · obtain ⟨later, earlier, hsplit⟩ := List.append_of_mem hr
    rcases hsound.heldBy_or_replaced hsplit with hheld | ⟨r', hr', hname, hother⟩
    · exact hheld
    · have hmem : r' ∈ (w.run events).handed := by
        rw [hsplit]
        exact List.mem_append_left _ hr'
      exact absurd (hone r hr r' hmem hname.1) hother

/-! ### Two managers for one file -/

/-- **A service that works wraps a key**, and its material is put into the store. -/
theorem Sound.exists_puts (h : w.Sound) (hk : w.clients[i]? = some k)
    (hlocal : k.manager.wrapLocally = false)
    (hlength : k.manager.dataKeyLength ∈ validKeyLengths) (hworks : k.service.outage = none)
    {masterKeyId : String} {master : AesKey}
    (hmaster : Table.get? k.service.masterKeys masterKeyId = some master) :
    ∃ key wrapped c, w.Puts k masterKeyId key wrapped c ∧
      w.generateBy i k masterKeyId =
        { w.withCustody i k c with handed := recordOf i k masterKeyId key :: w.handed } := by
  obtain ⟨dataKey, c', hgenerate⟩ := Custody.exists_generateKey (c := w.custodyOf k) hlocal hlength
    hworks h.storeWorks hmaster
  rcases h.generateBy_cases hk masterKeyId with ⟨e, c, hfails, -⟩ | hputs
  · rw [hgenerate] at hfails
    cases hfails
  · exact hputs

/-- The store does not have the material of another key as well. -/
theorem Puts.not_heldBy {masterKeyId : String} {key : AesKey} {wrapped : Bytes} {c : Custody}
    (h : w.Puts k masterKeyId key wrapped c) {r : StoredKey}
    (hfile : r.fileId = k.fileId) (hnumber : r.number = k.manager.counter)
    (hid : r.masterKeyId = masterKeyId) (hmaster : r.masterKeys = k.service.masterKeys)
    (hkey : key.bytes ≠ r.dataKey.key.bytes) : ¬ r.HeldBy c.store := by
  rintro ⟨wrapped', hget, hunwrap⟩
  rw [h.store_eq, hfile, hnumber, hid] at hget
  have hsame := (Table.get?_insert_self _ _ _).symm.trans hget
  have hwrapped : wrapped = wrapped' := congrArg KeyMaterial.wrappedKey
    (KeyMaterial.serialize_injective (Option.some.inj hsame))
  rw [hmaster, hid, ← hwrapped, h.unwrap_eq] at hunwrap
  exact hkey (Except.ok.inj hunwrap)

/-- The name of the key stands for it, for all managers for the file. -/
theorem Puts.standsFor {masterKeyId : String} {key : AesKey} {wrapped : Bytes} {c : Custody}
    (h : w.Puts k masterKeyId key wrapped c) (hid : masterKeyId ≠ "") {c' : Custody}
    (hplacement : c'.manager.placement = .inStore k.fileId) (hstore : c'.store = c.store)
    (hworks : w.store.outage = none) (hmaster : c'.service.masterKeys = k.service.masterKeys) :
    c'.StandsFor (Text.Utf8.encode (keyName k.manager.counter)) key := by
  refine ⟨⟨wrapped, masterKeyId⟩, ?_, hmaster ▸ h.unwrap_eq⟩
  rw [Custody.material_encode, hplacement]
  simp only [hstore, h.store_eq, KeyStore.fetch_keep_self hworks]
  exact KeyMaterial.parse_serialize h.wrapped_ne hid

namespace Sample

/-- A service with one master key. -/
def service : KeyService := { masterKeys := .ofList [("m", SharedCustody.Sample.master)] }

/-- An empty store, before there are any managers. -/
def empty : SharedStore :=
  { clients := []
    store := {}
    entropy := ⟨fun n => UInt8.ofNat n, 0⟩
    now := 0
    tableLimit := 1000
    handed := [] }

theorem starts_empty : empty.Starts := ⟨rfl, rfl, rfl⟩

/-- A manager for a file, as it is made with the default settings. -/
def client (fileId : String) : StoreClient :=
  ⟨fileId, { SharedCustody.Sample.manager with placement := .inStore fileId }, service⟩

/-- A manager for the file `f` comes, and one for another file or the same; one after the other
generates a key. -/
def events (fileId : String) : List StoreEvent :=
  [.join .default service "f", .join .default service fileId, .generate 0 "m", .generate 1 "m"]

theorem exists_puts {w : SharedStore} (h : w.Sound) {i : Nat} {fileId : String}
    (hk : w.clients[i]? = some (client fileId)) :
    ∃ key wrapped c, w.Puts (client fileId) "m" key wrapped c ∧
      w.generateBy i (client fileId) "m" =
        { w.withCustody i (client fileId) c with
          handed := recordOf i (client fileId) "m" key :: w.handed } :=
  h.exists_puts hk rfl (show 16 ∈ validKeyLengths by decide) rfl
    (show _ = some SharedCustody.Sample.master by rfl)

/-- Both managers generate a key; the first one goes on with its service. -/
theorem exists_run_events (fileId : String) :
    ∃ (key key' : AesKey) (wrapped : Bytes) (k : StoreClient) (c : Custody),
      (empty.run ((events fileId).take 3)).Puts (client fileId) "m" key' wrapped c ∧
      key'.bytes ≠ key.bytes ∧ k.manager = { (client "f").manager with counter := 1 } ∧
      k.service.masterKeys = service.masterKeys ∧ k.service.outage = none ∧
      empty.run (events fileId) =
        { clients := [k, ⟨fileId, c.manager, c.service⟩]
          store := c.store
          entropy := c.entropy
          now := 0
          tableLimit := 1000
          handed := [recordOf 1 (client fileId) "m" key', recordOf 0 (client "f") "m" key] } := by
  have hsound := sound_of_starts starts_empty
  have hk₀ : (empty.run ((events fileId).take 2)).clients[0]? = some (client "f") := rfl
  obtain ⟨key, wrapped, c, hputs, heq⟩ := exists_puts (hsound.run ((events fileId).take 2)) hk₀
  obtain ⟨hkey, hentropy⟩ := Custody.entropy_of_generateKey hputs.generateKey_eq
  have hfirst : empty.run ((events fileId).take 3) =
      { clients := [⟨"f", c.manager, c.service⟩, client fileId]
        store := c.store
        entropy := c.entropy
        now := 0
        tableLimit := 1000
        handed := [recordOf 0 (client "f") "m" key] } := heq
  have hk₁ : (empty.run ((events fileId).take 3)).clients[1]? = some (client fileId) := by
    rw [hfirst]
    rfl
  obtain ⟨key', wrapped', c', hputs', heq'⟩ :=
    exists_puts (hsound.run ((events fileId).take 3)) hk₁
  obtain ⟨hkey', -⟩ := Custody.entropy_of_generateKey hputs'.generateKey_eq
  have hlater : ((empty.run ((events fileId).take 3)).custodyOf (client fileId)).entropy =
      (empty.entropy.skip 16).skip Nonce.length := by
    rw [hfirst]
    exact hentropy
  refine ⟨key, key', wrapped', ⟨"f", c.manager, c.service⟩, c', hputs', ?_, hputs.manager_eq,
    hputs.masterKeys_eq, hputs.outage_eq, ?_⟩
  · rw [hkey, hkey', hlater]
    show (empty.entropy.skip 28).next 16 ≠ empty.entropy.next 16
    decide
  · have hlast : empty.run (events fileId) =
        (empty.run ((events fileId).take 3)).step (.generate 1 "m") := rfl
    rw [hlast, step_generate hk₁, heq', hfirst]
    rfl

end Sample

open Sample in
/-- With a manager for each of two files, both keys have their material. -/
theorem heldBy_or_replaced_run_apart :
    empty.Starts ∧ ∃ r r', (empty.run (events "g")).handed = [r', r] ∧
      r'.dataKey.metadata = r.dataKey.metadata ∧ r.HeldBy (empty.run (events "g")).store ∧
      r'.HeldBy (empty.run (events "g")).store := by
  obtain ⟨hnames, hheld⟩ := heldBy_or_replaced_run starts_empty (events "g")
  obtain ⟨key, key', wrapped, k, c, -, -, -, -, -, hrun⟩ := exists_run_events "g"
  rw [hrun] at hnames hheld ⊢
  have hone : ∀ r ∈ [recordOf 1 (client "g") "m" key', recordOf 0 (client "f") "m" key],
      ∀ r' ∈ [recordOf 1 (client "g") "m" key', recordOf 0 (client "f") "m" key],
      r'.fileId = r.fileId → r'.client = r.client := by
    simp only [List.mem_cons, List.not_mem_nil, or_false]
    rintro r (rfl | rfl) r' (rfl | rfl) hfile
    · rfl
    · exact absurd hfile (show "f" ≠ "g" by decide)
    · exact absurd hfile (show "g" ≠ "f" by decide)
    · rfl
  exact ⟨starts_empty, _, _, rfl, (hnames [] _ _ rfl).1.trans (hnames [_] _ [] rfl).1.symm,
    hheld hone _ (List.mem_cons_of_mem _ List.mem_cons_self), hheld hone _ List.mem_cons_self⟩

open Sample in
/-- **With two managers for one file, material is replaced.** The first key of the second manager
has the name of the first key of the first one; then the material of that is gone, and the first
manager retrieves the wrong key. -/
theorem replaced_by_second :
    empty.Starts ∧ ∃ r r' k, (empty.run (events "f")).handed = [r', r] ∧ r'.SameName r ∧
      ¬ r.HeldBy (empty.run (events "f")).store ∧
      (empty.run (events "f")).clients[r.client]? = some k ∧
      r'.dataKey.key.bytes ≠ r.dataKey.key.bytes ∧
      ∃ c, ((empty.run (events "f")).custodyOf k).retrieveKey r.dataKey.metadata =
        (.ok r'.dataKey.key.bytes, c) := by
  obtain ⟨key, key', wrapped, k, c, hputs, hne, hmanager, hmaster, hworks, hrun⟩ :=
    exists_run_events "f"
  have hstore : (empty.run ((events "f").take 3)).store.outage = none :=
    ((sound_of_starts starts_empty).run _).storeWorks
  have hlocal : k.manager.wrapLocally = false := by
    rw [hmanager]
    rfl
  have hclock : 0 + k.manager.cache.lifetime < endOfTime := by
    rw [hmanager]
    decide
  have hcache : k.manager.cache.entries = [] := by
    rw [hmanager]
    rfl
  have hplacement : k.manager.placement = .inStore "f" := by
    rw [hmanager]
    rfl
  rw [hrun]
  refine ⟨starts_empty, recordOf 0 (client "f") "m" key, recordOf 1 (client "f") "m" key', k, rfl,
    ⟨rfl, rfl⟩, hputs.not_heldBy rfl rfl rfl rfl hne, rfl, hne, ?_⟩
  refine Custody.retrieveKey_of_standsFor hlocal hworks hclock (fun e he => ?_)
    (hputs.standsFor (by decide) hplacement rfl hstore hmaster)
  have hmem : e ∈ k.manager.cache.entries := he
  rw [hcache] at hmem
  cases hmem

end SharedStore

end ModularEncryption
