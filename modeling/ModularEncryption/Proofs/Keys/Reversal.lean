import ModularEncryption.Proofs.Keys.Lifetime

/-! # Retrieving reverses generating

A generation leaves material behind that leads to the key again, if it can be read. It can be read
unless the master key is named by the empty text: material with an empty name is written, and
refused when it is read (`KeyMaterial.parse_serialize_unnamed`).

In between stands the cache, which may have a key for the metadata from before. It is the key that
was generated, as long as the cache is right and the manager has a name for the key that nobody else
has used (`Custody.Right`). Whatever happens to a manager keeps this, if it spares what keys are
recovered from and the names to come (`Right.step`, `Right.run`). Hence a key that was generated is
retrieved whenever the clock can show when it will expire, if its master key has a name, and never
if it has none (`retrieveKey_of_generateKey_run`). -/

namespace ModularEncryption

/-- **Material without a name is written, but not read.** -/
theorem KeyMaterial.parse_serialize_unnamed (wrappedKey : Bytes) :
    parse (serialize ⟨wrappedKey, ""⟩) = .error { cause := .materialPartEmpty } := by
  unfold parse
  rw [span_serialize]
  simp

namespace Custody

variable {c c' : Custody} {masterKeyId : String} {dataKey : DataKey} {metadata : Bytes}

/-! ### Keys under no name -/

/-- Without a name the metadata lead to nothing that can be read. -/
theorem Generated.material_unnamed (h : c.Generated "" dataKey) :
    c.material dataKey.metadata = .error { cause := .materialPartEmpty } := by
  obtain ⟨wrapped, -, hmaterial, -⟩ := h.material
  rw [hmaterial, KeyMaterial.parse_serialize_unnamed]

theorem Generated.atTime (h : c.Generated masterKeyId dataKey) (later : Instant) :
    Generated { c with now := later } masterKeyId dataKey :=
  ⟨h.wrapsRemotely, h.serviceWorks, h.material⟩

/-! ### What is kept right -/

/-- The names that the manager will give its next keys are free in the store. -/
def NamesFree (c : Custody) : Prop :=
  ∀ fileId, c.manager.placement = .inStore fileId →
    ∀ n, c.manager.counter ≤ n → c.store.materials.get? (fileId, keyName n) = none

/-- Every key in the cache is what its metadata stand for, and the names to come are free. -/
structure Right (c : Custody) : Prop where
  cache : c.manager.cache.Holds c.StandsFor
  namesFree : c.NamesFree

/-- What is asked of an event: it takes nothing away from what keys are recovered from, and puts
nothing under the names to come. -/
def Spares (c : Custody) : Event → Prop
  | .setService service => service.masterKeys.Extends c.service.masterKeys
  | .setStore store =>
    (∀ fileId name material, c.store.fetch fileId name = .ok material →
      store.fetch fileId name = .ok material) ∧ NamesFree { c with store }
  | _ => True

/-- All events spare what keys are recovered from and the names to come. -/
def Spared (c : Custody) : List Event → Prop
  | [] => True
  | event :: events => c.Spares event ∧ (c.step event).Spared events

/-- A new manager is right, if its names are free. -/
theorem Right.of_create {tableLimit : Nat} {settings : Settings} {serverSide hasStore : Bool}
    {fileId : Option String}
    (hcreate : KeyManager.create tableLimit settings serverSide hasStore fileId = .ok c.manager)
    (hfree : c.NamesFree) : c.Right := by
  obtain ⟨-, -, -, hentries, -⟩ := SharedCustody.of_create hcreate
  refine ⟨fun e he => ?_, hfree⟩
  rw [hentries] at he
  exact absurd he List.not_mem_nil

theorem Right.onlyCache (h : c.Right) (honly : c'.OnlyCache c)
    (hcache : c'.manager.cache.Holds c.StandsFor) : c'.Right := by
  have hstands : c'.StandsFor = c.StandsFor :=
    StandsFor.congr honly.like.placement_eq honly.store_eq honly.masterKeys_eq
  refine ⟨by rwa [hstands], fun fileId hplacement n hn => ?_⟩
  rw [honly.like.placement_eq] at hplacement
  rw [honly.counter_eq] at hn
  rw [honly.store_eq]
  exact h.namesFree fileId hplacement n hn

theorem Right.withCache (h : c.Right) {cache : KeyCache}
    (hlifetime : cache.lifetime = c.manager.cache.lifetime) (hcache : cache.Holds c.StandsFor) :
    (c.withCache cache).Right :=
  h.onlyCache (onlyCache_withCache c hlifetime) hcache

/-- **Material under the next name leaves a right custody right.** -/
theorem Right.withStored (h : c.Right) {fileId : String}
    (hplacement : c.manager.placement = .inStore fileId) (text : String) :
    (c.withStored fileId text).Right := by
  have hfree := h.namesFree fileId hplacement c.manager.counter (Nat.le_refl _)
  refine ⟨h.cache.mono fun _ _ hstands => hstands.withStored hfree text, fun id hid n hn => ?_⟩
  obtain rfl : fileId = id := Placement.inStore.inj (hplacement.symm.trans hid)
  -- the manager has counted on, so the name that was taken is not one of those to come
  have hne : (fileId, keyName n) ≠ (fileId, keyName c.manager.counter) := by
    intro heq
    have hsame := keyName_injective (Prod.mk.inj heq).2
    exact absurd (hsame ▸ hn) (Nat.not_succ_le_self _)
  exact (Table.get?_insert_of_ne _ _ hne).trans
    (h.namesFree fileId hplacement n (Nat.le_of_succ_le hn))

/-- Placing a key leaves the custody alone, or puts material under the next name. -/
theorem snd_place (c : Custody) (key : AesKey) (text : String) :
    (c.place key text).2 = c ∨ ∃ fileId, c.manager.placement = .inStore fileId ∧
      (c.place key text).2 = c.withStored fileId text := by
  unfold place
  cases hplacement : c.manager.placement with
  | inMetadata _ => exact .inl rfl
  | inStore fileId =>
    cases hput : c.store.put text fileId c.manager.nextName with
    | error e => exact .inl (by simp only [hput])
    | ok store =>
      obtain ⟨-, rfl⟩ := KeyStore.of_put hput
      refine .inr ⟨fileId, rfl, ?_⟩
      simp only [hput]
      rfl

/-- **Generating a key leaves a right custody right**, whether it succeeds or not. -/
theorem Right.generateKey (h : c.Right) (masterKeyId : String) :
    (c.generateKey masterKeyId).2.Right := by
  rcases c.generateKey_cases masterKeyId with
    ⟨e, c₁, hfails, honly, hmanager⟩ | ⟨key, wrapped, entropy, -, -, hplaces⟩
  · rw [hfails]
    refine h.onlyCache honly ?_
    rw [hmanager]
    exact h.cache
  · have hasked : (c.askedToWrap entropy).Right :=
      h.onlyCache (c.onlyCache_askedToWrap entropy) h.cache
    rw [hplaces]
    rcases (c.askedToWrap entropy).snd_place key (KeyMaterial.serialize ⟨wrapped, masterKeyId⟩) with
      heq | ⟨fileId, hplacement, heq⟩
    · rw [heq]
      exact hasked
    · rw [heq]
      exact hasked.withStored hplacement _

theorem Right.of_generateKey (h : c.Right) {result : Except Error DataKey}
    (hgenerate : c.generateKey masterKeyId = (result, c')) : c'.Right := by
  have hright := h.generateKey masterKeyId
  rwa [hgenerate] at hright

/-- **An event that spares what keys are recovered from leaves a right custody right.** -/
theorem Right.step (h : c.Right) {event : Event} (hevent : c.Spares event) :
    (c.step event).Right := by
  cases event with
  | generateKey masterKeyId => exact h.generateKey masterKeyId
  | retrieveKey metadata =>
    exact h.onlyCache (c.retrieveKey_onlyCache metadata) (retrieveKey_holds h.cache metadata)
  | evictExpired => exact h.withCache rfl (h.cache.evictExpired c.now)
  | clearCache => exact h.withCache rfl (KeyCache.Holds.clear _)
  | pass d => exact ⟨h.cache, h.namesFree⟩
  | setService service =>
    exact ⟨h.cache.mono fun _ _ hstands => hstands.mono rfl (fun _ _ _ hfetch => hfetch) hevent,
      h.namesFree⟩
  | setStore store =>
    obtain ⟨hkeeps, hfree⟩ := hevent
    exact ⟨h.cache.mono fun _ _ hstands => hstands.mono rfl hkeeps (.refl _), hfree⟩

theorem Right.run (h : c.Right) {events : List Event} (hspared : c.Spared events) :
    (c.run events).Right := by
  induction events generalizing c with
  | nil => exact h
  | cons event events ih => exact ih (h.step hspared.1) hspared.2

/-! ### Retrieving what was generated -/

/-- The error of a retrieval that leads to material without a name. -/
def unnamed (metadata : Bytes) : Error :=
  { cause := .materialPartEmpty, context := [("key_metadata", Text.shown metadata)] }

theorem recoverKey_unnamed (hlocal : c.manager.wrapLocally = false)
    (h : c.material metadata = .error { cause := .materialPartEmpty }) :
    (c.recoverKey metadata).1 = .error (.error (unnamed metadata)) := by
  unfold recoverKey
  simp only [hlocal, h]
  rfl

/-- **A key that was generated is retrieved from the cache, or from its material**, if its master
key has a name and the clock can show when the key will expire. -/
theorem Generated.retrieveKey_eq (h : c.Generated masterKeyId dataKey) :
    (c.retrieveKey dataKey.metadata).1 =
      match (c.manager.cache.get c.now dataKey.metadata).1 with
      | some key => .ok key.bytes
      | none =>
        if masterKeyId = "" then .error (.error (unnamed dataKey.metadata))
        else if c.now + c.manager.cache.lifetime < endOfTime then .ok dataKey.key.bytes
        else .error .clockOverflow := by
  rcases c.retrieveKey_cases dataKey.metadata with ⟨key, hfound, heq⟩ | ⟨hmissed, heq⟩
  · rw [heq, hfound]
  · rw [heq, hmissed]
    by_cases hid : masterKeyId = ""
    · subst hid
      simp only [if_true]
      exact recoverKey_unnamed (c := c.withCache _) h.wrapsRemotely h.material_unnamed
    · simp only [if_neg hid]
      rw [← c.manager.cache.lifetime_get c.now dataKey.metadata]
      exact recoverKey_eq (c := c.withCache _) h.wrapsRemotely h.serviceWorks (h.standsFor hid)

/-- **A right cache has no other key than the one that was generated**, and none if the master key
has no name. -/
theorem Right.of_cached (h : c.Right) (hgenerated : c.Generated masterKeyId dataKey)
    {now : Instant} {key : AesKey}
    (hfound : (c.manager.cache.get now dataKey.metadata).1 = some key) :
    masterKeyId ≠ "" ∧ key.bytes = dataKey.key.bytes := by
  have hkey := (h.cache.get now dataKey.metadata).1 key hfound
  have hid : masterKeyId ≠ "" := by
    rintro rfl
    obtain ⟨m, hm, -⟩ := hkey
    rw [hgenerated.material_unnamed] at hm
    cases hm
  exact ⟨hid, hkey.unique (hgenerated.standsFor hid)⟩

/-- **Retrieving reverses generating, unless the master key has no name.** A key that was generated
is retrieved at any later time from the cache, or from its material; that fails if the master key is
named by the empty text, or if the clock cannot show when the key will expire. And the cache is of
no harm: after a run of a new manager that takes nothing away from what keys are recovered from and
leaves the names of the manager to it, every key with a named master key is retrieved as it was
generated. -/
theorem retrieveKey_of_generateKey_run
    (hgenerate : c.generateKey masterKeyId = (.ok dataKey, c')) (later : Instant) :
    (retrieveKey { c' with now := later } dataKey.metadata).1 =
        (match (c.manager.cache.get later dataKey.metadata).1 with
        | some key => .ok key.bytes
        | none =>
          if masterKeyId = "" then .error (.error (unnamed dataKey.metadata))
          else if later + c.manager.cache.lifetime < endOfTime then .ok dataKey.key.bytes
          else .error .clockOverflow) ∧
      ∀ (tableLimit : Nat) (settings : Settings) (serverSide hasStore : Bool)
        (fileId : Option String) (start : Custody) (events : List Event),
        KeyManager.create tableLimit settings serverSide hasStore fileId = .ok start.manager →
        start.NamesFree → start.Spared events → c = start.run events →
        (masterKeyId ≠ "" → later + settings.keyCacheLifetime < endOfTime →
          (retrieveKey { c' with now := later } dataKey.metadata).1 = .ok dataKey.key.bytes) ∧
        (masterKeyId = "" →
          (retrieveKey { c' with now := later } dataKey.metadata).1 =
            .error (.error (unnamed dataKey.metadata))) := by
  have hgenerated := (generated_of_generateKey hgenerate).atTime later
  have hcache := (cache_of_generateKey hgenerate).1
  have hresult := hgenerated.retrieveKey_eq
  simp only [hcache] at hresult
  refine ⟨hresult, fun _ settings _ _ _ start events hcreate hfree hspared hrun => ?_⟩
  have hright : c'.Right := by
    have h := (Right.of_create hcreate hfree).run hspared
    rw [← hrun] at h
    exact h.of_generateKey hgenerate
  have hcached : ∀ key, (c.manager.cache.get later dataKey.metadata).1 = some key →
      masterKeyId ≠ "" ∧ key.bytes = dataKey.key.bytes := by
    intro key hfound
    rw [← hcache] at hfound
    exact hright.of_cached (generated_of_generateKey hgenerate) hfound
  have hlifetime : c.manager.cache.lifetime = settings.keyCacheLifetime := by
    rw [hrun, lifetime_run]
    exact (SharedCustody.of_create hcreate).2.2.1
  rw [hresult]
  -- a key that is cached is the right one; without one the clock decides
  cases hfound : (c.manager.cache.get later dataKey.metadata).1 with
  | some key =>
    obtain ⟨hid, hkey⟩ := hcached key hfound
    exact ⟨fun _ _ => congrArg Except.ok hkey, fun hempty => absurd hempty hid⟩
  | none =>
    refine ⟨fun hid hclock => ?_, fun hempty => if_pos hempty⟩
    rw [← hlifetime] at hclock
    simp only [if_neg hid, if_pos hclock]

namespace Sample

/-- The service with a further master key under a name with a colon, and one under no name. -/
def manyNames : KeyService :=
  { masterKeys := (Settings.Sample.service.masterKeys.insert "kms:master/1"
      SharedCustody.Sample.master).insert "" SharedCustody.Sample.master }

theorem extends_manyNames : manyNames.masterKeys.Extends Settings.Sample.service.masterKeys := by
  intro id key hget
  have hm : id = "m" := by
    by_contra hne
    have hnone : Table.get? Settings.Sample.service.masterKeys id = none :=
      Table.get?_insert_of_ne Table.empty _ hne
    rw [hnone] at hget
    cases hget
  subst hm
  exact hget

/-- After a minute the service has come to know further master keys. -/
def manyNamesEvents : List Event := [.pass (60 * second), .setService manyNames]

theorem namesFree_minuteStart : minuteStart.NamesFree := fun _ _ _ _ => rfl

theorem spared_manyNamesEvents : minuteStart.Spared manyNamesEvents :=
  ⟨trivial, extends_manyNames, trivial⟩

theorem create_minuteStart :
    KeyManager.create 1000 Settings.Sample.minuteSettings true true (some "f") =
      .ok minuteStart.manager :=
  KeyManager.create_of_usable
    (Settings.usable_of_ofProperties Settings.Sample.ofProperties_minute) (by decide) rfl

end Sample

open Sample in
/-- A key under a master key with a colon in its name is retrieved an hour later. -/
theorem retrieveKey_of_generateKey_run_colon :
    ∃ dataKey c, (minuteStart.run manyNamesEvents).generateKey "kms:master/1" = (.ok dataKey, c) ∧
      KeyManager.create 1000 Settings.Sample.minuteSettings true true (some "f") =
        .ok minuteStart.manager ∧
      minuteStart.NamesFree ∧ minuteStart.Spared manyNamesEvents ∧
      (retrieveKey { c with now := 3600 * second } dataKey.metadata).1 = .ok dataKey.key.bytes := by
  have hknown : Table.get? manyNames.masterKeys "kms:master/1" = some SharedCustody.Sample.master :=
    by decide
  obtain ⟨dataKey, c, hgenerate⟩ := exists_generateKey (c := minuteStart.run manyNamesEvents) rfl
    (by decide) rfl rfl hknown
  obtain ⟨-, hrun⟩ := retrieveKey_of_generateKey_run hgenerate (3600 * second)
  obtain ⟨hnamed, -⟩ := hrun _ _ _ _ _ _ _ create_minuteStart namesFree_minuteStart
    spared_manyNamesEvents rfl
  exact ⟨dataKey, c, hgenerate, create_minuteStart, namesFree_minuteStart, spared_manyNamesEvents,
    hnamed (by decide) (by decide)⟩

open Sample in
/-- **Under a master key without a name a key is generated that nobody retrieves**, although the
service knows the master key. -/
theorem generateKey_unnamed :
    (Table.get? (minuteStart.run manyNamesEvents).service.masterKeys "").isSome = true ∧
      ∃ dataKey c, (minuteStart.run manyNamesEvents).generateKey "" = (.ok dataKey, c) ∧
        (c.retrieveKey dataKey.metadata).1 = .error (.error (unnamed dataKey.metadata)) := by
  have hknown : Table.get? manyNames.masterKeys "" = some SharedCustody.Sample.master := by decide
  obtain ⟨dataKey, c, hgenerate⟩ := exists_generateKey (c := minuteStart.run manyNamesEvents) rfl
    (by decide) rfl rfl hknown
  have hright : c.Right := ((Right.of_create create_minuteStart namesFree_minuteStart).run
    spared_manyNamesEvents).of_generateKey hgenerate
  have hgenerated := generated_of_generateKey hgenerate
  refine ⟨by decide, dataKey, c, hgenerate, ?_⟩
  have hresult := hgenerated.retrieveKey_eq
  cases hfound : (c.manager.cache.get c.now dataKey.metadata).1 with
  | some key => exact absurd rfl (hright.of_cached hgenerated hfound).1
  | none => simpa only [hfound, if_true] using hresult

end Custody

end ModularEncryption
