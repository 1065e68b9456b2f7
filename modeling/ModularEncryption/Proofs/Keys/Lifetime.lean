import Mathlib.Data.List.Induction
import ModularEncryption.Proofs.Keys.Usable

/-! # Keys are served within their lifetime

A manager runs through events (`Custody.Event`): keys are generated and retrieved, the cache is
cleaned up or emptied, time passes, and the service and the store change as they please. Retrievers
of a manager have no state but its cache, so a retrieval by any of them is one event.

Whatever stands in the cache was put there by a retrieval before (`Backed`): it had the service
unwrap the key, the entry expires one lifetime after it, the cache was not emptied since, and no
retrieval of the same metadata has asked the service since. One step keeps this
(`backed_retrieveKey`, `Backed.append`), so it holds after every run (`backed_run`). Hence a key
that is served without asking the service is the result of the latest unwrapping, and younger than
the lifetime of the cache (`retrieveKey_of_run`). -/

namespace ModularEncryption

namespace KeyCache

variable {c d : KeyCache} {now : Instant} {metadata : Bytes}

/-- A key that is found stands in the cache and has not expired; nothing else is left there than
before. -/
theorem of_get_eq_some {key : AesKey} (h : (c.get now metadata).1 = some key) :
    ∃ e ∈ c.entries, e.metadata = metadata ∧ e.key = key ∧ now < e.expiresAt ∧
      (c.get now metadata).2.entries = e :: c.others metadata := by
  rcases c.get_cases now metadata with
    ⟨e, hmem, hmetadata, hfresh, hget⟩ | ⟨_, -, -, -, hget⟩ | ⟨-, hget⟩
  · rw [hget] at h ⊢
    exact ⟨e, hmem, hmetadata, Option.some.inj h, hfresh, rfl⟩
  · rw [hget] at h
    cases h
  · rw [hget] at h
    cases h

/-- A cache that does not find a key has no entry for its metadata afterwards. -/
theorem of_get_eq_none (h : (c.get now metadata).1 = none) :
    (c.get now metadata).2.entries.Sublist c.entries ∧
      ∀ e ∈ (c.get now metadata).2.entries, e.metadata ≠ metadata := by
  rcases c.get_cases now metadata with ⟨_, -, -, -, hget⟩ | ⟨_, -, -, -, hget⟩ | ⟨hnone, hget⟩
  · rw [hget] at h
    cases h
  · rw [hget]
    exact ⟨List.filter_sublist, fun e he => by simpa using (List.mem_filter.mp he).2⟩
  · rw [hget]
    exact ⟨.refl _, hnone⟩

/-- A key that is put in expires one lifetime later; it may drive out others. -/
theorem mem_insert {key : AesKey} (h : c.insert now metadata key = .ok d) :
    ∀ e ∈ d.entries, e = ⟨metadata, key, now + c.lifetime⟩ ∨ e ∈ c.others metadata := by
  obtain rfl := of_insert h
  exact fun e he => List.mem_cons.mp (List.mem_of_mem_take he)

end KeyCache

namespace Custody

/-! ### One retrieval -/

/-- Retrieving the key of metadata has the service asked to unwrap once. -/
def Asks (c : Custody) (metadata : Bytes) : Prop :=
  (c.retrieveKey metadata).2.service.unwraps = c.service.unwraps + 1

/-- Retrieving the key of metadata has the service asked, and it unwraps these bytes. -/
def Unwraps (c : Custody) (metadata bytes : Bytes) : Prop :=
  c.Asks metadata ∧ ∃ m, c.material metadata = .ok m ∧
    c.service.unwrapped m.wrappedKey m.masterKeyId = .ok bytes

/-- The service refuses to unwrap what metadata lead to, if they lead to anything. -/
def Refuses (c : Custody) (metadata : Bytes) : Prop :=
  ∀ m, c.material metadata = .ok m →
    ∃ e, c.service.unwrapped m.wrappedKey m.masterKeyId = .error e

variable {c : Custody} {metadata : Bytes}

theorem not_asks_of_service_eq (h : (c.retrieveKey metadata).2.service = c.service) :
    ¬ c.Asks metadata := by
  rw [Asks, h]
  omega

/-- Everything that retrieving a key can come to. -/
inductive Outcome (c : Custody) (metadata : Bytes) : Prop where
  /-- The key stands in the cache and is still fresh. -/
  | served (e : CachedKey) (mem : e ∈ c.manager.cache.entries) (metadata_eq : e.metadata = metadata)
    (fresh : c.now < e.expiresAt) (service_eq : (c.retrieveKey metadata).2.service = c.service)
    (result : (c.retrieveKey metadata).1 = .ok e.key.bytes)
    (entries_eq : (c.retrieveKey metadata).2.manager.cache.entries =
      e :: c.manager.cache.others metadata)
  /-- The service unwraps the key, and it is put into the cache. -/
  | unwrapped (key : AesKey) (unwraps : c.Unwraps metadata key.bytes)
    (result : (c.retrieveKey metadata).1 = .ok key.bytes)
    (entries : ∀ e ∈ (c.retrieveKey metadata).2.manager.cache.entries,
      e = ⟨metadata, key, c.now + c.manager.cache.lifetime⟩ ∨
        e ∈ c.manager.cache.entries ∧ e.metadata ≠ metadata)
  /-- There is no key; the cache has lost what it had for the metadata, and nothing else. -/
  | failed (f : Failure) (result : (c.retrieveKey metadata).1 = .error f)
    (service_or_asks : (c.retrieveKey metadata).2.service = c.service ∨ c.Asks metadata)
    (sublist : (c.retrieveKey metadata).2.manager.cache.entries.Sublist c.manager.cache.entries)
    (metadata_ne : ∀ e ∈ (c.retrieveKey metadata).2.manager.cache.entries, e.metadata ≠ metadata)

/-- A key that is not found in the cache is unwrapped and put into it, or there is no key. -/
theorem Outcome.of_missed {cache : KeyCache}
    (heq : c.retrieveKey metadata = (c.withCache cache).recoverKey metadata)
    (hsublist : cache.entries.Sublist c.manager.cache.entries)
    (hother : ∀ e ∈ cache.entries, e.metadata ≠ metadata)
    (hlifetime : cache.lifetime = c.manager.cache.lifetime) : c.Outcome metadata := by
  rcases recoverKey_cases (c.withCache cache) metadata with ⟨-, f, hfails⟩ | ⟨m, hm, hasks⟩
  · rw [hfails] at heq
    refine .failed f (by rw [heq]) (.inl (by rw [heq]; rfl)) ?_ ?_
    · rw [heq]
      exact hsublist
    · rw [heq]
      exact hother
  · rw [hasks] at heq
    rcases unwrap_cases (c.withCache cache) metadata m with
      ⟨f, hfails⟩ | ⟨key, cache', hunwrapped, hinsert, hput⟩
    · rw [hfails] at heq
      refine .failed f (by rw [heq]) (.inr (by rw [Asks, heq]; rfl)) ?_ ?_
      · rw [heq]
        exact hsublist
      · rw [heq]
        exact hother
    · rw [hput] at heq
      refine .unwrapped key ⟨by rw [Asks, heq]; rfl, m, hm, hunwrapped⟩ (by rw [heq]) ?_
      rw [heq]
      intro e he
      rcases KeyCache.mem_insert hinsert e he with hnew | hold
      · rw [← hlifetime]
        exact .inl hnew
      · have hmem := (List.mem_filter.mp hold).1
        exact .inr ⟨hsublist.subset hmem, hother e hmem⟩

/-- **A key is served from the cache, or unwrapped, or there is none.** -/
theorem outcome (c : Custody) (metadata : Bytes) : c.Outcome metadata := by
  rcases c.retrieveKey_cases metadata with ⟨key, hfound, heq⟩ | ⟨hmissed, heq⟩
  · obtain ⟨e, hmem, hmetadata, hkey, hfresh, hentries⟩ := KeyCache.of_get_eq_some hfound
    refine .served e hmem hmetadata hfresh (by rw [heq]; rfl) (by rw [heq, hkey]) ?_
    rw [heq]
    exact hentries
  · obtain ⟨hsublist, hother⟩ := KeyCache.of_get_eq_none hmissed
    exact .of_missed heq hsublist hother (c.manager.cache.lifetime_get c.now metadata)

/-- **The service is asked once at most.** -/
theorem service_or_asks (c : Custody) (metadata : Bytes) :
    (c.retrieveKey metadata).2.service = c.service ∨ c.Asks metadata := by
  cases c.outcome metadata with
  | served _ _ _ _ hservice _ _ => exact .inl hservice
  | unwrapped _ hunwraps _ _ => exact .inr hunwraps.1
  | failed _ _ hservice _ _ => exact hservice

/-- **A retrieval that fails puts nothing into the cache.** -/
theorem sublist_of_retrieveKey_error {f : Failure} (h : (c.retrieveKey metadata).1 = .error f) :
    (c.retrieveKey metadata).2.manager.cache.entries.Sublist c.manager.cache.entries := by
  cases c.outcome metadata with
  | served _ _ _ _ _ hok _ => rw [hok] at h; cases h
  | unwrapped _ _ hok _ => rw [hok] at h; cases h
  | failed _ _ _ hsublist _ => exact hsublist

/-- A key that the service was asked for is what it unwrapped. -/
theorem unwraps_of_asks {bytes : Bytes} (h : (c.retrieveKey metadata).1 = .ok bytes)
    (hasks : c.Asks metadata) : c.Unwraps metadata bytes := by
  cases c.outcome metadata with
  | served _ _ _ _ hservice _ _ => exact absurd hasks (not_asks_of_service_eq hservice)
  | unwrapped key hunwraps hok _ =>
    rw [hok] at h
    cases h
    exact hunwraps
  | failed _ herror _ _ _ => rw [herror] at h; cases h

/-- A key that the service was not asked for stands in the cache and has not expired. -/
theorem served_of_not_asks {bytes : Bytes} (h : (c.retrieveKey metadata).1 = .ok bytes)
    (hnot : ¬ c.Asks metadata) : ∃ e ∈ c.manager.cache.entries,
      e.metadata = metadata ∧ c.now < e.expiresAt ∧ e.key.bytes = bytes := by
  cases c.outcome metadata with
  | served e hmem hmetadata hfresh _ hok _ =>
    rw [hok] at h
    exact ⟨e, hmem, hmetadata, hfresh, Except.ok.inj h⟩
  | unwrapped _ hunwraps _ _ => exact absurd hunwraps.1 hnot
  | failed _ herror _ _ _ => rw [herror] at h; cases h

/-! ### Runs -/

/-- What happens to a manager and to what it calls on. -/
inductive Event where
  | generateKey (masterKeyId : String)
  | retrieveKey (metadata : Bytes)
  | evictExpired
  | clearCache
  | pass (d : Duration)
  | setService (service : KeyService)
  | setStore (store : KeyStore)

/-- The custody after an event. -/
def step (c : Custody) : Event → Custody
  | .generateKey masterKeyId => (c.generateKey masterKeyId).2
  | .retrieveKey metadata => (c.retrieveKey metadata).2
  | .evictExpired => c.withCache (c.manager.cache.evictExpired c.now)
  | .clearCache => c.withCache c.manager.cache.clear
  | .pass d => { c with now := c.now + d }
  | .setService service => { c with service }
  | .setStore store => { c with store }

/-- The custody after events, in their order. -/
def run (c : Custody) (events : List Event) : Custody := events.foldl step c

theorem run_append (c : Custody) (before after : List Event) :
    c.run (before ++ after) = (c.run before).run after := List.foldl_append ..

theorem lifetime_step (c : Custody) (event : Event) :
    (c.step event).manager.cache.lifetime = c.manager.cache.lifetime := by
  cases event with
  | generateKey masterKeyId => exact congrArg _ (c.cache_generateKey masterKeyId).1
  | retrieveKey metadata => exact (c.retrieveKey_onlyCache metadata).like.lifetime_eq
  | evictExpired | clearCache | pass | setService | setStore => rfl

theorem lifetime_run (c : Custody) (events : List Event) :
    (c.run events).manager.cache.lifetime = c.manager.cache.lifetime := by
  induction events generalizing c with
  | nil => rfl
  | cons event events ih => exact (ih (c.step event)).trans (c.lifetime_step event)

/-! ### Where entries come from -/

variable {start : Custody} {events : List Event} {e : CachedKey}

/-- No retrieval of the metadata among the later events asks the service. -/
def Unasked (c : Custody) (metadata : Bytes) (later : List Event) : Prop :=
  ∀ before after, later = before ++ .retrieveKey metadata :: after →
    ¬ (c.run before).Asks metadata

/-- A retrieval among the events had the service unwrap the key of an entry, one lifetime before the
entry expires; since then the cache was not emptied, and no retrieval of the metadata has asked
again. -/
def Backed (start : Custody) (events : List Event) (e : CachedKey) : Prop :=
  ∃ before after, events = before ++ .retrieveKey e.metadata :: after ∧
    (start.run before).Unwraps e.metadata e.key.bytes ∧
    e.expiresAt = (start.run before).now + start.manager.cache.lifetime ∧
    .clearCache ∉ after ∧
    ((start.run before).step (.retrieveKey e.metadata)).Unasked e.metadata after

theorem Unasked.append {later : List Event} (h : c.Unasked metadata later) {event : Event}
    (hevent : event = .retrieveKey metadata → ¬ (c.run later).Asks metadata) :
    c.Unasked metadata (later ++ [event]) := by
  intro before after heq
  rcases List.eq_nil_or_concat after with rfl | ⟨after', last, rfl⟩
  · obtain ⟨rfl, hlast⟩ := List.append_inj' heq rfl
    exact hevent (List.singleton_inj.mp hlast)
  · rw [List.concat_eq_append, ← List.cons_append, ← List.append_assoc] at heq
    exact h before after' (List.append_inj' heq rfl).1

/-- **One more event leaves an entry backed**, unless it empties the cache or has the service asked
for the same metadata. -/
theorem Backed.append (h : Backed start events e) {event : Event} (hclear : event ≠ .clearCache)
    (hevent : event = .retrieveKey e.metadata → ¬ (start.run events).Asks e.metadata) :
    Backed start (events ++ [event]) e := by
  obtain ⟨before, after, rfl, hunwraps, hexpires, hkept, hunasked⟩ := h
  refine ⟨before, after ++ [event], by rw [List.append_assoc, List.cons_append], hunwraps,
    hexpires, ?_, hunasked.append ?_⟩
  · intro hmem
    rcases List.mem_append.mp hmem with hmem | hmem
    · exact hkept hmem
    · exact hclear (List.mem_singleton.mp hmem).symm
  · rwa [run_append] at hevent

/-- **Retrieving a key leaves only backed entries in the cache.** -/
theorem backed_retrieveKey (h : ∀ e ∈ (start.run events).manager.cache.entries,
      Backed start events e) (metadata : Bytes) :
    ∀ e ∈ ((start.run events).retrieveKey metadata).2.manager.cache.entries,
      Backed start (events ++ [.retrieveKey metadata]) e := by
  -- an entry for other metadata stays backed whatever the retrieval does
  have hother : ∀ e ∈ (start.run events).manager.cache.entries, e.metadata ≠ metadata →
      Backed start (events ++ [.retrieveKey metadata]) e := by
    intro e he hne
    refine (h e he).append (by simp) fun hevent => ?_
    cases hevent
    exact absurd rfl hne
  intro e he
  cases (start.run events).outcome metadata with
  | served found hmem hmetadata _ hservice _ hentries =>
    rw [hentries] at he
    rcases List.mem_cons.mp he with rfl | he
    · refine (h e hmem).append (by simp) fun _ => ?_
      rw [hmetadata]
      exact not_asks_of_service_eq hservice
    · obtain ⟨hmem', hne⟩ := List.mem_filter.mp he
      exact hother e hmem' (by simpa using hne)
  | unwrapped key hunwraps _ hentries =>
    rcases hentries e he with rfl | ⟨hmem, hne⟩
    · refine ⟨events, [], rfl, hunwraps, by rw [lifetime_run], List.not_mem_nil, ?_⟩
      intro before after heq
      exact absurd heq.symm (by simp)
    · exact hother e hmem hne
  | failed _ _ _ hsublist hne => exact hother e (hsublist.subset he) (hne e he)

/-- **After every run the cache holds only backed entries**, if it was empty at the start. -/
theorem backed_run (hstart : start.manager.cache.entries = []) (events : List Event) :
    ∀ e ∈ (start.run events).manager.cache.entries, Backed start events e := by
  induction events using List.reverseRecOn with
  | nil =>
    intro e he
    rw [run, List.foldl_nil, hstart] at he
    exact absurd he List.not_mem_nil
  | append_singleton events event ih =>
    rw [run_append]
    -- what leaves an entry in the cache without retrieving a key
    have hkept : ∀ e ∈ (start.run events).manager.cache.entries, event ≠ .clearCache →
        (∀ metadata, event ≠ .retrieveKey metadata) → Backed start (events ++ [event]) e :=
      fun e he hclear hretrieve => (ih e he).append hclear fun h => absurd h (hretrieve _)
    cases event with
    | generateKey masterKeyId =>
      intro e he
      have hcache := (cache_generateKey (start.run events) masterKeyId).1
      exact hkept e (by rw [← hcache]; exact he) (by simp) (by simp)
    | retrieveKey metadata => exact backed_retrieveKey ih metadata
    | evictExpired =>
      intro e he
      exact hkept e (List.mem_filter.mp he).1 (by simp) (by simp)
    | clearCache => exact fun e he => absurd he List.not_mem_nil
    | pass d => exact fun e he => hkept e he (by simp) (by simp)
    | setService service => exact fun e he => hkept e he (by simp) (by simp)
    | setStore store => exact fun e he => hkept e he (by simp) (by simp)

/-- **Keys are served within their lifetime.** In every run of a new manager a retrieval has the
service asked once at most. A key that is served without asking was unwrapped by the latest
retrieval of its metadata that asked, less than the lifetime before, and the cache was not emptied
since. A retrieval that fails puts nothing into the cache; and when the service refuses, a retrieval
fails if after every earlier unwrapping the cache was emptied or the lifetime has passed. -/
theorem retrieveKey_of_run {tableLimit : Nat} {settings : Settings} {serverSide hasStore : Bool}
    {fileId : Option String} {start : Custody}
    (hcreate : KeyManager.create tableLimit settings serverSide hasStore fileId =
      .ok start.manager)
    (events : List Event) (metadata : Bytes) :
    ((start.run events).retrieveKey metadata).2.service.unwraps ≤
        (start.run events).service.unwraps + 1 ∧
      (∀ bytes, ((start.run events).retrieveKey metadata).1 = .ok bytes →
        (start.run events).Asks metadata → (start.run events).Unwraps metadata bytes) ∧
      (∀ bytes, ((start.run events).retrieveKey metadata).1 = .ok bytes →
        ¬ (start.run events).Asks metadata →
        ∃ before after, events = before ++ .retrieveKey metadata :: after ∧
          (start.run before).Unwraps metadata bytes ∧
          (start.run events).now < (start.run before).now + settings.keyCacheLifetime ∧
          .clearCache ∉ after ∧
          ((start.run before).step (.retrieveKey metadata)).Unasked metadata after) ∧
      (∀ f, ((start.run events).retrieveKey metadata).1 = .error f →
        ((start.run events).retrieveKey metadata).2.manager.cache.entries.Sublist
          (start.run events).manager.cache.entries) ∧
      ((start.run events).Refuses metadata →
        (∀ before after bytes, events = before ++ .retrieveKey metadata :: after →
          (start.run before).Unwraps metadata bytes →
          .clearCache ∈ after ∨
            (start.run before).now + settings.keyCacheLifetime ≤ (start.run events).now) →
        ∃ f, ((start.run events).retrieveKey metadata).1 = .error f) := by
  obtain ⟨-, -, hlifetime, hempty, -⟩ := SharedCustody.of_create hcreate
  have hserved : ∀ bytes, ((start.run events).retrieveKey metadata).1 = .ok bytes →
      ¬ (start.run events).Asks metadata →
      ∃ before after, events = before ++ .retrieveKey metadata :: after ∧
        (start.run before).Unwraps metadata bytes ∧
        (start.run events).now < (start.run before).now + settings.keyCacheLifetime ∧
        .clearCache ∉ after ∧
        ((start.run before).step (.retrieveKey metadata)).Unasked metadata after := by
    intro bytes hok hnot
    obtain ⟨e, hmem, rfl, hfresh, rfl⟩ := served_of_not_asks hok hnot
    obtain ⟨before, after, hevents, hunwraps, hexpires, hkept, hunasked⟩ :=
      backed_run hempty events e hmem
    rw [hexpires, hlifetime] at hfresh
    exact ⟨before, after, hevents, hunwraps, hfresh, hkept, hunasked⟩
  refine ⟨?_, fun _ hok hasks => unwraps_of_asks hok hasks, hserved,
    fun f hf => sublist_of_retrieveKey_error hf, fun hrefuses hold => ?_⟩
  · rcases (start.run events).service_or_asks metadata with h | h
    · rw [h]
      exact Nat.le_succ _
    · exact Nat.le_of_eq h
  · cases hresult : ((start.run events).retrieveKey metadata).1 with
    | error f => exact ⟨f, rfl⟩
    | ok bytes =>
      by_cases hasks : (start.run events).Asks metadata
      · obtain ⟨-, m, hm, hunwrapped⟩ := unwraps_of_asks hresult hasks
        obtain ⟨e, he⟩ := hrefuses m hm
        rw [hunwrapped] at he
        cases he
      · obtain ⟨before, after, hevents, hunwraps, hfresh, hkept, -⟩ := hserved bytes hresult hasks
        rcases hold before after bytes hevents hunwraps with hclear | hlate
        · exact absurd hclear hkept
        · exact absurd hfresh (Nat.not_lt.mpr hlate)

namespace Sample

/-- A manager that keeps keys in the cache for a minute, over a service and a store that work. -/
def minuteStart : Custody :=
  ⟨.made (Settings.usable_of_ofProperties Settings.Sample.ofProperties_minute) (.inStore "f"),
    Settings.Sample.service, {}, ⟨fun _ => 0, 0⟩, 0⟩

/-- The service after it broke down. -/
def broken : KeyService :=
  { Settings.Sample.service with outage := some (.reported .unexpected "broken") }

/-- A key is generated and retrieved; then a minute passes, and the service breaks down. -/
def minuteEvents (metadata : Bytes) : List Event :=
  [.generateKey "m", .retrieveKey metadata, .pass (60 * second), .setService broken]

theorem eq_of_minuteEvents {metadata : Bytes} {before after : List Event}
    (h : minuteEvents metadata = before ++ .retrieveKey metadata :: after) :
    before = [.generateKey "m"] := by
  match before with
  | [] => cases h
  | [_] => cases h; rfl
  | [_, _] => cases h
  | [_, _, _] => cases h
  | _ :: _ :: _ :: _ :: _ => simp [minuteEvents] at h

theorem now_minuteEvents (metadata : Bytes) :
    (minuteStart.run [.generateKey "m"]).now = 0 ∧
      (minuteStart.run (minuteEvents metadata)).now = 60 * second := by
  have hgenerate : (minuteStart.generateKey "m").2.now = 0 := (cache_generateKey _ _).2
  have hretrieve := ((minuteStart.generateKey "m").2.retrieveKey_onlyCache metadata).now_eq
  refine ⟨hgenerate, ?_⟩
  show ((minuteStart.generateKey "m").2.retrieveKey metadata).2.now + 60 * second = _
  rw [hretrieve, hgenerate, Nat.zero_add]

end Sample

open Sample in
/-- A key that was retrieved is not served when a minute has passed and the service broke down. -/
theorem retrieveKey_of_run_minute :
    KeyManager.create 1000 Settings.Sample.minuteSettings true true (some "f") =
        .ok minuteStart.manager ∧
      ∃ dataKey c f, minuteStart.generateKey "m" = (.ok dataKey, c) ∧
        (c.retrieveKey dataKey.metadata).1 = .ok dataKey.key.bytes ∧
        ((minuteStart.run (minuteEvents dataKey.metadata)).retrieveKey dataKey.metadata).1 =
          .error f := by
  have hcreate : KeyManager.create 1000 Settings.Sample.minuteSettings true true (some "f") =
      .ok minuteStart.manager :=
    KeyManager.create_of_usable (Settings.usable_of_ofProperties
      Settings.Sample.ofProperties_minute) (by decide) rfl
  obtain ⟨dataKey, c, hgenerate, hretrieve⟩ := generateKey_of_usable
    (Settings.usable_of_ofProperties Settings.Sample.ofProperties_minute) Settings.Sample.serves rfl
    (.inStore "f") ⟨fun _ => 0, 0⟩ 0
  obtain ⟨-, -, -, -, hrefused⟩ :=
    retrieveKey_of_run hcreate (minuteEvents dataKey.metadata) dataKey.metadata
  have hrefuses : (minuteStart.run (minuteEvents dataKey.metadata)).Refuses dataKey.metadata :=
    fun m _ => ⟨.reported .unexpected "broken", rfl⟩
  obtain ⟨f, hf⟩ := hrefused hrefuses fun before after bytes hevents _ => by
    obtain ⟨hthen, hnow⟩ := now_minuteEvents dataKey.metadata
    rw [eq_of_minuteEvents hevents, hthen, hnow]
    exact .inr (by decide)
  have hnow : c.now = 0 := by
    have h := (cache_generateKey minuteStart "m").2
    rwa [show minuteStart.generateKey "m" = _ from hgenerate] at h
  have hfirst := hretrieve c.now
  rw [hnow, if_pos (by decide)] at hfirst
  refine ⟨hcreate, dataKey, c, f, hgenerate, ?_, hf⟩
  rwa [← hnow] at hfirst

end Custody

end ModularEncryption
