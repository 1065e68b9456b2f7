import Mathlib.Data.Finset.Card
import Mathlib.Data.List.Induction
import ModularEncryption.Proofs.Keys.Cache

/-! # Caches over whole runs

A cache runs through events (`TimedCache.Event`): keys are put in and looked up, the expired entries
or all of them are dropped, and time passes.

An entry that is found was put in last for its metadata, one lifetime before it expires, and the
cache was not cleared since: all entries are so after every run (`backed_run`). Conversely an entry
is in front of the cache when its metadata are used, and only entries whose metadata are used later
come before it (`Trails`). One event keeps this (`Trails.step`), so the entry is still there at the
end of the run if there was room for all of these and it has not expired (`trails_of_lastInsert`).
The two directions and what single operations do make up the behaviour of a cache
(`answer_of_run`). -/

namespace ModularEncryption

/-- A cache at a point in time. -/
structure TimedCache where
  cache : KeyCache
  now : Instant

namespace TimedCache

/-! ### Runs -/

/-- What happens to a cache. -/
inductive Event where
  | insert (metadata : Bytes) (key : AesKey)
  | get (metadata : Bytes)
  | evictExpired
  | clear
  | pass (d : Duration)

/-- The cache after an event. -/
def step (s : TimedCache) : Event → TimedCache
  | .insert metadata key =>
    match s.cache.insert s.now metadata key with
    | .ok cache => { s with cache }
    | .error _ => s
  | .get metadata => { s with cache := (s.cache.get s.now metadata).2 }
  | .evictExpired => { s with cache := s.cache.evictExpired s.now }
  | .clear => { s with cache := s.cache.clear }
  | .pass d => { s with now := s.now + d }

/-- The cache after events, in their order. -/
def run (s : TimedCache) (events : List Event) : TimedCache := events.foldl step s

/-- The answer to a look-up. -/
def answer (s : TimedCache) (metadata : Bytes) : Option AesKey :=
  (s.cache.get s.now metadata).1

/-- The metadata that an event uses: those under which a key is put in, or found. -/
def usedBy (s : TimedCache) : Event → Option Bytes
  | .insert metadata _ => some metadata
  | .get metadata => if (s.answer metadata).isSome then some metadata else none
  | .evictExpired | .clear | .pass _ => none

/-- The metadata used since the given ones were used last, when others are used, or they are. -/
def note (metadata : Bytes) (seen : Finset Bytes) : Option Bytes → Finset Bytes
  | none => seen
  | some used => if used = metadata then ∅ else insert used seen

/-- The metadata that are used in events, after `seen`, since the given ones were used last. -/
def usedSince (metadata : Bytes) : (s : TimedCache) → (seen : Finset Bytes) → List Event →
    Finset Bytes
  | _, seen, [] => seen
  | s, seen, event :: events =>
    usedSince metadata (s.step event) (note metadata seen (s.usedBy event)) events

/-- The clock can show when each key that is put in expires. -/
def ClockLasts (s : TimedCache) (events : List Event) : Prop :=
  ∀ before metadata key after, events = before ++ .insert metadata key :: after →
    (s.run before).now + s.cache.lifetime < endOfTime

/-- The key is the latest that was put in for the metadata, and the cache was not cleared since. -/
structure LastInsert (events : List Event) (metadata : Bytes) (key : AesKey)
    (before after : List Event) : Prop where
  events_eq : events = before ++ .insert metadata key :: after
  unreplaced : ∀ key', .insert metadata key' ∉ after
  uncleared : .clear ∉ after

variable {s : TimedCache} {event : Event} {events before after : List Event} {metadata : Bytes}
  {key : AesKey} {e : CachedKey}

theorem run_append (s : TimedCache) (before after : List Event) :
    s.run (before ++ after) = (s.run before).run after := List.foldl_append ..

theorem run_concat (s : TimedCache) (events : List Event) (event : Event) :
    s.run (events ++ [event]) = (s.run events).step event := s.run_append events [event]

theorem usedSince_concat (s : TimedCache) (metadata : Bytes) (seen : Finset Bytes)
    (events : List Event) (event : Event) :
    usedSince metadata s seen (events ++ [event]) =
      note metadata (usedSince metadata s seen events) ((s.run events).usedBy event) := by
  induction events generalizing s seen with
  | nil => rfl
  | cons first events ih => exact ih (s.step first) _

theorem eq_of_usedBy (h : s.usedBy event = some metadata) :
    (∃ key, event = .insert metadata key) ∨ event = .get metadata := by
  cases event with
  | insert metadata' key =>
    cases h
    exact .inl ⟨key, rfl⟩
  | get metadata' =>
    unfold usedBy at h
    dsimp only at h
    split at h
    · cases h
      exact .inr rfl
    · cases h
  | evictExpired | clear | pass => cases h

theorem subset_note {used : Option Bytes} (h : used ≠ some metadata) (seen : Finset Bytes) :
    seen ⊆ note metadata seen used := by
  cases used with
  | none => exact Finset.Subset.refl _
  | some metadata' =>
    rw [note, if_neg fun heq => h (congrArg some heq)]
    exact Finset.subset_insert ..

theorem ClockLasts.of_append (h : s.ClockLasts (before ++ after)) : s.ClockLasts before := by
  rintro before' metadata key after' rfl
  exact h before' metadata key (after' ++ after) (by simp)

/-! ### What every event keeps -/

theorem step_insert (h : s.now + s.cache.lifetime < endOfTime) (metadata : Bytes) (key : AesKey) :
    s.step (.insert metadata key) =
      { s with cache := { s.cache with
        entries := (⟨metadata, key, s.now + s.cache.lifetime⟩ ::
          s.cache.others metadata).take s.cache.capacity } } := by
  simp only [step, s.cache.insert_eq key h]

/-- A key that would expire after the end of time is not put in. -/
theorem step_insert_of_late (h : ¬ s.now + s.cache.lifetime < endOfTime) (metadata : Bytes)
    (key : AesKey) : s.step (.insert metadata key) = s := by
  simp only [step, s.cache.insert_of_late key h]

/-- No event changes how long keys are kept or for how many there is room, or turns the clock
back. -/
theorem step_fixed (s : TimedCache) (event : Event) :
    (s.step event).cache.lifetime = s.cache.lifetime ∧
      (s.step event).cache.capacity = s.cache.capacity ∧ s.now ≤ (s.step event).now := by
  cases event with
  | insert metadata key =>
    by_cases hclock : s.now + s.cache.lifetime < endOfTime
    · rw [step_insert hclock]
      exact ⟨rfl, rfl, Nat.le_refl _⟩
    · rw [step_insert_of_late hclock]
      exact ⟨rfl, rfl, Nat.le_refl _⟩
  | get metadata =>
    rcases s.cache.get_cases s.now metadata with ⟨_, -, -, -, h⟩ | ⟨_, -, -, -, h⟩ | ⟨-, h⟩
    all_goals exact ⟨by simp only [step, h], by simp only [step, h], Nat.le_refl _⟩
  | evictExpired | clear => exact ⟨rfl, rfl, Nat.le_refl _⟩
  | pass d => exact ⟨rfl, rfl, Nat.le_add_right ..⟩

theorem run_fixed (s : TimedCache) (events : List Event) :
    (s.run events).cache.lifetime = s.cache.lifetime ∧
      (s.run events).cache.capacity = s.cache.capacity ∧ s.now ≤ (s.run events).now := by
  induction events generalizing s with
  | nil => exact ⟨rfl, rfl, Nat.le_refl _⟩
  | cons event events ih =>
    obtain ⟨hlifetime, hcapacity, hnow⟩ := s.step_fixed event
    obtain ⟨hlifetime', hcapacity', hnow'⟩ := ih (s.step event)
    exact ⟨hlifetime'.trans hlifetime, hcapacity'.trans hcapacity, hnow.trans hnow'⟩

/-- The clock lasts for a run if it goes on for a lifetime at the end. -/
theorem clockLasts_of_now (h : (s.run events).now + s.cache.lifetime < endOfTime) :
    s.ClockLasts events := by
  rintro before metadata key after rfl
  rw [run_append] at h
  obtain ⟨-, -, hnow⟩ := (s.run before).run_fixed (.insert metadata key :: after)
  exact Nat.lt_of_le_of_lt (Nat.add_le_add_right hnow _) h

theorem sound_step (h : s.cache.Sound) (event : Event) : (s.step event).cache.Sound := by
  cases event with
  | insert metadata key =>
    unfold step
    dsimp only
    split
    · next cache hinsert => exact h.insert hinsert
    · exact h
  | get metadata => exact h.get s.now metadata
  | evictExpired => exact h.evictExpired s.now
  | clear => exact .clear s.cache
  | pass d => exact h

/-- **After every run no metadata have two entries, and there is room for all entries.** -/
theorem sound_run (hstart : s.cache.entries = []) (events : List Event) :
    (s.run events).cache.Sound := by
  induction events using List.reverseRecOn with
  | nil =>
    refine ⟨?_, ?_⟩
    · rw [run, List.foldl_nil, hstart]
      exact .nil
    · rw [run, List.foldl_nil, KeyCache.size, hstart]
      exact Nat.zero_le _
  | append_singleton events event ih =>
    rw [run_concat]
    exact sound_step ih event

/-! ### The latest insertion -/

theorem LastInsert.concat (h : LastInsert events metadata key before after)
    (hinsert : ∀ key', event ≠ .insert metadata key') (hclear : event ≠ .clear) :
    LastInsert (events ++ [event]) metadata key before (after ++ [event]) where
  events_eq := by rw [h.events_eq, List.append_assoc, List.cons_append]
  unreplaced key' hmem := by
    rcases List.mem_append.mp hmem with hmem | hmem
    · exact h.unreplaced key' hmem
    · exact hinsert key' (List.mem_singleton.mp hmem).symm
  uncleared hmem := by
    rcases List.mem_append.mp hmem with hmem | hmem
    · exact h.uncleared hmem
    · exact hclear (List.mem_singleton.mp hmem).symm

theorem eq_nil_of_unreplaced {after mid after' : List Event} {key' : AesKey}
    (heq : Event.insert metadata key :: after = mid ++ .insert metadata key' :: after')
    (h : ∀ key', .insert metadata key' ∉ after) : mid = [] ∧ key = key' := by
  cases mid with
  | nil =>
    cases heq
    exact ⟨rfl, rfl⟩
  | cons first mid =>
    obtain ⟨-, rfl⟩ := List.cons.inj heq
    exact absurd (by simp) (h key')

/-- There is one latest insertion. -/
theorem LastInsert.unique {before' after' : List Event} {key' : AesKey}
    (h : LastInsert events metadata key before after)
    (h' : LastInsert events metadata key' before' after') : before = before' ∧ key = key' := by
  have heq := h.events_eq.symm.trans h'.events_eq
  rcases List.append_eq_append_iff.mp heq with ⟨mid, rfl, hmid⟩ | ⟨mid, rfl, hmid⟩
  · obtain ⟨rfl, rfl⟩ := eq_nil_of_unreplaced hmid h.unreplaced
    exact ⟨(List.append_nil _).symm, rfl⟩
  · obtain ⟨rfl, rfl⟩ := eq_nil_of_unreplaced hmid h'.unreplaced
    exact ⟨List.append_nil _, rfl⟩

/-- The key of an entry is the latest that was put in for its metadata, one lifetime before the
entry expires, and the cache was not cleared since. -/
def Backed (s : TimedCache) (events : List Event) (e : CachedKey) : Prop :=
  ∃ before after, LastInsert events e.metadata e.key before after ∧
    e.expiresAt = (s.run before).now + s.cache.lifetime

theorem Backed.concat (h : s.Backed events e) (hinsert : ∀ key', event ≠ .insert e.metadata key')
    (hclear : event ≠ .clear) : s.Backed (events ++ [event]) e := by
  obtain ⟨before, after, hlast, hexpires⟩ := h
  exact ⟨before, after ++ [event], hlast.concat hinsert hclear, hexpires⟩

theorem Backed.eq (h : s.Backed events e) (hlast : LastInsert events e.metadata key before after) :
    e = ⟨e.metadata, key, (s.run before).now + s.cache.lifetime⟩ := by
  obtain ⟨before', after', hlast', hexpires⟩ := h
  obtain ⟨rfl, rfl⟩ := hlast.unique hlast'
  rw [← hexpires]

/-- **After every run the cache holds only backed entries**, if it was empty at the start. -/
theorem backed_run (hstart : s.cache.entries = []) (events : List Event)
    (hclock : s.ClockLasts events) : ∀ e ∈ (s.run events).cache.entries, s.Backed events e := by
  induction events using List.reverseRecOn with
  | nil =>
    intro e he
    rw [run, List.foldl_nil, hstart] at he
    exact absurd he List.not_mem_nil
  | append_singleton events event ih =>
    have hbacked := ih hclock.of_append
    rw [run_concat]
    intro e he
    cases event with
    | insert metadata key =>
      obtain ⟨hlifetime, -⟩ := s.run_fixed events
      have hshown := hclock events metadata key [] rfl
      rw [← hlifetime] at hshown
      rw [step_insert hshown] at he
      rcases List.mem_cons.mp (List.mem_of_mem_take he) with rfl | he
      · exact ⟨events, [], ⟨rfl, fun _ => List.not_mem_nil, List.not_mem_nil⟩, by rw [hlifetime]⟩
      · obtain ⟨hmem, hne⟩ := List.mem_filter.mp he
        refine (hbacked e hmem).concat (fun key' heq => ?_) (by simp)
        cases heq
        simp at hne
    | get metadata =>
      refine (hbacked e ?_).concat (by simp) (by simp)
      rcases (s.run events).cache.get_cases (s.run events).now metadata with
        ⟨e', hmem, -, -, h⟩ | ⟨_, -, -, -, h⟩ | ⟨-, h⟩
      · simp only [step, h] at he
        rcases List.mem_cons.mp he with rfl | he
        · exact hmem
        · exact (List.mem_filter.mp he).1
      · simp only [step, h] at he
        exact (List.mem_filter.mp he).1
      · simpa only [step, h] using he
    | evictExpired => exact (hbacked e (List.mem_filter.mp he).1).concat (by simp) (by simp)
    | clear => exact absurd he List.not_mem_nil
    | pass d => exact (hbacked e he).concat (by simp) (by simp)

/-! ### What comes before an entry -/

/-- An entry stands in the cache, and before it are entries of the given metadata only. -/
def Trails (s : TimedCache) (e : CachedKey) (front : Finset Bytes) : Prop :=
  ∃ ahead behind, s.cache.entries = ahead ++ e :: behind ∧ ∀ x ∈ ahead, x.metadata ∈ front

theorem Trails.mem {front : Finset Bytes} (h : s.Trails e front) : e ∈ s.cache.entries := by
  obtain ⟨ahead, behind, heq, -⟩ := h
  rw [heq]
  simp

theorem others_append {ahead behind : List CachedKey} (h : s.cache.entries = ahead ++ e :: behind)
    (hne : e.metadata ≠ metadata) :
    s.cache.others metadata = ahead.filter (fun x => x.metadata ≠ metadata) ++
      e :: behind.filter fun x => x.metadata ≠ metadata := by
  simp [KeyCache.others, h, hne]

/-- An entry is not driven out while there is room for all that come before it. -/
theorem exists_take_eq {ahead behind : List CachedKey} {front : Finset Bytes} {n : Nat}
    (hnodup : ((ahead ++ e :: behind).map CachedKey.metadata).Nodup)
    (hfront : ∀ x ∈ ahead, x.metadata ∈ front) (hcard : front.card < n) :
    ∃ behind', (ahead ++ e :: behind).take n = ahead ++ e :: behind' := by
  rw [List.map_append] at hnodup
  have hroom : ahead.length ≤ front.card := by
    rw [← List.length_map CachedKey.metadata, ← List.toFinset_card_of_nodup hnodup.of_append_left]
    refine Finset.card_le_card fun metadata hmem => ?_
    obtain ⟨x, hx, rfl⟩ := List.mem_map.mp (List.mem_toFinset.mp hmem)
    exact hfront x hx
  obtain ⟨k, rfl⟩ : ∃ k, n = ahead.length + (k + 1) := ⟨n - ahead.length - 1, by omega⟩
  exact ⟨behind.take k, by rw [List.take_length_add_append, List.take_succ_cons]⟩

section Step

variable {front : Finset Bytes} (h : s.Trails e front)
include h

theorem Trails.step_insert (hsound : s.cache.Sound) (hne : metadata ≠ e.metadata)
    (hcard : (insert metadata front).card < s.cache.capacity) :
    (s.step (.insert metadata key)).Trails e (insert metadata front) := by
  obtain ⟨ahead, behind, hentries, hfront⟩ := h
  by_cases hclock : s.now + s.cache.lifetime < endOfTime
  · obtain ⟨new, hnew⟩ : ∃ new : CachedKey, new = ⟨metadata, key, s.now + s.cache.lifetime⟩ :=
      ⟨_, rfl⟩
    have hmetadata : new.metadata = metadata := by rw [hnew]
    -- the new entry and the others have different metadata
    have hnodup : ((new :: s.cache.others metadata).map CachedKey.metadata).Nodup := by
      rw [List.map_cons, hmetadata]
      exact List.nodup_cons.mpr ⟨s.cache.metadata_notMem_others metadata,
        KeyCache.nodup_others hsound metadata⟩
    have hfront' : ∀ x ∈ new :: ahead.filter (fun x => x.metadata ≠ metadata),
        x.metadata ∈ insert metadata front := by
      refine List.forall_mem_cons.mpr ⟨?_, fun x hx => ?_⟩
      · rw [hmetadata]
        exact Finset.mem_insert_self ..
      · exact Finset.mem_insert_of_mem (hfront x (List.mem_filter.mp hx).1)
    rw [others_append hentries hne.symm, ← List.cons_append] at hnodup
    obtain ⟨behind', htake⟩ := exists_take_eq hnodup hfront' hcard
    refine ⟨_, behind', ?_, hfront'⟩
    rw [TimedCache.step_insert hclock, others_append hentries hne.symm, ← hnew, ← htake]
    rfl
  · rw [step_insert_of_late hclock]
    exact ⟨ahead, behind, hentries, fun x hx => Finset.mem_insert_of_mem (hfront x hx)⟩

theorem Trails.step_get (hne : metadata ≠ e.metadata) :
    (s.step (.get metadata)).Trails e (note e.metadata front (s.usedBy (.get metadata))) := by
  obtain ⟨ahead, behind, hentries, hfront⟩ := h
  have hothers := others_append hentries hne.symm
  rcases s.cache.get_cases s.now metadata with
    ⟨x, hx, rfl, -, hget⟩ | ⟨x, hx, rfl, hold, hget⟩ | ⟨-, hget⟩
  · have hnote : note e.metadata front (s.usedBy (.get x.metadata)) =
        insert x.metadata front := by
      simp [usedBy, answer, hget, note, hne]
    rw [hnote]
    refine ⟨x :: ahead.filter (fun y => y.metadata ≠ x.metadata),
      behind.filter fun y => y.metadata ≠ x.metadata, ?_, ?_⟩
    · simp only [step, hget, hothers, List.cons_append]
    · refine List.forall_mem_cons.mpr ⟨Finset.mem_insert_self .., fun y hy => ?_⟩
      exact Finset.mem_insert_of_mem (hfront y (List.mem_filter.mp hy).1)
  · refine ⟨ahead.filter (fun y => y.metadata ≠ x.metadata),
      behind.filter fun y => y.metadata ≠ x.metadata, ?_, fun y hy => ?_⟩
    · simp only [step, hget, hothers]
    · simpa [usedBy, answer, hget, note] using hfront y (List.mem_filter.mp hy).1
  · refine ⟨ahead, behind, by simp only [step, hget, hentries], ?_⟩
    simpa [usedBy, answer, hget, note] using hfront

theorem Trails.step_evictExpired (hfresh : s.now < e.expiresAt) :
    (s.step .evictExpired).Trails e front := by
  obtain ⟨ahead, behind, hentries, hfront⟩ := h
  refine ⟨ahead.filter fun x => s.now < x.expiresAt, behind.filter fun x => s.now < x.expiresAt,
    ?_, fun x hx => hfront x (List.mem_filter.mp hx).1⟩
  simp [step, KeyCache.evictExpired, hentries, hfresh]

/-- **An entry stays in the cache through an event** that does not use its metadata, while it is
fresh and there is room for what was used since, unless the cache is cleared. -/
theorem Trails.step (hsound : s.cache.Sound) (hfresh : s.now < e.expiresAt)
    (huse : s.usedBy event ≠ some e.metadata) (hclear : event ≠ .clear)
    (hcard : (note e.metadata front (s.usedBy event)).card < s.cache.capacity) :
    (s.step event).Trails e (note e.metadata front (s.usedBy event)) := by
  cases event with
  | insert metadata key =>
    have hne : metadata ≠ e.metadata := fun heq => huse (congrArg some heq)
    simp only [usedBy, note, if_neg hne] at hcard ⊢
    exact h.step_insert hsound hne hcard
  | get metadata =>
    by_cases heq : metadata = e.metadata
    · have hget := hsound.get_of_mem h.mem hfresh
      exact absurd (by simp [usedBy, answer, heq, hget]) huse
    · exact h.step_get heq
  | evictExpired => exact h.step_evictExpired hfresh
  | clear => exact absurd rfl hclear
  | pass d => exact h

end Step

theorem LastInsert.of_concat
    (h : LastInsert (events ++ [event]) metadata key before (after ++ [event])) :
    LastInsert events metadata key before after where
  events_eq := by
    have heq := h.events_eq
    rw [← List.cons_append, ← List.append_assoc] at heq
    exact List.append_cancel_right heq
  unreplaced key' hmem := h.unreplaced key' (List.mem_append_left _ hmem)
  uncleared hmem := h.uncleared (List.mem_append_left _ hmem)

/-- A key that is put in stands in front of the cache. -/
theorem trails_insert (hclock : s.now + s.cache.lifetime < endOfTime) (metadata : Bytes)
    (key : AesKey) (front : Finset Bytes) :
    (s.step (.insert metadata key)).Trails ⟨metadata, key, s.now + s.cache.lifetime⟩ front := by
  obtain ⟨n, hn⟩ := Nat.exists_eq_succ_of_ne_zero (Nat.ne_of_gt s.cache.capacity_pos)
  refine ⟨[], (s.cache.others metadata).take n, ?_, by simp⟩
  rw [step_insert hclock, hn]
  rfl

/-- A key that is found stands in front of the cache afterwards. -/
theorem exists_trails_of_usedBy_get (h : s.usedBy (.get metadata) = some metadata)
    (front : Finset Bytes) :
    ∃ e ∈ s.cache.entries, e.metadata = metadata ∧ (s.step (.get metadata)).Trails e front := by
  rcases s.cache.get_cases s.now metadata with
    ⟨e, hmem, heq, -, hget⟩ | ⟨_, -, -, -, hget⟩ | ⟨-, hget⟩
  · refine ⟨e, hmem, heq, [], s.cache.others metadata, ?_, by simp⟩
    simp only [step, hget]
    rfl
  · simp [usedBy, answer, hget] at h
  · simp [usedBy, answer, hget] at h

/-- **The latest key that was put in stands in the cache** while it is fresh, if fewer other
metadata were used since the last use than there is room for. -/
theorem trails_of_lastInsert (hstart : s.cache.entries = []) (hclock : s.ClockLasts events)
    (hlast : LastInsert events metadata key before after)
    (hfresh : (s.run events).now < (s.run before).now + s.cache.lifetime)
    (hcard : (usedSince metadata s ∅ events).card < s.cache.capacity) :
    (s.run events).Trails ⟨metadata, key, (s.run before).now + s.cache.lifetime⟩
      (usedSince metadata s ∅ events) := by
  induction after using List.reverseRecOn generalizing events with
  | nil =>
    obtain ⟨hlifetime, -⟩ := s.run_fixed before
    have hshown := hclock before metadata key [] hlast.events_eq
    rw [hlast.events_eq, run_concat, ← hlifetime]
    rw [← hlifetime] at hshown
    exact trails_insert hshown metadata key _
  | append_singleton after event ih =>
    obtain ⟨events, rfl⟩ : ∃ events', events = events' ++ [event] :=
      ⟨before ++ .insert metadata key :: after, by rw [hlast.events_eq]; simp⟩
    have hprev := hlast.of_concat
    rw [usedSince_concat] at hcard ⊢
    rw [run_concat] at hfresh ⊢
    obtain ⟨-, -, hnow⟩ := (s.run events).step_fixed event
    have hfresh' := Nat.lt_of_le_of_lt hnow hfresh
    have hclock' := hclock.of_append
    by_cases huse : (s.run events).usedBy event = some metadata
    · -- the metadata are used by a look-up, which moves the entry that it finds to the front
      obtain rfl : event = .get metadata := by
        rcases eq_of_usedBy huse with ⟨key', rfl⟩ | rfl
        · exact absurd (by simp) (hlast.unreplaced key')
        · rfl
      obtain ⟨e, hmem, rfl, htrails⟩ := exists_trails_of_usedBy_get huse
        (note metadata (usedSince metadata s ∅ events) (some metadata))
      rw [huse, ← (backed_run hstart events hclock' e hmem).eq hprev]
      exact htrails
    · have hcard' := Nat.lt_of_le_of_lt (Finset.card_le_card (subset_note huse _)) hcard
      have h := ih hclock' hprev hfresh' hcard'
      rw [← (s.run_fixed events).2.1] at hcard
      refine h.step (sound_run hstart events) hfresh' huse ?_ hcard
      rintro rfl
      exact hlast.uncleared (by simp)

/-- **A cache over whole runs**, from an empty one on. No metadata have two entries, and there is
room for all entries. A key that is found is the latest that was put in for its metadata, less than
the lifetime ago, and the cache was not cleared since. It is found whenever it is fresh and fewer
other metadata than there is room for were used since its own were put in or found. A look-up that
meets an expired entry removes it and nothing else. Dropping the expired entries leaves the others,
in their order, and no look-up at that time tells the difference. -/
theorem answer_of_run (hstart : s.cache.entries = []) (hclock : s.ClockLasts events) :
    ((s.run events).cache.entries.map CachedKey.metadata).Nodup ∧
      (s.run events).cache.size ≤ s.cache.capacity ∧
      (∀ metadata key, (s.run events).answer metadata = some key →
        ∃ before after, LastInsert events metadata key before after ∧
          (s.run events).now < (s.run before).now + s.cache.lifetime) ∧
      (∀ metadata key before after, LastInsert events metadata key before after →
        (s.run events).now < (s.run before).now + s.cache.lifetime →
        (usedSince metadata s ∅ events).card < s.cache.capacity →
        (s.run events).answer metadata = some key) ∧
      (∀ e ∈ (s.run events).cache.entries, e.expiresAt ≤ (s.run events).now →
        (s.run events).cache.get (s.run events).now e.metadata =
          (none, { (s.run events).cache with
            entries := (s.run events).cache.entries.erase e })) ∧
      ((s.run events).cache.evictExpired (s.run events).now).entries.Sublist
        (s.run events).cache.entries ∧
      (∀ e, e ∈ ((s.run events).cache.evictExpired (s.run events).now).entries ↔
        e ∈ (s.run events).cache.entries ∧ (s.run events).now < e.expiresAt) ∧
      ∀ lookups, ((s.run events).cache.evictExpired (s.run events).now).answers
        (s.run events).now lookups = (s.run events).cache.answers (s.run events).now lookups := by
  have hsound := sound_run hstart events
  refine ⟨hsound.nodup, ?_, fun metadata key hanswer => ?_,
    fun metadata key before after hlast hfresh hcard => ?_,
    fun e hmem hold => hsound.get_of_expired hmem hold, List.filter_sublist,
    fun e => KeyCache.mem_evictExpired, fun lookups => hsound.answers_evictExpired _ lookups⟩
  · rw [← (s.run_fixed events).2.1]
    exact hsound.size_le
  · unfold answer at hanswer
    rcases (s.run events).cache.get_cases (s.run events).now metadata with
      ⟨e, hmem, rfl, hfresh, hget⟩ | ⟨_, -, -, -, hget⟩ | ⟨-, hget⟩
    · rw [hget] at hanswer
      obtain rfl := Option.some.inj hanswer
      obtain ⟨before, after, hlast, hexpires⟩ := backed_run hstart events hclock e hmem
      rw [hexpires] at hfresh
      exact ⟨before, after, hlast, hfresh⟩
    · rw [hget] at hanswer
      cases hanswer
    · rw [hget] at hanswer
      cases hanswer
  · have hmem := (trails_of_lastInsert hstart hclock hlast hfresh hcard).mem
    unfold answer
    rw [hsound.get_of_mem hmem hfresh]

namespace Sample

/-- A cache with room for two keys, which it keeps for ten nanoseconds. -/
def start : TimedCache := ⟨{ lifetime := 10, capacity := 2, capacity_pos := by decide }, 0⟩

/-- A key of equal bytes. -/
def keyOf (b : UInt8) : AesKey := ⟨List.replicate 16 b, by simp [validKeyLengths]⟩

/-- The first of two keys is looked up before a third one is put in. -/
def refreshed : List Event :=
  [.insert [1] (keyOf 1), .insert [2] (keyOf 2), .pass 4, .get [1], .insert [3] (keyOf 3), .pass 5]

end Sample

open Sample in
/-- A key that was looked up outlives one that was put in later. -/
theorem answer_of_run_refreshed :
    start.cache.entries = [] ∧ start.ClockLasts refreshed ∧
      (start.run refreshed).answer [1] = some (keyOf 1) := by
  have hclock : start.ClockLasts refreshed := clockLasts_of_now (by decide)
  obtain ⟨-, -, -, hfound, -⟩ := answer_of_run rfl hclock
  have hlast : LastInsert refreshed [1] (keyOf 1) []
      [.insert [2] (keyOf 2), .pass 4, .get [1], .insert [3] (keyOf 3), .pass 5] :=
    ⟨rfl, by simp, by simp⟩
  exact ⟨rfl, hclock, hfound [1] (keyOf 1) _ _ hlast (by decide) (by decide)⟩

end TimedCache

end ModularEncryption
