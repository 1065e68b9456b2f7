import Mathlib.Data.List.Nodup
import ModularEncryption.Keys.Cache

/-! # What a cache holds

Looking a key up finds a fresh entry, or removes an expired one, or does nothing
(`KeyCache.get_cases`). Since metadata have one entry at most, nothing else is removed
(`Sound.get_of_expired`), and dropping the expired entries beforehand makes no difference
(`Sound.answers_evictExpired`).

Whatever holds of all keys in a cache with their metadata (`KeyCache.Holds`) holds of a key that is
looked up, and goes on holding when keys are looked up, dropped, or put in for which it holds. No
operation changes how long keys are kept. -/

namespace ModularEncryption

namespace KeyCache

variable {c : KeyCache} {now : Instant} {metadata : Bytes} {e : CachedKey}

/-! ### What one operation does -/

/-- **What looking up can come to**: the entry is fresh, or it has expired, or there is none. -/
theorem get_cases (c : KeyCache) (now : Instant) (metadata : Bytes) :
    (∃ e ∈ c.entries, e.metadata = metadata ∧ now < e.expiresAt ∧
      c.get now metadata = (some e.key, { c with entries := e :: c.others metadata })) ∨
    (∃ e ∈ c.entries, e.metadata = metadata ∧ e.expiresAt ≤ now ∧
      c.get now metadata = (none, { c with entries := c.others metadata })) ∨
    ((∀ e ∈ c.entries, e.metadata ≠ metadata) ∧ c.get now metadata = (none, c)) := by
  unfold get
  cases hentry : c.entry? metadata with
  | none =>
    refine .inr (.inr ⟨fun e he => ?_, rfl⟩)
    simpa using List.find?_eq_none.mp hentry e he
  | some e =>
    obtain ⟨hmem, hmetadata⟩ := entry?_eq_some hentry
    by_cases hfresh : now < e.expiresAt
    · exact .inl ⟨e, hmem, hmetadata, hfresh, by simp only [if_pos hfresh]⟩
    · exact .inr (.inl ⟨e, hmem, hmetadata, Nat.not_lt.mp hfresh, by simp only [if_neg hfresh]⟩)

theorem get_of_forall_ne (h : ∀ e ∈ c.entries, e.metadata ≠ metadata) :
    c.get now metadata = (none, c) := by
  rcases c.get_cases now metadata with ⟨e, hmem, heq, -⟩ | ⟨e, hmem, heq, -⟩ | ⟨-, hget⟩
  · exact absurd heq (h e hmem)
  · exact absurd heq (h e hmem)
  · exact hget

theorem insert_eq (c : KeyCache) (key : AesKey) (h : now + c.lifetime < endOfTime) :
    c.insert now metadata key = .ok { c with
      entries := (⟨metadata, key, now + c.lifetime⟩ :: c.others metadata).take c.capacity } := by
  simp only [insert, Instant.after?, if_pos h]

theorem insert_of_late (c : KeyCache) (key : AesKey) (h : ¬ now + c.lifetime < endOfTime) :
    c.insert now metadata key = .error .clockOverflow := by
  simp only [insert, Instant.after?, if_neg h]

theorem of_insert {key : AesKey} {d : KeyCache} (h : c.insert now metadata key = .ok d) :
    d = { c with
      entries := (⟨metadata, key, now + c.lifetime⟩ :: c.others metadata).take c.capacity } := by
  by_cases hclock : now + c.lifetime < endOfTime
  · rw [insert_eq c key hclock] at h
    exact (Except.ok.inj h).symm
  · rw [insert_of_late c key hclock] at h
    cases h

/-- Metadata have one entry at most. -/
theorem Sound.eq_of_metadata_eq (h : c.Sound) {e' : CachedKey} (he : e ∈ c.entries)
    (he' : e' ∈ c.entries) (heq : e.metadata = e'.metadata) : e = e' :=
  List.inj_on_of_nodup_map h.nodup he he' heq

theorem Sound.get_of_mem (h : c.Sound) (hmem : e ∈ c.entries) (hfresh : now < e.expiresAt) :
    c.get now e.metadata =
      (some e.key, { c with entries := e :: c.others e.metadata }) := by
  rcases c.get_cases now e.metadata with
    ⟨e', hmem', heq, -, hget⟩ | ⟨e', hmem', heq, hold, -⟩ | ⟨hnone, -⟩
  · rw [h.eq_of_metadata_eq hmem' hmem heq] at hget
    exact hget
  · rw [h.eq_of_metadata_eq hmem' hmem heq] at hold
    exact absurd hfresh (Nat.not_lt.mpr hold)
  · exact absurd rfl (hnone e hmem)

theorem Sound.others_eq_erase (h : c.Sound) (hmem : e ∈ c.entries) :
    c.others e.metadata = c.entries.erase e := by
  have hnodup : c.entries.Nodup := h.nodup.of_map
  rw [others, hnodup.erase_eq_filter]
  refine List.filter_congr fun e' he' => ?_
  by_cases heq : e' = e
  · simp [heq]
  · have hne : e'.metadata ≠ e.metadata := fun hmetadata =>
      heq (h.eq_of_metadata_eq he' hmem hmetadata)
    simp [heq, hne]

/-- **An expired entry that is looked up is removed, and nothing else is.** -/
theorem Sound.get_of_expired (h : c.Sound) (hmem : e ∈ c.entries) (hold : e.expiresAt ≤ now) :
    c.get now e.metadata = (none, { c with entries := c.entries.erase e }) := by
  rw [← h.others_eq_erase hmem]
  rcases c.get_cases now e.metadata with
    ⟨e', hmem', heq, hfresh, -⟩ | ⟨_, -, -, -, hget⟩ | ⟨hnone, -⟩
  · rw [h.eq_of_metadata_eq hmem' hmem heq] at hfresh
    exact absurd hfresh (Nat.not_lt.mpr hold)
  · exact hget
  · exact absurd rfl (hnone e hmem)

/-! ### Dropping expired entries -/

/-- The answers to look-ups one after the other at one point in time. -/
def answers (c : KeyCache) (now : Instant) : List Bytes → List (Option AesKey)
  | [] => []
  | metadata :: rest => (c.get now metadata).1 :: (c.get now metadata).2.answers now rest

theorem mem_evictExpired {e : CachedKey} :
    e ∈ (c.evictExpired now).entries ↔ e ∈ c.entries ∧ now < e.expiresAt := by
  simp [evictExpired]

theorem others_evictExpired (c : KeyCache) (now : Instant) (metadata : Bytes) :
    (c.evictExpired now).others metadata =
      (c.others metadata).filter fun e => now < e.expiresAt := by
  simp only [others, evictExpired, List.filter_filter, Bool.and_comm]

/-- **Looking up gives the same with and without the expired entries**, and it leaves the same
fresh ones behind. -/
theorem Sound.get_evictExpired (h : c.Sound) (now : Instant) (metadata : Bytes) :
    (c.evictExpired now).get now metadata =
      ((c.get now metadata).1, (c.get now metadata).2.evictExpired now) := by
  -- the entries that are left for the metadata
  have hkept : ∀ e ∈ (c.evictExpired now).entries, e ∈ c.entries ∧ now < e.expiresAt :=
    fun e he => mem_evictExpired.mp he
  rcases c.get_cases now metadata with
    ⟨e, hmem, rfl, hfresh, hget⟩ | ⟨e, hmem, rfl, hold, hget⟩ | ⟨hnone, hget⟩
  · have hcons : (e :: c.others e.metadata).filter (fun e => now < e.expiresAt) =
        e :: (c.others e.metadata).filter fun e => now < e.expiresAt :=
      List.filter_cons_of_pos (decide_eq_true hfresh)
    rw [hget, (h.evictExpired now).get_of_mem (mem_evictExpired.mpr ⟨hmem, hfresh⟩) hfresh,
      others_evictExpired, ← hcons]
    rfl
  · have hnone : ∀ e' ∈ (c.evictExpired now).entries, e'.metadata ≠ e.metadata := by
      intro e' he' heq
      obtain ⟨hmem', hfresh⟩ := hkept e' he'
      rw [h.eq_of_metadata_eq hmem' hmem heq] at hfresh
      exact Nat.not_lt.mpr hold hfresh
    have hothers : (c.evictExpired now).others e.metadata = (c.evictExpired now).entries :=
      List.filter_eq_self.mpr fun e' he' => decide_eq_true (hnone e' he')
    rw [others_evictExpired] at hothers
    rw [hget, get_of_forall_ne hnone]
    simp only [KeyCache.evictExpired, hothers]
  · rw [hget, get_of_forall_ne fun e he => hnone e (hkept e he).1]

theorem Sound.answers_evictExpired (h : c.Sound) (now : Instant) (metadata : List Bytes) :
    (c.evictExpired now).answers now metadata = c.answers now metadata := by
  induction metadata generalizing c with
  | nil => rfl
  | cons first rest ih =>
    simp only [answers, h.get_evictExpired]
    rw [ih (h.get now first)]

/-! ### What holds of all keys -/

/-- All keys in the cache are fit for their metadata. -/
def Holds (c : KeyCache) (fit : Bytes → AesKey → Prop) : Prop :=
  ∀ e ∈ c.entries, fit e.metadata e.key

variable {fit : Bytes → AesKey → Prop}

theorem Holds.mono {fit' : Bytes → AesKey → Prop} (h : c.Holds fit)
    (himp : ∀ metadata key, fit metadata key → fit' metadata key) : c.Holds fit' :=
  fun e he => himp _ _ (h e he)

theorem Holds.others (h : c.Holds fit) (metadata : Bytes) :
    ∀ e ∈ c.others metadata, fit e.metadata e.key :=
  fun e he => h e (List.mem_filter.mp he).1

/-- **A key that is found is fit for its metadata**, and looking it up spoils nothing. -/
theorem Holds.get (h : c.Holds fit) (now : Instant) (metadata : Bytes) :
    (∀ key, (c.get now metadata).1 = some key → fit metadata key) ∧
      (c.get now metadata).2.Holds fit := by
  rcases c.get_cases now metadata with
    ⟨e, hmem, rfl, -, hget⟩ | ⟨_, -, rfl, -, hget⟩ | ⟨-, hget⟩
  · rw [hget]
    refine ⟨fun key hkey => ?_, List.forall_mem_cons.mpr ⟨h e hmem, h.others e.metadata⟩⟩
    cases hkey
    exact h e hmem
  · rw [hget]
    exact ⟨fun _ hkey => (by cases hkey), h.others _⟩
  · rw [hget]
    exact ⟨fun _ hkey => (by cases hkey), h⟩

theorem Holds.insert (h : c.Holds fit) {now : Instant} {metadata : Bytes} {key : AesKey}
    (hkey : fit metadata key) {d : KeyCache} (hd : c.insert now metadata key = .ok d) :
    d.Holds fit := by
  obtain rfl := of_insert hd
  intro e he
  rcases List.mem_cons.mp (List.mem_of_mem_take he) with rfl | he
  · exact hkey
  · exact h.others metadata e he

theorem Holds.evictExpired (h : c.Holds fit) (now : Instant) : (c.evictExpired now).Holds fit :=
  fun e he => h e (List.mem_filter.mp he).1

theorem Holds.clear (c : KeyCache) : c.clear.Holds fit :=
  fun _ he => absurd he List.not_mem_nil

/-! ### Lifetimes -/

theorem lifetime_get (c : KeyCache) (now : Instant) (metadata : Bytes) :
    (c.get now metadata).2.lifetime = c.lifetime := by
  rcases c.get_cases now metadata with ⟨_, -, -, -, hget⟩ | ⟨_, -, -, -, hget⟩ | ⟨-, hget⟩
  all_goals rw [hget]

theorem lifetime_insert {now : Instant} {metadata : Bytes} {key : AesKey} {d : KeyCache}
    (hd : c.insert now metadata key = .ok d) : d.lifetime = c.lifetime := by
  rw [of_insert hd]

end KeyCache

end ModularEncryption
