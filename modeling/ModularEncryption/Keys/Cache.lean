import ModularEncryption.AesKey
import ModularEncryption.Clock

/-! # The cache of unwrapped keys

A cache keeps keys by their metadata, each for the same time after it was put in, and as many of
them as it has room for: the one not used for the longest time makes way for a new one. The entries
stand in the order of their last use, the most recent one first; looking a key up uses it.

The table of a cache is laid out for all the entries there is room for when the cache is made. How
many entries memory allows for is a parameter (`KeyCache.create`); without that many there is no
cache.

No metadata has two entries and there are never more entries than there is room for
(`KeyCache.Sound`); every operation keeps it so. -/

namespace ModularEncryption

/-- A key in the cache, which is to be used before a point in time. -/
structure CachedKey where
  metadata : Bytes
  key : AesKey
  expiresAt : Instant
deriving DecidableEq

/-- A cache of keys. -/
structure KeyCache where
  lifetime : Duration
  capacity : Nat
  capacity_pos : 0 < capacity
  entries : List CachedKey := []

namespace KeyCache

/-- The room of a cache for which none is named. -/
def defaultCapacity : Nat := 1000

/-- The cache without entries, if there is to be room for any, and for no more than memory allows a
table to have. -/
def create (tableLimit : Nat) (lifetime : Duration) (capacity : Nat) :
    Except CreationFailure KeyCache :=
  if h : 0 < capacity then
    if tableLimit < capacity then .error .tableOverflow
    else .ok { lifetime, capacity, capacity_pos := h }
  else .error (.error { cause := .cacheCapacityZero })

/-- The number of entries, expired ones included. -/
def size (c : KeyCache) : Nat := c.entries.length

/-- The entries of other metadata. -/
def others (c : KeyCache) (metadata : Bytes) : List CachedKey :=
  c.entries.filter fun e => e.metadata ≠ metadata

/-- The entry of metadata, whether expired or not. -/
def entry? (c : KeyCache) (metadata : Bytes) : Option CachedKey :=
  c.entries.find? fun e => e.metadata = metadata

/-- The key of metadata, which counts as a use; an expired one is dropped instead. -/
def get (c : KeyCache) (now : Instant) (metadata : Bytes) : Option AesKey × KeyCache :=
  match c.entry? metadata with
  | none => (none, c)
  | some e =>
    if now < e.expiresAt then (some e.key, { c with entries := e :: c.others metadata })
    else (none, { c with entries := c.others metadata })

/-- The cache with the key of metadata put in, unless it would expire after the end of time. -/
def insert (c : KeyCache) (now : Instant) (metadata : Bytes) (key : AesKey) :
    Except Failure KeyCache :=
  match now.after? c.lifetime with
  | none => .error .clockOverflow
  | some expiresAt =>
    .ok { c with entries := (⟨metadata, key, expiresAt⟩ :: c.others metadata).take c.capacity }

/-- The cache without expired entries. -/
def evictExpired (c : KeyCache) (now : Instant) : KeyCache :=
  { c with entries := c.entries.filter fun e => now < e.expiresAt }

/-- The cache with all entries dropped. -/
def clear (c : KeyCache) : KeyCache := { c with entries := [] }

/-! ### Making a cache -/

theorem create_of_le {tableLimit capacity : Nat} (lifetime : Duration) (hpos : 0 < capacity)
    (h : capacity ≤ tableLimit) :
    create tableLimit lifetime capacity = .ok { lifetime, capacity, capacity_pos := hpos } := by
  rw [create, dif_pos hpos, if_neg (Nat.not_lt.mpr h)]

theorem create_of_lt {tableLimit capacity : Nat} (lifetime : Duration) (h : tableLimit < capacity) :
    create tableLimit lifetime capacity = .error .tableOverflow := by
  rw [create, dif_pos (Nat.zero_lt_of_lt h), if_pos h]

/-- A cache as it is made has its lifetime, and no entries. -/
theorem of_create {tableLimit capacity : Nat} {lifetime : Duration} {c : KeyCache}
    (h : create tableLimit lifetime capacity = .ok c) : c.lifetime = lifetime ∧ c.entries = [] := by
  unfold create at h
  split at h
  · split at h
    · cases h
    · cases h
      exact ⟨rfl, rfl⟩
  · cases h

/-! ### What every operation keeps -/

/-- No metadata has two entries, and there is room for all entries. -/
structure Sound (c : KeyCache) : Prop where
  nodup : (c.entries.map CachedKey.metadata).Nodup
  size_le : c.size ≤ c.capacity

theorem metadata_notMem_others (c : KeyCache) (metadata : Bytes) :
    metadata ∉ (c.others metadata).map CachedKey.metadata := by
  simp [others]

theorem nodup_others {c : KeyCache} (h : c.Sound) (metadata : Bytes) :
    ((c.others metadata).map CachedKey.metadata).Nodup :=
  h.nodup.sublist ((List.filter_sublist).map _)

theorem entry?_eq_some {c : KeyCache} {metadata : Bytes} {e : CachedKey}
    (h : c.entry? metadata = some e) : e ∈ c.entries ∧ e.metadata = metadata :=
  ⟨List.mem_of_find?_eq_some h, by simpa using List.find?_some h⟩

theorem length_others_lt {c : KeyCache} {metadata : Bytes} {e : CachedKey}
    (h : c.entry? metadata = some e) : (c.others metadata).length < c.size := by
  obtain ⟨mem, eq⟩ := entry?_eq_some h
  exact List.length_filter_lt_length_iff_exists.mpr ⟨e, mem, by simp [eq]⟩

theorem Sound.get {c : KeyCache} (h : c.Sound) (now : Instant) (metadata : Bytes) :
    (c.get now metadata).2.Sound := by
  unfold KeyCache.get
  split
  · exact h
  · next e he =>
    have hlt := length_others_lt he
    have hsize := h.size_le
    have eq := (entry?_eq_some he).2
    split
    · refine ⟨?_, ?_⟩
      · simp only [List.map_cons, List.nodup_cons]
        exact ⟨eq ▸ metadata_notMem_others c metadata, nodup_others h metadata⟩
      · simp only [size, List.length_cons] at hlt hsize ⊢
        omega
    · refine ⟨nodup_others h metadata, ?_⟩
      simp only [size] at hlt hsize ⊢
      omega

theorem Sound.insert {c d : KeyCache} (h : c.Sound) {now : Instant} {metadata : Bytes}
    {key : AesKey} (hd : c.insert now metadata key = .ok d) : d.Sound := by
  unfold KeyCache.insert at hd
  split at hd
  · cases hd
  · cases hd
    refine ⟨?_, by simp only [size, List.length_take]; exact Nat.min_le_left _ _⟩
    refine List.Nodup.sublist ((List.take_sublist _ _).map _) ?_
    simp only [List.map_cons, List.nodup_cons]
    exact ⟨metadata_notMem_others c metadata, nodup_others h metadata⟩

theorem Sound.evictExpired {c : KeyCache} (h : c.Sound) (now : Instant) :
    (c.evictExpired now).Sound :=
  ⟨h.nodup.sublist ((List.filter_sublist).map _),
    Nat.le_trans (List.length_filter_le _ _) h.size_le⟩

theorem Sound.clear (c : KeyCache) : c.clear.Sound :=
  ⟨by simp [KeyCache.clear], by simp [KeyCache.clear, size]⟩

end KeyCache

end ModularEncryption
