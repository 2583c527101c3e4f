import TileArchive.Cache.Basic

/-!
# `TileArchive.Proofs.Cache.Holds`: what a cache holds after each operation

`Cache.Holds` says that a value stands under a key. Every operation either keeps what a cache
holds or takes some of it away, and only `insert` and a finished load add to it, namely the
value they were given (`Holds.insert_cases`). Operations on values change neither the bounds of
the cache nor its register of loads (`OnlyValuesDiffer`).

## The statements and who uses them

The statements read from the cache after an operation back to the cache before it: what is held
afterwards was held before, or is what the operation put in. In this direction evictions need no
attention, since they only take values away. That a value is *kept* is another matter and needs
the order of last use (`Proofs/Cache/Retention.lean`).

`Proofs/Cache/Latest.lean` goes back through a whole history with `insert_cases` and
`of_invalidate` and finds that a value is the last one written under its key. The register of
loads is treated in `Proofs/Cache/Flights.lean`, which rests on `OnlyValuesDiffer`: an operation
on values is one frame fact there, whatever it does to the values.

## Weights

`Holds` says nothing of weight and stamp. The refusal of a value that is too heavy shows only in
the last part of `insert_cases`: if an older value is still there under the key of an insertion,
the new value was heavier than the ceiling.
-/

set_option autoImplicit false

namespace TileArchive.Cache

variable {K V E : Type}

/-- The cache holds a value under a key. There may be no second one: that keys do not repeat
is not part of this definition and is not needed where one goes back from a later cache to
an earlier. -/
def Holds (c : Cache K V) (key : K) (value : V) : Prop :=
  ∃ r ∈ c.residents, r.key = key ∧ r.value = value

/-- Two caches differ in what they hold, in the clock and in the counters at most. This is
the frame of every operation on values: bounds, weights and loads are as they were. Lemmas
about the register are carried over such operations by this and need not look into them. -/
structure OnlyValuesDiffer (c c' : Cache K V) : Prop where
  config_eq : c'.config = c.config
  weigh_eq : c'.weigh = c.weigh
  flights_eq : c'.flights = c.flights
  nextLoad_eq : c'.nextLoad = c.nextLoad

/-- A new cache holds nothing, so whatever a cache holds was put in by some event of its
history. -/
theorem not_holds_empty (config : CacheConfig) (weigh : K → V → UInt64) (key : K) (value : V) :
    ¬ (empty config weigh).Holds key value := by
  rintro ⟨r, mem, -⟩
  cases mem

/-- Counting a look-up does not show in what is held. -/
@[simp]
theorem holds_countLookup (c : Cache K V) (hit : Bool) (key : K) (value : V) :
    (c.countLookup hit).Holds key value ↔ c.Holds key value := Iff.rfl

/-- Counting a look-up leaves the register of loads alone. -/
@[simp]
theorem flights_countLookup (c : Cache K V) (hit : Bool) :
    (c.countLookup hit).flights = c.flights := rfl

/-- Counting a look-up takes no number of a load. -/
@[simp]
theorem nextLoad_countLookup (c : Cache K V) (hit : Bool) :
    (c.countLookup hit).nextLoad = c.nextLoad := rfl

variable [DecidableEq K]

/-! ### Looking up -/

/-- A value that is found under a key is held there. -/
theorem holds_of_resident? {c : Cache K V} {key : K} {r : Resident K V}
    (found : c.resident? key = some r) : c.Holds key r.value :=
  ⟨r, List.mem_of_find?_eq_some found, by simpa using List.find?_some found, rfl⟩

/-- A use stamps a value and keeps all values. -/
@[simp]
theorem holds_touch (c : Cache K V) (key key' : K) (value : V) :
    (c.touch key).1.Holds key' value ↔ c.Holds key' value := by
  unfold touch
  split
  · rfl
  · -- A stamp changes neither key nor value.
    simp only [Holds, List.mem_map]
    constructor
    · rintro ⟨_, ⟨r, mem, rfl⟩, key_eq, value_eq⟩
      refine ⟨r, mem, ?_, ?_⟩
      · split at key_eq <;> exact key_eq
      · split at value_eq <;> exact value_eq
    · rintro ⟨r, mem, key_eq, value_eq⟩
      refine ⟨_, ⟨r, mem, rfl⟩, ?_, ?_⟩
      · split <;> exact key_eq
      · split <;> exact value_eq

/-- The value that a use gives is held under the key. -/
theorem holds_of_touch {c : Cache K V} {key : K} {value : V}
    (used : (c.touch key).2 = some value) : c.Holds key value := by
  unfold touch at used
  split at used
  · cases used
  · next r found =>
    cases used
    exact holds_of_resident? found

/-- A use changes a stamp and the clock and nothing else that a frame mentions. -/
theorem onlyValuesDiffer_touch (c : Cache K V) (key : K) : c.OnlyValuesDiffer (c.touch key).1 := by
  unfold touch
  split <;> exact ⟨rfl, rfl, rfl, rfl⟩

/-- A use leaves the register of loads alone. -/
@[simp]
theorem flights_touch (c : Cache K V) (key : K) : (c.touch key).1.flights = c.flights :=
  (c.onlyValuesDiffer_touch key).flights_eq

/-- A use takes no number of a load. -/
@[simp]
theorem nextLoad_touch (c : Cache K V) (key : K) : (c.touch key).1.nextLoad = c.nextLoad :=
  (c.onlyValuesDiffer_touch key).nextLoad_eq

/-! ### Putting in and dropping -/

/-- Dropping one value adds none. The value that goes is taken out with its key, so the
others are the ones that are left. -/
theorem Holds.of_evict {c : Cache K V} {r : Resident K V} {key : K} {value : V}
    (h : (c.evict r).Holds key value) : c.Holds key value := by
  obtain ⟨s, mem, rest⟩ := h
  exact ⟨s, (List.mem_filter.mp mem).1, rest⟩

/-- Dropping values in some order adds none, wherever the dropping stops. By induction on
the order, since the cache that is left after one drop is the cache that the rest of the
order meets. -/
theorem Holds.of_evictInOrder {key : K} {value : V} (rs : List (Resident K V)) {c : Cache K V}
    (h : (c.evictInOrder rs).Holds key value) : c.Holds key value := by
  -- The rest of the order is dropped from what is left, so the cache varies in the induction.
  induction rs generalizing c with
  | nil => exact h
  | cons r rs ih =>
      rw [evictInOrder] at h
      split at h
      · exact h
      · exact (ih h).of_evict

/-- Bringing the weight down adds no value. -/
theorem Holds.of_shrink {c : Cache K V} {key : K} {value : V}
    (h : c.shrink.Holds key value) : c.Holds key value := by
  unfold shrink at h
  split at h
  · exact h
  · exact h.of_evictInOrder

/-- What is held beside a key is held under another one. -/
theorem holds_of_mem_others {c : Cache K V} {key : K} {r : Resident K V}
    (mem : r ∈ c.others key) : r.key ≠ key ∧ c.Holds r.key r.value := by
  obtain ⟨mem, other⟩ := List.mem_filter.mp mem
  exact ⟨by simpa using other, r, mem, rfl, rfl⟩

/-- What a cache holds after an insertion is the new value, if that was not refused, or was held
before. Under the key of the new value nothing is left from before unless that was refused. -/
theorem Holds.insert_cases {c : Cache K V} {key key' : K} {value value' : V}
    (h : (c.insert key value).Holds key' value') :
    (key' = key ∧ value' = value ∧ c.weigh key value ≤ c.config.maxWeight) ∨
      (c.Holds key' value' ∧ (key' = key → c.config.maxWeight < c.weigh key value)) := by
  unfold insert at h
  simp only at h
  split at h
  · next heavy =>
    -- Too heavy: nothing was put in.
    exact .inr ⟨h, fun _ => heavy⟩
  · next light =>
    -- What is left after shrinking is the new value or one of the others.
    obtain ⟨r, mem, rfl, rfl⟩ := h.of_shrink
    rcases List.mem_cons.mp mem with rfl | mem
    · exact .inl ⟨rfl, rfl, UInt64.not_lt.mp light⟩
    · obtain ⟨other, held⟩ := holds_of_mem_others mem
      exact .inr ⟨held, fun same => absurd same other⟩

/-- What a cache holds after an insertion is the new value or was held before. This is what
is left of `insert_cases` where it does not matter whether the value was refused. -/
theorem Holds.of_insert {c : Cache K V} {key key' : K} {value value' : V}
    (h : (c.insert key value).Holds key' value') :
    (key' = key ∧ value' = value) ∨ c.Holds key' value' := by
  rcases h.insert_cases with ⟨key_eq, value_eq, -⟩ | ⟨held, -⟩
  · exact .inl ⟨key_eq, value_eq⟩
  · exact .inr held

/-- What a cache holds after a key was invalidated was held before under another one. -/
theorem Holds.of_invalidate {c : Cache K V} {key key' : K} {value : V}
    (h : (c.invalidate key).1.Holds key' value) : key' ≠ key ∧ c.Holds key' value := by
  unfold invalidate at h
  split at h
  · -- Nothing stood under the key, so what is held stands under another one.
    next absent =>
    obtain ⟨r, mem, rfl, rfl⟩ := h
    have other : r.key ≠ key := by simpa using List.find?_eq_none.mp absent r mem
    exact ⟨other, r, mem, rfl, rfl⟩
  · obtain ⟨r, mem, rfl, rfl⟩ := h
    exact holds_of_mem_others mem

/-- Dropping values in some order changes nothing but values, counters and weight. -/
theorem onlyValuesDiffer_evictInOrder (rs : List (Resident K V)) (c : Cache K V) :
    c.OnlyValuesDiffer (c.evictInOrder rs) := by
  induction rs generalizing c with
  | nil => exact ⟨rfl, rfl, rfl, rfl⟩
  | cons r rs ih =>
      rw [evictInOrder]
      split
      · exact ⟨rfl, rfl, rfl, rfl⟩
      · -- Dropping a single value changes nothing else by definition.
        have rest := ih (c.evict r)
        exact ⟨rest.config_eq, rest.weigh_eq, rest.flights_eq, rest.nextLoad_eq⟩

/-- An insertion changes nothing but values, clock, counters and weight, whether the value
is refused, fits, or makes others go. -/
theorem onlyValuesDiffer_insert (c : Cache K V) (key : K) (value : V) :
    c.OnlyValuesDiffer (c.insert key value) := by
  -- The three ways an insertion can go: refused, within the ceiling, with dropping.
  unfold insert shrink
  simp only
  split
  · exact ⟨rfl, rfl, rfl, rfl⟩
  · split
    · exact ⟨rfl, rfl, rfl, rfl⟩
    · have dropped := onlyValuesDiffer_evictInOrder (c.put key value (c.weigh key value)).byLastUse
        (c.put key value (c.weigh key value))
      exact ⟨dropped.config_eq, dropped.weigh_eq, dropped.flights_eq, dropped.nextLoad_eq⟩

/-- Invalidating a key changes nothing but the values and their weight. -/
theorem onlyValuesDiffer_invalidate (c : Cache K V) (key : K) :
    c.OnlyValuesDiffer (c.invalidate key).1 := by
  unfold invalidate
  split <;> exact ⟨rfl, rfl, rfl, rfl⟩

/-- Putting a value in leaves the register of loads alone. -/
@[simp]
theorem flights_insert (c : Cache K V) (key : K) (value : V) :
    (c.insert key value).flights = c.flights :=
  (c.onlyValuesDiffer_insert key value).flights_eq

/-- Putting a value in takes no number of a load. -/
@[simp]
theorem nextLoad_insert (c : Cache K V) (key : K) (value : V) :
    (c.insert key value).nextLoad = c.nextLoad :=
  (c.onlyValuesDiffer_insert key value).nextLoad_eq

end TileArchive.Cache
