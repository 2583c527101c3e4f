import TileArchive.Proofs.Cache.Values

/-!
# `TileArchive.Proofs.Cache.Dropping`: which values are dropped

When an insertion lifts the weight of a cache above the ceiling, values are dropped in a given
order until the weight is at or below the eviction target. `Cache.Drops` says what this comes to:
the order is cut in two, the first part goes and the second stays, and no shorter first part
would do (`Balanced.drops_evictInOrder`). `WithinCeiling.insert_cases` lists all that an
insertion can do.

`Session.evicted` are the values that an event drops: those that it finds or puts in, and that
are gone afterwards though nobody took them out. The counters of the cache count exactly these
(`Sound.evictions_step`).

## The loop

`Drops` is a relation between the cache before and after, with the two parts of the order as
parameters. One turn of the loop puts a value in front of the first part (`Drops.cons`), and the
loop ends with an empty first part. The induction is on the order, as the loop is. That the loop
ends at all below the target, and not only when the order is used up, needs the balance of the
weight: once nothing is held the total is zero.

## Dropped and taken out

A value that is gone may have been dropped, replaced, invalidated or cleared. Only dropping
counts as an eviction. `Session.offered` are the values that are there when the dropping may
begin: without the value that an insertion replaces, without what an invalidation or a clearing
takes out, and with the value that is written. What is missing of these afterwards was dropped.
-/

set_option autoImplicit false

namespace TileArchive

variable {K V E : Type}

/-- The weights of two lists of values add up. -/
theorem totalWeight_append (rs rs' : List (Resident K V)) :
    totalWeight (rs ++ rs') = totalWeight rs + totalWeight rs' := by
  induction rs with
  | nil => exact (Nat.zero_add _).symm
  | cons r rs ih => rw [List.cons_append, totalWeight, totalWeight, ih, Nat.add_assoc]

namespace Cache

/-- Some values of a cache are dropped and the others kept, so that the weight gets down to
the eviction target and no lower than it has to. Which values these are is said by their
order, elsewhere, as nothing here depends on it. -/
structure Drops (c c' : Cache K V) (removed kept : List (Resident K V)) : Prop where
  order : c.residents.Perm (removed ++ kept)
  held : c'.residents.Perm kept
  low : UInt64.ofNat (totalWeight kept) ≤ c.config.evictionTarget
  /-- As long as one of the dropped values is left, the weight is above the target. -/
  needed : ∀ fewer more, removed = fewer ++ more → more ≠ [] →
    c.config.evictionTarget < UInt64.ofNat (totalWeight (more ++ kept))
  evictions_eq : c'.counters.evictions = c.counters.evictions + removed.length
  evictedWeight_eq :
    c'.counters.evictedWeight = c.counters.evictedWeight + UInt64.ofNat (totalWeight removed)

variable [DecidableEq K] {c c' : Cache K V} {certain : Prop}

/-- A key is held if a value with that key is. -/
theorem contains_iff {key : K} : c.contains key = true ↔ ∃ r ∈ c.residents, r.key = key := by
  simp [contains, resident?, List.find?_isSome]

/-- A key under which a search finds a value is held. -/
theorem contains_of_some {key : K} {r : Resident K V} (held : c.resident? key = some r) :
    c.contains key = true := by
  rw [contains, held]
  rfl

/-- A key under which a search finds nothing is not held. -/
theorem contains_of_none {key : K} (absent : c.resident? key = none) : c.contains key = false := by
  rw [contains, absent]
  rfl

/-- Caches with the same values hold the same keys. -/
theorem SameValues.contains_eq (h : c.SameValues c') (key : K) :
    c'.contains key = c.contains key := by
  rw [contains, contains, h.resident?_eq]

/-- A use keeps all values. -/
theorem contains_touch (key key' : K) : (c.touch key).1.contains key' = c.contains key' := by
  have holds_iff (c : Cache K V) : c.contains key' = true ↔ ∃ value, c.Holds key' value := by
    simp [contains_iff, Holds]
  rw [Bool.eq_iff_iff, holds_iff, holds_iff]
  simp only [holds_touch]

/-- A use is not counted by itself; the look-up is that it belongs to. -/
theorem counters_touch (c : Cache K V) (key : K) : (c.touch key).1.counters = c.counters := by
  unfold touch
  split <;> rfl

/-- Invalidating a key is not counted. -/
theorem counters_invalidate (c : Cache K V) (key : K) :
    (c.invalidate key).1.counters = c.counters := by
  unfold invalidate
  split <;> rfl

/-! ### Dropping in order -/

/-- A value is dropped before the others: the total was above the target when it was its
turn. So no part of the order that leaves it in would do. -/
theorem Drops.cons {r : Resident K V} {removed kept : List (Resident K V)} (h : c.Balanced)
    (order : c.residents.Perm (r :: (removed ++ kept)))
    (above : c.config.evictionTarget < c.weight) (rest : (c.evict r).Drops c' removed kept) :
    c.Drops c' (r :: removed) kept where
  order := order
  held := rest.held
  low := rest.low
  -- A shorter part that is dropped is empty, and then the total is that of before, or it
  -- starts with the same value, and then the rest of it is a shorter part of what is dropped
  -- later.
  needed fewer more split some_left := by
    cases fewer with
    | nil =>
        have all : r :: (removed ++ kept) = more ++ kept := by rw [← List.cons_append, split]; rfl
        rw [← all, ← totalWeight_perm order, ← h.weight_eq]
        exact above
    | cons _ fewer =>
        obtain ⟨-, split⟩ := List.cons_eq_cons.mp split
        exact rest.needed fewer more split some_left
  evictions_eq := by
    rw [rest.evictions_eq, List.length_cons, Nat.add_comm removed.length, ← Nat.add_assoc]
    rfl
  evictedWeight_eq := by
    rw [rest.evictedWeight_eq, totalWeight, UInt64.ofNat_add, UInt64.ofNat_toNat,
      ← UInt64.add_assoc]
    rfl

/-- Dropping values in an order of all of them cuts the order in two. The induction is on
the order. As the total is balanced, what is subtracted in each step is the weight of the
value that is dropped. -/
theorem Balanced.drops_evictInOrder {rs : List (Resident K V)} (h : c.Balanced)
    (order : c.residents.Perm rs) :
    ∃ removed kept, rs = removed ++ kept ∧ c.Drops (c.evictInOrder rs) removed kept := by
  -- By induction on the order. The cache varies, since the rest is dropped from what is left.
  induction rs generalizing c with
  | nil =>
      refine ⟨[], [], rfl, order, order, UInt64.zero_le, ?_, rfl, (UInt64.add_zero _).symm⟩
      intro fewer more split some_left
      exact absurd (List.nil_eq_append_iff.mp split).2 some_left
  | cons r rs ih =>
      rw [Cache.evictInOrder]
      split
      · next low =>
        refine ⟨[], r :: rs, rfl, order, order, ?_, ?_, rfl, (UInt64.add_zero _).symm⟩
        · rw [← totalWeight_perm order, ← h.weight_eq]
          exact low
        · intro fewer more split some_left
          exact absurd (List.nil_eq_append_iff.mp split).2 some_left
      · next high =>
        have member : r ∈ c.residents := order.mem_iff.mpr List.mem_cons_self
        have order' : (c.evict r).residents.Perm rs :=
          ((h.keyed.perm_cons_filter member).symm.trans order).cons_inv
        obtain ⟨removed, kept, rfl, rest⟩ := ih (h.evict member) order'
        exact ⟨r :: removed, kept, rfl, .cons h order (UInt64.not_le.mp high) rest⟩

/-- What is gone is what was dropped. The list of what is gone is taken in the order of the
cache, and what was dropped in the order of last use, so the two agree as multisets. -/
theorem Drops.perm_removed {removed kept : List (Resident K V)} (h : c.Drops c' removed kept)
    (keyed : Keyed Resident.key c.residents) :
    (c.residents.filter fun r => !c'.contains r.key).Perm removed := by
  have keyed' : Keyed Resident.key (removed ++ kept) := keyed.perm h.order
  -- A dropped key is not kept under another value, since keys do not repeat.
  have gone : ∀ r ∈ removed, c'.contains r.key = false := by
    intro r mem
    rw [← Bool.not_eq_true, contains_iff]
    rintro ⟨r', mem', key_eq⟩
    rw [Keyed, List.map_append] at keyed'
    have apart := List.disjoint_of_nodup_append keyed'
    exact apart (List.mem_map_of_mem mem)
      (key_eq ▸ List.mem_map_of_mem (h.held.mem_iff.mp mem'))
  have held : ∀ r ∈ kept, c'.contains r.key = true := fun r mem =>
    contains_iff.mpr ⟨r, h.held.mem_iff.mpr mem, rfl⟩
  refine (h.order.filter _).trans (List.Perm.of_eq ?_)
  rw [List.filter_append, List.filter_eq_self.mpr fun r mem => by simp [gone r mem],
    List.filter_eq_nil_iff.mpr fun r mem => by simp [held r mem], List.append_nil]

/-! ### Insertions -/

/-- What an insertion does. A value that is too heavy is refused. Otherwise it is put in,
and if the weight is above the ceiling then, values are dropped in the order of their last
use. All that is said of insertions elsewhere goes by these three cases. -/
theorem WithinCeiling.insert_cases (h : c.WithinCeiling certain)
    (room : c.config.maxWeight.toNat < Word.topBit → certain) (key : K) (value : V) :
    let full := c.put key value (c.weigh key value)
    (c.config.maxWeight < c.weigh key value ∧ c.insert key value = c) ∨
    (c.weigh key value ≤ c.config.maxWeight ∧ full.Balanced ∧
      ((full.weight ≤ c.config.maxWeight ∧ c.insert key value = full) ∨
        (c.config.maxWeight < full.weight ∧ ∃ removed kept, full.byLastUse = removed ++ kept ∧
          full.Drops (c.insert key value) removed kept))) := by
  intro full
  unfold Cache.insert
  simp only
  split
  · next heavy => exact .inl ⟨heavy, rfl⟩
  · next light =>
    have light := UInt64.not_lt.mp light
    have balanced : full.Balanced := h.put room key value light
    refine .inr ⟨light, balanced, ?_⟩
    unfold Cache.shrink
    split
    · next low => exact .inl ⟨low, rfl⟩
    · next high =>
      -- Dropping goes through the values by last use, and these are all values in another
      -- order.
      have order : full.residents.Perm full.byLastUse := (List.mergeSort_perm _ _).symm
      exact .inr ⟨UInt64.not_le.mp high, balanced.drops_evictInOrder order⟩

/-- What a cache holds once a value was put in, if it is not refused, and before values are
dropped. -/
def offered (c : Cache K V) (key : K) (value : V) : List (Resident K V) :=
  if c.config.maxWeight < c.weigh key value then c.residents
  else (c.put key value (c.weigh key value)).residents

/-- Nothing is gone from a cache that holds all keys. -/
theorem filter_contains_eq_nil {rs : List (Resident K V)}
    (held : ∀ r ∈ rs, c.contains r.key = true) : (rs.filter fun r => !c.contains r.key) = [] :=
  List.filter_eq_nil_iff.mpr fun r mem => by simp [held r mem]

/-- An insertion counts the values that are gone after it. A value that is replaced is not
gone and is not counted, and one that is refused was never there. -/
theorem WithinCeiling.evictions_insert (h : c.WithinCeiling certain)
    (room : c.config.maxWeight.toNat < Word.topBit → certain) (key : K) (value : V) :
    let gone := (c.offered key value).filter fun r => !(c.insert key value).contains r.key
    (c.insert key value).counters.evictions = c.counters.evictions + gone.length ∧
      (c.insert key value).counters.evictedWeight
        = c.counters.evictedWeight + UInt64.ofNat (totalWeight gone) := by
  intro gone
  -- In two of three cases everything that was there is there afterwards.
  have nothing (c' : Cache K V) (same : c.insert key value = c')
      (offered_eq : c.offered key value = c'.residents) : gone = [] := by
    show (c.offered key value).filter (fun r => !(c.insert key value).contains r.key) = []
    rw [same, offered_eq]
    exact filter_contains_eq_nil fun r mem => contains_iff.mpr ⟨r, mem, rfl⟩
  rcases h.insert_cases room key value with ⟨heavy, same⟩ | ⟨light, balanced, ⟨-, same⟩
    | ⟨-, removed, kept, -, drops⟩⟩
  · rw [nothing c same (if_pos heavy), same]
    exact ⟨rfl, (UInt64.add_zero _).symm⟩
  · rw [nothing _ same (if_neg (UInt64.not_lt.mpr light)), same]
    exact ⟨rfl, (UInt64.add_zero _).symm⟩
  · have gone_eq : gone.Perm removed := by
      show (List.filter _ (c.offered key value)).Perm removed
      rw [offered, if_neg (UInt64.not_lt.mpr light)]
      exact drops.perm_removed balanced.keyed
    rw [gone_eq.length_eq, totalWeight_perm gone_eq]
    exact ⟨drops.evictions_eq, drops.evictedWeight_eq⟩

end Cache

namespace Session

variable [DecidableEq K] {s : Session K V E} {e : Event K V E}

/-- What an event would leave in the cache if no value were dropped. A value that is put in
under a key stands in the place of the older one. -/
def offered (s : Session K V E) : Event K V E → List (Resident K V)
  | .invalidate key => s.cache.others key
  | .clear => []
  | e => (s.written? e).elim s.cache.residents fun (key, value) => s.cache.offered key value

/-- The values that an event drops. They were offered, and their keys are not in the cache
afterwards. -/
def evicted (s : Session K V E) (e : Event K V E) : List (Resident K V) :=
  (s.offered e).filter fun r => !(s.step e).cache.contains r.key

/-- Where a value is written, the values that are there when dropping may begin are those of
an insertion. -/
theorem offered_of_written {key : K} {value : V} (written : s.written? e = some (key, value)) :
    s.offered e = s.cache.offered key value := by
  have taken : ((s.written? e).elim s.cache.residents fun (key, value) =>
      s.cache.offered key value) = s.cache.offered key value := by
    rw [written]
    rfl
  cases e with
  | invalidate | clear => cases written
  | _ => exact taken

/-- Where nothing is written, all of them were held before. -/
theorem mem_residents_of_mem_offered (unwritten : s.written? e = none) {r : Resident K V}
    (mem : r ∈ s.offered e) : r ∈ s.cache.residents := by
  have kept : ((s.written? e).elim s.cache.residents fun (key, value) =>
      s.cache.offered key value) = s.cache.residents := by
    rw [unwritten]
    rfl
  cases e with
  | invalidate key => exact (List.mem_filter.mp mem).1
  | clear => cases mem
  | _ => exact kept ▸ mem

/-- Nothing is dropped where all that was offered is there. -/
theorem evicted_eq_nil (held : ∀ r ∈ s.offered e, (s.step e).cache.contains r.key = true) :
    s.evicted e = [] :=
  Cache.filter_contains_eq_nil held

/-- An event that writes nothing drops nothing. Only an insertion compares the total with
the ceiling, so a total above it, as `invalidate` may leave it, stays until the next
insertion. -/
theorem Sound.evicted_of_unwritten (h : s.Sound) (unwritten : s.written? e = none) :
    s.evicted e = [] := by
  refine evicted_eq_nil fun r mem => ?_
  have there : s.cache.contains r.key = true :=
    Cache.contains_iff.mpr ⟨r, mem_residents_of_mem_offered unwritten mem, rfl⟩
  cases h.handles e with
  | writes written => cases unwritten.symm.trans written
  | uses _ _ _ same => rwa [same.contains_eq, Cache.contains_touch]
  | leaves _ _ same => rwa [same.contains_eq]
  | invalidates event_eq cache_eq =>
      -- What was offered is held under other keys, and those stay.
      subst event_eq
      rw [cache_eq, Cache.contains_iff]
      unfold Cache.invalidate
      split
      · exact Cache.contains_iff.mp there
      · exact ⟨r, mem, rfl⟩
  | clears event_eq =>
      subst event_eq
      cases mem
  | resets _ cache_eq =>
      rw [cache_eq]
      exact there

/-- An event counts the values that it drops, and their weight as a sum of words. Where the
ceiling is at least half of all words the total may wrap, and the bound on it is not certain
any more. -/
theorem Sound.evictions_step (h : s.Sound)
    (ceiling : s.cache.WithinCeiling (s.cache.config.maxWeight.toNat < Word.topBit))
    (counted : e ≠ .resetCounters) :
    (s.step e).cache.counters.evictions = s.cache.counters.evictions + (s.evicted e).length ∧
      (s.step e).cache.counters.evictedWeight
        = s.cache.counters.evictedWeight + UInt64.ofNat (totalWeight (s.evicted e)) := by
  have nothing (unwritten : s.written? e = none)
      (evictions_eq : (s.step e).cache.counters.evictions = s.cache.counters.evictions)
      (weight_eq : (s.step e).cache.counters.evictedWeight = s.cache.counters.evictedWeight) :
      (s.step e).cache.counters.evictions = s.cache.counters.evictions + (s.evicted e).length ∧
        (s.step e).cache.counters.evictedWeight
          = s.cache.counters.evictedWeight + UInt64.ofNat (totalWeight (s.evicted e)) := by
    rw [h.evicted_of_unwritten unwritten, evictions_eq, weight_eq]
    exact ⟨rfl, (UInt64.add_zero _).symm⟩
  -- Only an event that writes can drop something. The other cases keep counters and values.
  cases h.handles e with
  | @writes key value _ written missed same =>
      have gone_eq : s.evicted e = (s.cache.offered key value).filter
          fun r => !(s.cache.insert key value).contains r.key := by
        simp only [evicted, offered_of_written written, same.contains_eq]
      rw [gone_eq, same.evictions_eq, same.evictedWeight_eq]
      exact ceiling.evictions_insert id key value
  | @uses key _ _ unwritten _ _ same =>
      have counters_eq : (s.cache.touch key).1.counters = s.cache.counters :=
        s.cache.counters_touch key
      refine nothing unwritten ?_ ?_
      · rw [same.evictions_eq, counters_eq]
      · rw [same.evictedWeight_eq, counters_eq]
  | leaves unwritten _ same => exact nothing unwritten same.evictions_eq same.evictedWeight_eq
  | @invalidates key _ event_eq cache_eq =>
      subst event_eq
      have counters_eq : (s.cache.invalidate key).1.counters = s.cache.counters :=
        s.cache.counters_invalidate key
      exact nothing rfl (by rw [cache_eq, counters_eq]) (by rw [cache_eq, counters_eq])
  | clears event_eq cache_eq =>
      subst event_eq
      exact nothing rfl (by rw [cache_eq]; rfl) (by rw [cache_eq]; rfl)
  | resets event_eq => exact absurd event_eq counted

/-- The total of a cache is right after every history, and with a low ceiling below it. -/
theorem ceiling_after (config : CacheConfig) (weigh : K → V → UInt64)
    (past : List (Event K V E)) :
    (after config weigh past).cache.WithinCeiling
      ((after config weigh past).cache.config.maxWeight.toNat < Word.topBit) := by
  obtain ⟨config_eq, h⟩ : (after config weigh past).cache.config = config ∧
      (after config weigh past).cache.WithinCeiling (config.maxWeight.toNat < Word.topBit) := by
    refine (Cache.kept_withinCeiling id).run ?_ ⟨rfl, Cache.withinCeiling_empty _ _⟩
    rintro c key - ⟨config_eq, h⟩
    refine ⟨(c.config_invalidate key).trans config_eq, h.invalidate ?_ key⟩
    rw [config_eq]
    exact id
  rw [config_eq]
  exact h

end Session

end TileArchive
