import TileArchive.Proofs.Bytes
import TileArchive.Proofs.Cache.Flights
import TileArchive.Proofs.Cache.Run
import TileArchive.Proofs.Keyed

/-!
# `TileArchive.Proofs.Cache.Weight`: the weight of a cache and its ceiling

A cache keeps a running total of the weights it holds, as a word that wraps. The total is
adjusted wherever a value comes or goes, and `Cache.Balanced` says that it is right: the word
of the sum of the weights held. Dropping values ends below the ceiling because of that: once
nothing is left, the sum is zero, so the word is too.

* `Cache.Balanced.evictInOrder` is the invariant of the loop that drops values.
* `Cache.kept_withinCeiling`: every operation keeps the balance and the ceiling. The one that
  may break the ceiling is `invalidate`, where the sum has wrapped.
* `weight_accounted` is what follows for every history. With a ceiling below half of the range
  of words, no sum of weights wraps, and the ceiling holds throughout.
* `weight_above_ceiling` is a history in which the sum wraps and the total ends up above the
  ceiling.

## When the sum wraps

Every value that is held is no heavier than the ceiling, and before an insertion the total is at
or below the ceiling. So right after a value was put in, and before anything is dropped, the sum
is at most twice the ceiling. With a ceiling below `2 ^ 63` this fits a word, and the total is
the sum itself. With a higher ceiling it may wrap: the total is then small, nothing is dropped,
and the cache holds more than the ceiling allows. Taking a value out afterwards may bring the
total up again, because it undoes the wrapping.

## A proposition as parameter

`WithinCeiling certain` has the ceiling as a conditional: *if* `certain`, the total is at or
below it. This lets one induction serve both kinds of histories. `certain` is `True` for a
history without `invalidate`, where the ceiling always holds, and it is the bound on the ceiling
where `invalidate` occurs. The hypothesis `room` says that the bound implies `certain`, which is
all that an insertion needs.
-/

set_option autoImplicit false

namespace TileArchive

/-- The share of the ceiling that dropping stops at is no more than the ceiling. -/
theorem CacheConfig.evictionTarget_le (config : CacheConfig) :
    config.evictionTarget ≤ config.maxWeight := by
  have share_le : config.maxWeight.toNat * Nat.min config.evictToPercent.toNat 100 / 100
      ≤ config.maxWeight.toNat := by
    refine Nat.div_le_of_le_mul ?_
    rw [Nat.mul_comm 100]
    exact Nat.mul_le_mul_left _ (Nat.min_le_right _ _)
  rw [UInt64.le_iff_toNat_le, evictionTarget,
    Word.toNat_ofNat (Nat.le_trans share_le (Word.toNat_le_largest _))]
  exact share_le

variable {K V E : Type}

/-- The sum of the weights of some values, which no word bounds. The counter of the cache is
this sum only as far as a word can tell it. -/
def totalWeight : List (Resident K V) → Nat
  | [] => 0
  | r :: rs => r.weight.toNat + totalWeight rs

/-- The sum of weights does not depend on the order of the values. -/
theorem totalWeight_perm {rs rs' : List (Resident K V)} (same : rs.Perm rs') :
    totalWeight rs = totalWeight rs' := by
  induction same with
  | nil => rfl
  | cons r _ ih => rw [totalWeight, totalWeight, ih]
  | swap r r' rs => simp only [totalWeight]; omega
  | trans _ _ ih ih' => rw [ih, ih']

/-- A stamp does not weigh anything. -/
theorem totalWeight_map {f : Resident K V → Resident K V}
    (keeps : ∀ r, (f r).weight = r.weight) (rs : List (Resident K V)) :
    totalWeight (rs.map f) = totalWeight rs := by
  induction rs with
  | nil => rfl
  | cons r rs ih => rw [List.map_cons, totalWeight, totalWeight, keeps, ih]

namespace Cache

/-- The running total of a cache is the word of the sum of the weights it holds. With it go
the two facts that keep it so: no key is held twice, and no value is heavier than the
ceiling. -/
structure Balanced (c : Cache K V) : Prop where
  keyed : Keyed Resident.key c.residents
  weight_eq : c.weight = UInt64.ofNat (totalWeight c.residents)
  light : ∀ r ∈ c.residents, r.weight ≤ c.config.maxWeight
  /-- With a ceiling below half of the range of words the sum does not wrap. -/
  unwrapped : c.config.maxWeight.toNat < Word.topBit → totalWeight c.residents ≤ Word.largest

/-- The total of a cache is right and, if so much is certain, does not exceed the ceiling.
It is certain where the ceiling leaves half of the words free or nothing is ever taken out
by hand. -/
structure WithinCeiling (certain : Prop) (c : Cache K V) : Prop extends c.Balanced where
  below : certain → c.weight ≤ c.config.maxWeight

/-- With a ceiling below half of the range of words the total is the sum itself. -/
theorem Balanced.toNat_weight {c : Cache K V} (h : c.Balanced)
    (small : c.config.maxWeight.toNat < Word.topBit) :
    c.weight.toNat = totalWeight c.residents := by
  rw [h.weight_eq, Word.toNat_ofNat (h.unwrapped small)]

variable {certain : Prop}

/-- A new cache holds nothing and weighs nothing. -/
theorem withinCeiling_empty (config : CacheConfig) (weigh : K → V → UInt64) :
    (empty config weigh).WithinCeiling certain where
  keyed := Keyed.nil
  weight_eq := rfl
  light := nofun
  unwrapped _ := Nat.zero_le _
  below _ := UInt64.zero_le

variable [DecidableEq K]

/-! ### Taking values out -/

/-- What is held beside a value weighs what is left without it. -/
theorem totalWeight_others {c : Cache K V} (keyed : Keyed Resident.key c.residents)
    {r : Resident K V} (member : r ∈ c.residents) :
    totalWeight c.residents = r.weight.toNat + totalWeight (c.others r.key) :=
  totalWeight_perm (keyed.perm_cons_filter member)

/-- A cache without one of its values is balanced when its weight is taken off the total.
This holds for the total as a word even where the sum of the weights does not fit one,
because subtraction undoes addition of words. -/
theorem Balanced.without {c : Cache K V} (h : c.Balanced) {r : Resident K V}
    (member : r ∈ c.residents) :
    Balanced { c with residents := c.others r.key, weight := c.weight - r.weight } where
  keyed := h.keyed.filter _
  weight_eq := by
    show c.weight - r.weight = UInt64.ofNat (totalWeight (c.others r.key))
    rw [h.weight_eq, totalWeight_others h.keyed member, Nat.add_comm, UInt64.ofNat_add,
      UInt64.ofNat_toNat, UInt64.add_sub_cancel]
  light r' member' := h.light r' (List.mem_filter.mp member').1
  unwrapped small := by
    -- A sum that fits a word does so without one of its parts.
    have whole := h.unwrapped small
    rw [totalWeight_others h.keyed member] at whole
    exact Nat.le_trans (Nat.le_add_left _ _) whole

/-- Dropping a value keeps the balance: the value goes, and its weight goes from the total. -/
theorem Balanced.evict {c : Cache K V} (h : c.Balanced) {r : Resident K V}
    (member : r ∈ c.residents) : (c.evict r).Balanced :=
  -- The counters that `evict` sets are no part of the balance.
  ⟨(h.without member).keyed, (h.without member).weight_eq, (h.without member).light,
    (h.without member).unwrapped⟩

/-- Dropping values in an order of all of them ends at or below the eviction target. If it
came to the end of the order, nothing would be left, and nothing weighs nothing. -/
theorem Balanced.evictInOrder {rs : List (Resident K V)} {c : Cache K V} (h : c.Balanced)
    (order : c.residents.Perm rs) :
    (c.evictInOrder rs).Balanced ∧ (c.evictInOrder rs).weight ≤ c.config.evictionTarget := by
  induction rs generalizing c with
  | nil =>
      -- Nothing is held any more, so nothing is weighed.
      have weightless : c.weight = 0 := by
        rw [h.weight_eq, List.perm_nil.mp order]
        rfl
      rw [Cache.evictInOrder]
      exact ⟨h, weightless ▸ UInt64.zero_le⟩
  | cons r rs ih =>
      rw [Cache.evictInOrder]
      split
      · next low => exact ⟨h, low⟩
      · have member : r ∈ c.residents := order.mem_iff.mpr List.mem_cons_self
        -- The rest of the order is an order of what is left.
        have order' : (c.evict r).residents.Perm rs :=
          ((h.keyed.perm_cons_filter member).symm.trans order).cons_inv
        exact ih (h.evict member) order'

/-- After dropping values the total is below the ceiling, certain as that was before or not. -/
theorem Balanced.shrink {c : Cache K V} (h : c.Balanced) :
    c.shrink.WithinCeiling certain := by
  unfold Cache.shrink
  split
  · next low => exact ⟨h, fun _ => low⟩
  · have order : c.residents.Perm c.byLastUse := (List.mergeSort_perm _ _).symm
    obtain ⟨balanced, low⟩ := h.evictInOrder order
    refine ⟨balanced, fun _ => UInt64.le_trans low ?_⟩
    rw [(onlyValuesDiffer_evictInOrder c.byLastUse c).config_eq]
    exact c.config.evictionTarget_le

/-! ### Putting values in -/

/-- What is held beside a key, if anything is held under it. With a weight of zero for what
is not held, both cases read alike. -/
theorem totalWeight_resident? {c : Cache K V} (keyed : Keyed Resident.key c.residents)
    (key : K) :
    totalWeight c.residents
      = (((c.resident? key).map Resident.weight).getD 0).toNat
        + totalWeight (c.others key) := by
  cases found : c.resident? key with
  | none =>
      -- Nothing is under the key, so the others are all there are.
      have kept : c.others key = c.residents := by
        refine List.filter_eq_self.mpr ?_
        intro r member
        simpa using List.find?_eq_none.mp found r member
      rw [kept]
      exact (Nat.zero_add _).symm
  | some r =>
      obtain ⟨member, rfl⟩ := keyed.find?_eq_some_iff.mp found
      exact totalWeight_others keyed member

/-- A value that is not heavier than the ceiling is put in. The balance holds afterwards,
but the total may be above the ceiling until values are dropped. -/
theorem WithinCeiling.put {c : Cache K V} (h : c.WithinCeiling certain)
    (room : c.config.maxWeight.toNat < Word.topBit → certain) (key : K) (value : V)
    {weight : UInt64} (light : weight ≤ c.config.maxWeight) :
    (c.put key value weight).Balanced where
  keyed := by
    refine Keyed.cons_iff.mpr ⟨?_, h.keyed.filter _⟩
    intro r member
    simpa using (List.mem_filter.mp member).2
  weight_eq := by
    show c.weight - ((c.resident? key).map Resident.weight).getD 0 + weight
      = UInt64.ofNat (weight.toNat + totalWeight (c.others key))
    rw [h.weight_eq, totalWeight_resident? h.keyed key, Nat.add_comm weight.toNat,
      Nat.add_comm _ (totalWeight _), UInt64.ofNat_add, UInt64.ofNat_add, UInt64.ofNat_toNat,
      UInt64.ofNat_toNat, UInt64.add_sub_cancel]
  light r member := by
    rcases List.mem_cons.mp member with rfl | member
    · exact light
    · exact h.light r (List.mem_filter.mp member).1
  unwrapped small := by
    -- The values held before weigh no more than the ceiling, and neither does the new one.
    show weight.toNat + totalWeight (c.others key) ≤ Word.largest
    have small : c.config.maxWeight.toNat < Word.topBit := small
    have before := totalWeight_resident? h.keyed key
    have below := UInt64.le_iff_toNat_le.mp (h.below (room small))
    have light := UInt64.le_iff_toNat_le.mp light
    rw [h.toNat_weight small] at below
    rw [Word.topBit] at small
    rw [Word.largest]
    omega

/-- An insertion keeps balance and ceiling, whether or not it refuses the value or drops
others. -/
theorem WithinCeiling.insert {c : Cache K V} (h : c.WithinCeiling certain)
    (room : c.config.maxWeight.toNat < Word.topBit → certain) (key : K) (value : V) :
    (c.insert key value).WithinCeiling certain := by
  unfold Cache.insert
  simp only
  split
  · exact h
  · next light => exact (h.put room key value (UInt64.not_lt.mp light)).shrink

/-! ### Every operation -/

omit [DecidableEq K] in
/-- The balance is a matter of keys and weights, not of stamps, counters or the register. -/
theorem WithinCeiling.of_stamped {c c' : Cache K V} (h : c.WithinCeiling certain)
    {stamp : Resident K V → Resident K V} (keeps_key : ∀ r, (stamp r).key = r.key)
    (keeps_weight : ∀ r, (stamp r).weight = r.weight)
    (residents_eq : c'.residents = c.residents.map stamp) (weight_eq : c'.weight = c.weight)
    (config_eq : c'.config = c.config) : c'.WithinCeiling certain where
  keyed := by
    have same_key : Resident.key ∘ stamp = Resident.key := funext keeps_key
    rw [residents_eq, Keyed, List.map_map, same_key]
    exact h.keyed
  weight_eq := by rw [weight_eq, residents_eq, totalWeight_map keeps_weight, h.weight_eq]
  -- Each stamped value is that of a value with the same weight.
  light r member := by
    rw [residents_eq] at member
    obtain ⟨r', member', rfl⟩ := List.mem_map.mp member
    rw [keeps_weight, config_eq]
    exact h.light r' member'
  unwrapped small := by
    rw [residents_eq, totalWeight_map keeps_weight]
    exact h.unwrapped (config_eq ▸ small)
  below := by
    rw [weight_eq, config_eq]
    exact h.below

omit [DecidableEq K] in
/-- Balance and ceiling are a matter of values, total and bounds. -/
theorem WithinCeiling.of_same {c c' : Cache K V} (h : c.WithinCeiling certain)
    (residents_eq : c'.residents = c.residents) (weight_eq : c'.weight = c.weight)
    (config_eq : c'.config = c.config) : c'.WithinCeiling certain :=
  h.of_stamped (fun _ => rfl) (fun _ => rfl) (residents_eq.trans (List.map_id _).symm)
    weight_eq config_eq

/-- A use keeps balance and ceiling, since a stamp weighs nothing. -/
theorem WithinCeiling.touch {c : Cache K V} (h : c.WithinCeiling certain) (key : K) :
    (c.touch key).1.WithinCeiling certain := by
  unfold Cache.touch
  split
  · exact h
  · refine h.of_stamped ?_ ?_ rfl rfl rfl <;> intro r <;> split <;> rfl

/-- Taking a value out lowers the total, unless the total has wrapped. Where it has, it may
come out above the ceiling, which is why the ceiling is kept only where it is certain. -/
theorem WithinCeiling.invalidate {c : Cache K V} (h : c.WithinCeiling certain)
    (room : certain → c.config.maxWeight.toNat < Word.topBit) (key : K) :
    (c.invalidate key).1.WithinCeiling certain := by
  unfold Cache.invalidate
  split
  · exact h
  · next r found =>
    obtain ⟨member, rfl⟩ := h.keyed.find?_eq_some_iff.mp found
    refine ⟨h.without member, fun sure => UInt64.le_trans ?_ (h.below sure)⟩
    -- Where the ceiling is certain the total is the sum of the weights, and so it is at least
    -- the weight of the value that is taken out.
    have whole := h.toNat_weight (room sure)
    rw [totalWeight_others h.keyed member] at whole
    have part : r.weight ≤ c.weight := UInt64.le_iff_toNat_le.mpr (by omega)
    show c.weight - r.weight ≤ c.weight
    rw [UInt64.le_iff_toNat_le, UInt64.toNat_sub_of_le _ _ part]
    exact Nat.sub_le _ _

omit [DecidableEq K] in
/-- Taking the weights of all values off their sum leaves nothing. -/
theorem foldl_sub_eq_zero {rs : List (Resident K V)} {weight : UInt64}
    (weight_eq : weight = UInt64.ofNat (totalWeight rs)) :
    rs.foldl (fun weight r => weight - r.weight) weight = 0 := by
  induction rs generalizing weight with
  | nil => exact weight_eq
  | cons r rs ih =>
      refine ih ?_
      rw [totalWeight, Nat.add_comm, UInt64.ofNat_add, UInt64.ofNat_toNat] at weight_eq
      rw [weight_eq]
      exact UInt64.add_sub_cancel _ _

omit [DecidableEq K] in
/-- After clearing, nothing is held and the total is zero, whatever it was. -/
theorem Balanced.clear {c : Cache K V} (h : c.Balanced) :
    c.clear.WithinCeiling certain := by
  have weight_eq : c.clear.weight = 0 := foldl_sub_eq_zero h.weight_eq
  exact ⟨⟨Keyed.nil, weight_eq, nofun, fun _ => Nat.zero_le _⟩,
    fun _ => weight_eq ▸ UInt64.zero_le⟩

/-- Invalidating a key keeps the bounds. -/
theorem config_invalidate (c : Cache K V) (key : K) : (c.invalidate key).1.config = c.config :=
  (c.onlyValuesDiffer_invalidate key).config_eq

/-- Every operation keeps the bounds of a cache and the balance of its weight, and
`invalidate` apart also the ceiling. -/
theorem kept_withinCeiling {config : CacheConfig}
    (room : config.maxWeight.toNat < Word.topBit → certain) :
    Kept E fun c : Cache K V => c.config = config ∧ c.WithinCeiling certain where
  insert {c} key value := by
    rintro ⟨rfl, h⟩
    exact ⟨(c.onlyValuesDiffer_insert key value).config_eq, h.insert room key value⟩
  get {c} key := by
    rintro ⟨rfl, h⟩
    exact ⟨(c.onlyValuesDiffer_touch key).config_eq, (h.touch key).of_same rfl rfl rfl⟩
  clear := by
    rintro c ⟨rfl, h⟩
    exact ⟨rfl, h.clear⟩
  resetCounters := by
    rintro c ⟨rfl, h⟩
    exact ⟨rfl, h.of_same rfl rfl rfl⟩
  request {c} key := by
    rintro ⟨rfl, h⟩
    -- A request uses a value, joins a load or starts one; only the first touches values, and
    -- it keeps their weights.
    rcases c.request_cases key with ⟨r, -, request_eq⟩ | ⟨-, f, -, request_eq⟩
      | ⟨-, -, request_eq⟩ <;> rw [request_eq]
    · exact ⟨(c.onlyValuesDiffer_touch key).config_eq, (h.touch key).of_same rfl rfl rfl⟩
    · exact ⟨rfl, h.of_same rfl rfl rfl⟩
    · exact ⟨rfl, h.of_same rfl rfl rfl⟩
  finish {c} key load outcome := by
    rintro ⟨rfl, h⟩
    rcases c.finish_cases key load outcome with ⟨f, -, -, finish_eq⟩ | ⟨-, finish_eq⟩ <;>
      rw [finish_eq]
    · cases outcome with
      -- A value that settles is put in like any other.
      | ok value =>
          exact ⟨(c.onlyValuesDiffer_insert key value).config_eq,
            (h.insert room key value).of_same rfl rfl rfl⟩
      | error e => exact ⟨rfl, h.of_same rfl rfl rfl⟩
    · exact ⟨rfl, h⟩
  withdraw {c} key load := by
    rintro ⟨rfl, h⟩
    rcases c.withdraw_cases key load with ⟨f, -, -, ⟨-, withdraw_eq⟩ | ⟨-, withdraw_eq⟩⟩
      | ⟨-, withdraw_eq⟩ <;> rw [withdraw_eq]
    · exact ⟨rfl, h.of_same rfl rfl rfl⟩
    · exact ⟨rfl, h.of_same rfl rfl rfl⟩
    · exact ⟨rfl, h⟩

end Cache

variable [DecidableEq K]

/-- The keys under which a cache holds values. -/
theorem Cache.Balanced.mem_keys_iff {c : Cache K V} (h : c.Balanced) (key : K) :
    key ∈ c.residents.map Resident.key ↔ c.contains key = true := by
  rw [List.mem_map, Cache.contains, Option.isSome_iff_exists]
  exact exists_congr fun r => h.keyed.find?_eq_some_iff.symm

/-- What the total of a cache is after every history, and where it stays below the ceiling:
the total is the sum of the weights held as a word, the size is the number of keys held, and
no value held is heavier than the ceiling. If the ceiling is below half of the range of words
or no value is ever invalidated, the total does not exceed the ceiling. In the first case it
is the sum itself. -/
theorem weight_accounted (config : CacheConfig) (weigh : K → V → UInt64)
    (past : List (Event K V E)) :
    let c := (Session.after config weigh past).cache
    c.weight.toNat = totalWeight c.residents % UInt64.size ∧
    (∃ keys : List K, keys.Nodup ∧ (∀ key, key ∈ keys ↔ c.contains key = true) ∧
      c.size = keys.length) ∧
    (∀ r ∈ c.residents, r.weight ≤ config.maxWeight) ∧
    (config.maxWeight.toNat < Word.topBit ∨ (∀ key, .invalidate key ∉ past) →
      c.weight ≤ config.maxWeight) ∧
    (config.maxWeight.toNat < Word.topBit →
      totalWeight c.residents = c.weight.toNat ∧
      totalWeight c.residents ≤ config.maxWeight.toNat) := by
  intro c
  let certain : Prop := config.maxWeight.toNat < Word.topBit ∨ ∀ key, .invalidate key ∉ past
  obtain ⟨config_eq, h⟩ : c.config = config ∧ c.WithinCeiling certain := by
    refine (Cache.kept_withinCeiling .inl).run ?_ ⟨rfl, Cache.withinCeiling_empty _ _⟩
    rintro d key member ⟨config_eq, h⟩
    refine ⟨(d.config_invalidate key).trans config_eq, h.invalidate ?_ key⟩
    -- In a history that invalidates a value only a low ceiling makes certain.
    intro sure
    rw [config_eq]
    exact sure.resolve_right fun never => never key member
  have below : certain → c.weight ≤ config.maxWeight := fun sure => config_eq ▸ h.below sure
  refine ⟨?_, ?_, ?_, below, ?_⟩
  · rw [h.weight_eq, UInt64.toNat_ofNat']
  · exact ⟨c.residents.map Resident.key, h.keyed, h.mem_keys_iff, (List.length_map _).symm⟩
  · exact config_eq ▸ h.light
  · intro small
    have sum_eq := h.toNat_weight (config_eq ▸ small)
    exact ⟨sum_eq.symm, sum_eq ▸ UInt64.le_iff_toNat_le.mp (below (.inl small))⟩

/-- A cache that drops a value, has one replaced and takes one out. -/
theorem weight_accounted_evicting :
    let config : CacheConfig := ⟨100, 90⟩
    let past : List (Event Nat UInt64 Unit) :=
      [.insert 0 60, .insert 1 30, .insert 2 40, .insert 1 20, .load 3 (.ok 5), .invalidate 2]
    config.maxWeight.toNat < Word.topBit ∧
    let c := (Session.after config (fun _ weight => weight) past).cache
    totalWeight c.residents = c.weight.toNat ∧
      totalWeight c.residents ≤ config.maxWeight.toNat :=
  ⟨by decide, (weight_accounted ⟨100, 90⟩ _ _).2.2.2.2 (by decide)⟩

/-- The weights of two values wrap to nothing, so that nothing is dropped for a third.
Without the first of them the total is above the ceiling. -/
theorem weight_above_ceiling :
    let config : CacheConfig := ⟨9223372036854775808, 100⟩
    let past : List (Event Nat UInt64 Unit) :=
      [.insert 1 9223372036854775808, .insert 2 9223372036854775808, .insert 3 1, .invalidate 1]
    config.validate = .ok () ∧
    ¬(Session.after config (fun _ weight => weight) past).cache.weight ≤ config.maxWeight := by
  refine ⟨rfl, ?_⟩
  decide +kernel

end TileArchive
