import Mathlib.Algebra.GroupWithZero.Nat
import Mathlib.Algebra.Order.BigOperators.Group.Finset
import TileArchive.Proofs.Cache.Weight

/-!
# `TileArchive.Proofs.Cache.Room`: a cache in which everything has room

Where all values that are ever put in weigh no more than the ceiling together, nothing has to be
dropped. `Cache.Roomy` is the invariant: what a cache holds is among some values that have room
together, and nothing was dropped so far.

* `Roomy.insert`: one more of these values is put in, and what was held under other keys stays.
* `Roomy.request` and `Roomy.processed`: the same for the operations on loads.

This is what the reader of an archive relies on for its cache of directories. The directories of
an archive are a fixed set of values. If the cache has room for all of them, each is fetched once
and found from then on (`Proofs/Reader/Remembered.lean`). The set is a parameter here (`all`), so
the module knows nothing of archives.

The set is a `Finset` of keys with values, and room is a bound on the sum over it. A key may occur
with several values; then the bound counts all of them although only one is held at a time, which
makes it stronger than needed and never too weak. Since the weights are summed as natural numbers,
a set with room never wraps, and neither does what is held (`totalWeight_le_room`).
-/

set_option autoImplicit false

namespace TileArchive.Cache

variable {K V E : Type} {all : Finset (K × V)} {c c' : Cache K V}

/-- What a cache holds is among some values that have room together, and nothing was
dropped. The values may be any finite set, and the cache need not hold all of them, so the
property holds from an empty cache on. -/
structure Roomy (all : Finset (K × V)) (c : Cache K V) : Prop extends c.Balanced where
  weighed : ∀ r ∈ c.residents, r.weight = c.weigh r.key r.value
  among : ∀ r ∈ c.residents, (r.key, r.value) ∈ all
  room : ∑ p ∈ all, (c.weigh p.1 p.2).toNat ≤ c.config.maxWeight.toNat
  none_dropped : c.counters.evictions = 0

/-- The sum of weights as a sum over a list, for which sums over finite sets are at hand. -/
theorem totalWeight_eq_sum (rs : List (Resident K V)) :
    totalWeight rs = (rs.map fun r => r.weight.toNat).sum := by
  induction rs with
  | nil => rfl
  | cons r rs ih => rw [totalWeight, ih, List.map_cons, List.sum_cons]

/-- The values that are held weigh no more than all that have room together. No key is held
twice, so each of the values with room is counted once at most. -/
theorem totalWeight_le_room {rs : List (Resident K V)} {weigh : K → V → UInt64}
    (keyed : Keyed Resident.key rs) (weighed : ∀ r ∈ rs, r.weight = weigh r.key r.value)
    (among : ∀ r ∈ rs, (r.key, r.value) ∈ all) :
    totalWeight rs ≤ ∑ p ∈ all, (weigh p.1 p.2).toNat := by
  classical
  let pair (r : Resident K V) : K × V := (r.key, r.value)
  -- No key is held twice, so no pair is.
  have nodup : (rs.map pair).Nodup := by
    have keys : ((rs.map pair).map Prod.fst).Nodup := by
      rw [List.map_map]
      exact keyed
    exact keys.of_map _
  have sum_eq : totalWeight rs = ∑ p ∈ (rs.map pair).toFinset, (weigh p.1 p.2).toNat := by
    rw [List.sum_toFinset _ nodup, List.map_map, totalWeight_eq_sum]
    refine congrArg List.sum (List.map_congr_left fun r member => ?_)
    rw [weighed r member]
    rfl
  rw [sum_eq]
  refine Finset.sum_le_sum_of_subset ?_
  intro p member
  obtain ⟨r, held, rfl⟩ := List.mem_map.mp (List.mem_toFinset.mp member)
  exact among r held

/-- A new cache holds none of the values that have room. -/
theorem roomy_empty {config : CacheConfig} {weigh : K → V → UInt64}
    (room : ∑ p ∈ all, (weigh p.1 p.2).toNat ≤ config.maxWeight.toNat) :
    (empty config weigh).Roomy all where
  toBalanced :=
    have within : (empty config weigh).WithinCeiling True := withinCeiling_empty config weigh
    within.toBalanced
  weighed := nofun
  among := nofun
  room := room
  none_dropped := rfl

/-- The total of a cache with room is below the ceiling. -/
theorem Roomy.withinCeiling (h : c.Roomy all) : c.WithinCeiling True where
  toBalanced := h.toBalanced
  below _ := by
    have total_le := Nat.le_trans (totalWeight_le_room h.keyed h.weighed h.among) h.room
    have fits := Nat.le_trans total_le (Word.toNat_le_largest _)
    rw [h.weight_eq, UInt64.le_iff_toNat_le, Word.toNat_ofNat fits]
    exact total_le

/-- Stamps, the register and counters other than that of dropped values are no part of it. -/
theorem Roomy.of_stamped (h : c.Roomy all) {stamp : Resident K V → Resident K V}
    (keeps : ∀ r, (stamp r).key = r.key ∧ (stamp r).value = r.value ∧ (stamp r).weight = r.weight)
    (residents_eq : c'.residents = c.residents.map stamp) (weight_eq : c'.weight = c.weight)
    (config_eq : c'.config = c.config) (weigh_eq : c'.weigh = c.weigh)
    (evictions_eq : c'.counters.evictions = c.counters.evictions) : c'.Roomy all where
  toBalanced := (h.withinCeiling.of_stamped (fun r => (keeps r).1) (fun r => (keeps r).2.2)
    residents_eq weight_eq config_eq).toBalanced
  weighed r member := by
    rw [residents_eq] at member
    obtain ⟨r, held, rfl⟩ := List.mem_map.mp member
    obtain ⟨key_eq, value_eq, stamped_eq⟩ := keeps r
    rw [key_eq, value_eq, stamped_eq, weigh_eq]
    exact h.weighed r held
  -- Each of the stamped values stands for one with the same key, value and weight.
  among r member := by
    rw [residents_eq] at member
    obtain ⟨r, held, rfl⟩ := List.mem_map.mp member
    obtain ⟨key_eq, value_eq, -⟩ := keeps r
    rw [key_eq, value_eq]
    exact h.among r held
  room := by
    rw [weigh_eq, config_eq]
    exact h.room
  none_dropped := evictions_eq.trans h.none_dropped

/-- Room is a matter of values, total, bounds and the count of what was dropped. -/
theorem Roomy.of_same (h : c.Roomy all) (residents_eq : c'.residents = c.residents)
    (weight_eq : c'.weight = c.weight) (config_eq : c'.config = c.config)
    (weigh_eq : c'.weigh = c.weigh) (evictions_eq : c'.counters.evictions = c.counters.evictions) :
    c'.Roomy all :=
  h.of_stamped (fun _ => ⟨rfl, rfl, rfl⟩) (residents_eq.trans (List.map_id _).symm) weight_eq
    config_eq weigh_eq evictions_eq

variable [DecidableEq K]

/-- A use drops nothing. -/
theorem Roomy.touch (h : c.Roomy all) (key : K) : (c.touch key).1.Roomy all := by
  unfold Cache.touch
  split
  · exact h
  · refine h.of_stamped ?_ rfl rfl rfl rfl rfl
    intro r
    split <;> exact ⟨rfl, rfl, rfl⟩

/-- A value that is held is found. -/
theorem resident?_of_holds (keyed : Keyed Resident.key c.residents) {key : K} {value : V}
    (held : c.Holds key value) : ∃ r, c.resident? key = some r ∧ r.value = value := by
  obtain ⟨r, member, key_eq, value_eq⟩ := held
  exact ⟨r, keyed.find?_eq_some_iff.mpr ⟨member, key_eq⟩, value_eq⟩

/-- One more of the values that have room is put in, and none has to go for it: the total
after the insertion is at most the sum of all values with room, which the ceiling allows. -/
theorem Roomy.insert (h : c.Roomy all) {key : K} {value : V} (member : (key, value) ∈ all) :
    (c.insert key value).Roomy all ∧ (c.insert key value).Holds key value ∧
      ∀ key' value', key' ≠ key → c.Holds key' value' →
        (c.insert key value).Holds key' value' := by
  have light : c.weigh key value ≤ c.config.maxWeight := by
    -- One value weighs no more than all.
    have part := Finset.single_le_sum (f := fun p => (c.weigh p.1 p.2).toNat)
      (fun _ _ => Nat.zero_le _) member
    exact UInt64.le_iff_toNat_le.mpr (Nat.le_trans part h.room)
  have put : (c.put key value (c.weigh key value)).Roomy all :=
    { toBalanced := h.withinCeiling.put (fun _ => trivial) key value light
      weighed := by
        intro r held
        rcases List.mem_cons.mp held with rfl | held
        · rfl
        · exact h.weighed r (List.mem_filter.mp held).1
      among := by
        intro r held
        rcases List.mem_cons.mp held with rfl | held
        · exact member
        · exact h.among r (List.mem_filter.mp held).1
      room := h.room
      none_dropped := h.none_dropped }
  have insert_eq : c.insert key value = c.put key value (c.weigh key value) := by
    rw [Cache.insert]
    simp only [if_neg (UInt64.not_lt.mpr light)]
    exact if_pos (put.withinCeiling.below trivial)
  rw [insert_eq]
  refine ⟨put, ⟨_, List.mem_cons_self, rfl, rfl⟩, ?_⟩
  rintro _ _ apart ⟨r, held, rfl, rfl⟩
  exact ⟨r, List.mem_cons_of_mem _ (List.mem_filter.mpr ⟨held, by simpa using apart⟩), rfl, rfl⟩

/-- A request drops nothing, and the same values are held after it. -/
theorem Roomy.request (h : c.Roomy all) (key : K) :
    (c.request key).1.Roomy all ∧
      ∀ key' value, (c.request key).1.Holds key' value ↔ c.Holds key' value := by
  rcases c.request_cases key with ⟨r, -, request_eq⟩ | ⟨-, f, -, request_eq⟩
    | ⟨-, -, request_eq⟩ <;> rw [request_eq]
  · exact ⟨(h.touch key).of_same rfl rfl rfl rfl rfl, c.holds_touch key⟩
  · exact ⟨h.of_same rfl rfl rfl rfl rfl, fun _ _ => Iff.rfl⟩
  · exact ⟨h.of_same rfl rfl rfl rfl rfl, fun _ _ => Iff.rfl⟩

/-- A load that succeeds with one of the values that have room puts it in, and one that fails
changes nothing that is held. -/
theorem Roomy.processed (h : c.Roomy all) {key : K} {outcome : Except E V}
    (known : ∀ value, outcome = .ok value → (key, value) ∈ all) :
    (c.processed key outcome).Roomy all ∧
      (∀ value, outcome = .ok value → (c.processed key outcome).Holds key value) ∧
      ∀ key' value, key' ≠ key → c.Holds key' value →
        (c.processed key outcome).Holds key' value := by
  cases outcome with
  | error e => exact ⟨h.of_same rfl rfl rfl rfl rfl, nofun, fun _ _ _ held => held⟩
  | ok value =>
      obtain ⟨roomy, held, others⟩ := h.insert (known value rfl)
      refine ⟨roomy.of_same rfl rfl rfl rfl rfl, ?_, others⟩
      rintro _ ⟨⟩
      exact held

end TileArchive.Cache
