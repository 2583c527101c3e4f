import TileArchive.Proofs.Cache.Recency

/-!
# `TileArchive.Proofs.Cache.Retention`: whether a value that is put in stays

A value heavier than the ceiling is refused. A lighter one is put in, but it is among the values
that are dropped when the weight is above the ceiling then. It has the newest stamp, so it is the
last to go (`Stamped.byLastUse_put`), and it goes only if it is heavier than the eviction target
by itself. Nothing is left in the cache in this case. `fitting_value_kept` has the three cases.

The eviction target is below the ceiling as a rule. A value between the two is kept or lost with
what else is held when it is put in: `fitting_value_lost`.

## Why a fitting value may be lost

This is how dropping is meant to work. Values go from the oldest on until the weight is at or
below the target, and no value is exempt, the newest included. A value heavier than the target
cannot be left in a cache whose weight is to be brought down to the target. As long as everything
fits below the ceiling nothing is dropped, and then such a value stays.

So that a value is no heavier than the ceiling does not by itself mean that it is held
afterwards. It is held if it is no heavier than the target, or if everything fits. In the
remaining case it is not, and `Retention.lost` says that the cache is empty then.
-/

set_option autoImplicit false

namespace TileArchive

variable {K V E : Type}

/-- What becomes of a value that is put in. The cache is given before, with the value and
nothing dropped, and as it is left. The three cases leave out only one thing, which is a sum
of weights that no word can tell. -/
structure Retention (config : CacheConfig) (before full left : Cache K V) (key : K) (value : V)
    (weight : UInt64) : Prop where
  /-- A value that is heavier than the ceiling is refused. -/
  refused : config.maxWeight < weight → left.residents = before.residents
  /-- A value stays if everything fits, or if it is no heavier than the target. -/
  kept : weight ≤ config.maxWeight →
    full.weight ≤ config.maxWeight ∨ weight ≤ config.evictionTarget → left.Holds key value
  /-- Otherwise all values are dropped. This asks that the sum of the weights is a word. -/
  lost : weight ≤ config.maxWeight → config.maxWeight < full.weight →
    config.evictionTarget < weight → totalWeight full.residents < UInt64.size →
    left.residents = []

/-- It is only the values that are left that matter. -/
theorem Retention.of_residents_eq {config : CacheConfig} {before full left left' : Cache K V}
    {key : K} {value : V} {weight : UInt64}
    (h : Retention config before full left key value weight)
    (same : left'.residents = left.residents) :
    Retention config before full left' key value weight where
  refused heavy := same.trans (h.refused heavy)
  kept light small := by
    obtain ⟨r, mem, held⟩ := h.kept light small
    exact ⟨r, same ▸ mem, held⟩
  lost light above large whole := same.trans (h.lost light above large whole)

/-- A value weighs no more than all values together. -/
theorem weight_le_totalWeight {r : Resident K V} {rs : List (Resident K V)} (mem : r ∈ rs) :
    r.weight.toNat ≤ totalWeight rs := by
  obtain ⟨before, behind, rfl⟩ := List.append_of_mem mem
  rw [totalWeight_append, totalWeight]
  omega

namespace Cache

variable {c c' : Cache K V} {removed kept : List (Resident K V)}

/-- If some value stays, the one that was put in does. -/
theorem mem_kept_of_ne_nil {newest : Resident K V} {older : List (Resident K V)}
    (order : older ++ [newest] = removed ++ kept) (some_kept : kept ≠ []) : newest ∈ kept := by
  obtain ⟨kept', last, rfl⟩ := (List.eq_nil_or_concat kept).resolve_left some_kept
  rw [List.concat_eq_append, ← List.append_assoc] at order
  obtain ⟨-, same⟩ := List.append_inj' order rfl
  cases same
  rw [List.concat_eq_append]
  exact List.mem_concat_self

/-- A value stays through dropping if it is no heavier than the target. -/
theorem Drops.kept_ne_nil {newest : Resident K V} {older : List (Resident K V)}
    (h : c.Drops c' removed kept) (order : older ++ [newest] = removed ++ kept)
    (small : newest.weight ≤ c.config.evictionTarget) : kept ≠ [] := by
  rintro rfl
  rw [List.append_nil] at order
  have above := h.needed older [newest] order.symm (List.cons_ne_nil _ _)
  rw [List.append_nil, totalWeight, totalWeight, Nat.add_zero, UInt64.ofNat_toNat] at above
  exact absurd small (UInt64.not_le.mpr above)

variable [DecidableEq K]

/-- A value that was put in is the last in the order of last use, since its stamp is the
present tick and all other stamps are earlier. -/
theorem Stamped.byLastUse_put {used : List K} (h : c.Stamped used) (key : K) (value : V)
    (weight : UInt64) :
    ∃ older, (c.put key value weight).byLastUse = older ++ [⟨key, value, weight, c.clock⟩] := by
  let newest : Resident K V := ⟨key, value, weight, c.clock⟩
  -- The order has a last value. It is not older than the new one, and all others are.
  have member : newest ∈ (c.put key value weight).byLastUse :=
    List.mem_mergeSort.mpr List.mem_cons_self
  obtain ⟨older, last, order⟩ :=
    (List.eq_nil_or_concat _).resolve_left (List.ne_nil_of_mem member)
  rw [List.concat_eq_append] at order
  have sorted := pairwise_mergeSort_lastUse (c.put key value weight).residents
  change (c.put key value weight).byLastUse.Pairwise _ at sorted
  have last_mem : last ∈ (c.put key value weight).residents :=
    List.mem_mergeSort.mp (order ▸ List.mem_concat_self)
  rw [order] at member sorted
  refine ⟨older, ?_⟩
  rcases List.mem_cons.mp last_mem with rfl | other
  · exact order
  · have earlier := (h.last last (List.mem_filter.mp other).1).lt_length
    rw [← h.clock_eq] at earlier
    rcases List.mem_append.mp member with before | here
    · have later := (List.pairwise_append.mp sorted).2.2 newest before last List.mem_cons_self
      exact absurd later (Nat.not_le.mpr earlier)
    · exact order.trans (congrArg (older ++ [·]) (List.mem_singleton.mp here).symm)

/-- What becomes of a value that is put in by an insertion. The new value has the newest
stamp, so it is dropped only after all others, and then only if it is heavier than the
target by itself. -/
theorem WithinCeiling.retention_insert {certain : Prop} (h : c.WithinCeiling certain)
    (room : c.config.maxWeight.toNat < Word.topBit → certain) {used : List K}
    (stamped : c.Stamped used) (key : K) (value : V) :
    Retention c.config c (c.put key value (c.weigh key value)) (c.insert key value) key value
      (c.weigh key value) := by
  obtain ⟨older, newest_last⟩ := stamped.byLastUse_put key value (c.weigh key value)
  rcases h.insert_cases room key value with ⟨heavy, same⟩ | ⟨light, -, ⟨fits, same⟩
    | ⟨above, removed, kept, order, drops⟩⟩
  · have refused := UInt64.not_le.mpr heavy
    exact ⟨fun _ => congrArg residents same, fun light => absurd light refused,
      fun light => absurd light refused⟩
  · refine ⟨fun heavy => absurd light (UInt64.not_le.mpr heavy), fun _ _ => ?_,
      fun _ above => absurd fits (UInt64.not_le.mpr above)⟩
    rw [same]
    exact ⟨_, List.mem_cons_self, rfl, rfl⟩
  · rw [newest_last] at order
    refine ⟨fun heavy => absurd light (UInt64.not_le.mpr heavy), fun _ small => ?_,
      fun _ _ large whole => ?_⟩
    · have small := small.resolve_left (UInt64.not_le.mpr above)
      have member := mem_kept_of_ne_nil order (drops.kept_ne_nil order small)
      exact ⟨_, drops.held.mem_iff.mpr member, rfl, rfl⟩
    · -- A value that stays weighs no more than all that stays.
      have nothing : kept = [] := by
        by_contra some_kept
        have member := mem_kept_of_ne_nil order some_kept
        have within := Nat.le_trans (weight_le_totalWeight member) (drops.sums whole).1
        exact absurd (UInt64.le_iff_toNat_le.mpr within) (UInt64.not_le.mpr large)
      exact (nothing ▸ drops.held).eq_nil

end Cache

open Session

/-- A value that is written by any event is refused, or stays, or is lost with all others.
It is lost only where it is heavier than the target, for then dropping goes on until it has
gone as well. -/
theorem fitting_value_kept [DecidableEq K] (config : CacheConfig) (weigh : K → V → UInt64)
    (past : List (Event K V E)) {e : Event K V E} {key : K} {value : V}
    (writes : (after config weigh past).Writes e key value) :
    let s := after config weigh past
    Retention config s.cache (s.cache.put key value (weigh key value)) (s.step e).cache key value
      (weigh key value) := by
  intro s
  obtain ⟨config_eq, weigh_eq⟩ : s.cache.config = config ∧ s.cache.weigh = weigh :=
    bounds_after config weigh past
  -- Any write is an insertion into the cache as it was, as far as values go.
  have inserted := (ceiling_after config weigh past).retention_insert id
    (stamped_after config weigh past) key value
  rw [weigh_eq, config_eq] at inserted
  have same := (sound_after config weigh past).sameValues_of_writes writes
  exact inserted.of_residents_eq same.residents_eq

/-- A value settles that fits and is no heavier than the target. It stays, and the older value is
dropped. -/
theorem fitting_value_kept_settled :
    let past : List (Event Nat UInt64 Unit) :=
      [.insert 1 60, .start "a" 2, .resolve "a" (.ok 50)]
    let s := after ⟨100, 90⟩ (fun _ weight => weight) past
    s.Writes (.poll "a") 2 50 ∧ (s.step (.poll "a")).cache.Holds 2 50 := by
  intro past
  have writes : (after ⟨100, 90⟩ (fun _ weight => weight) past).Writes (.poll "a") 2 50 :=
    .inr ⟨_, _, rfl, rfl, rfl, rfl⟩
  have retention := fitting_value_kept ⟨100, 90⟩ (fun _ weight => weight) past writes
  exact ⟨writes, retention.kept (by decide) (.inr (by decide))⟩

/-- A value that is no heavier than the ceiling is put in beside a light one. Both are
dropped: dropping goes on until the total is at the target, and the new value alone is above
it. -/
theorem fitting_value_lost :
    let config : CacheConfig := ⟨100, 90⟩
    let weigh : Nat → UInt64 → UInt64 := fun _ weight => weight
    let past : List (Event Nat UInt64 Unit) := [.insert 1 10, .insert 2 95]
    let c := (after config weigh past).cache
    config.validate = .ok () ∧ weigh 2 95 ≤ config.maxWeight ∧ ¬c.Holds 2 95 ∧ c.size = 0 := by
  intro config weigh past c
  have put_in := (ceiling_after config weigh [(.insert 1 10 : Event Nat UInt64 Unit)])
    |>.retention_insert id (stamped_after config weigh _) 2 95
  -- The value of weight 95 is above the target of 90, and 105 is above the ceiling.
  have nothing : c.residents = [] :=
    put_in.lost (by decide) (by decide +kernel) (by decide) (by decide +kernel)
  refine ⟨rfl, by decide, ?_, congrArg List.length nothing⟩
  rintro ⟨r, mem, -⟩
  rw [nothing] at mem
  cases mem

end TileArchive
