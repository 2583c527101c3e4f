import Mathlib.Data.List.Sort
import TileArchive.Proofs.Cache.Dropping

/-!
# `TileArchive.Proofs.Cache.Recency`: the least recently used values are dropped

A key is used when it is given a value that is not refused, or when it is looked up and there
(`Session.accessed?`). The keys that a history has used make a log, and the stamp of a value is
the position of the last use of its key in this log (`stamped_after`). So no two values have the
same stamp, and the order of stamps is the order of last use, however the values are listed.

`least_recently_used_dropped` is what follows for dropping. When the weight is above the ceiling
after a value was put in, the values that go are the shortest beginning of this order whose loss
brings the weight down to the target. The new value is the last in the order, and it goes too if
everything has to.

## From stamps to uses

The cache compares stamps. The statement is about uses, and about nothing that the cache keeps:
`accesses` is read off the history. `Stamped` is the bridge. It says that the clock is the length
of the log and that every stamp is the last position of its key, and it is kept by every event,
because an event that uses a key appends the key to the log and the present tick to the value
(`Sound.stamped_step`).

## The order does not depend on the listing

A cache lists its values in no particular order, and a sort by stamps could depend on that order
where stamps are equal. They are not: two values with one stamp would have the same key
(`LastAt.key_eq`). So sorting gives one and the same list for every listing
(`mergeSort_lastUse_eq`), and `DropsOldest.drops` is stated for every listing.

## Weights as numbers

The cache adds weights as words. `DropsOldest` speaks of natural numbers and therefore asks that
the sum of the weights, with the new value and before anything is dropped, fits a word. Without
that the total that the cache compares may be small although the sum is large, which is the
matter of `Proofs/Cache/Weight.lean`.
-/

set_option autoImplicit false

namespace TileArchive

variable {K V E : Type}

/-- The last use of a key in a log is at the given position. A key that was never used is at
none. -/
def LastAt (log : List K) (key : K) (i : Nat) : Prop :=
  log[i]? = some key ∧ ∀ j, i < j → log[j]? ≠ some key

namespace LastAt

variable {log : List K} {key key' : K} {i : Nat}

/-- The last use of a key is in the log. -/
theorem lt_length (h : LastAt log key i) : i < log.length :=
  (List.getElem?_eq_some_iff.mp h.1).1

/-- A key that is used now was last used now. -/
theorem concat_self (log : List K) (key : K) : LastAt (log ++ [key]) key log.length := by
  refine ⟨List.getElem?_concat_length, fun j behind => ?_⟩
  rw [List.getElem?_eq_none (List.length_append ▸ behind)]
  exact nofun

/-- When another key is used the last use of a key stays where it was. -/
theorem concat_of_ne (h : LastAt log key i) (other : key ≠ key') :
    LastAt (log ++ [key']) key i := by
  refine ⟨List.getElem?_append_left h.lt_length ▸ h.1, fun j behind => ?_⟩
  rcases Nat.lt_trichotomy j log.length with before | rfl | outside
  · rw [List.getElem?_append_left before]
    exact h.2 j behind
  · rw [List.getElem?_concat_length]
    exact fun same => other (Option.some.inj same).symm
  · rw [List.getElem?_eq_none (List.length_append ▸ outside)]
    exact nofun

/-- Keys that were last used at the same position are the same. -/
theorem key_eq (h : LastAt log key i) (h' : LastAt log key' i) : key = key' :=
  Option.some.inj (h.1.symm.trans h'.1)

end LastAt

namespace Cache

/-- The clock of a cache counts the uses of a log, and the stamps of its values are the
positions at which their keys were last used. The log is that of all uses since the cache
was made, also those of keys that are no longer held. -/
structure Stamped (c : Cache K V) (log : List K) : Prop where
  clock_eq : c.clock = log.length
  last : ∀ r ∈ c.residents, LastAt log r.key r.lastUse

namespace Stamped

variable {c c' : Cache K V} {log : List K}

/-- Dropping values, or taking them out, stamps nothing. -/
theorem of_subset (h : c.Stamped log) (clock_eq : c'.clock = c.clock)
    (subset : ∀ r ∈ c'.residents, r ∈ c.residents) : c'.Stamped log :=
  ⟨clock_eq.trans h.clock_eq, fun r mem => h.last r (subset r mem)⟩

/-- The same values have the same stamps. -/
theorem of_sameValues (h : c.Stamped log) (same : c.SameValues c') : c'.Stamped log :=
  h.of_subset same.clock_eq fun _ mem => same.residents_eq ▸ mem

/-- Different values have different stamps. -/
theorem keyed_lastUse (h : c.Stamped log) (keyed : Keyed Resident.key c.residents) :
    Keyed Resident.lastUse c.residents := by
  refine (List.nodup_map_iff_inj_on (List.Nodup.of_map _ keyed)).mpr ?_
  -- The log has one key at each position, and the cache one value for each key.
  intro r mem r' mem' same
  have last' := h.last r' mem'
  rw [← same] at last'
  exact keyed.eq_of_key_eq mem mem' ((h.last r mem).key_eq last')

variable [DecidableEq K]

/-- A value that is used gets the newest stamp. The log has its key at the end, and the
positions of all other keys in the log are as before. -/
theorem touch (h : c.Stamped log) {key : K} {r : Resident K V}
    (held : c.resident? key = some r) : (c.touch key).1.Stamped (log ++ [key]) := by
  unfold Cache.touch
  rw [held]
  refine ⟨?_, ?_⟩
  · rw [List.length_append]
    exact congrArg (· + 1) h.clock_eq
  · -- The value that is used is stamped with the clock, which is the number of accesses
    -- so far; the accesses to the others lie where they did.
    rintro _ mem
    obtain ⟨r', mem', rfl⟩ := List.mem_map.mp mem
    split
    · next same =>
      show LastAt (log ++ [key]) r'.key c.clock
      rw [same, h.clock_eq]
      exact .concat_self log key
    · next other => exact (h.last r' mem').concat_of_ne other

/-- A value that is put in gets the newest stamp. -/
theorem put (h : c.Stamped log) (key : K) (value : V) (weight : UInt64) :
    (c.put key value weight).Stamped (log ++ [key]) := by
  refine ⟨?_, ?_⟩
  · rw [List.length_append]
    exact congrArg (· + 1) h.clock_eq
  · intro r mem
    rcases List.mem_cons.mp mem with rfl | mem
    · show LastAt (log ++ [key]) key c.clock
      rw [h.clock_eq]
      exact .concat_self log key
    · obtain ⟨mem, other⟩ := List.mem_filter.mp mem
      exact (h.last r mem).concat_of_ne (by simpa using other)

/-- Dropping values stamps nothing, in whatever order they go. -/
theorem evictInOrder {rs : List (Resident K V)} (h : c.Stamped log) :
    (c.evictInOrder rs).Stamped log := by
  induction rs generalizing c with
  | nil => exact h
  | cons r rs ih =>
      rw [Cache.evictInOrder]
      split
      · exact h
      · exact ih (h.of_subset rfl fun _ mem => (List.mem_filter.mp mem).1)

/-- An insertion uses its key, unless the value is refused; then the log stays as it is. -/
theorem insert (h : c.Stamped log) (key : K) (value : V) :
    (c.insert key value).Stamped
      (log ++ if c.config.maxWeight < c.weigh key value then [] else [key]) := by
  unfold Cache.insert Cache.shrink
  simp only
  split
  · rwa [List.append_nil]
  · have put := h.put key value (c.weigh key value)
    split
    · exact put
    · exact put.evictInOrder

/-- Invalidating a key does not use it. -/
theorem invalidate (h : c.Stamped log) (key : K) : (c.invalidate key).1.Stamped log := by
  unfold Cache.invalidate
  split
  · exact h
  · exact h.of_subset rfl fun _ mem => (List.mem_filter.mp mem).1

end Stamped

end Cache

namespace Session

variable [DecidableEq K] {s : Session K V E} {e : Event K V E}

/-- The key that is used in an event. It is given a value that is not refused, or it is looked up
and there. -/
def accessed? (s : Session K V E) (e : Event K V E) : Option K :=
  match s.written? e with
  | some (key, value) =>
    if s.cache.config.maxWeight < s.cache.weigh key value then none else some key
  | none => e.sought?.filter s.cache.contains

/-- The keys that a history has used, in the order of their uses. A key occurs as often as
it was used, and its last occurrence tells how old it is. -/
def accesses (config : CacheConfig) (weigh : K → V → UInt64) (past : List (Event K V E)) :
    List K :=
  (history config weigh past).filterMap fun d => d.1.accessed? d.2

/-- A value that is written and not refused uses its key, whatever else the event looks up. -/
theorem accessed?_of_written {key : K} {value : V} (written : s.written? e = some (key, value))
    (light : s.cache.weigh key value ≤ s.cache.config.maxWeight) : s.accessed? e = some key := by
  rw [accessed?, written]
  exact if_neg (UInt64.not_lt.mpr light)

/-- Every event stamps the value that it uses, and no other. By cases on what the event does
to the values: it writes one, uses one, or stamps none. -/
theorem Sound.stamped_step (h : s.Sound) {log : List K} (stamped : s.cache.Stamped log)
    (e : Event K V E) : (s.step e).cache.Stamped (log ++ (s.accessed? e).toList) := by
  -- Only the first two cases use a key. In the others the log stays.
  cases h.handles e with
  | @writes key value _ written _ same =>
      refine Cache.Stamped.of_sameValues ?_ same
      have inserted := stamped.insert key value
      rw [accessed?, written]
      simp only
      split <;> next heavy => simpa [heavy] using inserted
  | uses unwritten sought held same =>
      rw [accessed?, unwritten, sought]
      simp only [Option.filter, Cache.contains_of_some held]
      exact (stamped.touch held).of_sameValues same
  | leaves unwritten missed same =>
      have unused : s.accessed? e = none := by
        rw [accessed?, unwritten]
        simp only [Option.filter_eq_none_iff]
        intro key sought
        simp [Cache.contains_of_none (missed key sought)]
      rw [unused, Option.toList_none, List.append_nil]
      exact stamped.of_sameValues same
  | invalidates event_eq cache_eq =>
      subst event_eq
      rw [cache_eq]
      exact (List.append_nil log).symm ▸ stamped.invalidate _
  | clears event_eq cache_eq =>
      subst event_eq
      rw [cache_eq]
      exact (List.append_nil log).symm ▸ stamped.of_subset rfl (by rintro _ ⟨⟩)
  | resets event_eq cache_eq =>
      subst event_eq
      rw [cache_eq]
      exact (List.append_nil log).symm ▸ stamped.of_subset rfl fun _ mem => mem

/-- The stamps are the positions of the last uses, after every history. -/
theorem stamped_after (config : CacheConfig) (weigh : K → V → UInt64)
    (past : List (Event K V E)) :
    (after config weigh past).cache.Stamped (accesses config weigh past) := by
  induction past using List.reverseRecOn with
  | nil => exact ⟨rfl, nofun⟩
  | append_singleton past e ih =>
      rw [after_concat, accesses, filterMap_history_concat]
      exact (sound_after config weigh past).stamped_step ih e

end Session

/-! ### Dropping by last use -/

/-- Sorting by stamps gives a list in which stamps do not fall. -/
theorem pairwise_mergeSort_lastUse (rs : List (Resident K V)) :
    (rs.mergeSort fun a b => a.lastUse ≤ b.lastUse).Pairwise fun a b => a.lastUse ≤ b.lastUse := by
  have sorted := @List.pairwise_mergeSort _ (fun a b : Resident K V => a.lastUse ≤ b.lastUse)
    (fun _ _ _ => by simpa using Nat.le_trans) (fun a b => by simpa using Nat.le_total _ _) rs
  simpa using sorted

/-- Where all stamps are different there is one order of last use, however the values are
listed. -/
theorem mergeSort_lastUse_eq {rs listing : List (Resident K V)}
    (distinct : Keyed Resident.lastUse rs) (same : listing.Perm rs) :
    (listing.mergeSort fun a b => a.lastUse ≤ b.lastUse)
      = rs.mergeSort fun a b => a.lastUse ≤ b.lastUse := by
  have sorting (rs : List (Resident K V)) :
      (rs.mergeSort fun a b => a.lastUse ≤ b.lastUse).Perm rs := List.mergeSort_perm rs _
  have perm := ((sorting listing).trans same).trans (sorting rs).symm
  refine perm.eq_of_pairwise ?_ (pairwise_mergeSort_lastUse listing)
    (pairwise_mergeSort_lastUse rs)
  intro a b mem mem' le ge
  refine distinct.eq_of_key_eq ?_ (List.mem_mergeSort.mp mem') (Nat.le_antisymm le ge)
  exact same.mem_iff.mp (List.mem_mergeSort.mp mem)

/-- The values that are held are in the one order of their stamps. -/
theorem Cache.pairwise_byLastUse {c : Cache K V}
    (distinct : Keyed Resident.lastUse c.residents) :
    c.byLastUse.Pairwise fun a b => a.lastUse < b.lastUse := by
  have apart : c.byLastUse.Pairwise fun a b => a.lastUse ≠ b.lastUse :=
    List.pairwise_map.mp (distinct.perm (List.mergeSort_perm _ _).symm)
  exact ((pairwise_mergeSort_lastUse c.residents).and apart).imp
    fun ⟨le, ne⟩ => Nat.lt_of_le_of_ne le ne

/-- Where the sum of all weights is a word, dropping is a matter of sums: no partial sum
wraps either, so the words that the cache compares are the sums themselves. -/
theorem Cache.Drops.sums {c c' : Cache K V} {removed kept : List (Resident K V)}
    (h : c.Drops c' removed kept) (whole : totalWeight c.residents < UInt64.size) :
    totalWeight kept ≤ c.config.evictionTarget.toNat ∧
      ∀ fewer more, removed = fewer ++ more → more ≠ [] →
        c.config.evictionTarget.toNat < totalWeight (more ++ kept) := by
  rw [totalWeight_perm h.order] at whole
  constructor
  · have low := UInt64.le_iff_toNat_le.mp h.low
    rw [totalWeight_append] at whole
    rwa [UInt64.toNat_ofNat_of_lt' (by omega)] at low
  · intro fewer more split some_left
    have above := UInt64.lt_iff_toNat_lt.mp (h.needed fewer more split some_left)
    rw [split, List.append_assoc, totalWeight_append] at whole
    rwa [UInt64.toNat_ofNat_of_lt' (by omega)] at above

/-- What is left of the values that were there when one was put in. If their weight is above the
limit, the least recently used are dropped, as few as bring it down to the target. -/
structure DropsOldest (full left : List (Resident K V)) (limit target : Nat) (used : List K) :
    Prop where
  /-- The stamp of a value is the position of the last use of its key. -/
  last : ∀ r ∈ full, LastAt used r.key r.lastUse
  distinct : Keyed Resident.lastUse full
  fits : totalWeight full ≤ limit → left = full
  /-- The order of last use is the same for every listing of the values. It is cut in two, and no
  shorter first part would bring the weight down. -/
  drops : limit < totalWeight full → ∃ removed kept,
    (∀ listing : List (Resident K V), listing.Perm full →
      (listing.mergeSort fun a b => a.lastUse ≤ b.lastUse) = removed ++ kept) ∧
    (removed ++ kept).Pairwise (fun a b => a.lastUse < b.lastUse) ∧
    left.Perm kept ∧ totalWeight kept ≤ target ∧
    ∀ fewer more, removed = fewer ++ more → more ≠ [] → target < totalWeight (more ++ kept)

/-- An insertion that is not refused drops by last use. The sum of the weights has to be a
word, because the cache itself only knows what is left of it when it wraps. -/
theorem Cache.WithinCeiling.dropsOldest_insert [DecidableEq K] {c : Cache K V} {certain : Prop}
    (h : c.WithinCeiling certain) (room : c.config.maxWeight.toNat < Word.topBit → certain)
    {key : K} {value : V} {used : List K} (light : c.weigh key value ≤ c.config.maxWeight)
    (stamped : (c.put key value (c.weigh key value)).Stamped used)
    (whole : totalWeight (c.put key value (c.weigh key value)).residents < UInt64.size) :
    DropsOldest (c.put key value (c.weigh key value)).residents (c.insert key value).residents
      c.config.maxWeight.toNat c.config.evictionTarget.toNat used := by
  obtain ⟨heavy, -⟩ | ⟨-, balanced, ending⟩ := h.insert_cases room key value
  · exact absurd light (UInt64.not_le.mpr heavy)
  have distinct := stamped.keyed_lastUse balanced.keyed
  -- The sum is a word, so it is what the cache compares with its bounds.
  have weight_eq := congrArg UInt64.toNat balanced.weight_eq
  rw [UInt64.toNat_ofNat_of_lt' whole] at weight_eq
  refine ⟨stamped.last, distinct, fun fits => ?_, fun above => ?_⟩
  · rcases ending with ⟨-, same⟩ | ⟨above, -⟩
    · rw [same]
    · have above := UInt64.lt_iff_toNat_lt.mp above
      rw [weight_eq] at above
      exact absurd fits (Nat.not_le.mpr above)
  · rcases ending with ⟨fits, -⟩ | ⟨-, removed, kept, order, drops⟩
    · have fits := UInt64.le_iff_toNat_le.mp fits
      rw [weight_eq] at fits
      exact absurd above (Nat.not_lt.mpr fits)
    · refine ⟨removed, kept, fun listing same => ?_, ?_, drops.held, drops.sums whole⟩
      · rw [mergeSort_lastUse_eq distinct same]
        exact order
      · exact order ▸ Cache.pairwise_byLastUse distinct

namespace Session

variable [DecidableEq K] {config : CacheConfig} {weigh : K → V → UInt64}
  {past : List (Event K V E)} {e : Event K V E} {key : K} {value : V}

/-- A value that is written and not refused is a use of its key. -/
theorem accesses_concat_of_writes (writes : (after config weigh past).Writes e key value)
    (light : weigh key value ≤ config.maxWeight) :
    accesses config weigh (past ++ [e]) = accesses config weigh past ++ [key] := by
  have accessed : (after config weigh past).accessed? e = some key := by
    obtain ⟨config_eq, weigh_eq⟩ := bounds_after config weigh past
    refine accessed?_of_written (written?_eq_some_iff.mpr writes) ?_
    rw [config_eq, weigh_eq]
    exact light
  rw [accesses, filterMap_history_concat]
  simp only [accessed, Option.toList_some, accesses]

end Session

open Session in
/-- Dropping is by last use, whenever a value is written that is not refused. This asks that
the sum of the weights is a word. The order is told by the history of accesses and not by
the stamps of the cache, so the statement does not depend on how the cache keeps its order. -/
theorem least_recently_used_dropped [DecidableEq K] (config : CacheConfig)
    (weigh : K → V → UInt64) (past : List (Event K V E)) {e : Event K V E} {key : K} {value : V}
    (writes : (after config weigh past).Writes e key value)
    (light : weigh key value ≤ config.maxWeight)
    (whole : totalWeight
      ((after config weigh past).cache.put key value (weigh key value)).residents < UInt64.size) :
    let s := after config weigh past
    DropsOldest (s.cache.put key value (weigh key value)).residents (s.step e).cache.residents
      config.maxWeight.toNat config.evictionTarget.toNat (accesses config weigh (past ++ [e])) := by
  intro s
  obtain ⟨config_eq, weigh_eq⟩ : s.cache.config = config ∧ s.cache.weigh = weigh :=
    bounds_after config weigh past
  -- The write is the last access, so the history with it is what the stamps tell after it.
  have stamped := (stamped_after config weigh past).put key value (weigh key value)
  rw [← accesses_concat_of_writes writes light] at stamped
  have dropped := @Cache.WithinCeiling.dropsOldest_insert _ _ _ s.cache _
    (ceiling_after config weigh past) id key value (accesses config weigh (past ++ [e]))
  rw [weigh_eq, config_eq] at dropped
  rw [((sound_after config weigh past).sameValues_of_writes writes).residents_eq]
  exact dropped light stamped whole

open Session in
/-- Five values fill a cache, and the oldest of them is looked up. A sixth value settles and lifts
the weight above the ceiling. The order in which values are dropped begins with the second. -/
theorem least_recently_used_dropped_refreshed :
    let past : List (Event Nat UInt64 Unit) :=
      [.insert 0 20, .insert 1 20, .insert 2 20, .insert 3 20, .insert 4 20, .get 0,
        .start "a" 5, .resolve "a" (.ok 20)]
    let s := after ⟨100, 90⟩ (fun _ weight => weight) past
    let full := (s.cache.put 5 20 20).residents
    s.Writes (.poll "a") 5 20 ∧ totalWeight full < UInt64.size ∧ 100 < totalWeight full ∧
      DropsOldest full (s.step (.poll "a")).cache.residents 100 90 [0, 1, 2, 3, 4, 0, 5] := by
  intro past s full
  have writes : s.Writes (.poll "a") 5 20 := .inr ⟨_, _, rfl, rfl, rfl, rfl⟩
  have whole : totalWeight full < UInt64.size := by decide +kernel
  have used : accesses ⟨100, 90⟩ (fun _ weight => weight) (past ++ [.poll "a"])
      = [0, 1, 2, 3, 4, 0, 5] := by decide +kernel
  refine ⟨writes, whole, by decide +kernel, ?_⟩
  rw [← used]
  exact least_recently_used_dropped ⟨100, 90⟩ (fun _ weight => weight) past writes (by decide) whole

end TileArchive
