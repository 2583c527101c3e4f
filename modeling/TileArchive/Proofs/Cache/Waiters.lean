import TileArchive.Proofs.Cache.Flights
import TileArchive.Proofs.Cache.Run
import TileArchive.Proofs.Keyed

/-!
# `TileArchive.Proofs.Cache.Waiters`: the register accounts for those who wait

A load that was started is *unseen* until a waiter has seen its outcome. The register of a
cache accounts for the waiters of unseen loads: it has one entry for each such load that
somebody waits for, under the key of those who wait, and the entry says how many they are.
`Accounted` states this of a cache, the loads that were started, and any list of waiters, so
that it can also be said in the middle of an event, when a task has asked for its key and has
not looked yet.

`Accounted.joined`, `startFlight`, `seen` and `withdrawn` say that each operation on loads
keeps the account while a waiter comes or goes.

A load that was seen leaves the register with its first waiter, and the waiters that are left
are not counted any more. The account therefore says nothing about seen loads, and none of
their waiters can touch the entry of a later load of the same key.

## How the account is kept

The operations change the register in three ways, and each has one lemma:

* `recounted`: the entry of one load gets a new count, because waiters of this load and of no
  other came or went. Joining a load and leaving one that others still wait for are of this
  kind.
* `dropped`: the entry of one load goes, because its outcome was seen or its last waiter left.
* `forgotten`: no entry changes, because the waiter who leaves belongs to a load that was seen.

The first two need that no load is registered under two keys (`eq_of_load_eq`). This is not a
field of `Accounted`, because it follows: an entry has a waiter, and a waiter wants one key.

Starting a load is treated by itself in `startFlight`. The number of the new load is the length
of the list of loads, which no waiter and no entry has named before.
-/

set_option autoImplicit false

namespace TileArchive

variable {K V E : Type}

/-- The outcome that a waiter has seen of a load. -/
def settled? (loads : List (SharedLoad V E)) (load : Nat) : Option (Except E V) :=
  loads[load]? >>= SharedLoad.settled

/-- A load that was started and whose outcome no waiter has seen. Whether an outcome was
decided does not matter: a load that nobody has looked at since is as unseen as one that is
still running. -/
def Unseen (loads : List (SharedLoad V E)) (load : Nat) : Prop :=
  load < loads.length ∧ settled? loads load = none

/-- How many wait for a load. The register has this number too, as long as the load is in
it. -/
def waitersOf (waiters : List (Task K)) (load : Nat) : Nat :=
  waiters.countP fun t => t.load = load

/-- The register of a cache accounts for the waiters of the loads that were started. The
list of waiters is a parameter, and its order does not matter (`Accounted.perm`). -/
structure Accounted (c : Cache K V) (loads : List (SharedLoad V E)) (waiters : List (Task K)) :
    Prop where
  numbered : c.nextLoad = loads.length
  keyed : Keyed Flight.key c.flights
  /-- An entry counts the waiters of an unseen load. -/
  counted : ∀ f ∈ c.flights,
    Unseen loads f.load ∧ 0 < f.waiters ∧ f.waiters = waitersOf waiters f.load
  /-- The waiters of a load that is registered want the key it is registered under. -/
  agree : ∀ f ∈ c.flights, ∀ t ∈ waiters, t.load = f.load → t.key = f.key
  started : ∀ t ∈ waiters, t.load < loads.length
  /-- The unseen load of a waiter is registered. -/
  registered : ∀ t ∈ waiters, Unseen loads t.load → ∃ f ∈ c.flights, f.key = t.key ∧ f.load = t.load

/-! ### Unseen loads -/

section

variable {loads : List (SharedLoad V E)} {load : Nat} {decided : Option (Except E V)}
  {outcome : Except E V}

/-- A load that was never started is not settled. -/
theorem settled?_of_length_le (le : loads.length ≤ load) : settled? loads load = none := by
  rw [settled?, List.getElem?_eq_none le]
  rfl

/-- A load that was just started is not settled, and no other load changes. -/
theorem settled?_concat (loads : List (SharedLoad V E)) (decided : Option (Except E V))
    (load : Nat) : settled? (loads ++ [⟨decided, none⟩]) load = settled? loads load := by
  rcases Nat.lt_trichotomy load loads.length with before | rfl | behind
  · rw [settled?, settled?, List.getElem?_append_left before]
  · simp [settled?]
  · rw [settled?_of_length_le (Nat.le_of_lt behind), settled?_of_length_le]
    rw [List.length_append]
    exact behind

/-- A look settles the load it finds finished. -/
theorem settled?_modify_settled_self (lt : load < loads.length) :
    settled? (loads.modify load fun l => { l with settled := some outcome }) load
      = some outcome := by
  simp [settled?, List.getElem?_eq_getElem lt]

/-- A look settles no other load. -/
theorem settled?_modify_settled_of_ne {other : Nat} (ne : other ≠ load) :
    settled? (loads.modify load fun l => { l with settled := some outcome }) other
      = settled? loads other := by
  simp [settled?, Ne.symm ne]

/-- A decision does not show until somebody looks. -/
theorem settled?_modify_decided {other : Nat} :
    settled? (loads.modify load fun l => { l with decided := some outcome }) other
      = settled? loads other := by
  rw [settled?, settled?, List.getElem?_modify]
  split <;> cases loads[other]? <;> rfl

/-- Starting a load adds this one load to those that are unseen. -/
theorem unseen_concat_iff :
    Unseen (loads ++ [⟨decided, none⟩]) load ↔ load = loads.length ∨ Unseen loads load := by
  rw [Unseen, Unseen, settled?_concat, List.length_append, List.length_singleton,
    Nat.lt_succ_iff_lt_or_eq]
  constructor
  · rintro ⟨before | here, unsettled⟩
    · exact .inr ⟨before, unsettled⟩
    · exact .inl here
  · rintro (rfl | ⟨before, unsettled⟩)
    · exact ⟨.inr rfl, settled?_of_length_le (Nat.le_refl _)⟩
    · exact ⟨.inl before, unsettled⟩

/-- A load that was seen is not unseen any more, and no other load changes. -/
theorem unseen_modify_settled_iff {seen : Nat} :
    Unseen (loads.modify seen fun l => { l with settled := some outcome }) load
      ↔ Unseen loads load ∧ load ≠ seen := by
  rw [Unseen, Unseen, List.length_modify]
  -- The load itself is settled now, and for the others nothing has changed.
  by_cases same : load = seen
  · subst same
    refine ⟨?_, fun h => absurd rfl h.2⟩
    rintro ⟨lt, unsettled⟩
    rw [settled?_modify_settled_self lt] at unsettled
    cases unsettled
  · rw [settled?_modify_settled_of_ne same]
    exact (and_iff_left same).symm

/-- Deciding an outcome does not make a load seen. It takes a look for that. -/
theorem unseen_modify_decided_iff {other : Nat} :
    Unseen (loads.modify other fun l => { l with decided := some outcome }) load
      ↔ Unseen loads load := by
  rw [Unseen, Unseen, List.length_modify, settled?_modify_decided]

end

/-! ### Counting waiters -/

/-- One more waiter counts for its own load. -/
theorem waitersOf_cons (t : Task K) (waiters : List (Task K)) (load : Nat) :
    waitersOf (t :: waiters) load = waitersOf waiters load + if t.load = load then 1 else 0 := by
  simp [waitersOf, List.countP_cons]

/-- One more waiter does not count for another load. -/
theorem waitersOf_cons_of_ne {t : Task K} {load : Nat} (other : load ≠ t.load)
    (waiters : List (Task K)) : waitersOf (t :: waiters) load = waitersOf waiters load := by
  rw [waitersOf_cons, if_neg (Ne.symm other), Nat.add_zero]

/-- For its own load one more waiter counts one. -/
theorem waitersOf_cons_self (t : Task K) (waiters : List (Task K)) :
    waitersOf (t :: waiters) t.load = waitersOf waiters t.load + 1 := by
  rw [waitersOf_cons, if_pos rfl]

/-- Somebody is counted exactly where somebody waits. -/
theorem waitersOf_pos_iff {waiters : List (Task K)} {load : Nat} :
    0 < waitersOf waiters load ↔ ∃ t ∈ waiters, t.load = load := by
  simp [waitersOf, List.countP_pos_iff]

/-- Nobody is counted exactly where nobody waits. -/
theorem waitersOf_eq_zero_iff {waiters : List (Task K)} {load : Nat} :
    waitersOf waiters load = 0 ↔ ∀ t ∈ waiters, t.load ≠ load := by
  simp [waitersOf, List.countP_eq_zero]

namespace Accounted

variable {c c' : Cache K V} {loads loads' : List (SharedLoad V E)}
  {waiters waiters' : List (Task K)}

/-- A new cache without loads and waiters: there is nothing to account for. -/
theorem empty (config : CacheConfig) (weigh : K → V → UInt64) :
    Accounted (.empty config weigh : Cache K V) ([] : List (SharedLoad V E)) [] where
  numbered := rfl
  keyed := Keyed.nil
  counted := nofun
  agree := nofun
  started := nofun
  registered := nofun

/-- The account is a matter of the register and of which loads are unseen. Events on values
and decisions about outcomes keep both, so they keep the account whatever else they do. -/
theorem of_same (h : Accounted c loads waiters) (flights_eq : c'.flights = c.flights)
    (next_eq : c'.nextLoad = c.nextLoad) (length_eq : loads'.length = loads.length)
    (unseen_iff : ∀ load, Unseen loads' load ↔ Unseen loads load) :
    Accounted c' loads' waiters where
  numbered := by rw [next_eq, length_eq, h.numbered]
  keyed := by
    rw [flights_eq]
    exact h.keyed
  counted f mem := by
    rw [unseen_iff]
    exact h.counted f (flights_eq ▸ mem)
  agree f mem := h.agree f (flights_eq ▸ mem)
  started t mem := length_eq ▸ h.started t mem
  registered t mem unseen := by
    rw [flights_eq]
    exact h.registered t mem ((unseen_iff _).mp unseen)

/-- The order of those who wait does not matter. -/
theorem perm (h : Accounted c loads waiters) (same : waiters.Perm waiters') :
    Accounted c loads waiters' where
  numbered := h.numbered
  keyed := h.keyed
  counted f mem := by
    rw [waitersOf, ← same.countP_eq]
    exact h.counted f mem
  agree f mem t mem' := h.agree f mem t (same.mem_iff.mpr mem')
  started t mem := h.started t (same.mem_iff.mpr mem)
  registered t mem := h.registered t (same.mem_iff.mpr mem)

/-- No load is registered under two keys. -/
theorem eq_of_load_eq (h : Accounted c loads waiters) {f f' : Flight K} (mem : f ∈ c.flights)
    (mem' : f' ∈ c.flights) (same : f.load = f'.load) : f = f' := by
  -- An entry has a waiter, who wants the one key under which its load is registered.
  obtain ⟨-, some_wait, count_eq⟩ := h.counted f mem
  rw [count_eq] at some_wait
  obtain ⟨t, waiting, load_eq⟩ := waitersOf_pos_iff.mp some_wait
  have key_eq := h.agree f mem t waiting load_eq
  have key_eq' := h.agree f' mem' t waiting (load_eq.trans same)
  -- Both entries are under the key that the waiter wants, and no key has two.
  exact h.keyed.eq_of_key_eq mem mem' (key_eq.symm.trans key_eq')

variable [DecidableEq K]

/-- What a search of the register finds is the entry under the key, since no key has two. -/
theorem flight?_eq_some_iff (h : Accounted c loads waiters) {key : K} {f : Flight K} :
    c.flight? key = some f ↔ f ∈ c.flights ∧ f.key = key :=
  h.keyed.find?_eq_some_iff

/-- The entry that is found under a key counts the waiters of an unseen load. -/
theorem counted_of_flight? (h : Accounted c loads waiters) {key : K} {f : Flight K}
    (found : c.flight? key = some f) :
    Unseen loads f.load ∧ 0 < f.waiters ∧ f.waiters = waitersOf waiters f.load :=
  h.counted f (h.flight?_eq_some_iff.mp found).1

/-- A waiter of an unseen load finds its load registered. -/
theorem flight?_of_unseen (h : Accounted c loads waiters) {t : Task K} (waiting : t ∈ waiters)
    (unseen : Unseen loads t.load) : ∃ f, c.flight? t.key = some f ∧ f.load = t.load := by
  obtain ⟨f, mem, key_eq, load_eq⟩ := h.registered t waiting unseen
  exact ⟨f, h.flight?_eq_some_iff.mpr ⟨mem, key_eq⟩, load_eq⟩

omit [DecidableEq K] in
/-- What stands under the key of a waiter of a seen load is another load. -/
theorem load_ne_of_not_unseen (h : Accounted c loads waiters) {t : Task K}
    (seen : ¬Unseen loads t.load) {f : Flight K} (mem : f ∈ c.flights) : f.load ≠ t.load :=
  fun load_eq => seen (load_eq ▸ (h.counted f mem).1)

end Accounted

/-! ### Entries of the register -/

namespace Cache

variable [DecidableEq K]

/-- Dropping the load of a key leaves the entries under other keys. -/
theorem mem_dropFlight_iff {c : Cache K V} {key : K} {f : Flight K} :
    f ∈ (c.dropFlight key).flights ↔ f ∈ c.flights ∧ f.key ≠ key := by
  simp [dropFlight, List.mem_filter]

/-- The entries after the number of waiters was changed under a key. The entry of the key
has the new number, and all others are as before. -/
theorem mem_setWaiters_iff {c : Cache K V} (keyed : Keyed Flight.key c.flights) {f : Flight K}
    (mem : f ∈ c.flights) {waiters : Nat} {g : Flight K} :
    g ∈ (c.setWaiters f.key waiters).flights
      ↔ g = { f with waiters } ∨ (g ∈ c.flights ∧ g.key ≠ f.key) := by
  simp only [setWaiters, List.mem_map]
  constructor
  · rintro ⟨g', mem', rfl⟩
    split
    · -- Keys do not repeat in the register, so an entry with this key is the one that
      -- was changed.
      next same =>
      rw [keyed.eq_of_key_eq mem' mem same]
      exact .inl rfl
    · next other => exact .inr ⟨mem', other⟩
  · rintro (rfl | ⟨mem', other⟩)
    · exact ⟨f, mem, if_pos rfl⟩
    · exact ⟨g, mem', if_neg other⟩

/-- Changing a count repeats no key. -/
theorem keyed_setWaiters {c : Cache K V} (keyed : Keyed Flight.key c.flights) (key : K)
    (waiters : Nat) : Keyed Flight.key (c.setWaiters key waiters).flights := by
  rw [setWaiters, Keyed, List.map_map]
  have same_key : (Flight.key ∘ fun f : Flight K =>
      if f.key = key then { f with waiters } else f) = Flight.key := by
    funext f
    simp only [Function.comp_apply]
    split <;> rfl
  rw [same_key]
  exact keyed

end Cache

namespace Accounted

variable [DecidableEq K]
variable {c : Cache K V} {loads loads' : List (SharedLoad V E)} {waiters waiters' : List (Task K)}

/-! ### Waiters come and go -/

/-- The entry of a load is counted anew when only waiters of this load came or went. The
waiters afterwards are given as a list of their own; that they differ only in waiters of
this load is what `others` and `members` ask. -/
theorem recounted (h : Accounted c loads waiters) {f : Flight K} (mem : f ∈ c.flights)
    (some_wait : 0 < waitersOf waiters' f.load)
    (others : ∀ load, load ≠ f.load → waitersOf waiters' load = waitersOf waiters load)
    (members : ∀ t ∈ waiters', t ∈ waiters ∨ (t.key = f.key ∧ t.load = f.load)) :
    Accounted (c.setWaiters f.key (waitersOf waiters' f.load)) loads waiters' where
  numbered := h.numbered
  keyed := Cache.keyed_setWaiters h.keyed _ _
  counted g mem' := by
    -- An entry is the one that was counted anew, or it is one of another load.
    rcases (Cache.mem_setWaiters_iff h.keyed mem).mp mem' with rfl | ⟨mem', other⟩
    · exact ⟨(h.counted f mem).1, some_wait, rfl⟩
    · have load_ne : g.load ≠ f.load :=
        fun same => other (congrArg Flight.key (h.eq_of_load_eq mem' mem same))
      rw [others g.load load_ne]
      exact h.counted g mem'
  agree g mem' t waiting load_eq := by
    rcases (Cache.mem_setWaiters_iff h.keyed mem).mp mem' with rfl | ⟨mem', other⟩
    · exact (members t waiting).elim (fun before => h.agree f mem t before load_eq) And.left
    · rcases members t waiting with before | ⟨-, load_eq'⟩
      · exact h.agree g mem' t before load_eq
      · have same : g.load = f.load := load_eq.symm.trans load_eq'
        exact absurd (congrArg Flight.key (h.eq_of_load_eq mem' mem same)) other
  started t waiting := by
    rcases members t waiting with before | ⟨-, load_eq⟩
    · exact h.started t before
    · exact load_eq ▸ (h.counted f mem).1.1
  registered t waiting unseen := by
    have entry : ∃ g ∈ c.flights, g.key = t.key ∧ g.load = t.load := by
      rcases members t waiting with before | ⟨key_eq, load_eq⟩
      · exact h.registered t before unseen
      · exact ⟨f, mem, key_eq.symm, load_eq.symm⟩
    obtain ⟨g, mem', key_eq, load_eq⟩ := entry
    by_cases same : g.key = f.key
    · rw [h.keyed.eq_of_key_eq mem' mem same] at key_eq load_eq
      exact ⟨_, (Cache.mem_setWaiters_iff h.keyed mem).mpr (.inl rfl), key_eq, load_eq⟩
    · exact ⟨g, (Cache.mem_setWaiters_iff h.keyed mem).mpr (.inr ⟨mem', same⟩), key_eq, load_eq⟩

/-- The entry of a load leaves the register when the load was seen or nobody waits for it.
Those two reasons meet in the last hypothesis: no waiter that is left waits for it unseen. -/
theorem dropped (h : Accounted c loads waiters) {f : Flight K} (mem : f ∈ c.flights)
    (length_eq : loads'.length = loads.length)
    (unseen_iff : ∀ load, load ≠ f.load → (Unseen loads' load ↔ Unseen loads load))
    (others : ∀ load, load ≠ f.load → waitersOf waiters' load = waitersOf waiters load)
    (members : ∀ t ∈ waiters', t ∈ waiters)
    (gone : ∀ t ∈ waiters', t.load = f.load → ¬Unseen loads' t.load) :
    Accounted (c.dropFlight f.key) loads' waiters' := by
  have load_ne : ∀ g ∈ c.flights, g.key ≠ f.key → g.load ≠ f.load :=
    fun g mem' other same => other (congrArg Flight.key (h.eq_of_load_eq mem' mem same))
  refine ⟨length_eq ▸ h.numbered, h.keyed.filter _, ?_, ?_, ?_, ?_⟩
  · intro g mem'
    obtain ⟨mem', other⟩ := Cache.mem_dropFlight_iff.mp mem'
    rw [unseen_iff _ (load_ne g mem' other), others _ (load_ne g mem' other)]
    exact h.counted g mem'
  · intro g mem' t waiting
    exact h.agree g (Cache.mem_dropFlight_iff.mp mem').1 t (members t waiting)
  · exact fun t waiting => length_eq ▸ h.started t (members t waiting)
  · -- A waiter of an unseen load waits for another load, so its entry is among those that
    -- stay.
    intro t waiting unseen
    have other_load : t.load ≠ f.load := fun same => gone t waiting same unseen
    obtain ⟨g, mem', key_eq, load_eq⟩ :=
      h.registered t (members t waiting) ((unseen_iff _ other_load).mp unseen)
    refine ⟨g, Cache.mem_dropFlight_iff.mpr ⟨mem', ?_⟩, key_eq, load_eq⟩
    intro same
    rw [h.keyed.eq_of_key_eq mem' mem same] at load_eq
    exact other_load load_eq.symm

omit [DecidableEq K] in
/-- A waiter of a seen load goes unnoticed. No entry counts it, so the counts are as before
without it. -/
theorem forgotten {t : Task K} (h : Accounted c loads (t :: waiters))
    (seen : ¬Unseen loads t.load) : Accounted c loads waiters where
  numbered := h.numbered
  keyed := h.keyed
  counted f mem := by
    rw [← waitersOf_cons_of_ne (h.load_ne_of_not_unseen seen mem)]
    exact h.counted f mem
  agree f mem t' waiting := h.agree f mem t' (List.mem_cons_of_mem _ waiting)
  started t' waiting := h.started t' (List.mem_cons_of_mem _ waiting)
  registered t' waiting := h.registered t' (List.mem_cons_of_mem _ waiting)

/-! ### The operations on loads -/

/-- A waiter joins the load that is registered under its key. The number of waiters in the
register and the list of those who wait grow together. -/
theorem joined (h : Accounted c loads waiters) {key : K} {f : Flight K}
    (found : c.flight? key = some f) (owner : Bool) :
    Accounted ((c.countLookup false).setWaiters key (f.waiters + 1)) loads
      (⟨key, f.load, owner⟩ :: waiters) := by
  obtain ⟨mem, rfl⟩ := h.flight?_eq_some_iff.mp found
  have count_eq : waitersOf (⟨f.key, f.load, owner⟩ :: waiters) f.load = f.waiters + 1 := by
    rw [waitersOf_cons, if_pos rfl, (h.counted f mem).2.2]
  rw [← count_eq]
  -- The miss that is counted before is no matter of the account.
  refine (h.recounted mem ?_ ?_ ?_).of_same rfl rfl rfl fun _ => Iff.rfl
  · rw [count_eq]
    exact Nat.succ_pos _
  · exact fun load other => waitersOf_cons_of_ne (t := ⟨f.key, f.load, owner⟩) other waiters
  · intro t waiting
    rcases List.mem_cons.mp waiting with rfl | before
    · exact .inr ⟨rfl, rfl⟩
    · exact .inl before

/-- A waiter starts a load of a key under which none is registered. The load has the next
number, which nobody waits for yet, so its only waiter is the new one. -/
theorem startFlight (h : Accounted c loads waiters) {key : K} (free : c.flight? key = none)
    (decided : Option (Except E V)) :
    Accounted ((c.countLookup false).startFlight key) (loads ++ [⟨decided, none⟩])
      (⟨key, c.nextLoad, true⟩ :: waiters) := by
  have unregistered : ∀ f ∈ c.flights, f.key ≠ key := by
    intro f mem
    simpa using List.find?_eq_none.mp free f mem
  -- The new load has no waiters and no entry yet, since its number is new.
  have nobody : ∀ t ∈ waiters, t.load ≠ c.nextLoad := by
    intro t waiting
    rw [h.numbered]
    exact Nat.ne_of_lt (h.started t waiting)
  have load_ne : ∀ f ∈ c.flights, f.load ≠ c.nextLoad := by
    intro f mem
    rw [h.numbered]
    exact Nat.ne_of_lt (h.counted f mem).1.1
  have count_eq : waitersOf (⟨key, c.nextLoad, true⟩ :: waiters) c.nextLoad = 1 := by
    rw [waitersOf_cons, if_pos rfl, waitersOf_eq_zero_iff.mpr nobody]
  -- Each field is checked for the new entry and waiter, and for those from before.
  refine ⟨?_, ?_, ?_, ?_, ?_, ?_⟩
  · rw [List.length_append]
    exact congrArg (· + 1) h.numbered
  · exact Keyed.cons_iff.mpr ⟨unregistered, h.keyed⟩
  · intro f mem
    rcases List.mem_cons.mp mem with rfl | mem
    · exact ⟨unseen_concat_iff.mpr (.inl h.numbered), Nat.one_pos, count_eq.symm⟩
    · obtain ⟨unseen, some_wait, count_eq⟩ := h.counted f mem
      refine ⟨unseen_concat_iff.mpr (.inr unseen), some_wait, ?_⟩
      rw [waitersOf_cons_of_ne (t := ⟨key, c.nextLoad, true⟩) (load_ne f mem)]
      exact count_eq
  · intro f mem t waiting load_eq
    rcases List.mem_cons.mp mem with rfl | mem <;>
      rcases List.mem_cons.mp waiting with rfl | waiting
    · rfl
    · exact absurd load_eq (nobody t waiting)
    · exact absurd load_eq.symm (load_ne f mem)
    · exact h.agree f mem t waiting load_eq
  · intro t waiting
    rw [List.length_append]
    rcases List.mem_cons.mp waiting with rfl | waiting
    · exact Nat.lt_succ_of_le (Nat.le_of_eq h.numbered)
    · exact Nat.lt_succ_of_lt (h.started t waiting)
  · intro t waiting unseen
    rcases List.mem_cons.mp waiting with rfl | waiting
    · exact ⟨_, List.mem_cons_self, rfl, rfl⟩
    · have before := (unseen_concat_iff.mp unseen).resolve_left (Nat.ne_of_lt (h.started t waiting))
      obtain ⟨f, mem, key_eq, load_eq⟩ := h.registered t waiting before
      exact ⟨f, List.mem_cons_of_mem _ mem, key_eq, load_eq⟩

/-- A waiter sees the outcome of its load. Whether it is the first to do so decides between
the two cases of `Cache.finish_cases`, and the account tells which one applies. -/
theorem seen {t : Task K} (h : Accounted c loads (t :: waiters)) (outcome : Except E V) :
    Accounted (c.finish t.key t.load outcome)
      (loads.modify t.load fun l => { l with settled := some outcome }) waiters := by
  have length_eq := List.length_modify (l := loads) (i := t.load)
    (f := fun l => { l with settled := some outcome })
  rcases c.finish_cases t.key t.load outcome with
    ⟨f, found, load_eq, finish_eq⟩ | ⟨other, finish_eq⟩ <;> rw [finish_eq]
  · -- The first to see the outcome, so the load leaves the register.
    obtain ⟨mem, key_eq⟩ := h.flight?_eq_some_iff.mp found
    have after_drop : Accounted (c.dropFlight f.key)
        (loads.modify t.load fun l => { l with settled := some outcome }) waiters := by
      refine h.dropped mem length_eq ?_ ?_ (fun _ => List.mem_cons_of_mem _) ?_
      · intro load other
        rw [unseen_modify_settled_iff]
        exact and_iff_left (load_eq ▸ other)
      · intro load other
        exact (waitersOf_cons_of_ne (load_eq ▸ other) waiters).symm
      · intro t' _ load_eq' unseen
        exact (unseen_modify_settled_iff.mp unseen).2 (load_eq'.trans load_eq)
    rw [key_eq] at after_drop
    exact after_drop.of_same (c.flights_processed _ _) (c.nextLoad_processed _ _) rfl
      fun _ => Iff.rfl
  · -- The load is not registered any more, so it was seen before.
    have before : ¬Unseen loads t.load := by
      intro unseen
      obtain ⟨f, found, load_eq⟩ := h.flight?_of_unseen List.mem_cons_self unseen
      exact other f found load_eq
    refine (h.forgotten before).of_same rfl rfl length_eq fun load => ?_
    rw [unseen_modify_settled_iff]
    exact and_iff_left_of_imp fun unseen same => before (same ▸ unseen)

/-- A waiter gives up, as the last of its load, or while others wait, or after the load was
seen. -/
theorem withdrawn {t : Task K} (h : Accounted c loads (t :: waiters)) :
    Accounted (c.withdraw t.key t.load) loads waiters := by
  rcases c.withdraw_cases t.key t.load with
    ⟨f, found, load_eq, withdraw_eq⟩ | ⟨other, withdraw_eq⟩
  · obtain ⟨mem, key_eq⟩ := h.flight?_eq_some_iff.mp found
    have count_eq : f.waiters = waitersOf waiters f.load + 1 := by
      rw [(h.counted f mem).2.2, load_eq]
      exact waitersOf_cons_self t waiters
    have others : ∀ load, load ≠ f.load → waitersOf waiters load = waitersOf (t :: waiters) load :=
      fun load other => (waitersOf_cons_of_ne (load_eq ▸ other) waiters).symm
    rw [← key_eq] at withdraw_eq ⊢
    rcases withdraw_eq with ⟨last, withdraw_eq⟩ | ⟨more, withdraw_eq⟩ <;> rw [withdraw_eq]
    · -- Nobody is left.
      have nobody := waitersOf_eq_zero_iff.mp (show waitersOf waiters f.load = 0 by omega)
      exact h.dropped mem rfl (fun _ _ => Iff.rfl) others (fun _ => List.mem_cons_of_mem _)
        fun t' waiting load_eq' => absurd load_eq' (nobody t' waiting)
    · rw [show f.waiters - 1 = waitersOf waiters f.load by omega]
      exact h.recounted mem (by omega) others fun t' waiting =>
        .inl (List.mem_cons_of_mem _ waiting)
  · rw [withdraw_eq]
    -- No entry counts the waiter: an unseen load of a waiter would be registered.
    refine h.forgotten ?_
    intro unseen
    obtain ⟨f, found, load_eq⟩ := h.flight?_of_unseen List.mem_cons_self unseen
    exact other f found load_eq

end Accounted

end TileArchive
