import TileArchive.Proofs.Cache.Holds

/-!
# `TileArchive.Proofs.Cache.Flights`: the register of loads under each operation

The operations on values leave the register of loads alone. What the three operations on loads
do is a matter of what stands under the key: `request_cases`, `finish_cases` and
`withdraw_cases` say all that each of them can do.

These three are the only places where `request`, `finish` and `withdraw` are unfolded. Each gives
one disjunct per branch, with the condition of the branch and the cache that results, so that a
proof about an event begins with `rcases` and continues with an equation. A change to one of the
three operations is a change to one lemma here.

`finish_cases` and `withdraw_cases` end in the same disjunct: what stands under the key, if
anything, is another load. In that case nothing happens, and it is this case that a waiter meets
who comes after the first (`Proofs/Cache/Waiters.lean`).
-/

set_option autoImplicit false

namespace TileArchive.Cache

variable {K V E : Type} [DecidableEq K]

/-- The cache after the outcome of a registered load was seen. A value is put in and a
failure counted, and the load leaves the register. The order of insertion and removal does
not matter, since an insertion does not look at the register. -/
def processed (c : Cache K V) (key : K) : Except E V → Cache K V
  | .ok value => (c.insert key value).dropFlight key
  | .error _ => { c.dropFlight key with counters := c.counters.failure }

/-! ### Operations on values -/

/-- A look-up leaves the register of loads alone. -/
@[simp]
theorem flights_get (c : Cache K V) (key : K) : (c.get key).1.flights = c.flights :=
  flights_touch c key

/-- A look-up takes no number of a load. -/
@[simp]
theorem nextLoad_get (c : Cache K V) (key : K) : (c.get key).1.nextLoad = c.nextLoad :=
  nextLoad_touch c key

/-- Invalidating a key leaves the loads of the key alone: those who wait for it go on
waiting. -/
@[simp]
theorem flights_invalidate (c : Cache K V) (key : K) :
    (c.invalidate key).1.flights = c.flights :=
  (c.onlyValuesDiffer_invalidate key).flights_eq

/-- Invalidating a key takes no number of a load. -/
@[simp]
theorem nextLoad_invalidate (c : Cache K V) (key : K) :
    (c.invalidate key).1.nextLoad = c.nextLoad :=
  (c.onlyValuesDiffer_invalidate key).nextLoad_eq

/-! ### Operations on loads -/

/-- A use of a key that is not held does nothing at all; even the clock stands still. -/
theorem touch_of_none {c : Cache K V} {key : K} (absent : c.resident? key = none) :
    c.touch key = (c, none) := by
  rw [touch, absent]

/-- A use of a key that is held gives the value that is held. -/
theorem touch_of_some {c : Cache K V} {key : K} {r : Resident K V}
    (present : c.resident? key = some r) : (c.touch key).2 = some r.value := by
  rw [touch, present]

/-- A request uses the value that is there. Otherwise it joins the load of the key that is
registered, or registers one. -/
theorem request_cases (c : Cache K V) (key : K) :
    (∃ r, c.resident? key = some r ∧
      c.request key = ((c.touch key).1.countLookup true, .hit r.value)) ∨
    (c.resident? key = none ∧ ∃ f, c.flight? key = some f ∧
      c.request key
        = ((c.countLookup false).setWaiters key (f.waiters + 1), .joined f.load)) ∨
    (c.resident? key = none ∧ c.flight? key = none ∧
      c.request key = ((c.countLookup false).startFlight key, .started c.nextLoad)) := by
  -- The look-up comes first: a value that is there ends the request whatever is registered.
  cases held : c.resident? key with
  | some r =>
      refine .inl ⟨r, rfl, ?_⟩
      have used : c.touch key = ((c.touch key).1, some r.value) := by
        rw [← touch_of_some held]
      rw [request, used]
  | none =>
      right
      rw [request, touch_of_none held]
      -- The count of look-ups does not show in the register.
      have flight_eq : (c.countLookup false).flight? key = c.flight? key := rfl
      cases registered : c.flight? key with
      | some f => exact .inl ⟨rfl, f, rfl, by simp only [flight_eq, registered]⟩
      | none => exact .inr ⟨rfl, rfl, by simp only [flight_eq, registered]; rfl⟩

/-- An outcome is processed if its load is the one that is registered under the key. The
outcome of a load that was given up, or of one that was replaced after that, is told to
nobody here. -/
theorem finish_cases (c : Cache K V) (key : K) (load : Nat) (outcome : Except E V) :
    (∃ f, c.flight? key = some f ∧ f.load = load ∧
      c.finish key load outcome = c.processed key outcome) ∨
    ((∀ f, c.flight? key = some f → f.load ≠ load) ∧ c.finish key load outcome = c) := by
  unfold finish
  cases registered : c.flight? key with
  | none => exact .inr ⟨nofun, rfl⟩
  | some f =>
      -- The number decides, not the key: a later load may have taken the key up.
      by_cases same : f.load = load
      · refine .inl ⟨f, rfl, same, ?_⟩
        simp only [if_pos same]
        cases outcome <;> rfl
      · refine .inr ⟨?_, by simp only [if_neg same]⟩
        rintro _ ⟨⟩
        exact same

/-- Of the register, an outcome that is processed only takes the load away. -/
@[simp]
theorem flights_processed (c : Cache K V) (key : K) (outcome : Except E V) :
    (c.processed key outcome).flights = (c.dropFlight key).flights := by
  cases outcome with
  | error e => rfl
  | ok value => simp [processed, dropFlight]

/-- An outcome that is processed takes no number of a load. -/
@[simp]
theorem nextLoad_processed (c : Cache K V) (key : K) (outcome : Except E V) :
    (c.processed key outcome).nextLoad = c.nextLoad := by
  cases outcome with
  | error e => rfl
  | ok value => exact nextLoad_insert c key value

/-- A waiter is taken off if its load is the one that is registered under the key, and the
last one takes the load with it. -/
theorem withdraw_cases (c : Cache K V) (key : K) (load : Nat) :
    (∃ f, c.flight? key = some f ∧ f.load = load ∧
      ((f.waiters ≤ 1 ∧ c.withdraw key load = c.dropFlight key) ∨
        (1 < f.waiters ∧ c.withdraw key load = c.setWaiters key (f.waiters - 1)))) ∨
    ((∀ f, c.flight? key = some f → f.load ≠ load) ∧ c.withdraw key load = c) := by
  unfold withdraw
  cases registered : c.flight? key with
  | none => exact .inr ⟨nofun, rfl⟩
  | some f =>
      by_cases same : f.load = load
      · refine .inl ⟨f, rfl, same, ?_⟩
        simp only [if_pos same]
        -- The last waiter takes the load with it, and any other one is only counted off.
        by_cases last : f.waiters ≤ 1
        · exact .inl ⟨last, by rw [if_pos last]⟩
        · exact .inr ⟨Nat.lt_of_not_le last, by rw [if_neg last]⟩
      · refine .inr ⟨?_, by simp only [if_neg same]⟩
        rintro _ ⟨⟩
        exact same

end TileArchive.Cache
