import TileArchive.Proofs.Cache.Looks

/-!
# `TileArchive.Proofs.Cache.FirstLooks`: where loads and tasks come from

A first look asks for a key. It *opens* a load if the key is neither held nor registered, and
nothing else starts one (`length_step`). A task that is kept waiting waits for the load that
its first look started or joined, and keeps it until it ends (`mem_tasks_step`).

These are facts about origin. They say of a load in the list of loads, or of a task among those
that wait, in which event it came there. The number of a load is its place in the list, so the
event in which the list grows is the one that gave the number out, and it was given to the task
that owns the load (`Sound.load_of_firstLook`). `Proofs/Cache/SingleFlight.lean` uses both to
follow one load from its beginning to its end.
-/

set_option autoImplicit false

namespace TileArchive.Session

variable {K V E : Type} [DecidableEq K] {s s' : Session K V E} {e : Event K V E}

/-- An event opens a load: in it somebody asks for a key that is neither held nor
registered. The session is the one in which the question is asked, after a task of the same
name was given up. -/
def Opens (s : Session K V E) (e : Event K V E) : Prop :=
  ∃ s' key, s.firstLook? e = some (s', key) ∧
    s'.cache.resident? key = none ∧ s'.cache.flight? key = none

/-! ### First looks -/

/-- A first look asks for the key, and the loads of the session after it are those after the
question. -/
theorem firstLook_asks {key : K} (first : s.firstLook? e = some (s', key)) :
    ∃ decided, s.look? e = waiter? (s'.ask key decided) ∧ s'.loads = s.loads ∧
      (s.step e).loads.length = (s'.ask key decided).1.loads.length := by
  cases e with
  | start name key =>
      cases first
      refine ⟨none, rfl, s.loads_drop name, ?_⟩
      -- Whatever the look finds, settling a load does not change how many there are.
      rcases s.start_cases name key with ⟨_, _, ask_eq, start_eq⟩
        | ⟨_, _, ask_eq, ⟨_, -, start_eq⟩ | ⟨-, start_eq⟩⟩ <;> rw [step, start_eq, ask_eq]
      · exact List.length_modify _ _ _
      · rfl
  | load key outcome =>
      cases first
      refine ⟨some outcome, rfl, rfl, ?_⟩
      rcases s.load_cases key outcome with ⟨_, _, ask_eq, load_eq⟩
        | ⟨_, _, ask_eq, ⟨_, -, load_eq⟩ | ⟨-, load_eq⟩⟩ <;> rw [step, load_eq, ask_eq]
      · exact List.length_modify _ _ _
      · rfl
  | _ => cases first

/-- Without a first look no load is started. -/
theorem length_step_of_no_firstLook (none_first : s.firstLook? e = none) :
    (s.step e).loads.length = s.loads.length := by
  cases e with
  | start name key => cases none_first
  | load key outcome => cases none_first
  | poll name =>
      -- Polling may settle a load, and deciding decides one; neither adds one.
      rcases s.poll_cases name with ⟨-, poll_eq⟩ | ⟨t, -, ⟨_, -, poll_eq⟩ | ⟨-, poll_eq⟩⟩ <;>
        rw [step, poll_eq]
      exact List.length_modify _ _ _
  | drop name => rw [step, loads_drop]
  | resolve name outcome =>
      rw [step]
      rcases s.resolve_cases name outcome with same | ⟨decided, resolve_eq⟩
      · rw [same]
      · rw [resolve_eq]
        exact List.length_modify _ _ _
  | decideLoad decided outcome => exact List.length_modify _ _ _
  | _ => rfl

/-- Of a first look, opening is a matter of the session in which it asks. -/
theorem opens_iff {key : K} (first : s.firstLook? e = some (s', key)) :
    s.Opens e ↔ s'.cache.resident? key = none ∧ s'.cache.flight? key = none := by
  constructor
  · rintro ⟨_, _, first', open_key⟩
    cases first.symm.trans first'
    exact open_key
  · exact fun open_key => ⟨s', key, first, open_key⟩

/-- One load is started by a first look that opens one, and none by any other event. This is
proved of every session, sound or not. -/
theorem length_step (s : Session K V E) (e : Event K V E) :
    (s.Opens e ∧ (s.step e).loads.length = s.loads.length + 1) ∨
      (¬s.Opens e ∧ (s.step e).loads.length = s.loads.length) := by
  cases first : s.firstLook? e with
  | none =>
      refine .inr ⟨?_, length_step_of_no_firstLook first⟩
      rintro ⟨_, _, first', -⟩
      cases first.symm.trans first'
  | some pair =>
      obtain ⟨s', key⟩ := pair
      obtain ⟨decided, -, loads_eq, length_eq⟩ := firstLook_asks first
      rw [opens_iff first, length_eq, ← loads_eq]
      -- Of the three answers to a question only the last makes the list of loads longer.
      rcases s'.ask_cases key decided with ⟨r, held, ask_eq⟩ | ⟨-, f, found, ask_eq⟩
        | ⟨absent, free, ask_eq⟩ <;> rw [ask_eq]
      · exact .inr ⟨fun opens => by simp [held] at opens, rfl⟩
      · exact .inr ⟨fun opens => by simp [found] at opens, rfl⟩
      · exact .inl ⟨⟨absent, free⟩, List.length_append⟩

/-- The session in which a first look asks is sound: giving up another task has kept it so. -/
theorem Sound.firstLook (h : s.Sound) {key : K} (first : s.firstLook? e = some (s', key)) :
    s'.Sound := by
  cases e with
  | start name key =>
      cases first
      exact h.drop name
  | load key outcome =>
      cases first
      exact h
  | _ => cases first

/-- Who asks and does not find a value waits for the load that this opens, or for the one that
was registered. -/
theorem Sound.load_of_firstLook (h : s.Sound) {key : K} {s'' : Session K V E} {t : Task K}
    (first : s.firstLook? e = some (s', key)) (looks : s.look? e = some (s'', t)) :
    t.key = key ∧ ((s.Opens e ∧ t.owner = true ∧ t.load = s.loads.length) ∨
      (t.owner = false ∧ ∃ f, s'.cache.flight? key = some f ∧ t.load = f.load)) := by
  obtain ⟨decided, look_eq, loads_eq, -⟩ := firstLook_asks first
  have asked := waiter?_eq_some_iff.mp (look_eq.symm.trans looks)
  rcases s'.ask_cases key decided with ⟨r, -, ask_eq⟩ | ⟨-, f, found, ask_eq⟩
    | ⟨absent, free, ask_eq⟩ <;> cases ask_eq.symm.trans asked
  · exact ⟨rfl, .inr ⟨rfl, f, found, rfl⟩⟩
  · refine ⟨rfl, .inl ⟨(opens_iff first).mpr ⟨absent, free⟩, rfl, ?_⟩⟩
    rw [(h.firstLook first).accounted.numbered, loads_eq]

/-! ### Tasks keep their loads -/

/-- Asking makes nobody a task. Whoever has to wait is entered under a name afterwards. -/
theorem tasks_ask {key : K} {decided : Option (Except E V)} {result : V ⊕ Task K}
    (ask_eq : s.ask key decided = (s', result)) : s'.tasks = s.tasks := by
  rcases s.ask_cases key decided with ⟨r, -, eq⟩ | ⟨-, f, -, eq⟩ | ⟨-, -, eq⟩ <;>
    rw [eq] at ask_eq <;> cases ask_eq <;> rfl

/-- Giving a task up leaves only tasks that were there. -/
theorem mem_tasks_of_mem_drop {name : String} {named : String × Task K}
    (mem : named ∈ (s.drop name).1.tasks) : named ∈ s.tasks := by
  rcases s.drop_cases name with ⟨-, drop_eq⟩ | ⟨t, -, drop_eq⟩ <;> rw [drop_eq] at mem
  · exact mem
  · exact (List.mem_filter.mp mem).1

/-- A task that waits after an event waited before, or it was kept waiting by its first
look. The list of tasks grows in no other way. -/
theorem mem_tasks_step {named : String × Task K} (mem : named ∈ (s.step e).tasks) :
    named ∈ s.tasks ∨
      ∃ key s', e = .start named.1 key ∧ s.look? e = some (s', named.2) := by
  -- Only the first look of a task enters a task. All other events keep tasks or take some
  -- out.
  cases e with
  | start name key =>
      rw [step] at mem
      rcases s.start_cases name key with ⟨_, _, ask_eq, start_eq⟩
        | ⟨s', t, ask_eq, ⟨_, -, start_eq⟩ | ⟨-, start_eq⟩⟩ <;> rw [start_eq] at mem
      · exact .inl (mem_tasks_of_mem_drop (tasks_ask ask_eq ▸ mem))
      · exact .inl (mem_tasks_of_mem_drop (tasks_ask ask_eq ▸ mem))
      · rcases List.mem_cons.mp mem with rfl | mem
        · exact .inr ⟨key, s', rfl, waiter?_eq_some_iff.mpr ask_eq⟩
        · exact .inl (mem_tasks_of_mem_drop (tasks_ask ask_eq ▸ mem))
  | load key outcome =>
      rw [step] at mem
      rcases s.load_cases key outcome with ⟨_, _, ask_eq, load_eq⟩
        | ⟨_, _, ask_eq, ⟨_, -, load_eq⟩ | ⟨-, load_eq⟩⟩ <;> rw [load_eq] at mem <;>
        exact .inl (tasks_ask ask_eq ▸ mem)
  | poll name =>
      rw [step] at mem
      rcases s.poll_cases name with ⟨-, poll_eq⟩ | ⟨t, -, ⟨_, -, poll_eq⟩ | ⟨-, poll_eq⟩⟩ <;>
        rw [poll_eq] at mem
      · exact .inl mem
      · exact .inl (List.mem_filter.mp mem).1
      · exact .inl mem
  | drop name => exact .inl (mem_tasks_of_mem_drop mem)
  | resolve name outcome =>
      rw [step] at mem
      rcases s.resolve_cases name outcome with same | ⟨decided, resolve_eq⟩
      · exact .inl (same ▸ mem)
      · rw [resolve_eq] at mem
        exact .inl mem
  | _ => exact .inl mem

end TileArchive.Session
