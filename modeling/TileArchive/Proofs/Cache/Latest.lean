import TileArchive.Proofs.Cache.Writes

/-!
# `TileArchive.Proofs.Cache.Latest`: what is handed out was written last

`Since` looks back into a history: something happened, and every event after it was of some kind.
What a cache holds under a key was stored by some event, and all events since then left it alone
(`held_since`). So a value that is handed out is the last one that was written to its key, as
long as no later one was refused (`handed_out_latest`).

An insertion that is refused leaves the older value under its key, and that one is handed out
from then on: `stale_after_refused`.

## Looking back

`held_since` is an induction over the history from its end, and its step is
`Sound.holds_step`: what is held after the last event was stored by it, or was held before it and
left alone. The recursion equation of `Since` (`since_concat_iff`) has the same shape, so the
induction is short.

`Since` fixes an event and speaks of all events after it. A value may have been stored several
times; the one that is found is the last, because storing it again does not leave the key alone.

## What may go wrong

A cache that drops values may lose the latest value, and then it hands out nothing, which is no
error. It must not hand out an older one. The only way this happens is the refusal of a value
that is heavier than the ceiling: the caller has put it in, and the value from before stands.
`handed_out_latest` has this as its exact condition, and `stale_after_refused` is an input.
-/

set_option autoImplicit false

namespace TileArchive.Session

variable {K V E : Type} [DecidableEq K]

/-! ### Looking back -/

/-- An event of a history was of some kind, in the session in which it happened. That
session is the one which the events before it lead to. -/
def Happened (config : CacheConfig) (weigh : K → V → UInt64)
    (kind : Session K V E → Event K V E → Prop) (past : List (Event K V E)) : Prop :=
  ∃ before e later, past = before ++ e :: later ∧ kind (after config weigh before) e

/-- An event of a history was of some kind, and all events after it are of another. Each
event is looked at in the session in which it happened. -/
def Since (config : CacheConfig) (weigh : K → V → UInt64)
    (kind others : Session K V E → Event K V E → Prop) (past : List (Event K V E)) : Prop :=
  ∃ before e later, past = before ++ e :: later ∧ kind (after config weigh before) e ∧
    ∀ middle e' rest, later = middle ++ e' :: rest →
      others (after config weigh (before ++ e :: middle)) e'

variable {config : CacheConfig} {weigh : K → V → UInt64}
variable {kind others : Session K V E → Event K V E → Prop}
variable {past : List (Event K V E)} {e : Event K V E} {key : K} {value : V}

/-- The last event is the one that is looked for, or it comes after that. Histories grow at
their end, so this is how statements about the latest event of a kind are proved by
induction. -/
theorem since_concat_iff :
    Since config weigh kind others (past ++ [e]) ↔
      kind (after config weigh past) e ∨
        (Since config weigh kind others past ∧ others (after config weigh past) e) := by
  constructor
  · rintro ⟨before, e', later, here, holds, kept⟩
    -- The last event of the history is the one found, or the last of those after it.
    rcases later.eq_nil_or_concat with rfl | ⟨later, last, rfl⟩
    · obtain ⟨rfl, same⟩ := List.append_inj' here rfl
      cases same
      exact .inl holds
    · rw [List.concat_eq_append, ← List.cons_append, ← List.append_assoc] at here
      obtain ⟨rfl, same⟩ := List.append_inj' here rfl
      cases same
      refine .inr ⟨⟨before, e', later, rfl, holds, ?_⟩, kept later e [] (by simp)⟩
      intro middle e'' rest split
      exact kept middle e'' (rest ++ [e]) (by simp [split])
  · rintro (holds | ⟨⟨before, e', later, rfl, holds, kept⟩, last⟩)
    · exact ⟨past, e, [], rfl, holds, by simp⟩
    · refine ⟨before, e', later ++ [e], by simp, holds, ?_⟩
      intro middle e'' rest split
      rcases rest.eq_nil_or_concat with rfl | ⟨rest, last', rfl⟩
      · obtain ⟨rfl, same⟩ := List.append_inj' split rfl
        cases same
        exact last
      · rw [List.concat_eq_append, ← List.cons_append, ← List.append_assoc] at split
        obtain ⟨rfl, -⟩ := List.append_inj' split rfl
        exact kept middle e'' rest rfl

/-! ### What is held, and what is handed out -/

/-- What is held was stored by an event, and the events since then left it alone. -/
theorem held_since (held : (after config weigh past).cache.Holds key value) :
    Since config weigh (fun s e => s.Stores e key value) (fun s e => s.LeavesAlone e key) past := by
  -- By induction on the history from its end. A new cache holds nothing, and the last event
  -- either stored the value or left it alone.
  induction past using List.reverseRecOn with
  | nil => exact absurd held (Cache.not_holds_empty config weigh key value)
  | append_singleton past e ih =>
      rw [after_concat] at held
      rw [since_concat_iff]
      rcases (sound_after config weigh past).holds_step held with stored | ⟨held, alone⟩
      · exact .inl stored
      · exact .inr ⟨ih held, alone⟩

/-- A value that an event writes to a key that it leaves alone is heavier than the ceiling. -/
theorem heavy_of_leavesAlone (alone : (after config weigh past).LeavesAlone e key)
    (writes : (after config weigh past).Writes e key value) :
    config.maxWeight < weigh key value := by
  obtain ⟨config_eq, weigh_eq⟩ := bounds_after config weigh past
  have heavy := alone.2 value writes
  rwa [config_eq, weigh_eq] at heavy

/-- After an insertion that is not refused the cache holds the new value, or one that was stored
later. -/
theorem held_after_insert {before later : List (Event K V E)} {newer : V}
    (light : weigh key newer ≤ config.maxWeight)
    (held : (after config weigh (before ++ .insert key newer :: later)).cache.Holds key value) :
    value = newer ∨ ∃ middle e rest, later = middle ++ e :: rest ∧
      (after config weigh (before ++ .insert key newer :: middle)).Stores e key value := by
  induction later using List.reverseRecOn with
  | nil =>
      rw [after_concat] at held
      left
      rcases (sound_after config weigh before).holds_step held with ⟨writes, -⟩ | ⟨-, alone⟩
      · cases writes_of_no_look rfl writes
        rfl
      · have heavy := heavy_of_leavesAlone alone (.inl rfl)
        exact absurd light (UInt64.not_le.mpr heavy)
  | append_singleton later e ih =>
      -- The event is one more that may have stored the value; otherwise it was held before.
      rw [← List.cons_append, ← List.append_assoc, after_concat] at held
      rcases (sound_after config weigh _).holds_step held with stored | ⟨held, -⟩
      · exact .inr ⟨later, e, [], rfl, stored⟩
      · rcases ih held with same | ⟨middle, e', rest, rfl, stored⟩
        · exact .inl same
        · exact .inr ⟨middle, e', rest ++ [e], by simp, stored⟩

/-- A value is the one that was written last to its key, and it was not removed since. A
value that was refused counts as written here, although the cache never held it. -/
def Latest (config : CacheConfig) (weigh : K → V → UInt64) (past : List (Event K V E)) (key : K)
    (value : V) : Prop :=
  Since config weigh (fun s e => s.Writes e key value)
    (fun s e => ¬Removes e key ∧ ∀ value', ¬s.Writes e key value') past

/-- If no value that was written to a key was refused, the last one that was stored is the
last one that was written: what was written later was not refused, so it would not have let
the key alone. -/
theorem Since.latest
    (since : Since config weigh (fun s e => s.Stores e key value) (fun s e => s.LeavesAlone e key)
      past)
    (accepted : ∀ value', Happened config weigh (fun s e => s.Writes e key value') past →
      weigh key value' ≤ config.maxWeight) : Latest config weigh past key value := by
  obtain ⟨before, e, later, rfl, ⟨writes, -⟩, alone⟩ := since
  refine ⟨before, e, later, rfl, writes, ?_⟩
  intro middle e' rest split
  have alone' := alone middle e' rest split
  refine ⟨alone'.1, fun value' writes' => ?_⟩
  have heavy := heavy_of_leavesAlone alone' writes'
  have light := accepted value' ⟨before ++ e :: middle, e', rest, by simp [split], writes'⟩
  exact absurd light (UInt64.not_le.mpr heavy)

/-- A value that is handed out is the last one that was stored under its key. Every event since
then left it alone: the value was not removed, and whatever else was written to the key was
refused. So if none of the values written to the key was refused, it is the one that was written
last. Once a value was put in that is not refused, an older one is never handed out again. -/
theorem handed_out_latest (config : CacheConfig) (weigh : K → V → UInt64)
    (past : List (Event K V E)) {e : Event K V E} {key : K} {value : V}
    (handed : (after config weigh past).HandsOut e key value) :
    Since config weigh (fun s e => s.Stores e key value) (fun s e => s.LeavesAlone e key) past ∧
    ((∀ value', Happened config weigh (fun s e => s.Writes e key value') past →
      weigh key value' ≤ config.maxWeight) → Latest config weigh past key value) ∧
    ∀ before newer later, past = before ++ .insert key newer :: later →
      weigh key newer ≤ config.maxWeight →
      value = newer ∨ ∃ middle e' rest, later = middle ++ e' :: rest ∧
        (after config weigh (before ++ .insert key newer :: middle)).Stores e' key value := by
  have since := held_since handed.holds
  refine ⟨since, since.latest, ?_⟩
  rintro before newer later rfl light
  exact held_after_insert light handed.holds

/-- A value is put in while its key is loaded, and replaced once the load settles. The next task
that asks for the key is handed the value of the load. -/
theorem handed_out_latest_settled :
    let past : List (Event Nat Nat Unit) :=
      [.start "a" 1, .insert 1 5, .resolve "a" (.ok 7), .poll "a"]
    (after ⟨10, 90⟩ (fun _ _ => 1) past).HandsOut (.start "b" 1) 1 7 ∧
      Latest ⟨10, 90⟩ (fun _ _ => 1) past 1 7 := by
  intro past
  have handed : (after ⟨10, 90⟩ (fun _ _ => 1) past).HandsOut (.start "b" 1) 1 7 :=
    .inr ⟨_, rfl, rfl, rfl⟩
  exact ⟨handed, (handed_out_latest ⟨10, 90⟩ _ past handed).2.1 fun _ _ => by decide⟩

/-- A value that is too heavy is put in over a lighter one. It is not kept, but the lighter one
is, and that is what the next look-up is handed. -/
theorem stale_after_refused :
    let past : List (Event Nat UInt64 Unit) := [.insert 1 5, .insert 1 11]
    CacheConfig.validate ⟨10, 90⟩ = .ok () ∧
      (after ⟨10, 90⟩ (fun _ weight => weight) past).HandsOut (.get 1) 1 5 ∧
      ¬Latest ⟨10, 90⟩ (fun _ weight => weight) past 1 5 := by
  intro past
  refine ⟨rfl, .inl ⟨rfl, rfl⟩, fun latest => ?_⟩
  have latest : Latest ⟨10, 90⟩ (fun _ weight => weight) ([.insert 1 5] ++ [.insert 1 11]) 1 5 :=
    latest
  -- The second insertion wrote to the key, so the value of the first is not the latest.
  rcases since_concat_iff.mp latest with writes | ⟨-, -, unwritten⟩
  · cases writes_of_no_look rfl writes
  · exact unwritten 11 (.inl rfl)

end TileArchive.Session
