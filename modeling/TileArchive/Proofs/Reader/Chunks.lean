import TileArchive.Proofs.Reader.Coalescing
import TileArchive.Proofs.Steps

/-!
# `TileArchive.Proofs.Reader.Chunks`: how runs are gathered in chunks

A visit decides which runs it reads together before it has read any of them: the decision rests on
the places of the payloads alone. So the chunks of a visit, and what it reads, can be planned from
the itinerary of the walk.

* `lowestStart`, `highestStop` and `spanOf` are taken over some runs at once; `Chunk.Tight` says
  that a chunk, which keeps its bounds from run to run, has the same.
* `Chunk.plan` replaces the runs of an itinerary by the chunks in which they are read.
* `stretches` cuts the runs of a tour where a pointer is followed and where a directory ends, and
  `Grouped` says of the chunks of one stretch that each is short and no two could be joined.
* `Chunk.Tight.chunksOf_planned`: the chunks of a plan are the stretches, each of them grouped.

## What is stated without the algorithm

The visit is greedy: it adds runs to a chunk until one does not fit. The statement about its chunks
does not say so. It gives each stretch of runs a list of groups whose concatenation is the stretch
(`ChunksOf`), and asks two things of them. A group is *short*: it is a single run or its span is
below the threshold. And it is *maximal*: with the first run of the group after it the span would
reach the threshold. Bounds are taken over the runs of a group, not from what a chunk keeps.

## The proof

`chunksOf_planned` goes through the steps of an itinerary with an arbitrary chunk that is already
begun, and says that its runs and the rest of the stretch are grouped together. A run that joins
moves from the rest of the stretch into the chunk, and the statement stays the same up to
associativity. A chunk that is read becomes the first group of what the induction gives for the
rest, and that it is maximal is why the run did not join.
-/

set_option autoImplicit false

namespace TileArchive

/-! ### What runs span -/

section

variable (h : Header) (es : List Entry)

/-- Where the first byte of some runs is. Without runs it is zero and stands for nothing. -/
def lowestStart : Nat := (es.map fun e => (h.payloadRange e).offset.toNat).min?.getD 0

/-- The highest place at which one of some payloads stops. -/
def highestStop : Nat := (es.map fun e => (h.payloadRange e).stop.toNat).max?.getD 0

/-- The number of bytes from the lowest start of some payloads to the highest stop. -/
def spanOf : Nat := highestStop h es - lowestStart h es

variable {es}

/-- With one more run the lowest start is that of the run or that from before. -/
theorem lowestStart_concat (some_yet : es ≠ []) (e : Entry) :
    lowestStart h (es ++ [e]) = min (lowestStart h es) (h.payloadRange e).offset.toNat := by
  obtain ⟨first, rest, rfl⟩ := List.exists_cons_of_ne_nil some_yet
  rw [lowestStart, lowestStart, List.map_append, List.map_cons, List.cons_append,
    List.min?_cons', List.min?_cons', List.foldl_append]
  rfl

/-- With one more run the highest stop is that of the run or that from before. -/
theorem highestStop_concat (some_yet : es ≠ []) (e : Entry) :
    highestStop h (es ++ [e]) = max (highestStop h es) (h.payloadRange e).stop.toNat := by
  obtain ⟨first, rest, rfl⟩ := List.exists_cons_of_ne_nil some_yet
  rw [highestStop, highestStop, List.map_append, List.map_cons, List.cons_append,
    List.max?_cons', List.max?_cons', List.foldl_append]
  rfl

/-- No payload stops before it starts. -/
theorem offset_le_stop (e : Entry) :
    (h.payloadRange e).offset.toNat ≤ (h.payloadRange e).stop.toNat := by
  have stop_eq := Chunk.toNat_stop_payloadRange (h := h) e
  have offset_le := Word.toNat_le_largest (h.payloadRange e).offset
  omega

/-- The runs of a chunk end no earlier than they begin. -/
theorem lowestStart_le_highestStop (some_yet : es ≠ []) :
    lowestStart h es ≤ highestStop h es := by
  rw [← List.dropLast_concat_getLast some_yet]
  generalize es.dropLast = others, es.getLast some_yet = e
  have ordered := offset_le_stop h e
  by_cases none_before : others = []
  · rw [none_before]
    exact ordered
  · rw [lowestStart_concat h none_before, highestStop_concat h none_before]
    exact Nat.le_trans (Nat.min_le_right _ _) (Nat.le_trans ordered (Nat.le_max_right _ _))

end

/-! ### Stretches and chunks -/

/-- The runs that are met, cut where a pointer is followed and where a directory ends. A
chunk never reaches over such a cut, whatever the threshold is. -/
def stretches : List WalkEvent → List (List Entry)
  | [] => [[]]
  | .run e :: events => (stretches events).modifyHead (e :: ·)
  | .pointer :: events => [] :: stretches events
  | .leave :: events => [] :: stretches events

/-- There is always a first stretch, which may be empty. -/
theorem exists_stretches (events : List WalkEvent) :
    ∃ stretch rest, stretches events = stretch :: rest := by
  induction events with
  | nil => exact ⟨[], [], rfl⟩
  | cons event events ih =>
      obtain ⟨stretch, rest, stretches_eq⟩ := ih
      cases event with
      | run e => exact ⟨e :: stretch, rest, by rw [stretches, stretches_eq]; rfl⟩
      | pointer => exact ⟨[], _, rfl⟩
      | leave => exact ⟨[], _, rfl⟩

/-- Nothing is lost where runs are cut in stretches. Pointers and ends of directories only
say where the cuts are. -/
theorem flatten_stretches (events : List WalkEvent) :
    (stretches events).flatten = events.filterMap WalkEvent.entry? := by
  induction events with
  | nil => rfl
  | cons event events ih =>
      cases event with
      | run e =>
          -- There is always a first stretch, if an empty one, for a run to be put in front
          -- of.
          obtain ⟨stretch, rest, stretches_eq⟩ := exists_stretches events
          rw [stretches_eq] at ih
          rw [stretches, stretches_eq]
          exact congrArg (e :: ·) ih
      | pointer => exact ih
      | leave => exact ih

/-- The runs of a stretch are read in chunks that are as long as a threshold allows. That no
chunk could take in the run after it says that the cuts are forced. A run that reaches the
threshold alone is a chunk of its own. -/
structure Grouped (h : Header) (threshold : Nat) (chunks : List (List Entry)) : Prop where
  short : ∀ chunk ∈ chunks, chunk.length = 1 ∨ (chunk ≠ [] ∧ spanOf h chunk < threshold)
  maximal : ∀ before chunk e more after, chunks = before ++ chunk :: (e :: more) :: after →
    threshold ≤ spanOf h (chunk ++ [e])

namespace Grouped

variable {h : Header} {threshold : Nat} {chunk : List Entry} {chunks : List (List Entry)}

/-- Nothing to group is grouped. -/
theorem nil : Grouped h threshold [] := ⟨nofun, by simp⟩

/-- One more chunk may come before others if it is short and could not take the next run. -/
theorem cons (grouped : Grouped h threshold chunks)
    (short : chunk.length = 1 ∨ (chunk ≠ [] ∧ spanOf h chunk < threshold))
    (full : ∀ e more after, chunks = (e :: more) :: after → threshold ≤ spanOf h (chunk ++ [e])) :
    Grouped h threshold (chunk :: chunks) := by
  refine ⟨?_, ?_⟩
  · intro other member
    cases member with
    | head => exact short
    | tail _ member => exact grouped.short other member
  · intro before other e more after split
    -- Only the pair of the new chunk and the first one is new.
    cases before with
    | nil =>
        cases split
        exact full e more after rfl
    | cons first before =>
        injection split with _ split
        exact grouped.maximal before other e more after split

end Grouped

/-- The chunks of some stretches, one stretch after another. Each stretch is cut into chunks
on its own, and the cuts inside it are those that the threshold asks for. -/
def ChunksOf (h : Header) (threshold : Nat) (cut chunks : List (List Entry)) : Prop :=
  ∃ groups : List (List (List Entry)), groups.map List.flatten = cut ∧
    (∀ group ∈ groups, Grouped h threshold group) ∧ chunks = groups.flatten

/-- The chunks of one more stretch come before those of the others. -/
theorem ChunksOf.cons {h : Header} {threshold : Nat} {cut group chunks : List (List Entry)}
    (rest : ChunksOf h threshold cut chunks) (grouped : Grouped h threshold group) :
    ChunksOf h threshold (group.flatten :: cut) (group ++ chunks) := by
  obtain ⟨groups, rfl, all_grouped, rfl⟩ := rest
  exact ⟨group :: groups, rfl, List.forall_mem_cons.mpr ⟨grouped, all_grouped⟩, rfl⟩

/-- No run is lost or read twice. -/
theorem ChunksOf.flatten_eq {h : Header} {threshold : Nat} {cut chunks : List (List Entry)}
    (chunks_of : ChunksOf h threshold cut chunks) : chunks.flatten = cut.flatten := by
  obtain ⟨groups, rfl, -, rfl⟩ := chunks_of
  exact List.flatten_flatten

namespace Chunk

variable {h : Header} {threshold : UInt64} {c : Chunk}

/-! ### Bounds that are kept from run to run -/

/-- A chunk with runs starts and stops where they do, and is short unless it has one run.
This is the invariant of the chunk that a visit is gathering. -/
structure Tight (h : Header) (threshold : UInt64) (c : Chunk) : Prop where
  start_eq : c.entries ≠ [] → c.start.toNat = lowestStart h c.entries
  stop_eq : c.entries ≠ [] → c.stop.toNat = highestStop h c.entries
  short : c.entries.length ≤ 1 ∨ c.span < threshold.toNat

/-- A chunk without runs has no bounds to be wrong about. -/
theorem Tight.empty : Chunk.empty.Tight h threshold :=
  ⟨fun some_yet => absurd rfl some_yet, fun some_yet => absurd rfl some_yet, .inl (Nat.zero_le 1)⟩

/-- A chunk of one run has the bounds of that run, and may be longer than the threshold. -/
theorem Tight.single (e : Entry) : (Chunk.single h e).Tight h threshold :=
  ⟨fun _ => rfl, fun _ => rfl, .inl (Nat.le_refl 1)⟩

/-- A chunk spans what its runs span. -/
theorem Tight.span_eq (tight : c.Tight h threshold) (some_yet : c.entries ≠ []) :
    c.span = spanOf h c.entries := by
  rw [span, tight.start_eq some_yet, tight.stop_eq some_yet, spanOf]

/-- One more run moves the bounds as if they were taken over all runs anew. -/
theorem Tight.bounds_add (tight : c.Tight h threshold) (e : Entry) :
    (c.add h e).start.toNat = lowestStart h (c.entries ++ [e]) ∧
      (c.add h e).stop.toNat = highestStop h (c.entries ++ [e]) := by
  by_cases none_yet : c.entries.isEmpty = true
  · rw [add_of_isEmpty none_yet, List.isEmpty_iff.mp none_yet]
    exact ⟨rfl, rfl⟩
  · have some_yet : c.entries ≠ [] := mt List.isEmpty_iff.mpr none_yet
    rw [add_of_not_isEmpty none_yet]
    -- The bounds of a chunk with runs are the lower start and the higher stop.
    refine ⟨?_, ?_⟩
    · show (min c.start (h.payloadRange e).offset).toNat = _
      rw [Word.toNat_min, lowestStart_concat h some_yet, tight.start_eq some_yet]
    · show (max c.stop (h.payloadRange e).stop).toNat = _
      rw [Word.toNat_max, highestStop_concat h some_yet, tight.stop_eq some_yet]

/-- The longer chunk is short, too. -/
theorem Tight.extend? {longer : Chunk} {e : Entry} (tight : c.Tight h threshold)
    (extended : c.extend? h threshold e = some longer) :
    longer.Tight h threshold ∧ longer.entries = c.entries ++ [e] := by
  unfold Chunk.extend? at extended
  simp only at extended
  split at extended
  case isFalse => cases extended
  case isTrue below =>
    cases extended
    obtain ⟨start_eq, stop_eq⟩ := tight.bounds_add e
    rw [← entries_add (h := h) c e] at start_eq stop_eq
    exact ⟨⟨fun _ => start_eq, fun _ => stop_eq, .inr below⟩, entries_add c e⟩

/-- A run that does not fit would make the chunk reach the threshold. -/
theorem Tight.threshold_le (tight : c.Tight h threshold) {e : Entry}
    (refused : c.extend? h threshold e = none) :
    threshold.toNat ≤ spanOf h (c.entries ++ [e]) := by
  unfold Chunk.extend? at refused
  simp only at refused
  split at refused
  case isTrue => cases refused
  case isFalse reached =>
    obtain ⟨start_eq, stop_eq⟩ := tight.bounds_add e
    rw [span, start_eq, stop_eq] at reached
    exact Nat.not_lt.mp reached

/-- A chunk with runs has one, or spans less than the threshold. -/
theorem Tight.short_entries (tight : c.Tight h threshold) (some_yet : c.entries ≠ []) :
    c.entries.length = 1 ∨ (c.entries ≠ [] ∧ spanOf h c.entries < threshold.toNat) := by
  rcases tight.short with single | below
  · exact .inl (Nat.le_antisymm single (List.length_pos_iff.mpr some_yet))
  · rw [tight.span_eq some_yet] at below
    exact .inr ⟨some_yet, below⟩

/-- One read holds what a chunk spans. -/
theorem Tight.span_le (tight : c.Tight h threshold)
    (bounded : threshold.toNat ≤ Word.largest32) (some_yet : c.entries ≠ []) :
    c.span ≤ Word.largest32 := by
  rcases tight.short with single | below
  · -- A single payload is no longer than one read can be.
    obtain ⟨e, entries_eq⟩ := List.length_eq_one_iff.mp
      (Nat.le_antisymm single (List.length_pos_iff.mpr some_yet))
    have short : e.length.toNat ≤ Word.largest32 := Word.toNat_le_largest32 e.length
    have stop_eq := toNat_stop_payloadRange (h := h) e
    have span_eq : spanOf h [e]
        = (h.payloadRange e).stop.toNat - (h.payloadRange e).offset.toNat := rfl
    rw [tight.span_eq some_yet, entries_eq, span_eq]
    omega
  · exact Nat.le_trans (Nat.le_of_lt below) bounded

/-! ### Plans -/

/-- The chunk, if there is something to read for it. -/
def flushed (c : Chunk) : List Chunk := if c.entries.isEmpty then [] else [c]

/-- The chunk with what is met, if that is a run that still fits. -/
def joined? (h : Header) (threshold : UInt64) (c : Chunk) : WalkEvent → Option Chunk
  | .run e => c.extend? h threshold e
  | .pointer => none
  | .leave => none

/-- The chunk that begins where the one before was read. -/
def begun (h : Header) : WalkEvent → Chunk
  | .run e => .single h e
  | .pointer => .empty
  | .leave => .empty

/-- What a visit with a chunk does on the steps of an itinerary: it reads directories with the walk
and chunks in between. -/
def plan (h : Header) (threshold : UInt64) : Chunk → List (Step WalkEvent) → List (Step Chunk)
  | c, [] => c.flushed.map .find
  | c, .read range :: steps => .read range :: plan h threshold c steps
  | c, .find event :: steps =>
    match c.joined? h threshold event with
    | some longer => plan h threshold longer steps
    | none => c.flushed.map .find ++ plan h threshold (begun h event) steps

/-- A chunk without runs is not read. -/
theorem flushed_of_nil (none_yet : c.entries = []) : c.flushed = [] := by
  rw [flushed, if_pos (List.isEmpty_iff.mpr none_yet)]

/-- A chunk with runs is read once. -/
theorem flushed_of_ne_nil (some_yet : c.entries ≠ []) : c.flushed = [c] := by
  rw [flushed, if_neg (mt List.isEmpty_iff.mp some_yet)]

/-- A run that joins the chunk adds nothing to the plan yet. -/
theorem plan_joined {event : WalkEvent} {longer : Chunk}
    (joined : c.joined? h threshold event = some longer) (steps : List (Step WalkEvent)) :
    plan h threshold c (.find event :: steps) = plan h threshold longer steps := by
  rw [plan, joined]

/-- What does not join the chunk has it read first, and then begins the next one. -/
theorem plan_flushed {event : WalkEvent} (refused : c.joined? h threshold event = none)
    (steps : List (Step WalkEvent)) :
    plan h threshold c (.find event :: steps)
      = c.flushed.map .find ++ plan h threshold (begun h event) steps := by
  rw [plan, refused]

/-- The chunk that begins with an event has the right bounds. -/
theorem tight_begun (event : WalkEvent) : (begun h event).Tight h threshold := by
  cases event with
  | run e => exact .single e
  | pointer => exact .empty
  | leave => exact .empty

/-- What joins a chunk is a run. -/
theorem Tight.joined? {event : WalkEvent} {longer : Chunk} (tight : c.Tight h threshold)
    (joined : c.joined? h threshold event = some longer) :
    longer.Tight h threshold ∧ ∃ e, event = .run e ∧ longer.entries = c.entries ++ [e] := by
  cases event with
  | run e =>
      obtain ⟨tight', entries_eq⟩ := tight.extend? joined
      exact ⟨tight', e, rfl, entries_eq⟩
  | pointer => cases joined
  | leave => cases joined

/-- The directories of a plan are those of the itinerary. Joining runs moves their reads
behind some of the directories, but not the directories among themselves. -/
theorem ranges_plan (c : Chunk) (steps : List (Step WalkEvent)) :
    (plan h threshold c steps).filterMap Step.range? = steps.filterMap Step.range? := by
  have no_range : ∀ chunks : List Chunk,
      (chunks.map Step.find).filterMap Step.range? = [] := by
    intro chunks
    simp [Step.range?]
  induction steps generalizing c with
  | nil => exact no_range _
  | cons step steps ih =>
      cases step with
      | read range => exact congrArg (range :: ·) (ih c)
      | find event =>
          -- A chunk that is flushed adds no directory to the plan, only a read of its own.
          cases joined : c.joined? h threshold event with
          | some longer =>
              rw [plan_joined joined]
              exact ih longer
          | none =>
              rw [plan_flushed joined, List.filterMap_append, no_range]
              exact ih _

/-- The chunks of a plan. -/
def planned (h : Header) (threshold : UInt64) (c : Chunk) (steps : List (Step WalkEvent)) :
    List Chunk :=
  (plan h threshold c steps).filterMap Step.item?

/-- At the end the last chunk is read, if it has runs. -/
theorem planned_nil (c : Chunk) : planned h threshold c [] = c.flushed := by
  simp [planned, plan, Step.item?, Function.comp_def]

/-- A run that joins changes no chunk but the one that is begun. -/
theorem planned_joined {event : WalkEvent} {longer : Chunk}
    (joined : c.joined? h threshold event = some longer) (steps : List (Step WalkEvent)) :
    planned h threshold c (.find event :: steps) = planned h threshold longer steps := by
  rw [planned, plan_joined joined, planned]

/-- What does not join has the chunk added to those that are planned. -/
theorem planned_flushed {event : WalkEvent} (refused : c.joined? h threshold event = none)
    (steps : List (Step WalkEvent)) :
    planned h threshold c (.find event :: steps)
      = c.flushed ++ planned h threshold (begun h event) steps := by
  rw [planned, plan_flushed refused, List.filterMap_append, planned]
  simp [Step.item?, Function.comp_def]

/-- Every chunk of a plan has runs and the bounds of its runs. It was the chunk being
gathered when it came into the plan, for which this is the invariant. -/
theorem Tight.of_mem_planned (tight : c.Tight h threshold) {steps : List (Step WalkEvent)}
    {chunk : Chunk} (member : chunk ∈ planned h threshold c steps) :
    chunk.entries ≠ [] ∧ chunk.Tight h threshold := by
  -- A chunk comes into the plan by being flushed, at an event or in the end.
  have of_flushed : ∀ {c : Chunk}, c.Tight h threshold → chunk ∈ c.flushed →
      chunk.entries ≠ [] ∧ chunk.Tight h threshold := by
    intro c tight member
    by_cases none_yet : c.entries = []
    · rw [flushed_of_nil none_yet] at member
      cases member
    · rw [flushed_of_ne_nil none_yet, List.mem_singleton] at member
      rw [member]
      exact ⟨none_yet, tight⟩
  induction steps generalizing c with
  | nil =>
      rw [planned_nil] at member
      exact of_flushed tight member
  | cons step steps ih =>
      cases step with
      | read range => exact ih tight member
      | find event =>
          cases joined : c.joined? h threshold event with
          | some longer =>
              rw [planned_joined joined] at member
              exact ih (tight.joined? joined).1 member
          | none =>
              rw [planned_flushed joined] at member
              rcases List.mem_append.mp member with first | later
              · exact of_flushed tight first
              · exact ih (tight_begun event) later

/-- The chunk before those of the rest of its stretch, if it has runs. -/
theorem Tight.grouped_flushed (tight : c.Tight h threshold) {chunks : List (List Entry)}
    (grouped : Grouped h threshold.toNat chunks)
    (full : ∀ e more after, chunks = (e :: more) :: after →
      c.extend? h threshold e = none) :
    Grouped h threshold.toNat (c.flushed.map Chunk.entries ++ chunks) ∧
      (c.flushed.map Chunk.entries ++ chunks).flatten = c.entries ++ chunks.flatten := by
  by_cases none_yet : c.entries = []
  · rw [flushed_of_nil none_yet, none_yet]
    exact ⟨grouped, rfl⟩
  · rw [flushed_of_ne_nil none_yet]
    refine ⟨grouped.cons (tight.short_entries none_yet) ?_, rfl⟩
    intro e more after split
    exact tight.threshold_le (full e more after split)

/-- A chunk that is read at the end of a stretch is the last one of it. -/
theorem Tight.chunksOf_end (tight : c.Tight h threshold) {cut chunks : List (List Entry)}
    (rest : ChunksOf h threshold.toNat cut chunks) :
    ChunksOf h threshold.toNat (c.entries :: cut) (c.flushed.map Chunk.entries ++ chunks) := by
  obtain ⟨grouped, flatten_eq⟩ := tight.grouped_flushed .nil nofun
  rw [List.append_nil] at grouped flatten_eq
  have chunks_of := rest.cons grouped
  rwa [flatten_eq, List.flatten_nil, List.append_nil] at chunks_of

/-- A chunk that is read because a run does not fit comes before the other chunks of the
stretch, the next of which begins with the run. -/
theorem Tight.chunksOf_refused (tight : c.Tight h threshold) {e : Entry}
    (refused : c.extend? h threshold e = none) {stretch : List Entry}
    {cut chunks : List (List Entry)}
    (rest : ChunksOf h threshold.toNat ((e :: stretch) :: cut) chunks) :
    ChunksOf h threshold.toNat ((c.entries ++ e :: stretch) :: cut)
      (c.flushed.map Chunk.entries ++ chunks) := by
  obtain ⟨groups, groups_eq, all_grouped, rfl⟩ := rest
  -- The chunks of the first stretch are set apart, as the chunk goes before them.
  obtain ⟨group, groups, rfl, flatten_eq, rfl⟩ := List.map_eq_cons_iff.mp groups_eq
  obtain ⟨grouped, later_grouped⟩ := List.forall_mem_cons.mp all_grouped
  obtain ⟨grouped', flatten_eq'⟩ := tight.grouped_flushed grouped (by
    intro e' more after split
    rw [split] at flatten_eq
    injection flatten_eq with same
    rwa [same])
  have later : ChunksOf h threshold.toNat (groups.map List.flatten) groups.flatten :=
    ⟨groups, rfl, later_grouped, rfl⟩
  have chunks_of := later.cons grouped'
  rwa [flatten_eq', flatten_eq, List.append_assoc] at chunks_of

/-- The chunks of a plan are those of the stretches of the tour. The runs that the visit has
gathered already belong to the first stretch. -/
theorem Tight.chunksOf_planned (tight : c.Tight h threshold) (steps : List (Step WalkEvent)) :
    ChunksOf h threshold.toNat
      ((stretches (steps.filterMap Step.item?)).modifyHead (c.entries ++ ·))
      ((planned h threshold c steps).map Chunk.entries) := by
  -- The chunk that is begun varies: it grows with every run that joins and is new after every
  -- read.
  induction steps generalizing c with
  | nil =>
      have none_left : ChunksOf h threshold.toNat [] [] := ⟨[], rfl, nofun, rfl⟩
      have chunks_of := tight.chunksOf_end none_left
      rw [List.append_nil] at chunks_of
      rw [planned_nil]
      show ChunksOf h _ [c.entries ++ []] _
      rwa [List.append_nil]
  | cons step steps ih =>
      cases step with
      | read range => exact ih tight
      | find event =>
          obtain ⟨stretch, cut, stretches_eq⟩ := exists_stretches (steps.filterMap Step.item?)
          rw [stretches_eq] at ih
          show ChunksOf h _ ((stretches (event :: steps.filterMap Step.item?)).modifyHead _) _
          cases joined : c.joined? h threshold event with
          | some longer =>
              -- The run goes over from the rest of the stretch to the chunk.
              obtain ⟨tight', e, rfl, entries_eq⟩ := tight.joined? joined
              have rest := ih tight'
              rw [entries_eq] at rest
              rw [planned_joined joined, stretches, stretches_eq]
              show ChunksOf h _ ((c.entries ++ e :: stretch) :: cut) _
              rwa [List.append_cons]
          | none =>
              -- The chunk is read: before a run that does not fit, or at the end of its stretch.
              have rest := ih (tight_begun event)
              rw [planned_flushed joined, List.map_append]
              cases event with
              | run e =>
                  rw [stretches, stretches_eq]
                  exact tight.chunksOf_refused joined rest
              | pointer =>
                  rw [stretches, stretches_eq]
                  show ChunksOf h _ ((c.entries ++ []) :: stretch :: cut) _
                  rw [List.append_nil]
                  exact tight.chunksOf_end rest
              | leave =>
                  rw [stretches, stretches_eq]
                  show ChunksOf h _ ((c.entries ++ []) :: stretch :: cut) _
                  rw [List.append_nil]
                  exact tight.chunksOf_end rest

end Chunk

end TileArchive
