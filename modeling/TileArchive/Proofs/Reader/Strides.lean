import TileArchive.Proofs.Dialogue
import TileArchive.Reader.Walker

/-!
# `TileArchive.Proofs.Reader.Strides`: a walk step by step

A walker goes on by loading the directory that is pending, if one is, and then meeting the next
event. A `Stride` is what one such step does. The source may answer differently at every step, so
`Walker.strides` takes one answering rule for each.

* `Strode` lists all that a step can do, and `Walker.strode` says that nothing else happens.
* `walk_ends`: however the steps are answered, one of them is the last.
* `fed_of_leads`: whoever is handed the events of a walk is handed those of some strides, one after
  another, whatever is read in between.

## Why answers may change

A bound on a walk that holds only for a source that always answers alike would say little: a
directory may be loaded again and come out different, because it was written meanwhile or because
the source is hostile. Nothing here compares two answers. Each step is given its own rule, and what
is proved holds for every list of rules.

A step reads at most once, so one rule for a step is no restriction: whatever it was answered, there
is a rule that answers so (`exists_answer`). This is what turns a run of the walk as a dialogue, a
path of questions with their answers, into a list of strides.

## The inversion of a step

`Strode` has three constructors: the pending directory is refused and the walk is over, nothing is
left and the walk is over, or an event is met and the walk goes on. The last has what is open before
the event (`Opens`) and what the event does to the open frames (`Meets`) as separate relations,
because a step is these two in a row. All bounds in `Proofs/Reader/Bounds.lean` are by cases on them
and never open `Walker.next`.

`walk_ends` is by the rank of a walker, which every step lowers (`Walker.Nearer`). A walk has no
bound on its number of steps that does not depend on the directories, since they may be of any
length; that it ends is proved for each list of rules by itself.
-/

set_option autoImplicit false

namespace TileArchive

/-- One step of a walk. It may load a directory and may meet an event; it does neither more
than once. -/
structure Stride where
  /-- The directory that was pending, and what came of loading it. -/
  load : Option (ByteRange × Except ReadError Directory)
  /-- What was met. Nothing is met at the end, nor where the directory cannot be loaded. -/
  event : Option WalkEvent

namespace Stride

/-- The error that ended the walk, if one did. -/
def error? (s : Stride) : Option ReadError :=
  match s.load with
  | some (_, .error e) => some e
  | _ => none

/-- What was read. A directory without bytes is not. -/
def reads (s : Stride) : List ByteRange := (s.load.map (·.1)).toList.filter (! ·.isEmpty)

end Stride

namespace Walker

/-- The directory that is pending, and what comes of loading it. -/
def load (h : Header) (answer : ByteRange → Except IoError Bytes) (w : Walker) :
    Option (ByteRange × Except ReadError Directory) :=
  w.pending.map fun range => (range, (loadDirectory h range).run answer)

/-- The next step of a walker where its read is answered by a rule, and the walker after it unless
the walk is over. -/
def stride (h : Header) (answer : ByteRange → Except IoError Bytes) (w : Walker) :
    Stride × Option Walker :=
  match (w.next h).run answer with
  | .ok (some (event, v)) => (⟨w.load h answer, some event⟩, some v)
  | .ok none => (⟨w.load h answer, none⟩, none)
  | .error _ => (⟨w.load h answer, none⟩, none)

/-- The next steps of a walker, each with its own rule for answers, and the walker after them
unless the walk is over by then. -/
def strides (h : Header) :
    List (ByteRange → Except IoError Bytes) → Walker → List Stride × Option Walker
  | [], w => ([], some w)
  | answer :: answers, w =>
    match w.stride h answer with
    | (s, none) => ([s], none)
    | (s, some v) => (s :: (strides h answers v).1, (strides h answers v).2)

end Walker

/-! ### One step -/

/-- What an event does to the frames that are open: it closes the innermost, or takes a row
off it, and a pointer leaves a directory to be loaded. A run may take more than one row off,
where pointers stand before it that are passed over. -/
inductive Meets : List (List Entry) → WalkEvent → Walker → Prop where
  | leave {rows : List Entry} {outer : List (List Entry)} {v : Walker}
      (frames_eq : v.frames = outer) (pending_eq : v.pending = none) :
      Meets (rows :: outer) .leave v
  | run {rows rest : List Entry} {outer : List (List Entry)} {e : Entry} {v : Walker}
      (shorter : rest.length < rows.length) (frames_eq : v.frames = rest :: outer)
      (pending_eq : v.pending = none) : Meets (rows :: outer) (.run e) v
  | pointer {rest : List Entry} {outer : List (List Entry)} {e : Entry} {range : ByteRange}
      {v : Walker} (frames_eq : v.frames = rest :: outer) (pending_eq : v.pending = some range) :
      Meets ((e :: rest) :: outer) .pointer v

/-- What is open once the pending directory was loaded, if one is pending. A directory that
cannot be loaded opens nothing and is not among the cases. -/
inductive Opens :
    Walker → Option (ByteRange × Except ReadError Directory) → List (List Entry) → Prop where
  | same {w : Walker} (pending_eq : w.pending = none) : Opens w none w.frames
  | loaded {w : Walker} {range : ByteRange} {d : Directory} (pending_eq : w.pending = some range) :
      Opens w (some (range, .ok d)) (d.entries :: w.frames)

/-- All that one step of a walker can do. In the first two cases the walk is over. In the
third it goes on with a walker that is nearer to its end, which is why every walk ends. -/
inductive Strode (w : Walker) : Stride × Option Walker → Prop where
  | refused {range : ByteRange} {e : ReadError} (pending_eq : w.pending = some range) :
      Strode w (⟨some (range, .error e), none⟩, none)
  | ended {load : Option (ByteRange × Except ReadError Directory)} (opens : Opens w load []) :
      Strode w (⟨load, none⟩, none)
  | met {load : Option (ByteRange × Except ReadError Directory)} {frames : List (List Entry)}
      {event : WalkEvent} {v : Walker} (opens : Opens w load frames) (meets : Meets frames event v)
      (nearer : Walker.Nearer v w) : Strode w (⟨load, some event⟩, some v)

namespace Walker

variable {h : Header} {answer : ByteRange → Except IoError Bytes}

/-- An event that is met takes something off the open frames. This reads the step of the
walker once, so that counting directories, runs and ends does not have to. -/
theorem meets_of_step {frames : List (List Entry)} {fits : frames.length ≤ maxDirectories}
    {event : WalkEvent} {v : Walker} (stepped : step h frames fits = some (event, v)) :
    Meets frames event v := by
  match frames, fits with
  | [], _ => simp [step] at stepped
  | rows :: outer, fits =>
    -- The step looks at the next row of the innermost directory, or at the next run where
    -- pointers are passed over.
    rw [step] at stepped
    split at stepped
    · split at stepped
      · cases stepped
        exact .leave rfl rfl
      · split at stepped <;> cases stepped
        · exact .pointer rfl rfl
        · exact .run (Nat.lt_succ_self _) rfl rfl
    · split at stepped
      · cases stepped
        exact .leave rfl rfl
      · next e rest passed =>
        cases stepped
        -- Passing over pointers leaves no more rows than there were, so taking the run off
        -- leaves fewer.
        have shorter := (List.dropWhile_sublist (p := Entry.isPointer) (l := rows)).length_le
        rw [passed] at shorter
        exact .run shorter rfl rfl

/-- Without a next event all directories are closed. -/
theorem eq_nil_of_step_eq_none {frames : List (List Entry)}
    {fits : frames.length ≤ maxDirectories} (stepped : step h frames fits = none) :
    frames = [] := by
  match frames, fits with
  | [], _ => rfl
  | rows :: outer, fits =>
    rw [step] at stepped
    split at stepped
    · split at stepped
      · cases stepped
      · split at stepped <;> cases stepped
    · split at stepped <;> cases stepped

/-- The next event of some open directories, with what is known of the walker after it. -/
theorem nearer_cases {w : Walker} (frames : List (List Entry))
    (fits : frames.length ≤ maxDirectories)
    (inside : ∀ v : Walker, Below v.rank (rankOf 0 frames) → Nearer v w) :
    (frames = [] ∧ nearer h frames fits inside = none) ∨
      ∃ event v, Meets frames event v.1 ∧ nearer h frames fits inside = some (event, v) := by
  unfold nearer
  split
  · next stepped => exact .inl ⟨eq_nil_of_step_eq_none stepped, rfl⟩
  · next event v stepped => exact .inr ⟨event, _, meets_of_step stepped, rfl⟩

/-- What comes of going on: the pending directory is not loaded, or the next event is that of the
directories which are open then. -/
theorem next_cases (h : Header) (answer : ByteRange → Except IoError Bytes) (w : Walker) :
    (∃ range e, w.load h answer = some (range, .error e) ∧ (w.next h).run answer = .error e) ∨
      ∃ frames, Opens w (w.load h answer) frames ∧
        ((frames = [] ∧ (w.next h).run answer = .ok none) ∨
          ∃ event v, Meets frames event v.1 ∧ (w.next h).run answer = .ok (some (event, v))) := by
  -- A walk that has a directory pending loads it first. What follows is the same for both.
  match w with
  | ⟨frames, none, fits⟩ =>
    refine .inr ⟨frames, .same rfl, ?_⟩
    rcases nearer_cases (h := h) (w := ⟨frames, none, fits⟩) frames fits fun _ less => less with
      ⟨nil, none_eq⟩ | ⟨event, v, meets, some_eq⟩
    · exact .inl ⟨nil, by rw [next, none_eq]; rfl⟩
    · exact .inr ⟨event, v, meets, by rw [next, some_eq]; rfl⟩
  | ⟨frames, some range, fits⟩ =>
    rw [next, Fetch.run_bind, load, Option.map_some]
    cases load_eq : (loadDirectory h range).run answer with
    | error e => exact .inl ⟨range, e, rfl, rfl⟩
    | ok d =>
        refine .inr ⟨d.entries :: frames, .loaded rfl, ?_⟩
        · rcases nearer_cases (h := h) (w := ⟨frames, some range, fits⟩) (d.entries :: frames) fits
            fun _ less => below_trans less (rankOf_open _ fits) with
            ⟨nil, -⟩ | ⟨event, v, meets, some_eq⟩
          · cases nil
          · exact .inr ⟨event, v, meets, congrArg Except.ok some_eq⟩

/-- A step does one of the things listed. From here on walks are counted by cases of
`Strode` and the walker is not unfolded any more. -/
theorem strode (h : Header) (answer : ByteRange → Except IoError Bytes) (w : Walker) :
    Strode w (w.stride h answer) := by
  unfold stride
  -- The three cases of going on are the three things that a step can do.
  rcases next_cases h answer w with ⟨range, e, load_eq, next_eq⟩ | ⟨frames, opens, cases⟩
  · rw [next_eq, load_eq]
    rw [load, Option.map_eq_some_iff] at load_eq
    obtain ⟨_, pending_eq, same⟩ := load_eq
    obtain ⟨rfl, -⟩ := Prod.mk.inj same
    exact .refused pending_eq
  · rcases cases with ⟨rfl, next_eq⟩ | ⟨event, ⟨v, nearer⟩, meets, next_eq⟩
    · rw [next_eq]
      exact .ended opens
    · rw [next_eq]
      exact .met opens meets nearer

/-! ### Any number of steps -/

/-- What holds of no step, and of one step before others if it holds of those, holds of all steps
of a walk. -/
theorem strides_induct {motive : Walker → List Stride → Option Walker → Prop}
    (here : ∀ w, motive w [] (some w)) (ended : ∀ w s, Strode w (s, none) → motive w [s] none)
    (on : ∀ w s v log after, Strode w (s, some v) → motive v log after →
      motive w (s :: log) after)
    (answers : List (ByteRange → Except IoError Bytes)) (w : Walker) :
    motive w (w.strides h answers).1 (w.strides h answers).2 := by
  -- The induction is on the answers, since a walk takes one of them for each step.
  induction answers generalizing w with
  | nil => exact here w
  | cons answer answers ih =>
      have strode := w.strode h answer
      rw [strides]
      cases step : w.stride h answer with
      | mk s after =>
          rw [step] at strode
          cases after with
          | none => exact ended w s strode
          | some v => exact on w s v _ _ strode (ih v)

/-- However the steps of a walk are answered, one of them is the last. Each step that is not
brings the walker nearer to its end, by an order in which nothing falls for ever. -/
theorem walk_ends (h : Header) (answers : Nat → ByteRange → Except IoError Bytes) (w : Walker) :
    ∃ count, (strides h ((List.range count).map answers) w).2 = none := by
  -- No rank can fall for ever.
  induction w using (InvImage.wf rank below_wf).induction generalizing answers with
  | _ w ih =>
  cases strode : w.stride h (answers 0) with
  | mk s after =>
      cases after with
      | none => exact ⟨1, by simp [strides, strode]⟩
      | some v =>
          have nearer : Nearer v w := by
            have step := w.strode h (answers 0)
            rw [strode] at step
            cases step with
            | met _ _ nearer => exact nearer
          obtain ⟨count, ends⟩ := ih v nearer fun i => answers (i + 1)
          refine ⟨count + 1, ?_⟩
          rw [List.range_succ_eq_map, List.map_cons, List.map_map, strides, strode]
          exact ends

end Walker

/-! ### Consumers -/

section Consumers

variable {σ β : Type} {h : Header} (onEvent : σ → WalkEvent → Fetch (σ ⊕ β))
  (atEnd : σ → Option ReadError → Fetch β)

/-- What has been read, with the answers. -/
abbrev Path : Type := List ((_ : ByteRange) × Except IoError Bytes)

/-- A consumer is handed the events of some steps one after another, until it stops or the
walk is over. The path holds what is read in each step and what the consumer reads on its
own. Steps and consumer take turns, so the order of all reads is told. -/
inductive Fed : List Stride → σ → Path → β → Prop where
  | goes_on {s : Stride} {log : List Stride} {event : WalkEvent} {state state' : σ}
      {read own rest : Path} {result : β} (event_eq : s.event = some event)
      (read_eq : read.map (·.1) = s.reads) (takes : (onEvent state event).Leads own (.inl state'))
      (later : Fed log state' rest result) :
      Fed (s :: log) state (read ++ (own ++ rest)) result
  | stops {s : Stride} {event : WalkEvent} {state : σ} {read own : Path} {result : β}
      (event_eq : s.event = some event) (read_eq : read.map (·.1) = s.reads)
      (takes : (onEvent state event).Leads own (.inr result)) :
      Fed [s] state (read ++ own) result
  | ends {s : Stride} {state : σ} {read own : Path} {result : β} (event_eq : s.event = none)
      (read_eq : read.map (·.1) = s.reads) (takes : (atEnd state s.error?).Leads own result) :
      Fed [s] state (read ++ own) result

/-- A path with at most one read is what comes of a rule for answers. -/
theorem exists_answer {α : Type} {d : Fetch α} {path : Path} {result : α}
    (leads : d.Leads path result) (short : path.length ≤ 1) :
    ∃ answer, d.run answer = result ∧ path.map (·.1) = d.reads answer := by
  cases leads with
  | done => exact ⟨fun _ => .ok [], rfl, rfl⟩
  | @ask range next path _ answer rest =>
      refine ⟨fun _ => answer, ?_⟩
      rw [Fetch.run, Fetch.reads]
      generalize next answer = d at rest
      cases rest with
      | done => exact ⟨rfl, rfl⟩
      | ask _ _ => simp at short

/-- Loading a directory asks one question at most. -/
theorem length_le_one_of_leads_loadDirectory {range : ByteRange} {path : Path}
    {result : Except ReadError Directory} (leads : (loadDirectory h range).Leads path result) :
    path.length ≤ 1 := by
  rw [loadDirectory] at leads
  split at leads
  · cases leads
    exact Nat.zero_le 1
  · cases leads with
    | ask answer leads =>
        cases leads
        exact Nat.le_refl 1

/-- A step reads no more than the directory that is pending. -/
theorem length_le_one_of_leads_next {w : Walker} {path : Path}
    {result : Except ReadError (Option (WalkEvent × Walker.NearerThan w))}
    (leads : (w.next h).Leads path result) : path.length ≤ 1 := by
  match w with
  | ⟨frames, none, fits⟩ =>
    cases leads
    exact Nat.zero_le 1
  | ⟨frames, some range, fits⟩ =>
    obtain ⟨first, loaded, rest, rfl, leads, on⟩ := Dialogue.leads_bind_iff.mp leads
    have short := length_le_one_of_leads_loadDirectory leads
    cases loaded <;> cases on <;> simpa using short

/-- A directory is read with one read, and one without bytes with none. -/
theorem reads_loadDirectory (h : Header) (answer : ByteRange → Except IoError Bytes)
    (range : ByteRange) :
    (loadDirectory h range).reads answer = if range.isEmpty then [] else [range] := by
  rw [loadDirectory]
  split <;> rfl

/-- What a step reads is what its stride says. -/
theorem reads_next (h : Header) (answer : ByteRange → Except IoError Bytes) (w : Walker) :
    (w.next h).reads answer = (w.stride h answer).1.reads := by
  have load_eq : (w.stride h answer).1.load = w.load h answer := by
    unfold Walker.stride
    split <;> rfl
  rw [Stride.reads, load_eq]
  -- A step reads only the range of the pending directory, and not even that if it is empty.
  match w with
  | ⟨frames, none, fits⟩ => rfl
  | ⟨frames, some range, fits⟩ =>
    rw [Walker.next, Fetch.reads_bind, reads_loadDirectory]
    cases (loadDirectory h range).run answer <;> cases empty : range.isEmpty <;>
      simp [empty, Walker.load, Fetch.reads]

/-- A walk that fails in a step does so with the error of that step. -/
theorem stride_of_next_error {answer : ByteRange → Except IoError Bytes} {w : Walker}
    {e : ReadError} (next_eq : (w.next h).run answer = .error e) :
    ∃ s, w.stride h answer = (s, none) ∧ s.event = none ∧ s.error? = some e := by
  refine ⟨⟨w.load h answer, none⟩, by rw [Walker.stride, next_eq], rfl, ?_⟩
  rcases w.next_cases h answer with ⟨range, e', load_eq, refused⟩ | ⟨_, _, cases⟩
  · rw [next_eq] at refused
    cases refused
    rw [load_eq]
    rfl
  · rcases cases with ⟨-, goes_on⟩ | ⟨_, _, _, goes_on⟩ <;>
      · rw [next_eq] at goes_on
        cases goes_on

/-- A walk that comes to its end in a step has no error there. -/
theorem stride_of_next_none {answer : ByteRange → Except IoError Bytes} {w : Walker}
    (next_eq : (w.next h).run answer = .ok none) :
    ∃ s, w.stride h answer = (s, none) ∧ s.event = none ∧ s.error? = none := by
  refine ⟨⟨w.load h answer, none⟩, by rw [Walker.stride, next_eq], rfl, ?_⟩
  rcases w.next_cases h answer with ⟨_, _, _, refused⟩ | ⟨_, opens, -⟩
  · rw [next_eq] at refused
    cases refused
  · generalize w.load h answer = load at opens
    cases opens <;> rfl

/-- The stride of a step that meets an event. -/
theorem stride_of_next_some {answer : ByteRange → Except IoError Bytes} {w : Walker}
    {event : WalkEvent} {v : Walker.NearerThan w}
    (next_eq : (w.next h).run answer = .ok (some (event, v))) :
    ∃ s, w.stride h answer = (s, some v.1) ∧ s.event = some event :=
  ⟨⟨w.load h answer, some event⟩, by rw [Walker.stride, next_eq], rfl⟩

variable {onEvent atEnd}

/-- Whoever is handed the events of a walk is handed those of some strides. By induction on
the rank of the walker, since every step leads to a walker that is nearer to its end. -/
theorem fed_of_leads {w : Walker} {state : σ} {path : Path} {result : β}
    (leads : (w.drive h onEvent atEnd state).Leads path result) :
    ∃ answers, Fed onEvent atEnd (w.strides h answers).1 state path result := by
  induction w using (InvImage.wf Walker.rank Walker.below_wf).induction generalizing state path with
  | _ w ih =>
  rw [Walker.drive] at leads
  obtain ⟨read, next, rest, rfl, leads_next, on⟩ := Dialogue.leads_bind_iff.mp leads
  -- The step has asked one question at most, so some rule gives the answer it got.
  obtain ⟨answer, next_eq, read_eq⟩ :=
    exists_answer leads_next (length_le_one_of_leads_next leads_next)
  rw [reads_next] at read_eq
  match next with
  | .error e =>
    obtain ⟨s, stride_eq, event_eq, error_eq⟩ := stride_of_next_error next_eq
    rw [stride_eq] at read_eq
    refine ⟨[answer], ?_⟩
    simp only [Walker.strides, stride_eq]
    exact .ends event_eq read_eq (error_eq ▸ on)
  | .ok none =>
    obtain ⟨s, stride_eq, event_eq, error_eq⟩ := stride_of_next_none next_eq
    rw [stride_eq] at read_eq
    refine ⟨[answer], ?_⟩
    simp only [Walker.strides, stride_eq]
    exact .ends event_eq read_eq (error_eq ▸ on)
  | .ok (some (event, ⟨v, nearer⟩)) =>
    obtain ⟨s, stride_eq, event_eq⟩ := stride_of_next_some next_eq
    rw [stride_eq] at read_eq
    obtain ⟨own, taken, rest, rfl, takes, later⟩ := Dialogue.leads_bind_iff.mp on
    match taken with
    | .inl state' =>
      obtain ⟨answers, fed⟩ := ih v nearer later
      refine ⟨answer :: answers, ?_⟩
      simp only [Walker.strides, stride_eq]
      exact .goes_on event_eq read_eq takes fed
    | .inr result' =>
      cases later
      refine ⟨[answer], ?_⟩
      simp only [Walker.strides, stride_eq, List.append_nil]
      exact .stops event_eq read_eq takes

end Consumers

end TileArchive
