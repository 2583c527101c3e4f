import Mathlib.Tactic.Ring
import TileArchive.Proofs.Reader.Strides
import TileArchive.Proofs.Reader.Tour

/-!
# `TileArchive.Proofs.Reader.Bounds`: how much a walk or a look-up can take

Directories may point at themselves, at each other and at the root directory, and a walk then goes
through the same ones again and again. What bounds it is the number of levels and the number of
rows of a directory.

* `Walker.toLoad` is how many directories a walker can still load if none has more than so many
  rows. No step adds to it, and loading a directory takes one off (`Strode.toLoad_le`).
* `Strode.rowsLeft_le` and `Strode.frames_eq` say the same of runs and of open directories.
* `descends_of_leads`: a look-up asks for few directories and at most one payload.

`walks_and_lookUps_bounded` puts these together with the end of every walk.

## The potential

At most four directories are open at a time. A row of the innermost one may be a pointer, behind
it stands a directory, behind each of its rows another, until there are four levels. So with `n`
rows at most, a row at depth `d` is worth the size of a tree with branching `n` and `4 - d` levels
(`treeSize`). The potential of a walker is what its open rows and its pending directory are worth.
Loading a directory of at most `n` rows turns what it was worth into one load and its rows; meeting
a row takes its worth off, or moves it to the directory that is pending then. At the start one
directory is pending and nothing is open, which is worth `1 + n + n ^ 2 + n ^ 3`.

Runs are counted against loads: every run is a row of a directory that was loaded, and every load
brings `n` rows at most. The number of open directories is counted exactly, since every load opens
one and every end of a directory closes one.

## Look-ups

A look-up needs no potential. It descends a fixed number of levels, and `Descends` is by induction
on them: so many directories at most, then at most one payload, and no payload behind a pointer on
the last level.
-/

set_option autoImplicit false

namespace TileArchive

/-! ### What is counted -/

namespace Stride

/-- How many directories were loaded, counting one that could not be. -/
def loads (log : List Stride) : Nat := log.countP fun s => s.load.isSome

/-- How many directories were closed. -/
def closed (log : List Stride) : Nat := log.countP fun s => s.event == some .leave

/-- The directory that was loaded in a step. -/
def directory? (s : Stride) : Option Directory :=
  match s.load with
  | some (_, .ok d) => some d
  | _ => none

/-- All directories that were loaded. -/
def directories (log : List Stride) : List Directory := log.filterMap directory?

/-- The runs that were met. -/
def runs (log : List Stride) : List Entry := log.filterMap fun s => s.event.bind WalkEvent.entry?

/-- No directory that was loaded has more than `n` rows. The bounds on walks and look-ups
are given in terms of this number, as nothing else limits how wide an archive is. -/
def Narrow (n : Nat) (log : List Stride) : Prop := ∀ d ∈ directories log, d.entries.length ≤ n

/-- If all directories of a walk have few rows, so have those of its first step and of the
rest. -/
theorem Narrow.of_cons {n : Nat} {s : Stride} {log : List Stride} (narrow : Narrow n (s :: log)) :
    Narrow n [s] ∧ Narrow n log := by
  -- The directories of a walk are those of its steps in order.
  have split : directories (s :: log) = directories [s] ++ directories log := by
    rw [directories, ← List.singleton_append, List.filterMap_append]
    rfl
  unfold Narrow at narrow ⊢
  rw [split] at narrow
  constructor
  · intro d member
    exact narrow d (List.mem_append_left _ member)
  · intro d member
    exact narrow d (List.mem_append_right _ member)

/-- The directories loaded are counted step by step. -/
theorem loads_cons (s : Stride) (log : List Stride) : loads (s :: log) = loads [s] + loads log := by
  rw [loads, ← List.singleton_append, List.countP_append]
  rfl

/-- The directories that end are counted step by step. -/
theorem closed_cons (s : Stride) (log : List Stride) :
    closed (s :: log) = closed [s] + closed log := by
  rw [closed, ← List.singleton_append, List.countP_append]
  rfl

/-- The runs are counted step by step. -/
theorem length_runs_cons (s : Stride) (log : List Stride) :
    (runs (s :: log)).length = (runs [s]).length + (runs log).length := by
  rw [runs, ← List.singleton_append, List.filterMap_append, List.length_append]
  rfl

/-- One step meets at most one run. -/
theorem runs_singleton (s : Stride) : runs [s] = (s.event.bind WalkEvent.entry?).toList := by
  rw [runs, List.filterMap_cons]
  split <;> simp_all

end Stride

open Stride

/-! ### Directories still to be loaded -/

/-- How many directories there are on so many levels if none has more than `n` rows. On
three levels these are `1 + n + n ^ 2`. -/
def treeSize (n : Nat) : (levels : Nat) → Nat
  | 0 => 0
  | levels + 1 => 1 + n * treeSize n levels

/-- The size of a tree with as many levels as directories may be open. -/
theorem treeSize_maxDirectories (n : Nat) :
    treeSize n maxDirectories = 1 + n + n ^ 2 + n ^ 3 := by
  simp only [maxDirectories, treeSize]
  ring

/-- How many directories the rows left in some open ones can lead to. A row of the innermost
directory has the fewest levels below it, and the levels grow by one with each directory
around it. -/
def framesToLoad (n : Nat) : List (List Entry) → Nat
  | [] => 0
  | rows :: outer =>
    rows.length * treeSize n (maxDirectories - (outer.length + 1)) + framesToLoad n outer

/-- How many directories a walker can still load if none has more than `n` rows. Each
directory that is loaded takes one away from this. -/
def Walker.toLoad (n : Nat) (w : Walker) : Nat :=
  w.pending.toList.length * treeSize n (maxDirectories - w.frames.length) + framesToLoad n w.frames

section

variable {n : Nat} {w v : Walker} {frames : List (List Entry)} {s : Stride}

/-- Loading the pending directory takes one off. What is still to be loaded is counted as if
every row were a pointer, so a new directory adds the trees that it may have below it, and
no more. -/
theorem Opens.toLoad_le {load : Option (ByteRange × Except ReadError Directory)}
    (opens : Opens w load frames) {event : Option WalkEvent} (narrow : Narrow n [⟨load, event⟩]) :
    loads [⟨load, event⟩] + framesToLoad n frames ≤ w.toLoad n := by
  cases opens with
  | same pending_eq => simp [loads, Walker.toLoad]
  | @loaded range d pending_eq =>
      have rows_le : d.entries.length ≤ n := narrow d (by simp [directories, directory?])
      have room := w.bounded
      -- A walk with a directory still pending has a level left, so one can be counted off.
      have levels_eq : maxDirectories - w.frames.length
          = maxDirectories - (w.frames.length + 1) + 1 := by
        simp [pending_eq] at room
        omega
      -- The new directory has at most as many leaves as rows, each a tree of the levels
      -- below.
      have fewer :=
        Nat.mul_le_mul_right (treeSize n (maxDirectories - (w.frames.length + 1))) rows_le
      simp only [Walker.toLoad, pending_eq, levels_eq, treeSize, framesToLoad, Option.toList_some]
      simp [loads]
      omega

/-- What is met adds nothing: a directory that becomes pending was counted with its row. -/
theorem Meets.toLoad_le {event : WalkEvent} (meets : Meets frames event v) :
    v.toLoad n ≤ framesToLoad n frames := by
  cases meets with
  | leave frames_eq pending_eq => simp [Walker.toLoad, frames_eq, pending_eq, framesToLoad]
  | run shorter frames_eq pending_eq =>
      have fewer (k : Nat) := Nat.mul_le_mul_right k (Nat.le_of_lt shorter)
      simpa [Walker.toLoad, frames_eq, pending_eq, framesToLoad] using fewer _
  | pointer frames_eq pending_eq =>
      simp [Walker.toLoad, frames_eq, pending_eq, framesToLoad, Nat.add_mul]
      omega

/-- A step takes the directory that it loads off those still to be loaded. This holds
whatever the step meets, and also where the walk is over. -/
theorem Strode.toLoad_le {after : Option Walker} (strode : Strode w (s, after))
    (narrow : Narrow n [s]) :
    loads [s] + (after.map (·.toLoad n)).getD 0 ≤ w.toLoad n := by
  cases strode with
  | @refused range e pending_eq =>
      -- The directory that is refused counts as loaded here, with nothing below it.
      have room := w.bounded
      have levels_eq : maxDirectories - w.frames.length
          = maxDirectories - (w.frames.length + 1) + 1 := by
        simp [pending_eq] at room
        omega
      simp only [Walker.toLoad, pending_eq, levels_eq, treeSize, Option.toList_some]
      simp [loads]
      omega
  | ended opens => exact opens.toLoad_le narrow
  | met opens meets =>
      have opened := opens.toLoad_le narrow
      have met := meets.toLoad_le (n := n)
      simp only [Option.map_some, Option.getD_some]
      omega

/-! ### Rows still to be visited -/

/-- How many rows are left in some open directories. -/
def rowsIn (frames : List (List Entry)) : Nat := (frames.map List.length).sum

/-- A step adds at most the rows of the directory that it loads, and takes a run that it meets
off. -/
theorem Strode.rowsLeft_le {after : Option Walker} (strode : Strode w (s, after))
    (narrow : Narrow n [s]) :
    (runs [s]).length + (after.map fun v => rowsIn v.frames).getD 0
      ≤ rowsIn w.frames + loads [s] * n := by
  -- Opening is the only thing that adds rows, and it adds those of the directory that it
  -- loads.
  have opened {load : Option (ByteRange × Except ReadError Directory)} {event : Option WalkEvent}
      {frames : List (List Entry)} (opens : Opens w load frames)
      (narrow : Narrow n [⟨load, event⟩]) :
      rowsIn frames ≤ rowsIn w.frames + loads [⟨load, event⟩] * n := by
    cases opens with
    | same pending_eq => exact Nat.le_add_right _ _
    | @loaded range d pending_eq =>
        have rows_le : d.entries.length ≤ n := narrow d (by simp [directories, directory?])
        simp [rowsIn, loads]
        omega
  cases strode with
  | refused pending_eq => exact Nat.zero_le _
  | ended opens => exact Nat.le_trans (Nat.zero_le _) (opened opens narrow)
  | met opens meets =>
      refine Nat.le_trans ?_ (opened opens narrow)
      cases meets with
      | leave frames_eq pending_eq => simp [runs_singleton, WalkEvent.entry?, frames_eq, rowsIn]
      | run shorter frames_eq pending_eq =>
          simp [runs_singleton, WalkEvent.entry?, frames_eq, rowsIn]
          omega
      | pointer frames_eq pending_eq =>
          simp [runs_singleton, WalkEvent.entry?, frames_eq, rowsIn]

/-! ### Open directories -/

/-- A step opens the directory that it loads and may close one. Where the walk goes on the
balance is exact, so the number of open directories can be counted from outside. -/
theorem Strode.frames_eq (strode : Strode w (s, some v)) :
    loads [s] + w.frames.length = closed [s] + v.frames.length := by
  cases strode with
  | @met load frames event _ opens meets nearer =>
      -- A load is one more frame. What is met then decides whether a frame is closed.
      have opened : loads [⟨load, some event⟩] + w.frames.length = frames.length := by
        cases opens with
        | same pending_eq => simp [loads]
        | loaded pending_eq =>
            simp [loads]
            omega
      rw [opened]
      cases meets with
      | leave frames_eq pending_eq =>
          simp [closed, frames_eq]
          omega
      | run shorter frames_eq pending_eq => simp [closed, frames_eq]
      | pointer frames_eq pending_eq => simp [closed, frames_eq]

end

/-! ### Whole walks -/

namespace Walker

variable {h : Header} {n : Nat}

/-- A walk loads no more directories than there were to be loaded. The steps may be answered
by different sources, so the bound does not depend on the archive staying the same. -/
theorem loads_le (answers : List (ByteRange → Except IoError Bytes)) (w : Walker)
    (narrow : Narrow n (w.strides h answers).1) : loads (w.strides h answers).1 ≤ w.toLoad n := by
  revert narrow
  -- The induction is along the walk. Each step pays for what it loads out of what is left to
  -- load.
  refine strides_induct (motive := fun w log _ => Narrow n log → loads log ≤ w.toLoad n) ?_ ?_ ?_
    answers w
  · intro w _
    exact Nat.zero_le _
  · intro w s strode narrow
    exact strode.toLoad_le narrow
  · intro w s v log after strode ih narrow
    obtain ⟨first, rest⟩ := narrow.of_cons
    have step := strode.toLoad_le first
    have later := ih rest
    rw [loads_cons]
    simp only [Option.map_some, Option.getD_some] at step
    omega

/-- A walk meets no more runs than there are rows in open directories and in those it loads.
Each row is taken off when it is met or passed over, and is not seen again. -/
theorem runs_le (answers : List (ByteRange → Except IoError Bytes)) (w : Walker)
    (narrow : Narrow n (w.strides h answers).1) :
    (runs (w.strides h answers).1).length
      ≤ rowsIn w.frames + loads (w.strides h answers).1 * n := by
  revert narrow
  -- Here a step pays for a run that it meets out of the rows that are open, and a load puts
  -- rows in.
  refine strides_induct (motive := fun w log _ => Narrow n log →
    (runs log).length ≤ rowsIn w.frames + loads log * n) ?_ ?_ ?_ answers w
  · intro w _
    exact Nat.zero_le _
  · intro w s strode narrow
    exact strode.rowsLeft_le narrow
  · intro w s v log after strode ih narrow
    obtain ⟨first, rest⟩ := narrow.of_cons
    have step := strode.rowsLeft_le first
    have later := ih rest
    rw [loads_cons, length_runs_cons, Nat.add_mul]
    simp only [Option.map_some, Option.getD_some] at step
    omega

/-- As many directories are open as were loaded and not closed. With the bound that every
walker carries this limits how many directories are held at a time. -/
theorem frames_eq (answers : List (ByteRange → Except IoError Bytes)) (w : Walker) {v : Walker}
    (after_eq : (w.strides h answers).2 = some v) :
    loads (w.strides h answers).1 + w.frames.length
      = closed (w.strides h answers).1 + v.frames.length := by
  revert after_eq
  -- The balance of loaded and closed directories is kept by each step, whatever it meets.
  refine strides_induct (motive := fun w log after => after = some v →
    loads log + w.frames.length = closed log + v.frames.length) ?_ ?_ ?_ answers w
  · intro w after_eq
    cases after_eq
    rfl
  · intro w s _ after_eq
    cases after_eq
  · intro w s v' log after strode ih after_eq
    have step := strode.frames_eq
    have later := ih after_eq
    rw [loads_cons, closed_cons]
    omega

end Walker

/-! ### Look-ups -/

/-- What has been asked for, with the answers. -/
abbrev Asked : Type := List ((need : Need) × need.Answer)

/-- A look-up visits directories and then asks for at most one payload. If the last
directory that it may visit still holds a pointer for the tile, there is no tile. This is
all that the bound on look-ups needs to know of how it goes down. -/
structure Descends (id : UInt64) (depth : Nat) (visited payloads : Asked)
    (result : Except ReadError (Option Bytes)) : Prop where
  directories : ∀ p ∈ visited, ∃ range, p.1 = .directory range
  few : visited.length ≤ depth
  payload : ∀ p ∈ payloads, ∃ range, p.1 = .payload range
  one : payloads.length ≤ 1
  deep : ∀ k range d e, k + 1 = depth → visited[k]? = some ⟨.directory range, .ok d⟩ →
    d.find? id = some e → e.isPointer → result = .ok none

/-- A look-up may end before any directory. -/
theorem Descends.nothing (id : UInt64) (depth : Nat) (result : Except ReadError (Option Bytes)) :
    Descends id depth [] [] result where
  directories := by simp
  few := Nat.zero_le depth
  payload := by simp
  one := Nat.zero_le 1
  deep := by simp

/-- A look-up may end with any directory that holds no pointer for the tile. It has asked
for one directory then, and for at most one payload. -/
theorem Descends.alone {id : UInt64} {depth : Nat} {range : ByteRange}
    {answer : Except ReadError Directory} {payloads : Asked}
    {result : Except ReadError (Option Bytes)}
    (payload : ∀ p ∈ payloads, ∃ range, p.1 = .payload range) (one : payloads.length ≤ 1)
    (ends : ∀ d e, answer = .ok d → d.find? id = some e → ¬ e.isPointer) :
    Descends id (depth + 1) [⟨.directory range, answer⟩] payloads result where
  directories := by simp
  few := Nat.le_add_left 1 depth
  payload := payload
  one := one
  deep := by
    intro k range' d e _ last found pointer
    -- There is a single directory, so its answer is the one at depth zero and there is none
    -- below.
    cases k with
    | zero =>
        cases last
        exact absurd pointer (ends d e rfl found)
    | succ k => cases last

/-- A look-up asks for few directories and at most one payload. By induction on the levels
it has left, with the answers of the source as they come. -/
theorem descends_of_leads {h : Header} {id : UInt64} {depth : Nat} {range : ByteRange}
    {path : Asked} {result : Except ReadError (Option Bytes)}
    (leads : (descend h id depth range).Leads path result) :
    ∃ visited payloads, path = visited ++ payloads ∧ Descends id depth visited payloads result := by
  induction depth generalizing range path with
  | zero =>
      obtain ⟨rfl, rfl⟩ := Dialogue.leads_done_iff.mp leads
      exact ⟨[], [], rfl, .nothing id 0 _⟩
  | succ depth ih =>
      rw [descend] at leads
      cases leads with
      | ask answer leads =>
      cases answer with
      | error e =>
          obtain ⟨rfl, rfl⟩ := Dialogue.leads_done_iff.mp leads
          refine ⟨_, [], (List.append_nil _).symm, .alone (by simp) (Nat.zero_le 1) ?_⟩
          simp
      | ok d =>
          cases found : d.find? id with
          | none =>
              simp only [found] at leads
              obtain ⟨rfl, rfl⟩ := Dialogue.leads_done_iff.mp leads
              refine ⟨_, [], (List.append_nil _).symm, .alone (by simp) (Nat.zero_le 1) ?_⟩
              rintro _ e ⟨⟩ found'
              rw [found] at found'
              cases found'
          | some e =>
              simp only [found] at leads
              by_cases pointer : e.isPointer = true
              · rw [if_pos pointer] at leads
                obtain ⟨visited, payloads, rfl, below⟩ := ih leads
                refine ⟨⟨.directory range, .ok d⟩ :: visited, payloads, rfl, ?_,
                  Nat.succ_le_succ below.few, below.payload, below.one, ?_⟩
                · simp
                  exact below.directories
                · intro k range' d' e' last_eq visited_eq found' pointer'
                  cases k with
                  | zero =>
                      -- No directory may be visited behind this one.
                      obtain rfl : depth = 0 := (Nat.succ.inj last_eq).symm
                      exact (Dialogue.leads_done_iff.mp leads).2
                  | succ k =>
                      exact below.deep k range' d' e' (Nat.succ.inj last_eq) visited_eq found'
                        pointer'
              · rw [if_neg pointer] at leads
                cases leads with
                | ask payload leads =>
                    obtain ⟨rfl, rfl⟩ := Dialogue.leads_done_iff.mp leads
                    refine ⟨[⟨.directory range, .ok d⟩], [⟨_, payload⟩], rfl,
                      .alone (by simp) (Nat.le_refl 1) ?_⟩
                    rintro _ e' ⟨⟩ found'
                    rw [found] at found'
                    cases found'
                    exact pointer

/-! ### Walks and look-ups -/

/-- What a walk and a look-up can take, however the source answers.

* Of the directories that a walk has loaded as many are still open as were not closed, and with the
  one to be opened next there are no more than four.
* Where no directory that was loaded has more than `n` rows, there are no more than four levels of
  them, and every run is a row of one.
* One of the steps of a walk is the last.
* Whoever is handed the events of a walk is handed those of such steps, whatever he reads himself.
* A look-up visits at most four directories and asks for at most one payload. It finds nothing
  where the fourth directory points on. -/
theorem walks_and_lookUps_bounded (h : Header) :
    (∀ (range : ByteRange) (answers : List (ByteRange → Except IoError Bytes)) (log : List Stride)
        (after : Option Walker), (Walker.before range).strides h answers = (log, after) →
      (∀ v, after = some v → loads log = closed log + v.frames.length ∧
        v.frames.length + v.pending.toList.length ≤ 4) ∧
      ∀ n, Narrow n log → loads log ≤ 1 + n + n ^ 2 + n ^ 3 ∧ (runs log).length ≤ loads log * n) ∧
    (∀ (range : ByteRange) (answers : Nat → ByteRange → Except IoError Bytes),
      ∃ count, ((Walker.before range).strides h ((List.range count).map answers)).2 = none) ∧
    (∀ {σ β : Type} (onEvent : σ → WalkEvent → Fetch (σ ⊕ β))
        (atEnd : σ → Option ReadError → Fetch β) (range : ByteRange) (state : σ) (path : Path)
        (result : β), ((Walker.before range).drive h onEvent atEnd state).Leads path result →
      ∃ answers, Fed onEvent atEnd ((Walker.before range).strides h answers).1 state path result) ∧
    ∀ (c : TileCoord) (path : Asked) (result : Except ReadError (Option Bytes)),
      (lookUp h c).Leads path result →
        ∃ visited payloads, path = visited ++ payloads ∧
          Descends c.tileId 4 visited payloads result := by
  refine ⟨?_, ?_, ?_, ?_⟩
  · intro range answers log after steps_eq
    have log_eq := congrArg Prod.fst steps_eq
    have after_eq := congrArg Prod.snd steps_eq
    subst log_eq
    constructor
    · intro v some_eq
      exact ⟨Walker.frames_eq answers _ (after_eq.trans some_eq), v.bounded⟩
    · intro n narrow
      -- What was loaded is what the potential went down by, and it began with that of one
      -- directory.
      have loaded := Walker.loads_le answers _ narrow
      have met := Walker.runs_le answers _ narrow
      have toLoad_eq : (Walker.before range).toLoad n = 1 + n + n ^ 2 + n ^ 3 := by
        rw [← treeSize_maxDirectories]
        simp [Walker.before, Walker.toLoad, framesToLoad]
      rw [toLoad_eq] at loaded
      exact ⟨loaded, by simpa [Walker.before, rowsIn] using met⟩
  · intro range answers
    exact Walker.walk_ends h answers _
  · intro _ _ onEvent atEnd range state path result leads
    exact fed_of_leads leads
  · intro c path result leads
    rw [lookUp] at leads
    cases root : h.rootRange with
    | error e =>
        simp only [root] at leads
        obtain ⟨rfl, -⟩ := Dialogue.leads_done_iff.mp leads
        exact ⟨[], [], rfl, .nothing c.tileId 4 result⟩
    | ok range =>
        simp only [root] at leads
        exact descends_of_leads leads

/-- A directory of five bytes whose only row points to these five bytes. -/
def loopDirectory : Bytes := [1, 0, 0, 5, 1]

/-- The description of an archive that is such a directory. -/
def loopHeader : Header :=
  { Header.blank with rootDirectory := ⟨0, 5⟩, leafDirectories := ⟨0, 5⟩ }

/-- A directory that points to itself is visited as often as a look-up may. -/
theorem leads_descend_of_loop {h : Header} {id : UInt64} {range : ByteRange} {d : Directory}
    {e : Entry} (found : d.find? id = some e) (pointer : e.isPointer = true)
    (same : h.leafRange e = range) (depth : Nat) :
    (descend h id depth range).Leads (List.replicate depth ⟨.directory range, .ok d⟩)
      (.ok none) := by
  induction depth with
  | zero => exact .done _
  | succ depth ih =>
      rw [descend]
      refine .ask _ ?_
      simp only [found, if_pos pointer, same]
      exact ih

/-- The bounds hold of the directory that points to itself: after four steps a walk has loaded it
as often as directories of one row allow and has left it once, and a look-up of the first tile
finds nothing. -/
theorem walks_and_lookUps_bounded_loop :
    (∃ log v, (Walker.before ⟨0, 5⟩).strides loopHeader
          (List.replicate 4 (Content.read loopDirectory)) = (log, some v) ∧
        Narrow 1 log ∧ loads log = 4 ∧ loads log = closed log + v.frames.length ∧
        loads log ≤ 1 + 1 + 1 ^ 2 + 1 ^ 3) ∧
      (∃ path answers, Fed (fun n _ => .done (.inl (n + 1))) (fun n _ => .done n)
        ((Walker.before ⟨0, 5⟩).strides loopHeader answers).1 0 path 7) ∧
      ∃ visited payloads, List.replicate 4 ⟨.directory ⟨0, 5⟩, .ok ⟨[⟨0, 0, 5, 0⟩]⟩⟩
        = visited ++ payloads ∧ Descends 0 4 visited payloads (.ok none) := by
  obtain ⟨walks, -, consumers, lookUps⟩ := walks_and_lookUps_bounded loopHeader
  refine ⟨?_, ?_, ?_⟩
  · have narrow : Narrow 1 ((Walker.before ⟨0, 5⟩).strides loopHeader
        (List.replicate 4 (Content.read loopDirectory))).1 := by
      unfold Narrow
      decide +kernel
    have loaded : loads ((Walker.before ⟨0, 5⟩).strides loopHeader
        (List.replicate 4 (Content.read loopDirectory))).1 = 4 := by decide +kernel
    have on : ((Walker.before ⟨0, 5⟩).strides loopHeader
        (List.replicate 4 (Content.read loopDirectory))).2.isSome := by decide +kernel
    obtain ⟨v, after_eq⟩ := Option.isSome_iff_exists.mp on
    obtain ⟨frames, rows⟩ := walks _ _ _ _ rfl
    exact ⟨_, v, Prod.ext rfl after_eq, narrow, loaded, (frames v after_eq).1, (rows 1 narrow).1⟩
  · -- The consumer counts the events that it is handed, three pointers and four ends.
    let counting : Fetch Nat := (Walker.before ⟨0, 5⟩).drive loopHeader
      (fun n _ => .done (.inl (n + 1))) (fun n _ => .done n) 0
    have seven : counting.run (Content.read loopDirectory) = 7 :=
      (Walker.alike_drive _ _ (.before ⟨0, 5⟩) 0).run_eq.trans (by decide +kernel)
    have leads := Fetch.leads_run (Content.read loopDirectory) counting
    rw [seven] at leads
    exact ⟨_, consumers _ _ _ _ _ _ leads⟩
  · let world : TileCoord := ⟨0, 0, 0, by decide, by decide, by decide⟩
    have first : world.tileId = 0 := by decide +kernel
    have root : loopHeader.rootRange = .ok ⟨0, 5⟩ := rfl
    have lookUp_eq : lookUp loopHeader world = descend loopHeader 0 4 ⟨0, 5⟩ := by
      rw [lookUp, root, first]
      rfl
    have descends := lookUps world (List.replicate 4 ⟨.directory ⟨0, 5⟩, .ok ⟨[⟨0, 0, 5, 0⟩]⟩⟩)
      (.ok none)
    rw [lookUp_eq, first] at descends
    exact descends (leads_descend_of_loop (e := ⟨0, 0, 5, 0⟩) (by decide +kernel) rfl rfl 4)

end TileArchive
