import TileArchive.Proofs.Steps
import TileArchive.Reader.Walker

/-!
# `TileArchive.Proofs.Reader.Itinerary`: all that a walk reads and meets

A walker goes step by step, keeps a stack of open directories, and puts the opening of a
directory off to its next step. What it reads and meets on the way can be said without a stack:
a directory is read, its rows are taken in order, and behind a pointer comes the same for the
leaf, as long as a leaf may still be opened.

* `itineraryRows`, `leafItinerary` and `itineraryDirectory` say so by recursion on the levels
  that are left.
* `Walker.itinerary` is what a walker has still to read and to meet, and
  `Walker.itinerary_eq_next` says that it comes in the order in which the walker goes on.
* `Walker.alike_drive`: a walk reads what its itinerary reads, and whoever is handed the events
  of the walk is handed those of the itinerary, in between the same reads. `alike_start_drive` says
  so of a walk from the root directory.

## A reference beside the walker

The itinerary is the specification of a walk. It is computed from an answering rule, it is
structurally recursive, and it borrows from the walker only how one directory is loaded. The walker
is the program: it has to go on from where it is, may be given up between two steps, and ends for a
reason that is not plain to see. `Walker.itinerary` connects the two. It assigns to every state of
a walker the part of the itinerary that lies before it, frame by frame from the inside out, and one
step of the walker takes off exactly what it reads and meets (`itinerary_eq_next`).

The walker counts how many directories are open, the itinerary how many may still be opened.
`levelsBelow` translates, and at the last level both pass over pointers.
-/

set_option autoImplicit false

namespace TileArchive

/-! ### Itineraries of directories -/

/-- What comes with some rows of a directory. `leaf` is what comes behind a pointer; without it
pointers are passed over. -/
def itineraryRows (leaf : Option (Entry → Trail (Step WalkEvent))) :
    List Entry → Trail (Step WalkEvent)
  | [] => .cons (.find .leave) .nil
  | e :: rest =>
    if e.isPointer then
      match leaf with
      | none => itineraryRows leaf rest
      -- The rows behind the pointer wait until the whole leaf is through.
      | some leaf => .cons (.find .pointer) (leaf e ++ itineraryRows (some leaf) rest)
    else .cons (.find (.run e)) (itineraryRows leaf rest)

/-- What comes with a directory that was read. -/
def itineraryLoaded (leaf : Option (Entry → Trail (Step WalkEvent))) :
    Except ReadError Directory → Trail (Step WalkEvent)
  | .error e => .broken e
  | .ok directory => itineraryRows leaf directory.entries

/-- What comes with the directory in a range, and first the read of it. -/
def itineraryBehind (h : Header) (answer : ByteRange → Except IoError Bytes)
    (leaf : Option (Entry → Trail (Step WalkEvent))) (range : ByteRange) :
    Trail (Step WalkEvent) :=
  (itineraryLoaded leaf ((loadDirectory h range).run answer)).behind
    ((loadDirectory h range).reads answer)

/-- What comes behind a pointer in a directory below which `below` more levels may be opened. -/
def leafItinerary (h : Header) (answer : ByteRange → Except IoError Bytes) :
    (below : Nat) → Option (Entry → Trail (Step WalkEvent))
  | 0 => none
  | below + 1 =>
    some fun e => itineraryBehind h answer (leafItinerary h answer below) (h.leafRange e)

/-- What comes with the directory in a range, below which `below` more levels may be opened. -/
def itineraryDirectory (h : Header) (answer : ByteRange → Except IoError Bytes) (below : Nat)
    (range : ByteRange) : Trail (Step WalkEvent) :=
  itineraryBehind h answer (leafItinerary h answer below) range

/-- A run is met, and then come the other rows. -/
theorem itineraryRows_run (leaf : Option (Entry → Trail (Step WalkEvent))) {e : Entry}
    (run : ¬ e.isPointer = true) (rest : List Entry) :
    itineraryRows leaf (e :: rest) = .cons (.find (.run e)) (itineraryRows leaf rest) := by
  cases leaf <;> rw [itineraryRows, if_neg run]

/-- A pointer is met, then comes the whole leaf behind it, and then come the other rows. -/
theorem itineraryRows_pointer (leaf : Entry → Trail (Step WalkEvent)) {e : Entry}
    (pointer : e.isPointer = true) (rest : List Entry) :
    itineraryRows (some leaf) (e :: rest)
      = .cons (.find .pointer) (leaf e ++ itineraryRows (some leaf) rest) := by
  rw [itineraryRows, if_pos pointer]

/-- Where no leaf may be opened any more a pointer is passed over. -/
theorem itineraryRows_pointer_none {e : Entry} (pointer : e.isPointer = true)
    (rest : List Entry) : itineraryRows none (e :: rest) = itineraryRows none rest := by
  rw [itineraryRows, if_pos pointer]

/-- As long as levels are left a leaf has its itinerary. -/
theorem leafItinerary_succ (h : Header) (answer : ByteRange → Except IoError Bytes)
    (below : Nat) :
    leafItinerary h answer (below + 1)
      = some fun e => itineraryDirectory h answer below (h.leafRange e) := rfl

/-- Where no leaf may be opened, pointers may as well be missing. -/
theorem itineraryRows_dropWhile (rows : List Entry) :
    itineraryRows none (rows.dropWhile Entry.isPointer) = itineraryRows none rows := by
  induction rows with
  | nil => rfl
  | cons e rest ih =>
      by_cases pointer : e.isPointer = true
      · rw [List.dropWhile_cons_of_pos pointer, ih, itineraryRows_pointer_none pointer]
      · rw [List.dropWhile_cons_of_neg pointer]

/-! ### Itineraries of walkers -/

namespace Walker

/-- How many more levels may be opened below a directory inside of `outer` others. -/
def levelsBelow (outer : Nat) : Nat := maxDirectories - 1 - outer

/-- What is still to be read and met in some open directories, the innermost first. -/
def framesItinerary (h : Header) (answer : ByteRange → Except IoError Bytes) :
    List (List Entry) → Trail (Step WalkEvent)
  | [] => .nil
  | rows :: outer =>
    itineraryRows (leafItinerary h answer (levelsBelow outer.length)) rows
      ++ framesItinerary h answer outer

/-- What a walker has still to read and to meet. -/
def itinerary (h : Header) (answer : ByteRange → Except IoError Bytes) (w : Walker) :
    Trail (Step WalkEvent) :=
  match w.pending with
  | none => framesItinerary h answer w.frames
  -- The directory that is still to be opened lies inside of all open ones.
  | some range =>
    itineraryDirectory h answer (levelsBelow w.frames.length) range
      ++ framesItinerary h answer w.frames

variable {h : Header} {answer : ByteRange → Except IoError Bytes}

/-- At the start the root directory and all below it are still to come. -/
theorem itinerary_before (range : ByteRange) :
    (before range).itinerary h answer = itineraryDirectory h answer (maxDirectories - 1) range :=
  Trail.append_nil _

/-- An event that a step meets is the next on the itinerary, and what follows it is the
itinerary of the walker after the step. -/
theorem framesItinerary_of_step {frames : List (List Entry)}
    {fits : frames.length ≤ maxDirectories} {event : WalkEvent} {v : Walker}
    (stepped : step h frames fits = some (event, v)) :
    framesItinerary h answer frames = .cons (.find event) (v.itinerary h answer) := by
  match frames, fits with
  | [], _ => simp [step] at stepped
  | rows :: outer, fits =>
    rw [framesItinerary]
    rw [step] at stepped
    -- A walker counts the directories that are open, an itinerary those that may still be.
    split at stepped
    · -- A leaf may be opened from here.
      next room =>
      obtain ⟨below, levels_eq⟩ : ∃ below, levelsBelow outer.length = below + 1 :=
        ⟨levelsBelow outer.length - 1, by unfold levelsBelow; omega⟩
      rw [levels_eq, leafItinerary_succ]
      split at stepped
      · cases stepped
        rfl
      · next e rest _ =>
        split at stepped <;> cases stepped
        · next pointer =>
          -- The leaf behind the pointer is pending, one level further inside.
          have inner_eq : levelsBelow (rest :: outer).length = below := by
            simp only [levelsBelow, List.length_cons] at levels_eq ⊢
            omega
          rw [itineraryRows_pointer _ pointer, Trail.cons_append, Trail.append_assoc, itinerary,
            inner_eq, framesItinerary, levels_eq, leafItinerary_succ]
        · next run =>
          rw [itineraryRows_run _ run, Trail.cons_append, itinerary, framesItinerary, levels_eq,
            leafItinerary_succ]
    · -- No leaf may be opened, so the step goes on to the next run.
      next deep =>
      have levels_eq : levelsBelow outer.length = 0 := by
        unfold levelsBelow
        omega
      rw [levels_eq, leafItinerary, ← itineraryRows_dropWhile]
      split at stepped
      · next passed =>
        cases stepped
        rw [passed]
        rfl
      · next e rest passed =>
        cases stepped
        have run : ¬ e.isPointer = true := by
          have head := List.head?_dropWhile_not Entry.isPointer rows
          rw [passed] at head
          simpa using head
        rw [passed, itineraryRows_run _ run, Trail.cons_append, itinerary, framesItinerary,
          levels_eq, leafItinerary]

/-- Nothing is left to come where no step is left. -/
theorem framesItinerary_of_step_none {frames : List (List Entry)}
    {fits : frames.length ≤ maxDirectories} (stepped : step h frames fits = none) :
    framesItinerary h answer frames = .nil := by
  match frames, fits with
  | [], _ => rfl
  | rows :: outer, fits =>
    rw [step] at stepped
    split at stepped
    · split at stepped
      · cases stepped
      · split at stepped <;> cases stepped
    · split at stepped <;> cases stepped

/-- What is still to come after the next event of some open directories. The walker proves
along with each event that it is nearer to its end, and this takes the proof off again. -/
theorem framesItinerary_eq_nearer {w : Walker} (frames : List (List Entry))
    (fits : frames.length ≤ maxDirectories)
    (inside : ∀ v : Walker, Below v.rank (rankOf 0 frames) → Nearer v w) :
    framesItinerary h answer frames
      = match nearer h frames fits inside with
        | none => .nil
        | some (event, v) => .cons (.find event) (v.1.itinerary h answer) := by
  unfold nearer
  split
  · next none_eq =>
    split at none_eq
    · next stepped => exact framesItinerary_of_step_none stepped
    · cases none_eq
  · next some_eq =>
    split at some_eq
    · cases some_eq
    · next stepped =>
      cases some_eq
      exact framesItinerary_of_step stepped

/-- What a walker has still to read and to meet are the reads before its next event, the event,
and what the walker after it has. -/
theorem itinerary_eq_next (w : Walker) :
    w.itinerary h answer
      = Trail.behind ((w.next h).reads answer)
        (match (w.next h).run answer with
        | .error e => .broken e
        | .ok none => .nil
        | .ok (some (event, v)) => .cons (.find event) (v.1.itinerary h answer)) := by
  match w with
  | ⟨frames, none, fits⟩ =>
    refine (framesItinerary_eq_nearer (w := ⟨frames, none, fits⟩) frames fits fun _ less =>
      less).trans ?_
    rw [next, Fetch.run]
    show _ = Trail.behind [] _
    split <;> simp_all only [Trail.behind] <;> rfl
  | ⟨frames, some range, fits⟩ =>
    -- The pending directory is read, and its rows become the innermost ones.
    have room : frames.length < maxDirectories := fits
    rw [next, Fetch.run_bind, Fetch.reads_bind]
    show itineraryBehind h answer (leafItinerary h answer (levelsBelow frames.length)) range
      ++ framesItinerary h answer frames = _
    rw [itineraryBehind, Trail.behind_append]
    cases (loadDirectory h range).run answer with
    | error e => rw [Fetch.reads, List.append_nil]; rfl
    | ok directory =>
      rw [Fetch.reads, List.append_nil]
      refine congrArg (Trail.behind _) ((framesItinerary_eq_nearer
        (w := ⟨frames, some range, fits⟩) (directory.entries :: frames)
        room fun _ less => below_trans less (rankOf_open _ fits)).trans ?_)
      simp only [Fetch.run]
      split <;> simp_all only

/-- A walk reads what its itinerary reads, and whoever is handed its events is handed those of
the itinerary. The induction is on the rank of the walker. -/
theorem alike_drive {σ β : Type} (onEvent : σ → WalkEvent → Fetch (σ ⊕ β))
    (atEnd : σ → Option ReadError → Fetch β) (w : Walker) (state : σ) :
    Fetch.Alike answer (w.drive h onEvent atEnd state)
      ((w.itinerary h answer).conduct onEvent atEnd state) := by
  induction w using (InvImage.wf rank below_wf).induction generalizing state with
  | _ w ih =>
  -- One round of the walk reads what comes first and takes one event, or ends.
  rw [drive, itinerary_eq_next]
  refine .behind ?_
  match (w.next h).run answer with
  | .error e => exact .refl _
  | .ok none => exact .refl _
  | .ok (some (event, ⟨v, nearer⟩)) =>
    rw [Trail.conduct_cons_find]
    refine .bind (.refl _) ?_
    cases (onEvent state event).run answer with
    | inl state => exact ih v nearer state
    | inr result => exact .refl _

end Walker

/-! ### Walks from the root directory -/

/-- What comes on the way through all directories of an archive. -/
def archiveItinerary (h : Header) (answer : ByteRange → Except IoError Bytes) :
    Trail (Step WalkEvent) :=
  match h.rootRange with
  | .error e => .broken e
  | .ok range => itineraryDirectory h answer (maxDirectories - 1) range

/-- A walk from the root directory does what the itinerary says. Without a root directory it fails
at once. -/
theorem alike_start_drive {σ β : Type} (h : Header) (answer : ByteRange → Except IoError Bytes)
    (onEvent : σ → WalkEvent → Fetch (σ ⊕ β)) (atEnd : σ → Option ReadError → Fetch β) {state : σ}
    {failed : ReadError → β} (fails : ∀ e, atEnd state (some e) = .done (failed e)) :
    Fetch.Alike answer
      (match Walker.start h with
        | .error e => .done (failed e)
        | .ok w => w.drive h onEvent atEnd state)
      ((archiveItinerary h answer).conduct onEvent atEnd state) := by
  rw [Walker.start, archiveItinerary]
  cases h.rootRange with
  | error e =>
      show Fetch.Alike answer (.done (failed e)) (atEnd state (some e))
      rw [fails]
      exact .refl _
  | ok range =>
      show Fetch.Alike answer _
        ((itineraryDirectory h answer (maxDirectories - 1) range).conduct onEvent atEnd state)
      rw [← Walker.itinerary_before]
      exact Walker.alike_drive onEvent atEnd (.before range) state

end TileArchive
