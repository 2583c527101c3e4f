import TileArchive.Reader.Lookup

/-!
# `TileArchive.Reader.Walker`: walking through all directories

A scan visits all rows of all directories, going down into a leaf directory where a row
points to one and coming back afterwards. A `Walker` keeps the rows still to be visited of
every directory it is in, the innermost first. As for a look-up, at most four directories
are open at a time; pointers at the fourth level are passed over.

`Walker.next` goes on to the next event, and `Walker.drive` hands all events to someone.
Directories may point at themselves or at each other, so what makes the walk end is not the
archive but the limit on open directories: every step consumes a row or closes a directory,
and what a step adds it adds further inside. `Walker.rank` counts the rows left at each
level, and steps lower it in lexicographic order.

The walker that a step leads to comes with the proof that its rank is lower (`NearerThan`), because
the walk goes on inside of a read and the answer to it is not known where the recursion is
justified. With the proof at hand `drive` needs nothing but the rank, whatever the directory that
was read holds.

The limit on open directories is part of the type of a walker, so no walker can be made that is
deeper than allowed.
-/

set_option autoImplicit false

namespace TileArchive

/-- What a walker meets. Pointers and ends of directories are told as well, because a visit
that joins reads may not join across them. -/
inductive WalkEvent where
  /-- A row with a payload. -/
  | run (e : Entry)
  /-- A row that points to a leaf directory, which is gone through next. -/
  | pointer
  /-- The end of a directory. -/
  | leave
deriving DecidableEq, Repr

/-- The rows still to be visited of each open directory, the innermost first, and the
directory to be opened next. The bound on both together is carried by every walker, so no
walk can open more directories than an archive may nest. -/
structure Walker where
  frames : List (List Entry)
  pending : Option ByteRange
  /-- No more directories are open than allowed, with the one to be opened. -/
  bounded : frames.length + pending.toList.length ≤ maxDirectories

namespace Walker

/-- A walker in front of the directory in a range. -/
def before (range : ByteRange) : Walker := ⟨[], some range, Nat.le_of_ble_eq_true rfl⟩

/-- A walker in front of the root directory. -/
def start (h : Header) : Except ReadError Walker := h.rootRange.map before

/-! ## The rank -/

/-- The rank of a level with the given rows left, and of a directory to be opened there. -/
def levelRank (rows : List Entry) (pending : Nat) : Nat := 2 * rows.length + 1 + pending

/-- The ranks of all levels, the outermost first, for open directories and the number of
directories to be opened. Level zero stands for the root directory before it is opened. -/
def rankOf (pending : Nat) : List (List Entry) → Nat × Nat × Nat × Nat × Nat
  | [] => (pending, 0, 0, 0, 0)
  | [a] => (0, levelRank a pending, 0, 0, 0)
  | [b, a] => (0, levelRank a 0, levelRank b pending, 0, 0)
  | [c, b, a] => (0, levelRank a 0, levelRank b 0, levelRank c pending, 0)
  | d :: c :: b :: a :: _ => (0, levelRank a 0, levelRank b 0, levelRank c 0, levelRank d pending)

/-- How far a walker is from its end. -/
def rank (w : Walker) : Nat × Nat × Nat × Nat × Nat := rankOf w.pending.toList.length w.frames

/-- Ranks in lexicographic order. -/
def Below (a b : Nat × Nat × Nat × Nat × Nat) : Prop :=
  a.1 < b.1 ∨ a.1 = b.1 ∧ (a.2.1 < b.2.1 ∨ a.2.1 = b.2.1 ∧ (a.2.2.1 < b.2.2.1 ∨
    a.2.2.1 = b.2.2.1 ∧ (a.2.2.2.1 < b.2.2.2.1 ∨ a.2.2.2.1 = b.2.2.2.1 ∧
      a.2.2.2.2 < b.2.2.2.2)))

/-- Falling twice is falling. -/
theorem below_trans {a b c : Nat × Nat × Nat × Nat × Nat} (hab : Below a b) (hbc : Below b c) :
    Below a c := by
  simp only [Below] at *
  omega

/-- No rank can fall for ever. -/
theorem below_wf : WellFounded Below := by
  refine Subrelation.wf ?_ (Prod.lex Nat.lt_wfRel (Prod.lex Nat.lt_wfRel (Prod.lex Nat.lt_wfRel
    (Prod.lex Nat.lt_wfRel Nat.lt_wfRel)))).wf
  rintro ⟨a, b, c, d, e⟩ ⟨a', b', c', d', e'⟩ h
  rcases h with h | ⟨rfl, h | ⟨rfl, h | ⟨rfl, h | ⟨rfl, h⟩⟩⟩⟩
  · exact .left _ _ h
  · exact .right _ (.left _ _ h)
  · exact .right _ (.right _ (.left _ _ h))
  · exact .right _ (.right _ (.right _ (.left _ _ h)))
  · exact .right _ (.right _ (.right _ (.right _ h)))

/-- Whether a walker is nearer to its end than another. -/
def Nearer (v w : Walker) : Prop := Below v.rank w.rank

instance : WellFoundedRelation Walker := ⟨Nearer, InvImage.wf rank below_wf⟩

/-- Opening the pending directory lowers the rank, whatever the directory holds. -/
theorem rankOf_open (rows : List Entry) {frames : List (List Entry)}
    (fits : frames.length < maxDirectories) :
    Below (rankOf 0 (rows :: frames)) (rankOf 1 frames) := by
  match frames with
  | [] | [_] | [_, _] | [_, _, _] => simp [Below, rankOf, levelRank]
  | _ :: _ :: _ :: _ :: _ => simp [maxDirectories] at fits; omega

/-- Closing the innermost directory lowers the rank. -/
theorem rankOf_close (rows : List Entry) {frames : List (List Entry)}
    (fits : frames.length < maxDirectories) :
    Below (rankOf 0 frames) (rankOf 0 (rows :: frames)) := by
  match frames with
  | [] | [_] | [_, _] | [_, _, _] => simp [Below, rankOf, levelRank]
  | _ :: _ :: _ :: _ :: _ => simp [maxDirectories] at fits; omega

/-- Passing over rows of the innermost directory lowers the rank, also where the last of
them makes a directory pending. -/
theorem rankOf_pass {pending : Nat} {rest rows : List Entry} {frames : List (List Entry)}
    (fits : frames.length < maxDirectories) (shorter : rest.length < rows.length)
    (one : pending ≤ 1) :
    Below (rankOf pending (rest :: frames)) (rankOf 0 (rows :: frames)) := by
  match frames with
  | [] | [_] | [_, _] | [_, _, _] => simp [Below, rankOf, levelRank]; omega
  | _ :: _ :: _ :: _ :: _ => simp [maxDirectories] at fits; omega

/-! ## Steps -/

/-- The next event of a walker in some open directories, and the walker after it. -/
def step (h : Header) : (frames : List (List Entry)) → frames.length ≤ maxDirectories →
    Option (WalkEvent × Walker)
  | [], _ => none
  | rows :: outer, fits =>
    if room : outer.length + 1 < maxDirectories then
      match rows with
      | [] => some (.leave, ⟨outer, none, Nat.le_of_succ_le fits⟩)
      | e :: rest =>
        if e.isPointer then some (.pointer, ⟨rest :: outer, some (h.leafRange e), room⟩)
        else some (.run e, ⟨rest :: outer, none, fits⟩)
    else
      -- Leaf directories of this level would lie too deep.
      match rows.dropWhile Entry.isPointer with
      | [] => some (.leave, ⟨outer, none, Nat.le_of_succ_le fits⟩)
      | e :: rest => some (.run e, ⟨rest :: outer, none, fits⟩)

/-- Every step lowers the rank. A directory that is closed, a row that is passed over and a
pointer that is taken each count for less than what they were taken off. -/
theorem rank_step {h : Header} {frames : List (List Entry)}
    {fits : frames.length ≤ maxDirectories} {event : WalkEvent} {w : Walker}
    (stepped : step h frames fits = some (event, w)) :
    Below w.rank (rankOf 0 frames) := by
  match frames, fits with
  | [], _ => simp [step] at stepped
  | rows :: outer, fits =>
    have room : outer.length < maxDirectories := fits
    rw [step] at stepped
    split at stepped
    · -- The innermost directory is closed where no row is left, and loses a row otherwise.
      split at stepped
      · cases stepped
        exact rankOf_close _ room
      · split at stepped <;> cases stepped
        · exact rankOf_pass room (by simp) (Nat.le_refl 1)
        · exact rankOf_pass room (by simp) (Nat.zero_le 1)
    · split at stepped
      · cases stepped
        exact rankOf_close _ room
      · next e rest passed =>
        cases stepped
        refine rankOf_pass room ?_ (Nat.zero_le 1)
        have := (List.dropWhile_sublist (p := Entry.isPointer) (l := rows)).length_le
        rw [passed, List.length_cons] at this
        omega

/-- A walker and the proof that it is nearer to its end than another. -/
abbrev NearerThan (w : Walker) : Type := { v : Walker // Nearer v w }

/-- The next event of a walker in some open directories, with the proof that the walker
after it is nearer to its end. -/
def nearer {w : Walker} (h : Header) (frames : List (List Entry))
    (fits : frames.length ≤ maxDirectories)
    (inside : ∀ v : Walker, Below v.rank (rankOf 0 frames) → Nearer v w) :
    Option (WalkEvent × NearerThan w) :=
  match stepped : step h frames fits with
  | none => none
  | some (event, v) => some (event, ⟨v, inside v (rank_step stepped)⟩)

/-- Goes on to the next event; none is left where all directories are closed. -/
def next (h : Header) (w : Walker) :
    Fetch (Except ReadError (Option (WalkEvent × NearerThan w))) :=
  match w with
  | ⟨frames, none, fits⟩ => .done (.ok (nearer h frames fits fun _ less => less))
  | ⟨frames, some range, fits⟩ =>
    (loadDirectory h range).bind fun
      | .error e => .done (.error e)
      | .ok directory =>
        -- Opening the directory lowers the rank by itself, and the event lowers it again.
        .done (.ok (nearer h (directory.entries :: frames) fits fun _ less =>
          below_trans less (rankOf_open _ fits)))

/-- Hands all events to `onEvent`, which goes on with a new state or stops with a result.
`atEnd` makes the result where the walk ends, with the error if it failed. -/
def drive {σ β : Type} (h : Header) (onEvent : σ → WalkEvent → Fetch (σ ⊕ β))
    (atEnd : σ → Option ReadError → Fetch β) (w : Walker) (state : σ) : Fetch β :=
  (w.next h).bind fun
    | .error e => atEnd state (some e)
    | .ok none => atEnd state none
    | .ok (some (event, ⟨v, _⟩)) =>
      (onEvent state event).bind fun
        | .inl state => drive h onEvent atEnd v state
        | .inr result => .done result
termination_by w
decreasing_by assumption

end Walker

end TileArchive
