import TileArchive.Proofs.Reader.Scan

/-!
# `TileArchive.Proofs.Reader.Listed`: listings with a limit, and their reads

A listing that is asked for so many items stops behind the last of them, in the middle of a run
or before a directory that is still to be read. What it gives and what it reads is found in the
itinerary through the archive, with every run replaced by what is done about it: both are taken
from there up to the last item that was asked for.

* `Gathering.through` gathers what the steps of a trail find, and `alike_expand` says that a
  listing may be handed the events of a walk, or all that is found at them.
* `alike_listRuns` puts both together, and `Trail.listing` and `Trail.rangesWithin` say what comes
  out (`run_gatherAll`, `reads_gatherAll`).

`Step.upTo` cuts a list of steps right behind an item. This is where laziness is stated: a read
that comes after the last item asked for is not in the list, and one that comes before it is, even
if nothing more was found behind it. With a limit of zero nothing is read, not even the root
directory.

Two programs are alike if they give the same result and read the same ranges in the same order
(`Fetch.Alike`). The listing is alike to gathering from a trail, and of gathering from a trail both
can be read off. All of this is for a fixed answering rule; over a source that disturbs reads the
result is that of `Reader.Idle.advance`.
-/

set_option autoImplicit false

namespace TileArchive

/-! ### Gathering what steps find -/

namespace Gathering

variable {α : Type}

/-- Takes an item in, and ends where no more may follow. -/
def takeIn (g : Gathering α) (item : α) : Gathering α ⊕ Listing α :=
  if (g.add item).full then .inr ((g.add item).ended .stopped) else .inl (g.add item)

/-- Takes in what a trail finds. -/
def through (t : Trail (Step α)) (g : Gathering α) : Fetch (Gathering α ⊕ Listing α) :=
  t.conduct (fun g item => .done ((g.takeIn item).map id .inr))
    (fun g error => .done (match error with
      | none => .inl g
      | some e => .inr (g.ended (.failed e)))) g

/-- The listing of what a trail finds. -/
def gatherAll (t : Trail (Step α)) (g : Gathering α) : Fetch (Listing α) :=
  t.conduct (fun g item => .done (g.takeIn item))
    (fun g error => .done (g.ended (.ofError error))) g

/-- What two trails find is gathered from one after the other. The second one is not begun
where the first fills the listing or fails. -/
theorem gatherAll_append (t u : Trail (Step α)) (g : Gathering α) :
    gatherAll (t ++ u) g = (through t g).bind fun
      | .inl g => gatherAll u g
      | .inr listing => .done listing := by
  obtain ⟨steps, error⟩ := t
  induction steps generalizing g with
  -- An error of the first trail ends the listing as it ends both trails.
  | nil => cases error <;> rfl
  | cons step steps ih =>
      have split : (⟨step :: steps, error⟩ : Trail (Step α)) = .cons step ⟨steps, error⟩ := rfl
      rw [split, Trail.cons_append, gatherAll, through]
      cases step with
      | read range =>
          rw [Trail.conduct_cons_read, Trail.conduct_cons_read, Dialogue.ask_bind]
          exact congrArg (Dialogue.ask range) (funext fun _ => ih g)
      | find item =>
          rw [Trail.conduct_cons_find, Trail.conduct_cons_find, Dialogue.done_bind,
            Dialogue.done_bind]
          cases g.takeIn item with
          | inl g => exact ih g
          | inr listing => rfl

/-- The items of a run are taken in one by one, up to the limit or to the first number
without a tile. -/
theorem addRun_eq (make : TileCoord → α) (count : Nat) (id : UInt64) (g : Gathering α) :
    (.done (g.addRun make count id) : Fetch (Gathering α ⊕ Listing α))
      = through ((coordsFrom count id).map fun c => .find (make c)) g := by
  induction count generalizing id g with
  | zero => rfl
  | succ count ih =>
      rw [addRun, coordsFrom]
      cases TileCoord.ofTileId id with
      | error e => rfl
      | ok c =>
          have split : (Trail.cons c (coordsFrom count (Word.addSat id 1))).map
              (fun c => Step.find (make c)) = .cons (.find (make c))
                ((coordsFrom count (Word.addSat id 1)).map fun c => .find (make c)) := rfl
          rw [split, through, Trail.conduct_cons_find, Dialogue.done_bind, takeIn]
          -- A gathering that is full after this item ends the run here.
          by_cases full : (g.add (make c)).full = true
          · simp only [if_pos full, Sum.map_inr]
          · simp only [if_neg full, Sum.map_inl]
            exact ih _ _

/-- Whoever deals with every event by gathering what is found at it gathers what the trail finds
whose events are replaced. -/
theorem alike_expand {answer : ByteRange → Except IoError Bytes}
    {onEvent : Gathering α → WalkEvent → Fetch (Gathering α ⊕ Listing α)}
    {found : WalkEvent → Trail (Step α)}
    (gathers : ∀ g event, Fetch.Alike answer (onEvent g event) (through (found event) g))
    (t : Trail (Step WalkEvent)) (g : Gathering α) :
    Fetch.Alike answer (t.conduct onEvent (fun g error => .done (g.ended (.ofError error))) g)
      (gatherAll (t.bind (Step.expand found)) g) := by
  obtain ⟨steps, error⟩ := t
  induction steps generalizing g with
  | nil => exact .refl _
  | cons step steps ih =>
      rw [Trail.bind_mk_cons]
      cases step with
      | read range =>
          obtain ⟨run_eq, reads_eq⟩ := ih g
          exact ⟨run_eq, congrArg (range :: ·) reads_eq⟩
      | find event =>
          -- What is found at the event comes first, and the rest only if there is still room.
          rw [Step.expand, gatherAll_append]
          refine .bind (gathers g event) ?_
          cases (through (found event) g).run answer with
          | inl g => exact ih g
          | inr listing => exact .refl _

end Gathering

/-- A listing gathers what the itinerary finds whose runs are replaced by what is done about
them. -/
theorem alike_listRuns {α : Type} (h : Header) (answer : ByteRange → Except IoError Bytes)
    {onRun : Entry → Gathering α → Fetch (Gathering α ⊕ Listing α)}
    {found : Entry → Trail (Step α)}
    (gathers : ∀ e g, Fetch.Alike answer (onRun e g) (Gathering.through (found e) g))
    {limit : Option Nat} (open_ended : limit ≠ some 0) :
    Fetch.Alike answer (listRuns h onRun limit)
      (Gathering.gatherAll ((archiveItinerary h answer).bind (Step.expand (atRun found)))
        (.new limit)) := by
  rw [listRuns, if_neg open_ended]
  refine (alike_start_drive h answer _ _ fun _ => rfl).trans ?_
  refine Gathering.alike_expand ?_ _ _
  intro g event
  cases event with
  | run e => exact gathers e g
  | pointer => exact .refl _
  | leave => exact .refl _

/-! ### What comes out -/

/-- The steps up to the given number of items, or all where there are fewer items. -/
def Step.upTo {α : Type} : (count : Nat) → List (Step α) → List (Step α)
  -- Nothing is read once the last item is found.
  | 0, _ => []
  | _ + 1, [] => []
  | count + 1, .read range :: steps => .read range :: upTo (count + 1) steps
  | count + 1, .find item :: steps => .find item :: upTo count steps

namespace Trail

variable {α : Type}

/-- The steps that are done until as many items are found as asked for. -/
def within (limit : Option Nat) (t : Trail (Step α)) : List (Step α) :=
  match limit with
  | none => t.items
  | some count => Step.upTo count t.items

/-- The ranges that are read until as many items are found as asked for. -/
def rangesWithin (limit : Option Nat) (t : Trail (Step α)) : List ByteRange :=
  (t.within limit).filterMap Step.range?

/-- The items that are found, as many as asked for, and why there are no more. -/
def listing (limit : Option Nat) (t : Trail (Step α)) : Listing α :=
  let items := (t.within limit).filterMap Step.item?
  ⟨items, if limit = some items.length then .stopped else .ofError t.error⟩

end Trail

namespace Gathering

variable {α : Type} {answer : ByteRange → Except IoError Bytes}

/-- Gathering reads what the trail reads until the last item that may follow. Reads behind
that item are not made. -/
theorem reads_gatherAll (t : Trail (Step α)) (items : List α) {room : Option Nat}
    (open_ended : room ≠ some 0) :
    (gatherAll t ⟨items, room⟩).reads answer = t.rangesWithin room := by
  obtain ⟨steps, error⟩ := t
  induction steps generalizing items room with
  | nil =>
      match room with
      | none => rfl
      | some (count + 1) => rfl
  | cons step steps ih =>
      cases step with
      | read range =>
          have rest := congrArg (range :: ·) (ih items open_ended)
          match room with
          | none => exact rest
          | some (count + 1) => exact rest
      | find item =>
          match room with
          | none => exact ih (item :: items) nofun
          | some 1 =>
            -- The item is the last one, and nothing is read behind it.
            show [] = _
            simp [Trail.rangesWithin, Trail.within, Step.upTo, Step.range?]
          | some (count + 2) =>
            exact @ih (item :: items) (some (count + 1)) nofun

/-- Gathering lists what was found so far and what the trail finds until the last item that may
follow. -/
theorem run_gatherAll (t : Trail (Step α)) (items : List α) {room : Option Nat}
    (open_ended : room ≠ some 0) :
    (gatherAll t ⟨items, room⟩).run answer
      = ⟨items.reverse ++ (t.listing room).items, (t.listing room).ending⟩ := by
  obtain ⟨steps, error⟩ := t
  -- The room shrinks with each item, so the induction is over all rooms that are not used up.
  induction steps generalizing items room with
  | nil =>
      match room with
      | none => exact congrArg (Listing.mk · _) (List.append_nil _).symm
      | some (count + 1) => exact congrArg (Listing.mk · _) (List.append_nil _).symm
  | cons step steps ih =>
      cases step with
      | read range =>
          match room with
          | none => exact ih items nofun
          | some (count + 1) => exact ih items nofun
      | find item =>
          match room with
          | none =>
            refine (@ih (item :: items) none nofun).trans ?_
            rw [List.reverse_cons, List.append_assoc]
            rfl
          | some 1 =>
            show (⟨(item :: items).reverse, .stopped⟩ : Listing α) = _
            simp [Trail.listing, Trail.within, Step.upTo, Step.item?]
          | some (count + 2) =>
            refine (@ih (item :: items) (some (count + 1)) nofun).trans ?_
            rw [List.reverse_cons, List.append_assoc]
            simp [Trail.listing, Trail.within, Step.upTo, Step.item?]

end Gathering

/-- A listing gives what the itinerary finds, as many items as asked for, and reads what it reads
until the last of them. -/
theorem listRuns_eq {α : Type} (h : Header) (answer : ByteRange → Except IoError Bytes)
    {onRun : Entry → Gathering α → Fetch (Gathering α ⊕ Listing α)}
    {found : Entry → Trail (Step α)}
    (gathers : ∀ e g, Fetch.Alike answer (onRun e g) (Gathering.through (found e) g))
    (limit : Option Nat) :
    let t := (archiveItinerary h answer).bind (Step.expand (atRun found))
    (listRuns h onRun limit).run answer = t.listing limit ∧
      (listRuns h onRun limit).reads answer = t.rangesWithin limit := by
  by_cases nothing : limit = some 0
  · -- Nothing is asked for, and nothing is read.
    subst nothing
    simp [listRuns, Fetch.run, Fetch.reads, Trail.listing, Trail.rangesWithin, Trail.within,
      Step.upTo]
  · obtain ⟨run_eq, reads_eq⟩ := alike_listRuns h answer gathers nothing
    exact ⟨run_eq.trans (Gathering.run_gatherAll _ [] nothing),
      reads_eq.trans (Gathering.reads_gatherAll _ [] nothing)⟩

end TileArchive
