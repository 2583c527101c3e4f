import TileArchive.Proofs.Reader.Scan
import TileArchive.Reader.Visit

/-!
# `TileArchive.Proofs.Reader.Counting`: the count of a visit is the number of its tiles

A visit counts the tiles while it hands them out. `countTiles` is the visit as far as the count
goes, with the loops and the sums in which the count comes about. `run_countTiles` says that the
count is the number of tiles that were handed out, as a word, and that there is none where the
visit fails. It holds of every archive, every threshold and every source, also of sources that
fail now and then.

Both programs go through the same events. They are compared in two steps:

* A chunk is read by both or by neither. What it gives is told by one trail, whose items are
  handed out on one side and counted on the other (`Chunk.flush_counted`). `Trail.countOn` is the
  count that goes on through a trail.
* The states are related as long as the count is the number of the tiles found so far
  (`Counted`). One event keeps this (`countEvent_related`), and then `Trail.feed_related` carries
  it through the whole visit.
-/

set_option autoImplicit false

namespace TileArchive

/-! ### Counting a trail -/

section

variable {α β : Type}

/-- Goes on counting through the items of a trail. An error in it leaves no count. -/
def Trail.countOn (t : Trail α) (visited : UInt64) : Except ReadError UInt64 :=
  match t.error with
  | none => .ok (visited + UInt64.ofNat t.items.length)
  | some e => .error e

/-- Nothing is counted on an empty trail. -/
theorem Trail.countOn_nil (visited : UInt64) : (nil : Trail α).countOn visited = .ok visited := by
  simp [countOn, nil]

/-- An item at the front counts one more. -/
theorem Trail.countOn_cons (item : α) (t : Trail α) (visited : UInt64) :
    (cons item t).countOn visited = t.countOn (visited + 1) := by
  obtain ⟨items, error⟩ := t
  cases error with
  | none =>
      simp only [countOn, cons, List.length_cons, Except.ok.injEq, UInt64.ofNat_add]
      rw [UInt64.add_comm (UInt64.ofNat items.length), ← UInt64.add_assoc]
      rfl
  | some e => rfl

/-- Counting through two trails is counting through one after the other. -/
theorem Trail.countOn_append (t u : Trail α) (visited : UInt64) :
    (t ++ u).countOn visited = (t.countOn visited).bind u.countOn := by
  match t with
  | ⟨items, some e⟩ => rfl
  | ⟨items, none⟩ =>
    rw [append_eq_of_error_none rfl]
    obtain ⟨items', error⟩ := u
    cases error with
    | none => simp [countOn, Except.bind, UInt64.ofNat_add, UInt64.add_assoc]
    | some e => rfl

/-- It does not matter what the items are, only how many there are. -/
theorem Trail.countOn_map (f : α → β) (t : Trail α) (visited : UInt64) :
    (t.map f).countOn visited = t.countOn visited := by
  simp [countOn, map]

/-- The listing of what was found and of a trail has as many items as are counted from the number
of what was found on. -/
theorem Gathering.tally_finish (found : List α) (t : Trail α) :
    (finish found t).tally.map UInt64.ofNat = t.countOn (UInt64.ofNat found.length) := by
  obtain ⟨items, error⟩ := t
  cases error with
  | none => simp [finish, Listing.tally, Ending.ofError, Trail.countOn, Except.map]
  | some e => rfl

end

/-! ### Counting a chunk -/

/-- The tile numbers of a run are counted as its coordinates are found. -/
theorem countRun_eq (count : Nat) (id visited : UInt64) :
    countRun count id visited = (coordsFrom count id).countOn visited := by
  induction count generalizing id visited with
  | zero => exact (Trail.countOn_nil visited).symm
  | succ count ih =>
      rw [countRun, coordsFrom]
      cases TileCoord.ofTileId id with
      | error e => rfl
      | ok c => exact (ih _ _).trans (Trail.countOn_cons c _ visited).symm

namespace Chunk

variable {h : Header} {c : Chunk}

/-- The tiles of some runs of a chunk are handed out and counted alike: one trail tells
both. So the count goes up by one for each tile that a consumer sees, and stops where the
tiles do. -/
theorem handOut_counted (data : Bytes) (es : List Entry) :
    ∃ t : Trail Tile,
      (∀ found, c.handOut h data es (.everything found) = Gathering.follow found t) ∧
      ∀ visited, c.countRuns h data es visited = t.countOn visited := by
  induction es with
  | nil => exact ⟨.nil, fun _ => rfl, fun visited => (Trail.countOn_nil visited).symm⟩
  | cons e es ih =>
      obtain ⟨rest, hands, counts⟩ := ih
      cases cut : c.payload? h data e with
      | none =>
          refine ⟨.broken (.io (.of .unexpectedEof "Coalesced read was short")), ?_, ?_⟩
          · intro found
            rw [handOut, cut, Gathering.follow_broken]
          · intro visited
            rw [countRuns, cut]
            rfl
      | some payload =>
          -- The trail is that of the tiles of the run and then that of the other runs.
          refine ⟨(entryCoords e).map (Tile.mk · payload) ++ rest, ?_, ?_⟩
          · intro found
            rw [handOut, cut, Gathering.follow_append]
            simp only [Gathering.addEntry_everything]
            match (entryCoords e).map (Tile.mk · payload) with
            | ⟨items, none⟩ => exact hands _
            | ⟨items, some e⟩ => rfl
          · intro visited
            rw [countRuns, cut, Trail.countOn_append, Trail.countOn_map, entryCoords, ← countRun_eq,
              ← funext counts]

/-- A chunk is read and its tiles are handed out, or read and its tiles are counted. One trail
tells both. -/
theorem flush_counted (answer : ByteRange → Except IoError Bytes) :
    ∃ t : Trail Tile,
      (∀ found, (c.flush h (.everything found)).run answer = Gathering.follow found t) ∧
      (c.flushCount h).run answer = t.countOn 0 := by
  by_cases none_yet : c.entries.isEmpty = true
  · refine ⟨.nil, ?_, ?_⟩
    · intro found
      rw [flush, if_pos none_yet]
      rfl
    · rw [flushCount, if_pos none_yet]
      rfl
  by_cases large : Word.largest32 < c.span
  · refine ⟨.broken c.tooLarge, ?_, ?_⟩
    · intro found
      rw [flush, if_neg none_yet, if_pos large, Gathering.follow_broken]
      rfl
    · rw [flushCount, if_neg none_yet, if_pos large]
      rfl
  -- Both read the same range, and go on with the same bytes.
  simp only [flush, flushCount, if_neg none_yet, if_neg large, Fetch.run_bind]
  cases (fetchBytes ⟨c.start, UInt32.ofNat c.span⟩).run answer with
  | error e => exact ⟨.broken e, fun found => (Gathering.follow_broken found e).symm, rfl⟩
  | ok data =>
      obtain ⟨t, hands, counts⟩ := c.handOut_counted data c.entries
      exact ⟨t, hands, counts 0⟩

end Chunk

/-! ### Counting a visit -/

/-- The visit and its count have come equally far: they are at the same chunk, and the count
is the number of tiles found. The count is a word that wraps, as the number of tiles does
when it is made a word. -/
inductive Counted : Chunk × Gathering Tile → Chunk × UInt64 → Prop where
  | intro (c : Chunk) (found : List Tile) :
      Counted (c, .everything found) (c, UInt64.ofNat found.length)

/-- A count is the number of items of a listing that did not fail, as a word. A listing that
failed has no count, and the error is the one that it ends with. -/
def CountOf (listing : Listing Tile) (count : Except ReadError UInt64) : Prop :=
  listing.tally.map UInt64.ofNat = count

section

variable {h : Header} (answer : ByteRange → Except IoError Bytes) {threshold : UInt64}

/-- A chunk is read, and both go on with the same chunk, or both fail. The same read is made
by both, with one answer. -/
theorem countThen_related (next c : Chunk) (found : List Tile) :
    Sum.LiftRel Counted CountOf ((flushThen h next (c, .everything found)).run answer)
      ((countThen h next (c, UInt64.ofNat found.length)).run answer) := by
  obtain ⟨t, hands, counts⟩ := c.flush_counted (h := h) answer
  rw [flushThen, countThen, Fetch.run_bind, Fetch.run_bind, hands, counts]
  match t with
  | ⟨items, none⟩ =>
    -- Counting on from the tiles found so far is counting all of them.
    have count_eq : UInt64.ofNat found.length + (0 + UInt64.ofNat items.length)
        = UInt64.ofNat (items.reverse ++ found).length := by
      rw [UInt64.zero_add, List.length_append, List.length_reverse, Nat.add_comm,
        UInt64.ofNat_add]
    refine .inl ?_
    show Counted (next, .everything (items.reverse ++ found))
      (next, UInt64.ofNat found.length + (0 + UInt64.ofNat items.length))
    rw [count_eq]
    exact .intro next _
  | ⟨items, some e⟩ => exact .inr rfl

/-- One event keeps the count the number of tiles found. -/
theorem countEvent_related (event : WalkEvent) (state : Chunk × Gathering Tile)
    (state' : Chunk × UInt64) (counted : Counted state state') :
    Sum.LiftRel Counted CountOf ((visitEvent h threshold state event).run answer)
      ((countEvent h threshold state' event).run answer) := by
  obtain ⟨c, found⟩ := counted
  cases event with
  | run e =>
      rw [visitEvent, countEvent]
      cases c.extend? h threshold e with
      | some longer => exact .inl (.intro longer found)
      | none => exact countThen_related answer (.single h e) c found
  | pointer => exact countThen_related answer .empty c found
  | leave => exact countThen_related answer .empty c found

/-- Where the walk ends, the visit has found as many tiles as are counted. -/
theorem countEnd_related (error : Option ReadError) (state : Chunk × Gathering Tile)
    (state' : Chunk × UInt64) (counted : Counted state state') :
    CountOf ((visitEnd h state error).run answer) ((countEnd h state' error).run answer) := by
  obtain ⟨c, found⟩ := counted
  cases error with
  | some e => rfl
  | none =>
      -- The walk is over without an error, so the last chunk is still to be handed out.
      obtain ⟨t, hands, counts⟩ := c.flush_counted (h := h) answer
      rw [visitEnd, countEnd, Fetch.run_bind, Fetch.run_bind, hands, counts]
      match t with
      | ⟨items, some e⟩ => rfl
      | ⟨items, none⟩ =>
        have counts_on := Gathering.tally_finish found ⟨items, none⟩
        simp only [Trail.countOn, UInt64.zero_add] at counts_on ⊢
        rw [CountOf, Fetch.run, ← counts_on]
        simp [Gathering.follow, Gathering.finish, Gathering.everything, Gathering.ended,
          Fetch.run, Ending.ofError]

/-- What a visit counts is the number of tiles that it hands out. Where the visit fails there is
no count, but the same error. -/
theorem run_countTiles (h : Header) (threshold : UInt64) :
    (countTiles h threshold).run answer
      = ((visitTiles h threshold).run answer).tally.map UInt64.ofNat := by
  -- Both run over the events of the same walk, with states that stay related from one to the
  -- next.
  have visit_eq : (visitTiles h threshold).run answer = _ :=
    run_start_drive h answer (visitEvent h threshold) (visitEnd h) fun _ => rfl
  have count_eq : (countTiles h threshold).run answer = _ :=
    run_start_drive h answer (countEvent h threshold) (countEnd h) fun _ => rfl
  have counted : CountOf ((visitTiles h threshold).run answer)
      ((countTiles h threshold).run answer) := by
    rw [visit_eq, count_eq]
    exact Trail.feed_related (fun event _ => countEvent_related answer event)
      (countEnd_related answer _) (.intro .empty [])
  exact counted.symm

end

end TileArchive
