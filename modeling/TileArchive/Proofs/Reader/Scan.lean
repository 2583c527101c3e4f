import TileArchive.Proofs.Bytes
import TileArchive.Proofs.Directory.Search
import TileArchive.Proofs.Reader.Tour
import TileArchive.Proofs.TileCoord
import TileArchive.Reader.Listing

/-!
# `TileArchive.Proofs.Reader.Scan`: listings without limit

A listing that is asked for everything holds what the tour through all directories gives when
every run is replaced by its tiles. The walker, the reversed list of items found so far and
the step by step expansion of a run are gone from this description.

* `coordsFrom` are the tiles with consecutive numbers, and `entryCoords` those of a run.
* `scan` replaces the runs of the tour through an archive, and `Listing.ofTrail` makes a
  listing of what comes out.
* `run_listCoords` and `run_listTiles` say that this is what listing gives.

## From a loop to a trail

A listing gathers its items in a list that grows at the front and is turned around at the end. Its
loop ends early where a run cannot be expanded or a payload cannot be read. A trail has both in
one: the items in their order, and the error after the last of them if there is one.
`Gathering.follow` says what a gathering becomes when it is led along a trail, and
`Trail.feed_gathering` that a consumer which does this for single runs does it for all of them. The
reversal appears in this module and nowhere after it.

Failures are kept in their place. A trail that is broken in the middle makes a listing of what was
found before, with the error as its ending, so the equations hold of all archives and not only of
well-formed ones.
-/

set_option autoImplicit false

namespace TileArchive

/-! ### The tiles of a run -/

/-- The tiles with `count` consecutive numbers from `id` on. Numbers saturate as in the
reader, and one beyond the last zoom breaks the trail off. -/
def coordsFrom : (count : Nat) → (id : UInt64) → Trail TileCoord
  | 0, _ => .nil
  | count + 1, id =>
    match TileCoord.ofTileId id with
    | .error e => .broken (.tileId e)
    | .ok c => .cons c (coordsFrom count (Word.addSat id 1))

/-- The tiles of a run. -/
def entryCoords (e : Entry) : Trail TileCoord := coordsFrom e.runLength.toNat e.tileId

/-- The tiles of a run with their payload, which is read first. A payload that cannot be
read breaks the trail off before the first tile of the run. -/
def entryTiles (h : Header) (answer : ByteRange → Except IoError Bytes) (e : Entry) :
    Trail Tile :=
  match (fetchBytes (h.payloadRange e)).run answer with
  | .error error => .broken error
  | .ok payload => (entryCoords e).map (Tile.mk · payload)

/-- The number behind that of a tile is a word. -/
theorem toNat_addSat_one_of_ofTileId {id : UInt64} {c : TileCoord}
    (found : TileCoord.ofTileId id = .ok c) : (Word.addSat id 1).toNat = id.toNat + 1 := by
  have room : id.toNat < Word.largest := TileCoord.lt_largest_of_ofTileId found
  rw [Word.toNat_addSat]
  exact Nat.min_eq_left room

/-- Where all numbers have tiles, the tiles have these numbers. The numbers are counted up
in words that stop at the largest one, which no tile has. -/
theorem coordsFrom_whole {count : Nat} {id : UInt64}
    (whole : (coordsFrom count id).error = none) :
    (coordsFrom count id).items.map (fun c => c.tileId.toNat) = List.range' id.toNat count := by
  induction count generalizing id with
  | zero => rfl
  | succ count ih =>
      rw [coordsFrom] at whole ⊢
      match found : TileCoord.ofTileId id with
      | .error e =>
        rw [found] at whole
        cases whole
      | .ok c =>
        rw [found] at whole
        have next_eq := toNat_addSat_one_of_ofTileId found
        have rest := ih whole
        rw [next_eq] at rest
        show c.tileId.toNat :: _ = _
        rw [TileCoord.tileId_of_ofTileId found, rest]
        rfl

/-- Where there is a tile for every number, all tiles are found. -/
theorem coordsFrom_error_eq_none {count : Nat} {id : UInt64}
    (numbered : ∀ n, id.toNat ≤ n → n < id.toNat + count → ∃ c : TileCoord, c.tileId.toNat = n) :
    (coordsFrom count id).error = none := by
  induction count generalizing id with
  | zero => rfl
  | succ count ih =>
      obtain ⟨c, id_eq⟩ := numbered id.toNat (Nat.le_refl _) (by omega)
      obtain rfl : c.tileId = id := UInt64.toNat_inj.mp id_eq
      have next_eq := toNat_addSat_one_of_ofTileId (TileCoord.ofTileId_tileId c)
      rw [coordsFrom, TileCoord.ofTileId_tileId]
      refine ih ?_
      intro n low_le lt
      rw [next_eq] at low_le lt
      exact numbered n (by omega) (by omega)

/-- Where all numbers of a run have tiles, its tiles are those whose numbers it covers. -/
theorem mem_entryCoords_iff {e : Entry} (whole : (entryCoords e).error = none) {c : TileCoord} :
    c ∈ (entryCoords e).items ↔ e.covers c.tileId = true := by
  have ids_eq := coordsFrom_whole whole
  have number_mem : c.tileId.toNat ∈ (entryCoords e).items.map (fun c => c.tileId.toNat)
      ↔ e.covers c.tileId = true := by
    rw [entryCoords, ids_eq, List.mem_range'_1, e.covers_iff]
  rw [← number_mem, List.mem_map]
  constructor
  · intro member
    exact ⟨c, member, rfl⟩
  · -- Another coordinate with this number is the same.
    rintro ⟨c', member, same⟩
    rwa [← TileCoord.tileId_injective (UInt64.toNat_inj.mp same)]

/-- Where nothing fails in a run, its payload was read and each of its tiles has it. -/
theorem entryTiles_whole {h : Header} {answer : ByteRange → Except IoError Bytes} {e : Entry}
    (whole : (entryTiles h answer e).error = none) :
    ∃ payload, (fetchBytes (h.payloadRange e)).run answer = .ok payload ∧
      (entryCoords e).error = none ∧
      (entryTiles h answer e).items = (entryCoords e).items.map (Tile.mk · payload) := by
  unfold entryTiles at whole ⊢
  generalize (fetchBytes (h.payloadRange e)).run answer = read at whole ⊢
  cases read with
  | error e => cases whole
  | ok payload => exact ⟨payload, rfl, whole, rfl⟩

/-- A tile is found in a run where the run covers its number and has its payload. -/
theorem mem_entryTiles_iff {h : Header} {answer : ByteRange → Except IoError Bytes} {e : Entry}
    (whole : (entryTiles h answer e).error = none) {c : TileCoord} {payload : Bytes} :
    ⟨c, payload⟩ ∈ (entryTiles h answer e).items
      ↔ e.covers c.tileId = true ∧ (fetchBytes (h.payloadRange e)).run answer = .ok payload := by
  obtain ⟨read, run_eq, coords_whole, items_eq⟩ := entryTiles_whole whole
  rw [items_eq, run_eq, List.mem_map]
  constructor
  · rintro ⟨c', member, ⟨rfl, rfl⟩⟩
    exact ⟨(mem_entryCoords_iff coords_whole).mp member, rfl⟩
  · rintro ⟨covered, ⟨rfl⟩⟩
    exact ⟨c, (mem_entryCoords_iff coords_whole).mpr covered, rfl⟩

/-! ### Scans -/

/-- What is found at an event of a walk. -/
def atRun {α : Type} (found : Entry → Trail α) : WalkEvent → Trail α
  | .run e => found e
  | .pointer => .nil
  | .leave => .nil

/-- The tour through all directories of an archive. It is a trail of what a walk meets,
without the walker and the frames that it keeps. -/
def archiveTour (h : Header) (answer : ByteRange → Except IoError Bytes) : Trail WalkEvent :=
  match h.rootRange with
  | .error e => .broken e
  | .ok range => tourDirectory h answer (maxDirectories - 1) range

/-- The tour is what the itinerary through an archive finds. -/
theorem found_archiveItinerary (h : Header) (answer : ByteRange → Except IoError Bytes) :
    (archiveItinerary h answer).found = archiveTour h answer := by
  unfold archiveItinerary archiveTour
  cases h.rootRange with
  | error e => rfl
  | ok range => exact found_itineraryDirectory h answer _ range

/-- Whoever is handed the events of a walk from the root directory is handed those of the tour.
Without a root directory the walk fails at once. -/
theorem run_start_drive {σ β : Type} (h : Header) (answer : ByteRange → Except IoError Bytes)
    (onEvent : σ → WalkEvent → Fetch (σ ⊕ β)) (atEnd : σ → Option ReadError → Fetch β) {state : σ}
    {failed : ReadError → β} (fails : ∀ e, atEnd state (some e) = .done (failed e)) :
    Fetch.run answer (match Walker.start h with
      | .error e => .done (failed e)
      | .ok w => w.drive h onEvent atEnd state)
      = (archiveTour h answer).feed (fun state event => (onEvent state event).run answer)
          (fun state error => (atEnd state error).run answer) state := by
  refine (alike_start_drive h answer onEvent atEnd fails).run_eq.trans ?_
  rw [Trail.run_conduct, found_archiveItinerary]

/-- What is found in all runs of an archive. What is found in one run is left open, since
listings of coordinates and of tiles differ in nothing else. -/
def scan {α : Type} (h : Header) (answer : ByteRange → Except IoError Bytes)
    (found : Entry → Trail α) : Trail α :=
  (archiveTour h answer).bind (atRun found)

/-- A scan that does not fail finds what is found in the runs of the tour, one after
another. In particular there is a root directory, and no directory and no run has failed. -/
theorem scan_whole {α : Type} {h : Header} {answer : ByteRange → Except IoError Bytes}
    {found : Entry → Trail α} (whole : (scan h answer found).error = none) :
    ∃ range, h.rootRange = .ok range ∧
      (tourDirectory h answer (maxDirectories - 1) range).error = none ∧
      (∀ e ∈ (tourDirectory h answer (maxDirectories - 1) range).runs, (found e).error = none) ∧
      (scan h answer found).items
        = (tourDirectory h answer (maxDirectories - 1) range).runs.flatMap
            fun e => (found e).items := by
  unfold scan archiveTour at whole ⊢
  generalize h.rootRange = root at whole ⊢
  cases root with
  | error e => cases whole
  | ok range =>
      obtain ⟨error_eq, all, items_eq⟩ := Trail.bind_whole whole
      refine ⟨range, rfl, error_eq, ?_, items_eq.trans ?_⟩
      · intro e member
        obtain ⟨event, event_mem, entry_eq⟩ := List.mem_filterMap.mp member
        cases event with
        | run e' =>
            cases entry_eq
            exact all _ event_mem
        | pointer => cases entry_eq
        | leave => cases entry_eq
      · -- What is found at the events is found at the runs among them.
        rw [Trail.runs]
        generalize (tourDirectory h answer (maxDirectories - 1) range).items = events
        induction events with
        | nil => rfl
        | cons event events ih =>
            cases event with
            | run e => exact congrArg ((found e).items ++ ·) ih
            | pointer => exact ih
            | leave => exact ih

/-- A scan does not fail where neither the tour fails nor anything in a run that it meets. -/
theorem scan_error_eq_none {α : Type} {h : Header} {answer : ByteRange → Except IoError Bytes}
    {found : Entry → Trail α} {range : ByteRange} (root_eq : h.rootRange = .ok range)
    (whole : (tourDirectory h answer (maxDirectories - 1) range).error = none)
    (each : ∀ e ∈ (tourDirectory h answer (maxDirectories - 1) range).runs,
      (found e).error = none) : (scan h answer found).error = none := by
  rw [scan, archiveTour, root_eq]
  refine Trail.bind_error_eq_none whole ?_
  intro event member
  cases event with
  | run e => exact each e (List.mem_filterMap.mpr ⟨_, member, rfl⟩)
  | pointer => rfl
  | leave => rfl

/-- Where all tiles are found, their coordinates are found, too. The converse does not hold,
as a payload may lie outside of the archive. -/
theorem scan_entryCoords {h : Header} {answer : ByteRange → Except IoError Bytes}
    (whole : (scan h answer (entryTiles h answer)).error = none) :
    scan h answer entryCoords
      = ⟨(scan h answer (entryTiles h answer)).items.map Tile.coord, none⟩ := by
  obtain ⟨range, root_eq, tour_whole, runs_whole, items_eq⟩ := scan_whole whole
  have coords_whole : (scan h answer entryCoords).error = none := by
    refine scan_error_eq_none root_eq tour_whole ?_
    intro e member
    obtain ⟨-, -, coords_whole, -⟩ := entryTiles_whole (runs_whole e member)
    exact coords_whole
  obtain ⟨range', root_eq', -, -, coords_eq⟩ := scan_whole coords_whole
  obtain rfl : range = range' := Except.ok.inj (root_eq.symm.trans root_eq')
  have same : (scan h answer entryCoords).items
      = (scan h answer (entryTiles h answer)).items.map Tile.coord := by
    -- Run by run, the tiles are the coordinates with the payload of the run.
    rw [coords_eq, items_eq, List.map_flatMap, List.flatMap_def, List.flatMap_def]
    refine congrArg List.flatten (List.map_congr_left ?_)
    intro e member
    obtain ⟨payload, -, -, tiles_eq⟩ := entryTiles_whole (runs_whole e member)
    rw [tiles_eq, List.map_map]
    exact (List.map_id _).symm
  rw [← same, ← coords_whole]

/-- The listing that ends as a trail does. -/
def Listing.ofTrail {α : Type} (t : Trail α) : Listing α := ⟨t.items, .ofError t.error⟩

/-! ### Gathering what a trail holds -/

namespace Gathering

variable {α : Type}

/-- The gathering of everything, with some items found so far, the last one first. -/
def everything (found : List α) : Gathering α := ⟨found, none⟩

/-- The listing of the items found so far and those of a trail. -/
def finish (found : List α) (t : Trail α) : Listing α :=
  ⟨found.reverse ++ t.items, .ofError t.error⟩

/-- Gathers the items of a trail; an error in it ends the listing. -/
def follow (found : List α) (t : Trail α) : Gathering α ⊕ Listing α :=
  match t.error with
  | none => .inl (everything (t.items.reverse ++ found))
  | some _ => .inr (finish found t)

/-- A trail that is broken at once ends the gathering with its error. -/
@[simp]
theorem follow_broken (found : List α) (e : ReadError) :
    follow found (.broken e) = .inr ((everything found).ended (.failed e)) := by
  simp [follow, finish, Trail.broken, ended, everything, Ending.ofError]

/-- The first item of a trail is found before the others. -/
theorem follow_cons (found : List α) (item : α) (t : Trail α) :
    follow found (.cons item t) = follow (item :: found) t := by
  obtain ⟨items, error⟩ := t
  cases error <;> simp [follow, finish, Trail.cons]

/-- Gathering one trail after another ends in one listing. -/
theorem finish_append (found : List α) (t u : Trail α) :
    finish found (t ++ u)
      = match follow found t with
        | .inl g => finish g.found u
        | .inr listing => listing := by
  match t with
  | ⟨items, none⟩ =>
    rw [Trail.append_eq_of_error_none rfl]
    simp [follow, finish, everything]
  | ⟨items, some e⟩ => rfl

/-- Gathering the items of one trail after another is gathering those of both. -/
theorem follow_append (found : List α) (t u : Trail α) :
    follow found (t ++ u)
      = match follow found t with
        | .inl g => follow g.found u
        | .inr listing => .inr listing := by
  match t with
  | ⟨items, none⟩ =>
    rw [Trail.append_eq_of_error_none rfl]
    cases error : u.error <;> simp [follow, finish, everything, error]
  | ⟨items, some e⟩ => rfl

/-- Everything in a run is gathered. -/
theorem addRun_everything (make : TileCoord → α) (count : Nat) (id : UInt64) (found : List α) :
    (everything found).addRun make count id = follow found ((coordsFrom count id).map make) := by
  induction count generalizing id found with
  | zero => rfl
  | succ count ih =>
    rw [addRun, coordsFrom]
    cases TileCoord.ofTileId id with
    | error e => exact (follow_broken found _).symm
    | ok c => exact (ih _ (make c :: found)).trans (follow_cons found _ _).symm

/-- Gathering a run follows the trail of its tiles. -/
theorem addEntry_everything (make : TileCoord → α) (e : Entry) (found : List α) :
    (everything found).addEntry make e = follow found ((entryCoords e).map make) :=
  addRun_everything make _ _ found

end Gathering

/-! ### Listings -/

/-- A consumer that gathers what is found at every event gathers what the whole trail gives.
Without a limit it never stops before the trail does. -/
theorem Trail.feed_gathering {α : Type} (found : WalkEvent → Trail α)
    (t : Trail WalkEvent) {onEvent : Gathering α → WalkEvent → Gathering α ⊕ Listing α}
    (gathers : ∀ items event,
      onEvent (.everything items) event = Gathering.follow items (found event))
    (items : List α) :
    t.feed onEvent (fun g error => g.ended (.ofError error)) (.everything items)
      = Gathering.finish items (t.bind found) := by
  obtain ⟨events, error⟩ := t
  induction events generalizing items with
  | nil => simp [feed, feedItems, Gathering.finish, Gathering.ended, bind, Gathering.everything]
  | cons event events ih =>
    show feed onEvent _ (cons event ⟨events, error⟩) _ = _
    rw [feed_cons, gathers, bind_mk_cons, Gathering.finish_append]
    match found event with
    | ⟨new, none⟩ => exact ih (new.reverse ++ items)
    | ⟨new, some e⟩ => rfl

/-- A listing of everything is the scan with what is found in each run. -/
theorem run_listRuns {α : Type} (h : Header) (answer : ByteRange → Except IoError Bytes)
    {onRun : Entry → Gathering α → Fetch (Gathering α ⊕ Listing α)} {found : Entry → Trail α}
    (gathers : ∀ e items,
      (onRun e (.everything items)).run answer = Gathering.follow items (found e)) :
    (listRuns h onRun none).run answer = .ofTrail (scan h answer found) := by
  rw [listRuns, if_neg nofun]
  refine (run_start_drive h answer _ _ fun _ => rfl).trans ?_
  refine (Trail.feed_gathering (atRun found) _ ?_ []).trans rfl
  intro items event
  cases event with
  | run e => exact gathers e items
  | pointer => rfl
  | leave => rfl

/-- Listing coordinates gives the tiles of all runs that are met. -/
theorem run_listCoords (h : Header) (answer : ByteRange → Except IoError Bytes) :
    (listCoords h none).run answer = .ofTrail (scan h answer entryCoords) :=
  run_listRuns h answer fun e items => by
    have map_id : (entryCoords e).map id = entryCoords e := by simp [Trail.map]
    rw [Fetch.run, Gathering.addEntry_everything, map_id]

/-- Listing tiles gives the tiles of all runs that are met, with their payloads. -/
theorem run_listTiles (h : Header) (answer : ByteRange → Except IoError Bytes) :
    (listTiles h none).run answer = .ofTrail (scan h answer (entryTiles h answer)) :=
  run_listRuns h answer fun e items => by
    rw [Fetch.run_bind, entryTiles]
    cases (fetchBytes (h.payloadRange e)).run answer with
    | error error => exact (Gathering.follow_broken items error).symm
    | ok payload => exact Gathering.addEntry_everything _ e items

/-! ### Listings as results -/

/-- A trail without an error makes a complete listing, and only such a trail does. -/
theorem Listing.tally_ofTrail_eq_ok_iff {α : Type} (t : Trail α) (n : Nat) :
    (ofTrail t).tally = .ok n ↔ t.error = none ∧ n = t.items.length := by
  obtain ⟨items, error⟩ := t
  cases error with
  | none =>
      constructor
      · rintro ⟨rfl⟩
        exact ⟨rfl, rfl⟩
      · rintro ⟨-, rfl⟩
        rfl
  | some e => exact ⟨nofun, fun failed => nomatch failed.1⟩

/-- A trail without an error makes a complete listing. -/
theorem Listing.ofTrail_of_whole {α : Type} {t : Trail α} (whole : t.error = none) :
    ofTrail t = ⟨t.items, .complete⟩ := by
  rw [ofTrail, whole]
  rfl

/-- A listing is complete exactly where its trail has no error. -/
theorem Listing.ending_ofTrail_eq_complete_iff {α : Type} (t : Trail α) :
    (ofTrail t).ending = .complete ↔ t.error = none := by
  obtain ⟨items, error⟩ := t
  cases error with
  | none => exact ⟨fun _ => rfl, fun _ => rfl⟩
  | some e => exact ⟨nofun, nofun⟩

end TileArchive
