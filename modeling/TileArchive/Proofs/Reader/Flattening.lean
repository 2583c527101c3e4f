import TileArchive.Proofs.Reader.Listed
import TileArchive.Proofs.Reader.Log
import TileArchive.Proofs.TileCoord.Bijection

/-!
# `TileArchive.Proofs.Reader.Flattening`: a listing flattens the directories

A listing walks with a stack of open directories, a directory that is still to be opened, and a
run that is being expanded. What comes out is the recursive enumeration: a directory is read, its
rows are taken in order, a run is replaced by its tiles, and a pointer by the same for its leaf, as
long as fewer than four directories are open. The first error ends it.

* `flattenDirectory` and `flatten` are the enumeration, by recursion on the directories that may
  still be opened. `tileSteps` and `coordSteps` are what it does about a run: the tiles with the
  numbers of the run, after a read of their payload or without one.
* `flattenDirectory_eq`: the enumeration is the itinerary of a walk with its runs replaced.
* `listing_flattens`: so every listing gives the items of the enumeration, up to as many as were
  asked for, and has read by then what the enumeration has read.
-/

set_option autoImplicit false

namespace TileArchive

/-! ### The enumeration -/

/-- The numbers of the tiles of a run. -/
def Entry.tileNumbers (e : Entry) : List Nat := List.range' e.tileId.toNat e.runLength.toNat

/-- The tiles with the given numbers, up to the first number that no tile has. -/
def tilesNumbered : List Nat → Trail TileCoord
  | [] => .nil
  | id :: ids =>
    match TileCoord.ofTileId (UInt64.ofNat id) with
    | .error e => .broken (.tileId e)
    | .ok c => .cons c (tilesNumbered ids)

/-- A run where only coordinates are listed: those of its tiles. -/
def coordSteps (e : Entry) : Trail (Step TileCoord) := (tilesNumbered e.tileNumbers).map .find

/-- A run where tiles are listed: its payload is read, then its tiles come with that payload. -/
def tileSteps (h : Header) (answer : ByteRange → Except IoError Bytes) (e : Entry) :
    Trail (Step Tile) :=
  .cons (.read (h.payloadRange e))
    (match answer (h.payloadRange e) with
    | .error error => .broken (.io error)
    | .ok payload => (tilesNumbered e.tileNumbers).map fun c => .find ⟨c, payload⟩)

section

variable {α : Type}

/-- The directory in a range is read, unwrapped and decoded, and something is done about its rows.
A directory without bytes has no rows and is not read. -/
def directorySteps (h : Header) (answer : ByteRange → Except IoError Bytes) (range : ByteRange)
    (rows : List Entry → Trail (Step α)) : Trail (Step α) :=
  if range.isEmpty then rows []
  else
    .cons (.read range)
      (match answer range with
      | .error error => .broken (.io error)
      | .ok stored =>
        match decodeDirectory h stored with
        | .error error => .broken error
        | .ok directory => rows directory.entries)

/-- Rows in order, with what is done about a run or about the leaf behind a pointer. -/
def flattenRows (found leaf : Entry → Trail (Step α)) : List Entry → Trail (Step α)
  | [] => .nil
  | e :: rest => (if e.isPointer then leaf e else found e) ++ flattenRows found leaf rest

/-- The directory in a range and all below it. With this one, `opened` directories are open, and
pointers are passed over where no more may be. -/
def flattenDirectory (h : Header) (answer : ByteRange → Except IoError Bytes)
    (found : Entry → Trail (Step α)) (opened : Nat) (range : ByteRange) : Trail (Step α) :=
  directorySteps h answer range
    (flattenRows found fun e =>
      -- The leaf would be open besides the `opened` directories around its pointer.
      if _room : opened < maxDirectories then
        flattenDirectory h answer found (opened + 1) (h.leafRange e)
      else .nil)
termination_by maxDirectories - opened

/-- All directories of an archive, from the root directory on. -/
def flatten (h : Header) (answer : ByteRange → Except IoError Bytes)
    (found : Entry → Trail (Step α)) : Trail (Step α) :=
  match h.rootRange with
  | .error e => .broken e
  | .ok range => flattenDirectory h answer found 1 range

end

/-! ### The tiles of a run -/

/-- The end of the last zoom is a word. -/
theorem end_lt_size : (gridArea (maxZoom + 1) - 1) / 3 < UInt64.size := by decide

/-- Consecutive numbers have tiles up to the end of the last zoom, and the first number that lies
there is the one that is refused. -/
theorem tilesNumbered_range' (count : Nat) {first : Nat} (word : first < UInt64.size) :
    (tilesNumbered (List.range' first count)).items.map (fun c => c.tileId.toNat)
        = (List.range' first count).takeWhile (· < (gridArea (maxZoom + 1) - 1) / 3) ∧
      (tilesNumbered (List.range' first count)).error
        = ((List.range' first count).find? fun id => (gridArea (maxZoom + 1) - 1) / 3 ≤ id).map
            fun id => .tileId (.idOutOfRange (UInt64.ofNat id)) := by
  induction count generalizing first with
  | zero => exact ⟨rfl, rfl⟩
  | succ count ih =>
      have number_eq : (UInt64.ofNat first).toNat = first := UInt64.toNat_ofNat_of_lt word
      rw [List.range'_succ, tilesNumbered]
      by_cases inside : first < (gridArea (maxZoom + 1) - 1) / 3
      · -- The number has a tile, and so has room behind it.
        obtain ⟨c, found⟩ : ∃ c, TileCoord.ofTileId (.ofNat first) = .ok c := by
          refine TileCoord.exists_ofTileId_of_lt ?_
          rwa [number_eq, ← TileCoord.gridArea_sub_one_div]
        have next_lt : first + 1 < UInt64.size := Nat.lt_of_le_of_lt inside end_lt_size
        obtain ⟨items_eq, error_eq⟩ := ih next_lt
        have id_eq : c.tileId.toNat = first := by
          rw [TileCoord.tileId_of_ofTileId found, number_eq]
        rw [found, List.takeWhile_cons_of_pos (by simpa using inside),
          List.find?_cons_of_neg (by simpa using inside)]
        refine ⟨?_, error_eq⟩
        rw [← items_eq, ← id_eq]
        rfl
      · -- The number is refused, and with it all that come behind.
        have refused : TileCoord.ofTileId (.ofNat first) = .error (.idOutOfRange (.ofNat first)) :=
          TileCoord.ofTileId_eq_error (TileCoord.zoomOf?_eq_none_iff.mpr (by
            rw [number_eq, ← TileCoord.gridArea_sub_one_div]
            exact Nat.not_lt.mp inside))
        rw [refused, List.takeWhile_cons_of_neg (by simpa using inside),
          List.find?_cons_of_pos (by simpa using inside)]
        exact ⟨rfl, rfl⟩

/-- The numbers of a run are those that are met by counting with words. -/
theorem tilesNumbered_eq_coordsFrom (count : Nat) (id : UInt64) :
    tilesNumbered (List.range' id.toNat count) = coordsFrom count id := by
  induction count generalizing id with
  | zero => rfl
  | succ count ih =>
      rw [List.range'_succ, tilesNumbered, coordsFrom, UInt64.ofNat_toNat]
      cases found : TileCoord.ofTileId id with
      | error e => rfl
      | ok c =>
          show Trail.cons c _ = Trail.cons c _
          rw [← ih, toNat_addSat_one_of_ofTileId found]

/-- The tiles of a run by their plain numbers are those that the reader finds, word by word. -/
theorem tilesNumbered_tileNumbers (e : Entry) : tilesNumbered e.tileNumbers = entryCoords e :=
  tilesNumbered_eq_coordsFrom _ _

/-! ### Runs -/

/-- Where coordinates are listed, those of a run are gathered. -/
theorem alike_coordSteps (answer : ByteRange → Except IoError Bytes) (e : Entry)
    (g : Gathering TileCoord) :
    Fetch.Alike answer (.done (g.addEntry id e)) (Gathering.through (coordSteps e) g) := by
  rw [coordSteps, tilesNumbered_tileNumbers, Gathering.addEntry, Gathering.addRun_eq]
  exact .refl _

/-- Where tiles are listed, the payload of a run is read, and then its tiles are gathered.
Both ways read it before the first tile, and fail with the same error before it. -/
theorem alike_tileSteps (h : Header) (answer : ByteRange → Except IoError Bytes) (e : Entry)
    (g : Gathering Tile) :
    Fetch.Alike answer
      ((fetchBytes (h.payloadRange e)).bind fun
        | .error error => .done (.inr (g.ended (.failed error)))
        | .ok payload => .done (g.addEntry (Tile.mk · payload) e))
      (Gathering.through (tileSteps h answer e) g) := by
  rw [tileSteps, tilesNumbered_tileNumbers]
  -- The read of the payload comes first on both sides.
  refine .behind (d := fetchBytes (h.payloadRange e)) ?_
  show Fetch.Alike answer (match (answer (h.payloadRange e)).mapError ReadError.io with
    | .error error => _
    | .ok payload => _) _
  cases answer (h.payloadRange e) with
  | error error => exact .refl _
  | ok payload =>
      show Fetch.Alike answer (.done (g.addEntry (Tile.mk · payload) e)) _
      rw [Gathering.addEntry, Gathering.addRun_eq]
      exact .refl _

/-! ### Directories -/

section

variable {α : Type} {h : Header} {answer : ByteRange → Except IoError Bytes}
  {found : Entry → Trail (Step α)}

/-- What is done about the leaf behind a pointer, or nothing where none may be opened. -/
def leafSteps (found : Entry → Trail (Step α)) (leaf : Option (Entry → Trail (Step WalkEvent)))
    (e : Entry) : Trail (Step α) :=
  match leaf with
  | none => .nil
  | some leaf => (leaf e).bind (Step.expand (atRun found))

/-- Rows are flattened as they come in an itinerary. The recursion goes over the rows on
both sides, and what stands behind a pointer is the same by assumption. -/
theorem flattenRows_eq (leaf : Option (Entry → Trail (Step WalkEvent))) (rows : List Entry) :
    flattenRows found (leafSteps found leaf) rows
      = (itineraryRows leaf rows).bind (Step.expand (atRun found)) := by
  induction rows with
  | nil => rfl
  | cons e rest ih =>
      rw [flattenRows, ih]
      -- A pointer brings in the way behind it, and a run brings in its tiles.
      by_cases pointer : e.isPointer = true
      · rw [if_pos pointer]
        cases leaf with
        | none =>
            rw [itineraryRows_pointer_none pointer]
            rfl
        | some leaf =>
            rw [itineraryRows_pointer leaf pointer, Trail.cons_bind, Trail.bind_append]
            rfl
      · rw [if_neg pointer, itineraryRows_run leaf pointer, Trail.cons_bind]
        rfl

/-- A directory is read and decoded as a walker does it. An empty range is an empty
directory without a read, on both sides. -/
theorem directorySteps_eq (range : ByteRange) (rows : List Entry → Trail (Step α)) :
    directorySteps h answer range rows
      = Trail.behind ((loadDirectory h range).reads answer)
          (match (loadDirectory h range).run answer with
          | .error e => .broken e
          | .ok directory => rows directory.entries) := by
  unfold directorySteps loadDirectory
  by_cases empty : range.isEmpty = true
  · rw [if_pos empty, if_pos empty]
    rfl
  · rw [if_neg empty, if_neg empty, Fetch.run_bind]
    show _ = Trail.behind [range] (match (answer range).mapError ReadError.io >>= decodeDirectory h
      with
      | .error e => .broken e
      | .ok directory => rows directory.entries)
    -- The read has its place in the steps whatever comes of it.
    cases answer range with
    | error error => rfl
    | ok stored =>
        show Trail.cons _ (match decodeDirectory h stored with
          | .error e => .broken e
          | .ok directory => rows directory.entries) = Trail.behind [range]
            (match decodeDirectory h stored with
            | .error e => .broken e
            | .ok directory => rows directory.entries)
        cases decodeDirectory h stored <;> rfl

/-- A directory and its leaves are flattened as they come in an itinerary. -/
theorem directorySteps_leafSteps (leaf : Option (Entry → Trail (Step WalkEvent)))
    (range : ByteRange) :
    directorySteps h answer range (flattenRows found (leafSteps found leaf))
      = (itineraryBehind h answer leaf range).bind (Step.expand (atRun found)) := by
  rw [directorySteps_eq, itineraryBehind, Trail.bind_behind]
  cases (loadDirectory h range).run answer with
  | error e => rfl
  | ok directory => exact congrArg _ (flattenRows_eq leaf directory.entries)

/-- A directory and all below it are flattened as they come in an itinerary. The induction is on
the levels that may still be opened. -/
theorem flattenDirectory_eq {below opened : Nat} (levels : opened + below = maxDirectories)
    (range : ByteRange) :
    flattenDirectory h answer found opened range
      = (itineraryDirectory h answer below range).bind (Step.expand (atRun found)) := by
  rw [flattenDirectory, itineraryDirectory, ← directorySteps_leafSteps]
  -- Both sides treat the rows alike, so only what lies behind a pointer is left to compare.
  refine congrArg (fun leaf => directorySteps h answer range (flattenRows found leaf)) ?_
  funext e
  induction below generalizing opened e with
  | zero =>
      rw [dif_neg (by omega)]
      rfl
  | succ below ih =>
      rw [dif_pos (by omega), flattenDirectory, leafItinerary]
      show _ = (itineraryBehind h answer _ _).bind _
      rw [← directorySteps_leafSteps]
      exact congrArg (fun leaf => directorySteps h answer _ (flattenRows found leaf))
        (funext fun e => ih (by omega) e)

/-- An archive is flattened as it comes in the itinerary from the root directory. -/
theorem flatten_eq :
    flatten h answer found = (archiveItinerary h answer).bind (Step.expand (atRun found)) := by
  unfold flatten archiveItinerary
  cases h.rootRange with
  | error e => rfl
  | ok range => exact flattenDirectory_eq rfl range

end

/-! ### Listings -/

section

variable (h : Header) (answer : ByteRange → Except IoError Bytes) (limit : Option Nat)

/-- A listing of tiles gives and reads what the enumeration finds and reads, up to as many tiles as
asked for. -/
theorem listTiles_eq :
    (listTiles h limit).run answer = (flatten h answer (tileSteps h answer)).listing limit ∧
      (listTiles h limit).reads answer
        = (flatten h answer (tileSteps h answer)).rangesWithin limit := by
  rw [flatten_eq]
  exact listRuns_eq h answer (alike_tileSteps h answer) limit

/-- A listing of coordinates does so without the payloads. -/
theorem listCoords_eq :
    (listCoords h limit).run answer = (flatten h answer coordSteps).listing limit ∧
      (listCoords h limit).reads answer = (flatten h answer coordSteps).rangesWithin limit := by
  rw [flatten_eq]
  exact listRuns_eq h answer (alike_coordSteps answer) limit

end

/-- Every archive with a header opens, and whatever was asked before, a listing of it gives what
the recursive enumeration of its directories finds, up to as many items as were asked for, and
reads what that reads until then, in the same order. A listing of coordinates is the same without
the payloads. Of a run both list the tiles with its numbers, and they fail at the first number that
lies beyond the last zoom. -/
theorem listing_flattens {bytes : Bytes} {config : ReaderConfig} {h : Header}
    (decoded : Header.decode bytes = .ok h) (valid : config.validate = .ok ()) :
    (∃ source r, Reader.open? config (.ofBytes bytes) = (source, some (.ok r)) ∧
      ∀ history limit,
        let s := (ReaderSession.new r).after history
        let tiles := flatten h (Content.read bytes) (tileSteps h (Content.read bytes))
        let coords := flatten h (Content.read bytes) coordSteps
        s.Does (.tiles limit) (.tiles (tiles.listing limit)) (tiles.rangesWithin limit) ∧
        s.Does (.coords limit) (.coords (coords.listing limit)) (coords.rangesWithin limit)) ∧
    ∀ e : Entry,
      (tilesNumbered e.tileNumbers).items.map (fun c => c.tileId.toNat)
          = e.tileNumbers.takeWhile (· < (gridArea (maxZoom + 1) - 1) / 3) ∧
        (tilesNumbered e.tileNumbers).error
          = (e.tileNumbers.find? fun id => (gridArea (maxZoom + 1) - 1) / 3 ≤ id).map fun id =>
              .tileId (.idOutOfRange (UInt64.ofNat id)) := by
  obtain ⟨source, r, opened, rfl, rfl, idle⟩ := Reader.open?_ofBytes decoded valid
  refine ⟨⟨source, r, opened, ?_⟩, ?_⟩
  · intro history limit
    -- The computations of both listings have been shown to be their enumerations, and an idle
    -- reader does what these do.
    obtain ⟨tiles_eq, tiles_reads⟩ := listTiles_eq r.header (Content.read bytes) limit
    obtain ⟨coords_eq, coords_reads⟩ := listCoords_eq r.header (Content.read bytes) limit
    refine ⟨?_, ?_⟩
    · rw [← tiles_eq, ← tiles_reads]
      exact does_toQuery idle history rfl
    · rw [← coords_eq, ← coords_reads]
      exact does_toQuery idle history rfl
  · intro e
    exact tilesNumbered_range' _ (UInt64.toNat_lt_size e.tileId)

/-- After a visit two tiles are asked for, of an archive with four: the root directory, the leaf
and both payloads are read, and the listing stops in the middle of the second run. -/
theorem listing_flattens_leafArchive :
    ∃ h, Header.decode leafArchive = .ok h ∧ ReaderConfig.standard.validate = .ok () ∧
      let tiles := flatten h (Content.read leafArchive) (tileSteps h (Content.read leafArchive))
      (tiles.listing (some 2)).items.map Tile.payload = [[42], [7, 8]] ∧
      (tiles.rangesWithin (some 2)).length = 4 ∧
      ∃ source r, Reader.open? .standard (.ofBytes leafArchive) = (source, some (.ok r)) ∧
        ((ReaderSession.new r).after [.visit]).Does (.tiles (some 2))
          (.tiles (tiles.listing (some 2))) (tiles.rangesWithin (some 2)) := by
  obtain ⟨h, decoded, items_eq, reads_eq⟩ : ∃ h, Header.decode leafArchive = .ok h ∧
      ((flatten h (Content.read leafArchive) (tileSteps h (Content.read leafArchive))).listing
        (some 2)).items.map Tile.payload = [[42], [7, 8]] ∧
      ((flatten h (Content.read leafArchive)
        (tileSteps h (Content.read leafArchive))).rangesWithin (some 2)).length = 4 := by
    simp only [flatten_eq]
    exact ⟨_, by cbv, by decide +kernel, by decide +kernel⟩
  have valid : ReaderConfig.standard.validate = .ok () := rfl
  obtain ⟨⟨source, r, opened, does⟩, -⟩ := listing_flattens decoded valid
  exact ⟨h, decoded, valid, items_eq, reads_eq, source, r, opened, (does [.visit] (some 2)).1⟩

end TileArchive
