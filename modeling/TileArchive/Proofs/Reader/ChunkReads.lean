import TileArchive.Proofs.Reader.Chunks
import TileArchive.Proofs.Reader.Flattening

/-!
# `TileArchive.Proofs.Reader.ChunkReads`: the reads of a visit

A visit reads what its plan says: the directories of the walk, and between them one stretch of
bytes for each chunk, from the lowest start of its runs to the highest stop.

* `ReadError.Ordinary` sets all other errors apart from that of a chunk which no read can hold, and
  `ordinary_archiveItinerary` says that a walk fails with such errors only.
* `Chunk.Tight.visit_outcome`: from any chunk and any place on the way, a visit fails with an
  ordinary error or reads what is planned.
* `visit_reads_chunks`: so a visit that comes to its end reads the directories that a listing of
  coordinates reads, and every run once, in chunks that are as long as the threshold allows.

## A branch that is never reached

Before a chunk is read its length is checked against the longest read. The check cannot fail: the
threshold is a 32-bit number, so a chunk of several runs is shorter, and a single run has a 32-bit
length by its format. The source has an error for it nevertheless. To show that it never comes out,
errors are sorted in two kinds. An error is *ordinary* if it is not that one for any chunk, and
every error of a walk, a read or a payload is ordinary; most are of another kind, and for the rest
the texts differ. A visit that fails therefore fails with an ordinary error.

## From outcomes to reads

`Completes` says what is known of a visit that came to its end: it met no error on its way, it
read what the plan says, and every run that it met had its tiles. The induction in `visit_outcome`
is over the steps of the itinerary, as the plan is, with one case for a run that joins the chunk
and one for a chunk that is read. Reads of a listing of coordinates are those of the same itinerary
without the chunks (`listCoords_ranges`), which is how the two are compared.
-/

set_option autoImplicit false

namespace TileArchive

/-- The read of a chunk. -/
def Chunk.range (c : Chunk) : ByteRange := ⟨c.start, UInt32.ofNat c.span⟩

/-- What is read at a step of a plan: a directory or a chunk. -/
def Step.readRange : Step Chunk → ByteRange
  | .read range => range
  | .find chunk => chunk.range

/-! ### Errors -/

/-- The error is not that of a chunk which no read can hold. A visit has this error of its
own, and the statements about it show that no archive leads to it. -/
def ReadError.Ordinary (e : ReadError) : Prop := ∀ c : Chunk, e ≠ c.tooLarge

/-- Too few bytes are an error of another kind. -/
theorem ordinary_unexpectedEof (text : String) :
    (ReadError.io (.of .unexpectedEof text)).Ordinary := by
  intro c same
  injection same with same
  injection same with kind_eq
  cases kind_eq

/-- Reading beyond the end is the only error of bytes at hand. -/
theorem ordinary_fetchBytes {bytes : Bytes} {range : ByteRange} {error : ReadError}
    (failed : (fetchBytes range).run (Content.read bytes) = .error error) : error.Ordinary := by
  replace failed : (Content.read bytes range).mapError ReadError.io = .error error := failed
  unfold Content.read at failed
  split at failed
  · cases failed
  · cases failed
    exact ordinary_unexpectedEof _

/-- What is wrong with a directory is not that it is too long to be read. Errors of
unwrapping and of decoding are kinds of their own, and only an error of a read could have
that text. -/
theorem ordinary_decodeDirectory {h : Header} {stored : Bytes} {error : ReadError}
    (failed : decodeDirectory h stored = .error error) : error.Ordinary := by
  unfold decodeDirectory unwrapSection at failed
  cases unwrapped : h.internalCompression.unwrap stored with
  | error e =>
      rw [unwrapped] at failed
      cases failed
      intro c same
      cases same
  | ok data =>
      rw [unwrapped] at failed
      replace failed : (Directory.decode data).mapError .directory = .error error := failed
      cases decoded : Directory.decode data with
      | error e =>
          rw [decoded] at failed
          cases failed
          intro c same
          cases same
      | ok directory =>
          rw [decoded] at failed
          cases failed

/-- A directory that cannot be loaded fails with an ordinary error: its range has a 32-bit
length. -/
theorem ordinary_loadDirectory {h : Header} {bytes : Bytes} {range : ByteRange} {error : ReadError}
    (failed : (loadDirectory h range).run (Content.read bytes) = .error error) :
    error.Ordinary := by
  unfold loadDirectory at failed
  split at failed
  · cases failed
  · rw [Fetch.run_bind] at failed
    cases fetched : (fetchBytes range).run (Content.read bytes) with
    | error e =>
        rw [fetched] at failed
        cases failed
        -- Only the read itself could complain about a length, and a directory range has 32
        -- bits for it.
        exact ordinary_fetchBytes fetched
    | ok stored =>
        rw [fetched] at failed
        exact ordinary_decodeDirectory failed

/-- The first letter of a text is that of its first part. -/
theorem head?_toList_append {s : String} {letter : Char} (first : s.toList.head? = some letter)
    (t : String) : (s ++ t).toList.head? = some letter := by
  rw [String.toList_append, List.head?_append, first]
  rfl

/-- A section which no read can hold has another text than a chunk. -/
theorem section_text_ne (name : String) (length span : Nat) :
    s!"The {name} is too large to read: {length} bytes"
      ≠ s!"Coalesced read of {span} bytes is too large" := by
  have chunk_letter : s!"Coalesced read of {span} bytes is too large".toList.head? = some 'C' :=
    head?_toList_append (head?_toList_append rfl _) _
  have section_letter :
      s!"The {name} is too large to read: {length} bytes".toList.head? = some 'T' :=
    head?_toList_append
      (head?_toList_append (head?_toList_append (head?_toList_append rfl _) _) _) _
  intro same
  rw [same, chunk_letter] at section_letter
  cases section_letter

/-- A root directory that is too long to be read has an error of its own. -/
theorem ordinary_rootRange {h : Header} {error : ReadError} (failed : h.rootRange = .error error) :
    error.Ordinary := by
  unfold Header.rootRange Section.range? at failed
  simp only at failed
  split at failed
  · cases failed
  · cases failed
    intro c same
    -- Both are errors of the same kind, so that only their texts tell them apart.
    injection same with same
    injection same with _ same
    injection same with same
    exact section_text_ne _ _ _ same

/-- A trail fails, if it does, with an ordinary error. -/
def Trail.Ordinary {α : Type} (t : Trail α) : Prop := ∀ e, t.error = some e → e.Ordinary

/-- Two trails in a row fail with ordinary errors if each does. -/
theorem Trail.Ordinary.append {α : Type} {t u : Trail α} (first : t.Ordinary)
    (second : u.Ordinary) : (t ++ u).Ordinary := by
  match t with
  | ⟨items, none⟩ => exact second
  | ⟨items, some e⟩ => exact first

/-- The rows of a directory fail with ordinary errors if the leaves behind them do. The rows
themselves cannot fail, as nothing is read for them on the way. -/
theorem ordinary_itineraryRows {leaf : Option (Entry → Trail (Step WalkEvent))}
    (leaves : ∀ behind, leaf = some behind → ∀ e, (behind e).Ordinary) (rows : List Entry) :
    (itineraryRows leaf rows).Ordinary := by
  induction rows with
  | nil => exact nofun
  | cons e rest ih =>
      by_cases pointer : e.isPointer = true
      · cases leaf with
        | none =>
            rw [itineraryRows_pointer_none pointer]
            exact ih
        | some behind =>
            rw [itineraryRows_pointer behind pointer]
            exact (leaves behind rfl e).append ih
      · rw [itineraryRows_run leaf pointer]
        exact ih

/-- The way through a directory of bytes at hand fails with ordinary errors only. The induction is
on the levels that may still be opened. -/
theorem ordinary_itineraryDirectory (h : Header) (bytes : Bytes) (below : Nat) (range : ByteRange) :
    (itineraryDirectory h (Content.read bytes) below range).Ordinary := by
  -- One level is the same at every depth, but for what opens the leaves behind it.
  have loaded : ∀ {leaf : Option (Entry → Trail (Step WalkEvent))} (range : ByteRange),
      (∀ behind, leaf = some behind → ∀ e, (behind e).Ordinary) →
      (itineraryBehind h (Content.read bytes) leaf range).Ordinary := by
    intro leaf range leaves
    show (itineraryLoaded leaf ((loadDirectory h range).run (Content.read bytes))).Ordinary
    cases load_eq : (loadDirectory h range).run (Content.read bytes) with
    | error e =>
        intro e' same
        cases same
        exact ordinary_loadDirectory load_eq
    | ok directory => exact ordinary_itineraryRows leaves directory.entries
  induction below generalizing range with
  | zero => exact loaded range nofun
  | succ below ih =>
      refine loaded range ?_
      intro behind behind_eq e
      rw [leafItinerary_succ] at behind_eq
      cases behind_eq
      exact ih _

/-- A walk through bytes at hand fails with ordinary errors only. -/
theorem ordinary_archiveItinerary (h : Header) (bytes : Bytes) :
    (archiveItinerary h (Content.read bytes)).Ordinary := by
  unfold archiveItinerary
  cases root_eq : h.rootRange with
  | error e =>
      intro e' same
      cases same
      exact ordinary_rootRange root_eq
  | ok range => exact ordinary_itineraryDirectory h bytes _ range

/-- Numbers without tiles are refused with ordinary errors. They come from numbers alone,
and no read has a part in them. -/
theorem ordinary_entryCoords (e : Entry) : (entryCoords e).Ordinary := by
  -- The tiles of a run are those of its numbers, so the induction can go over the numbers.
  rw [← tilesNumbered_tileNumbers]
  induction e.tileNumbers with
  | nil =>
      intro e' failed
      cases failed
  | cons id ids ih =>
      rw [tilesNumbered]
      cases TileCoord.ofTileId (.ofNat id) with
      | error e =>
          intro e' failed c same
          cases failed
          cases same
      | ok c => exact ih

/-! ### Reading a chunk -/

section

variable {h : Header} {bytes : Bytes} {threshold : UInt64} {c : Chunk}

/-- Gathering goes on with everything found, or ends with an ordinary error. `whole` is what
is known if it goes on. -/
def GoesOn (result : Gathering Tile ⊕ Listing Tile) (whole : Prop) : Prop :=
  match result with
  | .inl g => whole ∧ ∃ found, g = .everything found
  | .inr listing => ∃ e, listing.ending = .failed e ∧ e.Ordinary

/-- What goes on with some facts known goes on with what follows from them. -/
theorem GoesOn.imp {result : Gathering Tile ⊕ Listing Tile} {whole whole' : Prop}
    (goes_on : GoesOn result whole) (implies : whole → whole') : GoesOn result whole' := by
  cases result with
  | inl g => exact ⟨implies goes_on.1, goes_on.2⟩
  | inr listing => exact goes_on

/-- Tiles are handed out for all runs, unless a run has numbers without tiles or the bytes read are
too few. -/
theorem Chunk.goesOn_handOut (c : Chunk) (data : Bytes) (es : List Entry) (found : List Tile) :
    GoesOn (c.handOut h data es (.everything found)) (∀ e ∈ es, (entryCoords e).error = none) := by
  induction es generalizing found with
  | nil => exact ⟨List.forall_mem_nil _, found, rfl⟩
  | cons e es ih =>
      rw [Chunk.handOut]
      cases c.payload? h data e with
      | none => exact ⟨_, rfl, ordinary_unexpectedEof _⟩
      | some payload =>
          -- A visit has no limit, so a gathering goes on with the tiles of the run or ends in
          -- its error.
          simp only [Gathering.addEntry_everything, Gathering.follow]
          cases error_eq : (entryCoords e).error with
          | some error =>
              simp only [Trail.map, error_eq]
              exact ⟨error, by simp [Gathering.finish, Ending.ofError],
                ordinary_entryCoords e error error_eq⟩
          | none =>
              simp only [Trail.map, error_eq]
              exact (ih _).imp fun rest => List.forall_mem_cons.mpr ⟨error_eq, rest⟩

/-- A chunk that is read is read once, and nothing is read for a chunk without runs. If the
visit can go on after it, all runs of the chunk have tiles. -/
theorem Chunk.Tight.goesOn_flush (tight : c.Tight h threshold)
    (bounded : threshold.toNat ≤ Word.largest32) (found : List Tile) :
    GoesOn ((c.flush h (.everything found)).run (Content.read bytes))
      ((c.flush h (.everything found)).reads (Content.read bytes) = c.flushed.map Chunk.range ∧
        ∀ e ∈ c.entries, (entryCoords e).error = none) := by
  by_cases none_yet : c.entries = []
  · rw [Chunk.flush, if_pos (List.isEmpty_iff.mpr none_yet), Chunk.flushed_of_nil none_yet,
      none_yet]
    exact ⟨⟨rfl, List.forall_mem_nil _⟩, found, rfl⟩
  · -- This is where the bound on the threshold is used: the error for a chunk that is too
    -- long has a branch in the visit, but no chunk that a visit makes comes to it.
    have fits : ¬ Word.largest32 < c.span := Nat.not_lt.mpr (tight.span_le bounded none_yet)
    rw [Chunk.flush, if_neg (mt List.isEmpty_iff.mp none_yet), if_neg fits,
      Chunk.flushed_of_ne_nil none_yet, Fetch.run_bind, Fetch.reads_bind]
    cases fetched : (fetchBytes ⟨c.start, UInt32.ofNat c.span⟩).run (Content.read bytes) with
    | error error => exact ⟨error, rfl, ordinary_fetchBytes fetched⟩
    | ok data =>
        refine (Chunk.goesOn_handOut c data c.entries found).imp ?_
        intro whole
        exact ⟨rfl, whole⟩

/-! ### Visits -/

/-- At an event a visit lets the run join its chunk, or reads the chunk and begins another. -/
theorem visitEvent_eq (c : Chunk) (g : Gathering Tile) (event : WalkEvent) :
    visitEvent h threshold (c, g) event
      = match c.joined? h threshold event with
        | some longer => .done (.inl (longer, g))
        | none => flushThen h (Chunk.begun h event) (c, g) := by
  cases event with
  | run e =>
      rw [visitEvent, Chunk.joined?]
      cases c.extend? h threshold e <;> rfl
  | pointer => rfl
  | leave => rfl

/-- A visit that begins with a chunk comes to its end. It has read what is planned then, and
all runs have tiles. It is the one half of what a visit can come to, and an error that says
nothing of lengths is the other. -/
structure Completes (h : Header) (bytes : Bytes) (threshold : UInt64) (c : Chunk)
    (t : Trail (Step WalkEvent)) (visit : Fetch (Listing Tile)) : Prop where
  complete : (visit.run (Content.read bytes)).ending = .complete
  whole : t.error = none
  reads_eq : visit.reads (Content.read bytes) = (c.plan h threshold t.items).map Step.readRange
  tiles : ∀ e ∈ c.entries ++ t.found.runs, (entryCoords e).error = none

/-- The computation ends with an ordinary error. -/
def FailsOrdinarily (bytes : Bytes) (visit : Fetch (Listing Tile)) : Prop :=
  ∃ e, (visit.run (Content.read bytes)).ending = .failed e ∧ e.Ordinary

/-- A visit after a chunk: it goes on with what is gathered, unless it has ended there. -/
def afterChunk (rest : Gathering Tile → Fetch (Listing Tile)) :
    Gathering Tile ⊕ Listing Tile → Fetch (Listing Tile)
  | .inl g => rest g
  | .inr listing => .done listing

/-- Where a chunk is read and a visit goes on with the next one as planned, the whole visit does
what is planned. -/
theorem Chunk.Tight.completes_flush (tight : c.Tight h threshold)
    (bounded : threshold.toNat ≤ Word.largest32) (found : List Tile)
    (rest : Gathering Tile → Fetch (Listing Tile)) {t : Trail (Step WalkEvent)}
    (t' : Trail (Step WalkEvent)) (next : Chunk) (plan_eq : c.plan h threshold t.items
      = c.flushed.map .find ++ next.plan h threshold t'.items)
    (error_eq : t.error = t'.error) (runs_eq : t.found.runs = next.entries ++ t'.found.runs)
    (after : ∀ found', Completes h bytes threshold next t' (rest (.everything found')) ∨
      FailsOrdinarily bytes (rest (.everything found'))) :
    let visit := (c.flush h (.everything found)).bind (afterChunk rest)
    Completes h bytes threshold c t visit ∨ FailsOrdinarily bytes visit := by
  intro visit
  -- The visit from here on is the flush and then whatever goes on after it, and both its
  -- outcome and its reads are made up of theirs.
  have goes_on := @Tight.goesOn_flush h bytes threshold c tight bounded found
  have visit_run :=
    Fetch.run_bind (Content.read bytes) (c.flush h (.everything found)) (afterChunk rest)
  have visit_reads :=
    Fetch.reads_bind (Content.read bytes) (c.flush h (.everything found)) (afterChunk rest)
  cases run_eq : (c.flush h (.everything found)).run (Content.read bytes) with
  | inr listing =>
      rw [run_eq] at goes_on visit_run
      obtain ⟨e, failed, ordinary⟩ := goes_on
      -- An error of the flush ends the visit, and the rest is never begun.
      exact .inr ⟨e, (congrArg Listing.ending visit_run).trans failed, ordinary⟩
  | inl g =>
      rw [run_eq] at goes_on visit_run visit_reads
      obtain ⟨⟨reads_eq, tiles⟩, found', rfl⟩ := goes_on
      rcases after found' with completes | ⟨e, failed, ordinary⟩
      · refine .inl ⟨?_, ?_, ?_, ?_⟩
        · exact (congrArg Listing.ending visit_run).trans completes.complete
        · exact error_eq.trans completes.whole
        · refine visit_reads.trans ?_
          show _ ++ (rest (.everything found')).reads (Content.read bytes) = _
          rw [reads_eq, completes.reads_eq, plan_eq, List.map_append, List.map_map]
          rfl
        · rw [runs_eq]
          exact List.forall_mem_append.mpr ⟨tiles, completes.tiles⟩
      · exact .inr ⟨e, (congrArg Listing.ending visit_run).trans failed, ordinary⟩

/-- From any chunk and any place on the way, a visit comes to its end as planned, or it fails with
an ordinary error. The induction is on the steps to come. -/
theorem Chunk.Tight.visit_outcome (tight : c.Tight h threshold)
    (bounded : threshold.toNat ≤ Word.largest32) {t : Trail (Step WalkEvent)}
    (ordinary : t.Ordinary) (found : List Tile) :
    let visit := t.conduct (visitEvent h threshold) (visitEnd h) (c, .everything found)
    Completes h bytes threshold c t visit ∨ FailsOrdinarily bytes visit := by
  obtain ⟨steps, error⟩ := t
  replace ordinary : ∀ e, error = some e → e.Ordinary := ordinary
  -- By induction on the steps that are left. Chunk and tiles vary: a run may join the chunk,
  -- and reading a chunk finds tiles.
  induction steps generalizing c found with
  | nil =>
      cases error with
      | some e => exact .inr ⟨e, rfl, ordinary e rfl⟩
      | none =>
          -- The last chunk is read, and nothing is left to be planned.
          refine tight.completes_flush bounded found (fun g => .done (g.ended .complete))
            ⟨[], none⟩ .empty ?_ rfl rfl ?_
          · exact (List.append_nil _).symm
          · intro found'
            exact .inl ⟨rfl, rfl, rfl, nofun⟩
  | cons step steps ih =>
      cases step with
      | read range =>
          rcases ih tight found with completes | failed
          · exact .inl ⟨completes.complete, completes.whole,
              congrArg (range :: ·) completes.reads_eq, completes.tiles⟩
          · exact .inr failed
      | find event =>
          intro visit
          have visit_eq : visit = _ := Trail.conduct_cons_find event ⟨steps, error⟩ _
          rw [visitEvent_eq] at visit_eq
          cases joined : c.joined? h threshold event with
          | some longer =>
              -- The run joins the chunk, and nothing is read yet.
              obtain ⟨tight', e, rfl, entries_eq⟩ := tight.joined? joined
              rw [joined, Dialogue.done_bind] at visit_eq
              rw [visit_eq]
              rcases ih tight' found with completes | failed
              · refine .inl ⟨completes.complete, completes.whole, ?_, ?_⟩
                · rw [Chunk.plan_joined joined]
                  exact completes.reads_eq
                · have tiles := completes.tiles
                  rw [entries_eq, List.append_assoc] at tiles
                  exact tiles
              · exact .inr failed
          | none =>
              -- The chunk is read, and what was met begins the next one.
              have after_eq : visit = (c.flush h (.everything found)).bind (afterChunk fun g =>
                  Trail.conduct (visitEvent h threshold) (visitEnd h) ⟨steps, error⟩
                    (Chunk.begun h event, g)) := by
                rw [visit_eq, joined, flushThen, Dialogue.bind_assoc]
                refine congrArg (Dialogue.bind _) (funext fun result => ?_)
                cases result <;> rfl
              rw [after_eq]
              refine tight.completes_flush bounded found _ ⟨steps, error⟩ (Chunk.begun h event)
                (Chunk.plan_flushed joined steps) rfl ?_ ?_
              · cases event <;> rfl
              · intro found'
                exact ih (Chunk.tight_begun event) found'

end

/-- A visit of an archive comes to its end as planned, or it fails with an ordinary error. -/
theorem visitTiles_outcome (h : Header) (bytes : Bytes) {threshold : UInt64}
    (bounded : threshold.toNat ≤ Word.largest32) :
    Completes h bytes threshold .empty (archiveItinerary h (Content.read bytes))
        (visitTiles h threshold) ∨
      FailsOrdinarily bytes (visitTiles h threshold) := by
  obtain ⟨run_eq, reads_eq⟩ := @alike_start_drive _ _ h (Content.read bytes)
    (visitEvent h threshold) (visitEnd h) (.empty, .new none) (fun e => ⟨[], .failed e⟩)
    fun _ => rfl
  rcases Chunk.Tight.empty.visit_outcome (h := h) bounded (ordinary_archiveItinerary h bytes) []
    with completes | ⟨e, failed, ordinary⟩
  · exact .inl ⟨(congrArg Listing.ending run_eq).trans completes.complete, completes.whole,
      reads_eq.trans completes.reads_eq, completes.tiles⟩
  · exact .inr ⟨e, (congrArg Listing.ending run_eq).trans failed, ordinary⟩

/-! ### Reads of coordinates -/

/-- Where all runs have tiles, a listing of coordinates reads the directories of the walk, and
comes to its end. -/
theorem bind_coordSteps {t : Trail (Step WalkEvent)} (whole : t.error = none)
    (tiles : ∀ e ∈ t.found.runs, (entryCoords e).error = none) :
    (t.bind (Step.expand (atRun coordSteps))).error = none ∧
      (t.bind (Step.expand (atRun coordSteps))).ranges = t.ranges := by
  obtain ⟨steps, error⟩ := t
  obtain rfl : error = none := whole
  induction steps with
  | nil => exact ⟨rfl, rfl⟩
  | cons step steps ih =>
      rw [Trail.bind_mk_cons]
      cases step with
      | read range =>
          obtain ⟨error_eq, ranges_eq⟩ := ih tiles
          exact ⟨error_eq, congrArg (range :: ·) ranges_eq⟩
      | find event =>
          cases event with
          | run e =>
              -- A run finds coordinates and reads nothing.
              obtain ⟨first, later⟩ := List.forall_mem_cons.mp tiles
              obtain ⟨error_eq, ranges_eq⟩ := ih later
              have coords_whole : (coordSteps e).error = none := by
                rw [coordSteps, tilesNumbered_tileNumbers]
                exact first
              have no_ranges : (coordSteps e).items.filterMap Step.range? = [] := by
                simp [coordSteps, Trail.map, Step.range?]
              show (coordSteps e ++ _).error = none ∧ (coordSteps e ++ _).ranges = _
              rw [Trail.append_eq_of_error_none coords_whole, Trail.ranges, List.filterMap_append,
                no_ranges]
              exact ⟨error_eq, ranges_eq⟩
          | pointer => exact ih tiles
          | leave => exact ih tiles

/-- A listing of all coordinates reads the directories of the walk, if all runs have tiles. -/
theorem listCoords_ranges {h : Header} {bytes : Bytes}
    (whole : (archiveItinerary h (Content.read bytes)).error = none)
    (tiles : ∀ e ∈ (archiveItinerary h (Content.read bytes)).found.runs,
      (entryCoords e).error = none) :
    ((listCoords h none).run (Content.read bytes)).ending = .complete ∧
      (listCoords h none).reads (Content.read bytes)
        = (archiveItinerary h (Content.read bytes)).ranges := by
  obtain ⟨run_eq, reads_eq⟩ := listCoords_eq h (Content.read bytes) none
  obtain ⟨error_eq, ranges_eq⟩ := bind_coordSteps whole tiles
  rw [flatten_eq] at run_eq reads_eq
  refine ⟨?_, reads_eq.trans ranges_eq⟩
  rw [run_eq, Trail.listing, error_eq]
  rfl

/-! ### What the chunks of a visit are -/

/-- The chunks in which the runs of a tour are read. The threshold decides them together
with the tour: where stretches end is seen in the tour, and where chunks end within a
stretch is forced. -/
structure ReadInChunks (h : Header) (threshold : Nat) (tour : Trail WalkEvent)
    (chunks : List Chunk) : Prop where
  /-- Every run is in one chunk, and the runs come in the order of the tour. -/
  covers : chunks.flatMap Chunk.entries = tour.runs
  /-- A chunk has runs of one stretch, and ends where the stretch does or where the next run would
  make it reach the threshold. -/
  grouped : ChunksOf h threshold (stretches tour.items) (chunks.map Chunk.entries)
  /-- A chunk is read from the lowest start of its runs to the highest stop. -/
  bounds : ∀ chunk ∈ chunks, chunk.range.offset.toNat = lowestStart h chunk.entries ∧
    chunk.range.offset.toNat + chunk.range.length.toNat = highestStop h chunk.entries
  /-- The read is shorter than the threshold, except for a single run. -/
  short : ∀ chunk ∈ chunks, chunk.entries.length = 1 ∨ chunk.range.length.toNat < threshold
  /-- There are no more chunks than runs. -/
  few : chunks.length ≤ tour.runs.length
  /-- Without a threshold there are as many. -/
  separate : threshold = 0 → chunks.length = tour.runs.length

/-- A chunk with runs is read from their lowest start to their highest stop. -/
theorem Chunk.Tight.bounds_range {h : Header} {threshold : UInt64} {c : Chunk}
    (tight : c.Tight h threshold) (bounded : threshold.toNat ≤ Word.largest32)
    (some_yet : c.entries ≠ []) :
    c.range.offset.toNat = lowestStart h c.entries ∧
      c.range.offset.toNat + c.range.length.toNat = highestStop h c.entries ∧
      c.range.length.toNat = c.span := by
  have length_eq : c.range.length.toNat = c.span :=
    Word.toNat_ofNat32 (tight.span_le bounded some_yet)
  have ordered := lowestStart_le_highestStop h some_yet
  rw [← tight.start_eq some_yet, ← tight.stop_eq some_yet] at ordered
  refine ⟨tight.start_eq some_yet, ?_, length_eq⟩
  rw [length_eq, ← tight.stop_eq some_yet]
  exact Nat.add_sub_cancel' ordered

/-- Chunks that all have runs are no more than their runs. -/
theorem length_le_length_flatMap_entries {chunks : List Chunk}
    (some_yet : ∀ chunk ∈ chunks, chunk.entries ≠ []) :
    chunks.length ≤ (chunks.flatMap Chunk.entries).length := by
  induction chunks with
  | nil => exact Nat.le_refl 0
  | cons chunk chunks ih =>
      obtain ⟨first, later⟩ := List.forall_mem_cons.mp some_yet
      have rest := ih later
      have pos := List.length_pos_iff.mpr first
      rw [List.flatMap_cons, List.length_append, List.length_cons]
      omega

/-- Chunks of single runs are as many as their runs. -/
theorem length_flatMap_entries_of_single {chunks : List Chunk}
    (single : ∀ chunk ∈ chunks, chunk.entries.length = 1) :
    chunks.length = (chunks.flatMap Chunk.entries).length := by
  induction chunks with
  | nil => rfl
  | cons chunk chunks ih =>
      obtain ⟨first, later⟩ := List.forall_mem_cons.mp single
      rw [List.flatMap_cons, List.length_append, List.length_cons, ← ih later, first, Nat.add_comm]

/-- The chunks that are planned for a tour cover its runs, are grouped, short and tight. The
plan is made without looking at bytes, so what the chunks are depends on the directories and
the threshold. -/
theorem readInChunks_planned (h : Header) {threshold : UInt64}
    (bounded : threshold.toNat ≤ Word.largest32) (t : Trail (Step WalkEvent)) :
    ReadInChunks h threshold.toNat t.found (Chunk.planned h threshold .empty t.items) := by
  have tight : ∀ chunk ∈ Chunk.planned h threshold .empty t.items,
      chunk.entries ≠ [] ∧ chunk.Tight h threshold :=
    fun chunk member => Chunk.Tight.empty.of_mem_planned member
  -- The chunk that is open before the first item is empty, so the cut of the first stretch is
  -- whole.
  have grouped : ChunksOf h threshold.toNat (stretches t.found.items)
      ((Chunk.planned h threshold .empty t.items).map Chunk.entries) := by
    have chunks_of := (@Chunk.Tight.empty h threshold).chunksOf_planned t.items
    obtain ⟨stretch, cut, stretches_eq⟩ := exists_stretches (t.items.filterMap Step.item?)
    show ChunksOf h _ (stretches (t.items.filterMap Step.item?)) _
    rw [stretches_eq] at chunks_of ⊢
    exact chunks_of
  have covers : (Chunk.planned h threshold .empty t.items).flatMap Chunk.entries = t.found.runs :=
    grouped.flatten_eq.trans (flatten_stretches _)
  have short : ∀ chunk ∈ Chunk.planned h threshold .empty t.items,
      chunk.entries.length = 1 ∨ chunk.range.length.toNat < threshold.toNat := by
    intro chunk member
    obtain ⟨some_yet, tight⟩ := tight chunk member
    rw [(tight.bounds_range bounded some_yet).2.2]
    rcases tight.short with single | below
    · exact .inl (Nat.le_antisymm single (List.length_pos_iff.mpr some_yet))
    · exact .inr below
  refine ⟨covers, grouped, ?_, short, ?_, ?_⟩
  · intro chunk member
    obtain ⟨some_yet, tight⟩ := tight chunk member
    obtain ⟨start_eq, stop_eq, -⟩ := tight.bounds_range bounded some_yet
    exact ⟨start_eq, stop_eq⟩
  · rw [← covers]
    exact length_le_length_flatMap_entries fun chunk member => (tight chunk member).1
  · -- Without a threshold no chunk is shorter than it, so each holds a single run.
    intro no_threshold
    rw [← covers]
    refine length_flatMap_entries_of_single ?_
    intro chunk member
    refine (short chunk member).resolve_right ?_
    omega

/-- Every archive with a header opens, and whatever was asked before, a visit of it never fails
because of a chunk that one read cannot hold. If it comes to its end, what it has read are the
directories that a listing of all coordinates reads, in the same order, and between them one
stretch of bytes for each chunk of runs. -/
theorem visit_reads_chunks {bytes : Bytes} {config : ReaderConfig} {h : Header}
    (decoded : Header.decode bytes = .ok h) (valid : config.validate = .ok ()) :
    ∃ source r, Reader.open? config (.ofBytes bytes) = (source, some (.ok r)) ∧
      ∀ history history', ∃ visited ranges,
        ((ReaderSession.new r).after history).Does .visit (.visited visited) ranges ∧
        (∀ c : Chunk, visited.ending ≠ .failed c.tooLarge) ∧
        (visited.ending = .complete → ∃ (plan : List (Step Chunk)) (coords : Listing TileCoord),
          ranges = plan.map Step.readRange ∧
          ((ReaderSession.new r).after history').Does (.coords none) (.coords coords)
            (plan.filterMap Step.range?) ∧
          coords.ending = .complete ∧
          ReadInChunks h config.coalesceThreshold.toNat (archiveTour h (Content.read bytes))
            (plan.filterMap Step.item?)) := by
  obtain ⟨source, r, opened, rfl, rfl, idle⟩ := Reader.open?_ofBytes decoded valid
  have bounded := ReaderConfig.coalesceThreshold_le valid
  refine ⟨source, r, opened, ?_⟩
  intro history history'
  refine ⟨_, _, does_toQuery idle history rfl, ?_⟩
  -- Either all that was planned is done, or the visit fails, and then not for the length of a
  -- chunk.
  rcases visitTiles_outcome r.header bytes bounded with completes | ⟨e, failed, ordinary⟩
  · refine ⟨?_, ?_⟩
    · intro c failed
      rw [completes.complete] at failed
      cases failed
    · intro _
      obtain ⟨coords_complete, coords_reads⟩ := listCoords_ranges completes.whole completes.tiles
      refine ⟨_, _, completes.reads_eq, ?_, coords_complete, ?_⟩
      · rw [Chunk.ranges_plan]
        rw [← Trail.ranges, ← coords_reads]
        exact does_toQuery idle history' rfl
      · rw [← found_archiveItinerary]
        exact readInChunks_planned r.header bounded _
  · refine ⟨?_, ?_⟩
    · intro c too_large
      rw [failed] at too_large
      injection too_large with same
      exact ordinary c same
    · intro complete
      rw [failed] at complete
      cases complete

/-- Without a threshold a visit reads the two runs of the leaf one by one, after a listing as
before. -/
theorem visit_reads_chunks_leafArchive :
    ∃ (config : ReaderConfig) (h : Header), config.coalesceThreshold = 0 ∧
      Header.decode leafArchive = .ok h ∧ config.validate = .ok () ∧
      ∃ source r, Reader.open? config (.ofBytes leafArchive) = (source, some (.ok r)) ∧
        ∃ (visited : Listing Tile) (ranges : List ByteRange) (plan : List (Step Chunk))
          (coords : Listing TileCoord),
          ((ReaderSession.new r).after [.tiles none]).Does .visit (.visited visited) ranges ∧
          visited.ending = .complete ∧ ranges = plan.map Step.readRange ∧
          (ReaderSession.new r).Does (.coords none) (.coords coords)
            (plan.filterMap Step.range?) ∧
          (plan.filterMap Step.item?).length = 2 := by
  let config : ReaderConfig := { ReaderConfig.standard with coalesceThreshold := 0 }
  obtain ⟨h, decoded, whole, runs_eq⟩ : ∃ h, Header.decode leafArchive = .ok h ∧
      (scan h (Content.read leafArchive) (entryTiles h (Content.read leafArchive))).error = none ∧
      (archiveTour h (Content.read leafArchive)).runs.length = 2 :=
    ⟨_, by cbv, by decide +kernel, by decide +kernel⟩
  have addressable : Content.Addressable leafArchive := by decide +kernel
  have valid : config.validate = .ok () := rfl
  obtain ⟨source, r, opened, reads⟩ := visit_reads_chunks decoded valid
  obtain ⟨visited, ranges, visits, -, completed⟩ := reads [.tiles none] []
  -- What a visit does is determined, so the listing that was given is the one that a visit
  -- makes when the scan is whole.
  have complete : visited.ending = .complete := by
    obtain ⟨source', r', opened', rfl, config_eq, idle⟩ := Reader.open?_ofBytes decoded valid
    obtain ⟨-, rfl⟩ : source = source' ∧ r = r' := by
      rw [opened] at opened'
      cases opened'
      exact ⟨rfl, rfl⟩
    have bounded : r.config.coalesceThreshold.toNat ≤ Word.largest32 := by
      rw [config_eq]
      exact Nat.zero_le _
    have answered : (((ReaderSession.new r).after [.tiles none]).run .visit).2
        = some (.visited _) := answered_toQuery idle [.tiles none] rfl
      (run_visitTiles_of_whole addressable bounded whole)
    rw [visits.1] at answered
    cases answered
    exact (Listing.ending_ofTrail_eq_complete_iff _).mpr whole
  obtain ⟨plan, coords, ranges_eq, lists, -, chunks⟩ := completed complete
  exact ⟨config, h, rfl, decoded, valid, source, r, opened, visited, ranges, plan, coords, visits,
    complete, ranges_eq, lists, (chunks.separate rfl).trans runs_eq⟩

end TileArchive
