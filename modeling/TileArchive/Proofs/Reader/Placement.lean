import TileArchive.Proofs.Header
import TileArchive.Proofs.Reader.Relocation

/-!
# `TileArchive.Proofs.Reader.Placement`: where sections lie does not matter

A visit keeps places in the archive from one event to the next: its chunk starts and stops where
payloads do. Two visits, each of its own one of two relocated archives, therefore do not have the
same state, but states that differ by the places of the tile data sections only.

* `SameChunk` and `SameVisit` say so, and `run_visitEvent_related` that an event keeps it so.
* `run_visitTiles_eq`: hence the visits give the same, by induction over the events.
* `placement_immaterial`: every request is answered alike, whatever was asked before. What a
  reader remembers is known by its place in the archive, so ranges that coincide in one archive
  need not do so in the other; it is `answered_directly` that makes this harmless.

## Two visits side by side

The visits meet the same events, because the walks do (`archiveTour_eq`). They make the same
decisions: whether a run joins a chunk rests on the distance from start to stop, which is the same
when both are shifted by the same amount (`span_eq`). And what they read is the same, because the
stretch of a chunk lies in the tile data. `Trail.feed_related` turns these facts about one event
into equality of the results.

A chunk without runs keeps no place, so nothing is asked of its bounds.
-/

set_option autoImplicit false

namespace TileArchive

/-! ### Chunks -/

/-- Where a payload lies that keeps to the tile data section. -/
theorem Header.payloadRange_placed {h : Header}
    (short : h.tileData.offset.toNat + h.tileData.length.toNat ≤ Word.largest) {e : Entry}
    (lies : e.LiesIn h.tileData) :
    (h.payloadRange e).offset.toNat = h.tileData.offset.toNat + e.offset.toNat ∧
      (h.payloadRange e).stop.toNat = h.tileData.offset.toNat + e.stop := by
  have lies : e.offset.toNat + e.length.toNat ≤ h.tileData.length.toNat := lies
  have offset_eq : (h.payloadRange e).offset.toNat
      = min (h.tileData.offset.toNat + e.offset.toNat) Word.largest := Word.toNat_addSat _ _
  have stop_eq := Chunk.toNat_stop_payloadRange (h := h) e
  have stop_def : e.stop = e.offset.toNat + e.length.toNat := rfl
  omega

/-- Two chunks of the same runs, which lie between the same places of their sections. Their
own bounds are counted from the starts of the archives and differ by as much as the sections
do. -/
structure SameChunk (s s' : Section) (c c' : Chunk) : Prop where
  entries_eq : c.entries = c'.entries
  lies : ∀ e ∈ c.entries, e.LiesIn s
  placed : c.entries = [] ∨ ∃ start stop, start ≤ stop ∧ stop ≤ s.length.toNat ∧
    (c.start.toNat = s.offset.toNat + start ∧ c.stop.toNat = s.offset.toNat + stop) ∧
    (c'.start.toNat = s'.offset.toNat + start ∧ c'.stop.toNat = s'.offset.toNat + stop)

/-- Chunks without runs are the same. -/
theorem SameChunk.empty (s s' : Section) : SameChunk s s' .empty .empty := ⟨rfl, nofun, .inl rfl⟩

namespace SameChunk

variable {s s' : Section} {c c' : Chunk} (same : SameChunk s s' c c') (some_yet : c.entries ≠ [])

include same some_yet

/-- The same chunk is equally long in both archives. -/
theorem span_eq : c.span = c'.span := by
  obtain ⟨start, stop, -, -, ⟨start_eq, stop_eq⟩, start_eq', stop_eq'⟩ :=
    same.placed.resolve_left some_yet
  unfold Chunk.span
  omega

/-- What the chunks span is the same stretch of their sections. -/
theorem stretch (fits : c.span ≤ Word.largest32) :
    SameStretch s s' ⟨c.start, UInt32.ofNat c.span⟩ ⟨c'.start, UInt32.ofNat c.span⟩ := by
  obtain ⟨start, stop, ordered, within, ⟨start_eq, stop_eq⟩, start_eq', -⟩ :=
    same.placed.resolve_left some_yet
  have length_eq : (UInt32.ofNat c.span).toNat = c.span := Word.toNat_ofNat32 fits
  have span_def : c.span = c.stop.toNat - c.start.toNat := rfl
  refine ⟨rfl, start, start_eq, start_eq', ?_⟩
  rw [length_eq]
  omega

end SameChunk

namespace Relocated

variable {h h' : Header} {bytes bytes' : Bytes} (moved : Relocated h h' bytes bytes')

include moved

/-- Where a payload lies in both archives. -/
theorem payloadRange_placed {e : Entry} (lies : e.LiesIn h.tileData) :
    ((h.payloadRange e).offset.toNat = h.tileData.offset.toNat + e.offset.toNat ∧
      (h.payloadRange e).stop.toNat = h.tileData.offset.toNat + e.stop) ∧
    ((h'.payloadRange e).offset.toNat = h'.tileData.offset.toNat + e.offset.toNat ∧
      (h'.payloadRange e).stop.toNat = h'.tileData.offset.toNat + e.stop) :=
  ⟨Header.payloadRange_placed (Nat.le_trans moved.tiles.inside moved.sized) lies,
    Header.payloadRange_placed (Nat.le_trans moved.tiles.inside' moved.sized')
      (show e.stop ≤ _ from moved.tiles.length_eq ▸ lies)⟩

/-- A run begins the same chunk in both archives. -/
theorem single_same {e : Entry} (lies : e.LiesIn h.tileData) :
    SameChunk h.tileData h'.tileData (.single h e) (.single h' e) := by
  obtain ⟨placed, placed'⟩ := moved.payloadRange_placed lies
  refine ⟨rfl, ?_, .inr ⟨e.offset.toNat, e.stop, Nat.le_add_right _ _, lies, placed, placed'⟩⟩
  intro e' member
  rwa [List.mem_singleton.mp member]

variable {c c' : Chunk} (same : SameChunk h.tileData h'.tileData c c')

include same

/-- A run that is added keeps chunks the same. Its place is counted from the section in
both, so the new bounds differ by as much as the old ones. -/
theorem add_same {e : Entry} (lies : e.LiesIn h.tileData) :
    SameChunk h.tileData h'.tileData (c.add h e) (c'.add h' e) := by
  by_cases none_yet : c.entries.isEmpty = true
  · rw [Chunk.add_of_isEmpty none_yet, Chunk.add_of_isEmpty (same.entries_eq ▸ none_yet)]
    exact moved.single_same lies
  · obtain ⟨start, stop, ordered, within, ⟨start_eq, stop_eq⟩, start_eq', stop_eq'⟩ :=
      same.placed.resolve_left (mt List.isEmpty_iff.mpr none_yet)
    obtain ⟨⟨offset_eq, end_eq⟩, offset_eq', end_eq'⟩ := moved.payloadRange_placed lies
    have lies' : e.stop ≤ h.tileData.length.toNat := lies
    rw [Chunk.add_of_not_isEmpty none_yet, Chunk.add_of_not_isEmpty (same.entries_eq ▸ none_yet)]
    -- Both chunks grow to the lower of two starts and the higher of two stops.
    refine ⟨congrArg (· ++ [e]) same.entries_eq, ?_,
      .inr ⟨min start e.offset.toNat, max stop e.stop, ?_, ?_, ⟨?_, ?_⟩, ?_, ?_⟩⟩
    · intro e' member
      rcases List.mem_append.mp member with old | new
      · exact same.lies e' old
      · rwa [List.mem_singleton.mp new]
    · omega
    · omega
    · exact (Word.toNat_min _ _).trans (by omega)
    · exact (Word.toNat_max _ _).trans (by omega)
    · exact (Word.toNat_min _ _).trans (by omega)
    · exact (Word.toNat_max _ _).trans (by omega)

/-- A run extends both chunks or neither. -/
theorem extend?_cases (threshold : UInt64) {e : Entry} (lies : e.LiesIn h.tileData) :
    (c.extend? h threshold e = none ∧ c'.extend? h' threshold e = none) ∨
      ∃ longer longer', c.extend? h threshold e = some longer ∧
        c'.extend? h' threshold e = some longer' ∧
        SameChunk h.tileData h'.tileData longer longer' := by
  have longer := moved.add_same same lies
  have some_now : (c.add h e).entries ≠ [] := by simp [Chunk.entries_add]
  simp only [Chunk.extend?, longer.span_eq some_now]
  split
  · exact .inr ⟨_, _, rfl, rfl, longer⟩
  · exact .inl ⟨rfl, rfl⟩

/-- Runs get the same payloads out of the same bytes. -/
theorem payload?_eq {e : Entry} (member : e ∈ c.entries) (data : Bytes) :
    c.payload? h data e = c'.payload? h' data e := by
  have some_yet : c.entries ≠ [] := List.ne_nil_of_mem member
  obtain ⟨start, stop, -, -, ⟨start_eq, -⟩, start_eq', -⟩ := same.placed.resolve_left some_yet
  obtain ⟨⟨offset_eq, -⟩, offset_eq', -⟩ := moved.payloadRange_placed (same.lies e member)
  -- The difference of two places in a section does not depend on where the section lies.
  have inset_eq : (h.payloadRange e).offset.toNat - c.start.toNat
      = (h'.payloadRange e).offset.toNat - c'.start.toNat := by omega
  simp only [Chunk.payload?, inset_eq, same.span_eq some_yet]

/-- Runs are handed out alike, since each is cut out at the same distance from the start. -/
theorem handOut_eq (data : Bytes) {es : List Entry} (members : es ⊆ c.entries)
    (g : Gathering Tile) : c.handOut h data es g = c'.handOut h' data es g := by
  induction es generalizing g with
  | nil => rfl
  | cons e es ih =>
      have rest : es ⊆ c.entries := fun _ later => members (List.mem_cons_of_mem e later)
      simp only [Chunk.handOut, moved.payload?_eq same (members List.mem_cons_self), ih rest]

/-- Reading the chunks gives the same. The two ranges are one stretch of the section, and
the runs are cut out of the same bytes at the same places. -/
theorem run_flush_eq (g : Gathering Tile) :
    (c.flush h g).run (Content.read bytes) = (c'.flush h' g).run (Content.read bytes') := by
  by_cases none_yet : c.entries = []
  · rw [Chunk.flush, Chunk.flush, if_pos (List.isEmpty_iff.mpr none_yet),
      if_pos (List.isEmpty_iff.mpr (same.entries_eq ▸ none_yet)), Fetch.run, Fetch.run]
  have span_eq := same.span_eq none_yet
  rw [Chunk.flush, Chunk.flush, if_neg (mt List.isEmpty_iff.mp none_yet),
    if_neg (mt List.isEmpty_iff.mp (same.entries_eq ▸ none_yet)), ← span_eq]
  by_cases large : Word.largest32 < c.span
  · rw [if_pos large, if_pos large, Chunk.tooLarge, Chunk.tooLarge, span_eq, Fetch.run, Fetch.run]
  · -- One read holds the chunk, and reads the same stretch of both sections.
    have stretch := same.stretch none_yet (Nat.not_lt.mp large)
    rw [if_neg large, if_neg large, Fetch.run_bind, Fetch.run_bind, moved.tiles.fetch_eq stretch]
    cases (fetchBytes _).run (Content.read bytes') with
    | error error => simp only [Fetch.run]
    | ok data =>
        simp only [Fetch.run, ← same.entries_eq]
        exact moved.handOut_eq same data (List.Subset.refl _) g

end Relocated

/-! ### Visits -/

/-- Two visits that have found the same and whose chunks are the same. It is kept by every
event, so two archives that differ in the places of their sections are visited alike. -/
structure SameVisit (h h' : Header) (state state' : Chunk × Gathering Tile) : Prop where
  chunk : SameChunk h.tileData h'.tileData state.1 state'.1
  found_eq : state.2 = state'.2

namespace Relocated

variable {h h' : Header} {bytes bytes' : Bytes} (moved : Relocated h h' bytes bytes')

include moved

/-- Visits that read the same chunks go on alike with the same next ones. -/
theorem run_flushThen_related {state state' : Chunk × Gathering Tile}
    (same : SameVisit h h' state state') {next next' : Chunk}
    (after : SameChunk h.tileData h'.tileData next next') :
    Sum.LiftRel (SameVisit h h') Eq ((flushThen h next state).run (Content.read bytes))
      ((flushThen h' next' state').run (Content.read bytes')) := by
  rw [flushThen, flushThen, Fetch.run_bind, Fetch.run_bind, moved.run_flush_eq same.chunk,
    same.found_eq]
  cases (state'.1.flush h' state'.2).run (Content.read bytes') with
  | inl g => exact .inl ⟨after, rfl⟩
  | inr listing => exact .inr rfl

/-- One event keeps two visits the same. Whether a run is joined depends on the span of the
longer chunk, which is the same in both. -/
theorem run_visitEvent_related (threshold : UInt64) {state state' : Chunk × Gathering Tile}
    (same : SameVisit h h' state state') {event : WalkEvent}
    (lies : ∀ e, event = .run e → e.LiesIn h.tileData) :
    Sum.LiftRel (SameVisit h h') Eq
      ((visitEvent h threshold state event).run (Content.read bytes))
      ((visitEvent h' threshold state' event).run (Content.read bytes')) := by
  cases event with
  | pointer => exact moved.run_flushThen_related same (.empty _ _)
  | leave => exact moved.run_flushThen_related same (.empty _ _)
  | run e =>
      have lies := lies e rfl
      simp only [visitEvent]
      rcases moved.extend?_cases same.chunk threshold lies with
        ⟨none_eq, none_eq'⟩ | ⟨longer, longer', some_eq, some_eq', longer_same⟩
      · -- The run fits neither chunk, and begins the next one in both visits.
        rw [none_eq, none_eq']
        exact moved.run_flushThen_related same (moved.single_same lies)
      · rw [some_eq, some_eq']
        exact .inl ⟨longer_same, same.found_eq⟩

/-- The same visits end alike. -/
theorem run_visitEnd_eq {state state' : Chunk × Gathering Tile} (same : SameVisit h h' state state')
    (error : Option ReadError) :
    (visitEnd h state error).run (Content.read bytes)
      = (visitEnd h' state' error).run (Content.read bytes') := by
  cases error with
  | some e => rw [visitEnd, visitEnd, same.found_eq, Fetch.run, Fetch.run]
  | none =>
      rw [visitEnd, visitEnd, Fetch.run_bind, Fetch.run_bind, moved.run_flush_eq same.chunk,
        same.found_eq]
      cases (state'.1.flush h' state'.2).run (Content.read bytes') with
      | inl g => simp only [Fetch.run]
      | inr listing => simp only [Fetch.run]

/-- Visits of both archives give the same. They stay the same through every event. -/
theorem run_visitTiles_eq (contained : ArchiveContained h (Content.read bytes))
    (threshold : UInt64) :
    (visitTiles h threshold).run (Content.read bytes)
      = (visitTiles h' threshold).run (Content.read bytes') := by
  refine (run_start_drive h _ _ _ fun _ => rfl).trans ?_
  refine .trans ?_ (run_start_drive h' _ _ _ fun _ => rfl).symm
  rw [← moved.archiveTour_eq contained]
  refine Trail.feed_eq_of_related (R := SameVisit h h') ?_
    (fun _ _ same => moved.run_visitEnd_eq same _) ⟨.empty _ _, rfl⟩
  rintro event member state state' same
  refine moved.run_visitEvent_related threshold same ?_
  rintro e rfl
  exact lies_of_mem_runs contained (List.mem_filterMap.mpr ⟨_, member, rfl⟩)

/-! ### All requests -/

/-- What header and metadata say together does not mention places. -/
theorem join_eq (m : Metadata) : Summary.join h m = Summary.join h' m := by
  show Summary.join h.unplaced m = Summary.join h'.unplaced m
  rw [moved.unplaced_eq]

/-- Whatever is asked for, the answers are the same. Requests are gone through one by one,
and each reads its sections through offsets that the headers tell. -/
theorem direct_eq (contained : ArchiveContained h (Content.read bytes)) (config : ReaderConfig)
    (request : Request) : request.direct h config bytes = request.direct h' config bytes' := by
  cases request with
  | tile c =>
      simp only [Request.direct, Request.query, Query.run_bind, Query.run,
        moved.run_lookUp_eq contained c]
  | tileAt z x y =>
      simp only [Request.direct, Request.query, Query.run_bind, lookUpAt]
      cases TileCoord.of? z x y with
      | error e => simp only [Query.run]
      | ok c => simp only [Query.run, moved.run_lookUp_eq contained c]
  | coords limit =>
      simp only [Request.direct, Request.query, Query.run_bind, Query.run_toQuery, Query.run,
        moved.run_listCoords_eq contained limit]
  | tiles limit =>
      simp only [Request.direct, Request.query, Query.run_bind, Query.run_toQuery, Query.run,
        moved.run_listTiles_eq contained limit]
  | visit =>
      simp only [Request.direct, Request.query, Query.run_bind, Query.run_toQuery, Query.run,
        moved.run_visitTiles_eq contained]
  | metadata => exact congrArg Response.metadata moved.loadMetadata_eq
  | summary =>
      show Response.summary (((loadMetadata h).run _).map (Summary.join h))
        = .summary (((loadMetadata h').run _).map (Summary.join h'))
      rw [moved.loadMetadata_eq, funext moved.join_eq]

end Relocated

/-- Two archives whose headers agree but for the places of the sections, and whose sections are
the same, are opened alike. As long as the rows keep to their sections, every request is answered
alike, whatever was asked of either archive before. -/
theorem placement_immaterial {bytes bytes' : Bytes} {config : ReaderConfig} {h h' : Header}
    (decoded : Header.decode bytes = .ok h) (decoded' : Header.decode bytes' = .ok h')
    (moved : Relocated h h' bytes bytes') (contained : ArchiveContained h (Content.read bytes))
    (valid : config.validate = .ok ()) :
    ∃ source r source' r', Reader.open? config (.ofBytes bytes) = (source, some (.ok r)) ∧
      Reader.open? config (.ofBytes bytes') = (source', some (.ok r')) ∧
      ∀ history history' request, ∃ response,
        (((ReaderSession.new r).after history).run request).2 = some response ∧
        (((ReaderSession.new r').after history').run request).2 = some response := by
  obtain ⟨source, r, opened, rfl, rfl, idle⟩ := Reader.open?_ofBytes decoded valid
  obtain ⟨source', r', opened', rfl, config_eq, idle'⟩ := Reader.open?_ofBytes decoded' valid
  refine ⟨source, r, source', r', opened, opened', ?_⟩
  intro history history' request
  refine ⟨request.direct r.header r.config bytes, answered_directly idle history request, ?_⟩
  rw [moved.direct_eq contained, ← config_eq]
  exact answered_directly idle' history' request

/-- The header of `leafArchive`. -/
def leafHeader : Header :=
  (Sections.mk [1, 0, 0, 9, 1] [] [2, 0, 2, 1, 3, 1, 2, 1, 0] [42, 7, 8]).describe Header.blank

/-- The header of an archive with the same sections in another order. -/
def scatteredHeader : Header :=
  { leafHeader with
    rootDirectory := ⟨140, 5⟩
    metadata := ⟨128, 0⟩
    leafDirectories := ⟨131, 9⟩
    tileData := ⟨127, 3⟩ }

/-- The tile data come first, behind a gap come the leaf and the root directory, and a byte
follows that belongs to no section. -/
def scatteredArchive : Bytes :=
  scatteredHeader.encode ++ [42, 7, 8, 0, 2, 0, 2, 1, 3, 1, 2, 1, 0, 1, 0, 0, 9, 1, 255]

/-- An archive with a leaf directory, and the same with its sections in another order and
with gaps. -/
theorem placement_immaterial_leafArchive :
    Header.decode leafArchive = .ok leafHeader ∧
    Header.decode scatteredArchive = .ok scatteredHeader ∧
    Relocated leafHeader scatteredHeader leafArchive scatteredArchive ∧
    ArchiveContained leafHeader (Content.read leafArchive) ∧
    ReaderConfig.standard.validate = .ok () ∧
    ∃ source r source' r', Reader.open? .standard (.ofBytes leafArchive) = (source, some (.ok r)) ∧
      Reader.open? .standard (.ofBytes scatteredArchive) = (source', some (.ok r')) ∧
      ∀ request, ∃ response,
        ((ReaderSession.new r).run request).2 = some response ∧
        (((ReaderSession.new r').after [.visit]).run request).2 = some response := by
  have decoded : Header.decode leafArchive = .ok leafHeader := by
    rw [leafArchive, Sections.assemble, List.append_assoc, List.append_assoc, List.append_assoc]
    exact Header.decode_encode rfl _
  have decoded' : Header.decode scatteredArchive = .ok scatteredHeader :=
    Header.decode_encode rfl _
  have moved : Relocated leafHeader scatteredHeader leafArchive scatteredArchive := {
    sized := by decide +kernel
    sized' := by decide +kernel
    unplaced_eq := rfl
    root := ⟨by decide +kernel, by decide +kernel, by decide +kernel⟩
    metadata := ⟨by decide +kernel, by decide +kernel, by decide +kernel⟩
    leaves := ⟨by decide +kernel, by decide +kernel, by decide +kernel⟩
    tiles := ⟨by decide +kernel, by decide +kernel, by decide +kernel⟩ }
  have contained : ArchiveContained leafHeader (Content.read leafArchive) := by decide +kernel
  have valid : ReaderConfig.standard.validate = .ok () := rfl
  obtain ⟨source, r, source', r', opened, opened', same⟩ :=
    placement_immaterial decoded decoded' moved contained valid
  exact ⟨decoded, decoded', moved, contained, valid, source, r, source', r', opened, opened',
    same [] [.visit]⟩

end TileArchive
