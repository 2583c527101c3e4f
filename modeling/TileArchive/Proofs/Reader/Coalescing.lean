import TileArchive.Proofs.Reader.Counting
import TileArchive.Proofs.Reader.Opening
import TileArchive.Proofs.Reader.Transparency

/-!
# `TileArchive.Proofs.Reader.Coalescing`: reading payloads together changes nothing

A visit reads the payloads of neighbouring runs with one read and cuts them out again. The
payloads may lie in any order, overlap, or reach beyond the archive.

* `Chunk.Spans` is what a chunk knows of its runs: all of them lie between its start and its
  stop, one of them reaches the stop, and one read can hold what lies between.
* `Chunk.flush_agrees`: so the read of a chunk fails exactly where one of its runs reaches
  beyond the archive, and otherwise every run gets the payload it would read by itself.
* `visit_agrees_with_listing`: hence a visit finds what a listing finds, and where both fail it
  has found no more. The number that it returns is counted on the way, and is that of the tiles.

## Agreement

A listing reads one run after the other and stops at the first that cannot be read. A visit reads
several at once, and if that fails it has handed out none of them, not even those that a listing
would have found before it failed. So where both fail the visit may have found less.
`Trail.Agrees` says this: two trails are equal, or both fail and one has the items of the other up
to some point. It is respected by putting trails one after another, which is how the runs of a
visit are: those handed out already, those of the chunk that is begun, and those to come.

The proof relates a visit to the same walk with every run read by itself. The chunk that is begun
stands for the runs that the listing has read and the visit has not (`Chunk.pending`). When it is
read the two are level again, and what was read agrees with what the listing found.

## Which facts about the chunk matter

Whether the read fails depends on its stop alone, and the stop is that of some run. That run would
fail by itself too (`stop_le_length_iff`). If the read succeeds, every run lies inside it and is
cut out at the right place (`Spans.payload?`). The threshold plays no part: whatever is read
together, the outcome is the same.
-/

set_option autoImplicit false

namespace TileArchive

/-! ### Agreement -/

/-- Two scans find the same, or both fail and the first finds no more than the second. A
visit that reads several payloads at once fails for all of them where a listing finds the
first ones. -/
def Trail.Agrees {α : Type} (t u : Trail α) : Prop :=
  t = u ∨ (t.error.isSome ∧ u.error.isSome ∧ t.items <+: u.items)

/-- Agreement goes through piece by piece. -/
theorem Trail.Agrees.append {α : Type} {t u v w : Trail α} (first : t.Agrees u)
    (second : v.Agrees w) : (t ++ v).Agrees (u ++ w) := by
  rcases first with rfl | ⟨cut, cut', prefixed⟩
  · match t with
    | ⟨items, some e⟩ => exact .inl rfl
    | ⟨items, none⟩ =>
      rcases second with rfl | ⟨cut, cut', prefixed⟩
      · exact .inl rfl
      · exact .inr ⟨cut, cut', (List.prefix_append_right_inj items).mpr prefixed⟩
  · rw [append_eq_left cut, append_eq_left cut']
    exact .inr ⟨cut, cut', prefixed⟩

/-! ### Single reads -/

/-- A stretch of bytes inside the archive is read as it is. -/
theorem run_fetchBytes_of_inside {bytes : Bytes} {range : ByteRange}
    (inside : range.offset.toNat + range.length.toNat ≤ bytes.length) :
    (fetchBytes range).run (Content.read bytes)
      = .ok (Bytes.slice bytes range.offset.toNat range.length.toNat) := by
  show (Content.read bytes range).mapError ReadError.io = _
  rw [Content.read, if_pos inside]
  rfl

/-- A stretch of bytes that reaches beyond the archive cannot be read. -/
theorem run_fetchBytes_of_outside {bytes : Bytes} {range : ByteRange}
    (outside : ¬ range.offset.toNat + range.length.toNat ≤ bytes.length) :
    ∃ error, (fetchBytes range).run (Content.read bytes) = .error error := by
  show ∃ error, (Content.read bytes range).mapError ReadError.io = _
  rw [Content.read, if_neg outside]
  exact ⟨_, rfl⟩

/-- The tiles of the runs that a walk meets. -/
def Trail.tiles (h : Header) (bytes : Bytes) (t : Trail WalkEvent) : Trail Tile :=
  t.bind (atRun (entryTiles h (Content.read bytes)))

/-- The tiles of two tours in a row are those of the first and then of the second. -/
theorem Trail.tiles_append (h : Header) (bytes : Bytes) (t u : Trail WalkEvent) :
    (t ++ u).tiles h bytes = t.tiles h bytes ++ u.tiles h bytes := bind_append t u _

/-! ### Chunks -/

namespace Chunk

variable {h : Header} {bytes : Bytes}

/-- What a chunk knows of its runs. Every run lies between start and stop, and one of them
is why the stop is where it is. The second part is what makes a short read of the chunk fail
the run that reaches beyond the archive, as it would fail alone. -/
structure Spans (h : Header) (c : Chunk) : Prop where
  starts : ∀ e ∈ c.entries, c.start.toNat ≤ (h.payloadRange e).offset.toNat
  stops : ∀ e ∈ c.entries, (h.payloadRange e).stop.toNat ≤ c.stop.toNat
  reached : c.entries = [] ∨ ∃ e ∈ c.entries, (h.payloadRange e).stop = c.stop
  fits : c.entries = [] ∨ c.span ≤ Word.largest32

/-- A chunk without runs knows nothing and needs nothing. -/
theorem Spans.empty : Chunk.empty.Spans h := ⟨nofun, nofun, .inl rfl, .inl rfl⟩

/-- The end of a payload, as a natural number. -/
theorem toNat_stop_payloadRange (e : Entry) :
    (h.payloadRange e).stop.toNat
      = min ((h.payloadRange e).offset.toNat + e.length.toNat) Word.largest := by
  rw [ByteRange.stop, Word.toNat_addSat]
  rfl

/-- A chunk of one run lies where the run does. -/
theorem Spans.single (e : Entry) : (Chunk.single h e).Spans h := by
  have stop_eq := toNat_stop_payloadRange (h := h) e
  have short : e.length.toNat ≤ Word.largest32 := Word.toNat_le_largest32 e.length
  refine ⟨?_, ?_, .inr ⟨e, List.mem_singleton_self e, rfl⟩, .inr ?_⟩
  · intro e' member
    rw [List.mem_singleton.mp member]
    exact Nat.le_refl _
  · intro e' member
    rw [List.mem_singleton.mp member]
    exact Nat.le_refl _
  · show (h.payloadRange e).stop.toNat - (h.payloadRange e).offset.toNat ≤ _
    omega

/-- The first run of a chunk sets its bounds. -/
theorem add_of_isEmpty {c : Chunk} (none_yet : c.entries.isEmpty = true) (e : Entry) :
    c.add h e = .single h e := by
  rw [add, if_pos none_yet]

/-- Every further run moves the bounds apart, as far as it has to. -/
theorem add_of_not_isEmpty {c : Chunk} (some_yet : ¬ c.entries.isEmpty = true) (e : Entry) :
    c.add h e = ⟨c.entries ++ [e], min c.start (h.payloadRange e).offset,
      max c.stop (h.payloadRange e).stop⟩ := by
  rw [add, if_neg some_yet]

/-- A run is added behind those that a chunk has. -/
theorem entries_add (c : Chunk) (e : Entry) : (c.add h e).entries = c.entries ++ [e] := by
  by_cases none_yet : c.entries.isEmpty = true
  · rw [add_of_isEmpty none_yet, List.isEmpty_iff.mp none_yet]
    rfl
  · rw [add_of_not_isEmpty none_yet]

/-- One more run is spanned as long as one read can hold the longer chunk. The stop is the
higher one of two, so it is still that of some run. -/
theorem Spans.add {c : Chunk} (spans : c.Spans h) {e : Entry}
    (fits : (c.add h e).span ≤ Word.largest32) : (c.add h e).Spans h := by
  by_cases none_yet : c.entries.isEmpty = true
  · rw [add_of_isEmpty none_yet]
    exact .single e
  · rw [add_of_not_isEmpty none_yet] at fits ⊢
    refine ⟨?_, ?_, .inr ?_, .inr fits⟩
    · intro e' member
      show (min c.start (h.payloadRange e).offset).toNat ≤ (h.payloadRange e').offset.toNat
      rw [Word.toNat_min]
      rcases List.mem_append.mp member with old | new
      · exact Nat.le_trans (Nat.min_le_left _ _) (spans.starts e' old)
      · rw [List.mem_singleton.mp new]
        exact Nat.min_le_right _ _
    · intro e' member
      show (h.payloadRange e').stop.toNat ≤ (max c.stop (h.payloadRange e).stop).toNat
      rw [Word.toNat_max]
      rcases List.mem_append.mp member with old | new
      · exact Nat.le_trans (spans.stops e' old) (Nat.le_max_left _ _)
      · rw [List.mem_singleton.mp new]
        exact Nat.le_max_right _ _
    · show ∃ e' ∈ c.entries ++ [e], (h.payloadRange e').stop = max c.stop (h.payloadRange e).stop
      -- The stop is that of the new run, or of the run that reached the old stop.
      rcases spans.reached with nothing | ⟨last, member, stop_eq⟩
      · exact absurd (List.isEmpty_iff.mpr nothing) none_yet
      · rcases Nat.le_total c.stop.toNat (h.payloadRange e).stop.toNat with le | le
        · refine ⟨e, List.mem_append_right _ (List.mem_singleton_self e), ?_⟩
          rw [← UInt64.toNat_inj, Word.toNat_max, Nat.max_eq_right le]
        · refine ⟨last, List.mem_append_left _ member, ?_⟩
          rw [stop_eq, ← UInt64.toNat_inj, Word.toNat_max, Nat.max_eq_left le]

/-- A chunk may be extended as long as it stays below a threshold that one read can hold. -/
theorem Spans.extend? {c longer : Chunk} {threshold : UInt64} {e : Entry} (spans : c.Spans h)
    (bounded : threshold.toNat ≤ Word.largest32)
    (extended : c.extend? h threshold e = some longer) :
    longer.Spans h ∧ longer.entries = c.entries ++ [e] := by
  unfold Chunk.extend? at extended
  simp only at extended
  split at extended
  case isFalse => cases extended
  case isTrue below =>
    cases extended
    exact ⟨spans.add (Nat.le_trans (Nat.le_of_lt below) bounded), entries_add c e⟩

/-! ### Reading a chunk -/

/-- A payload ends inside the archive exactly where its stopping end does, since no archive
reaches the largest word. -/
theorem stop_le_length_iff (addressable : Content.Addressable bytes) (e : Entry) :
    (h.payloadRange e).stop.toNat ≤ bytes.length
      ↔ (h.payloadRange e).offset.toNat + e.length.toNat ≤ bytes.length := by
  have addressable : bytes.length < Word.largest := addressable
  rw [toNat_stop_payloadRange]
  omega

/-- Cut out of the bytes of a chunk, every run gets the payload that it would read by
itself. The place in these bytes is counted from the start of the chunk, which is no further
than that of the run. -/
theorem Spans.payload? {c : Chunk} (addressable : Content.Addressable bytes) (spans : c.Spans h)
    (inside : c.stop.toNat ≤ bytes.length) {e : Entry} (member : e ∈ c.entries) :
    c.payload? h (Bytes.slice bytes c.start.toNat c.span) e
      = some (Bytes.slice bytes (h.payloadRange e).offset.toNat e.length.toNat) := by
  have starts := spans.starts e member
  have stops := spans.stops e member
  have ends := (stop_le_length_iff (h := h) addressable e).mp (Nat.le_trans stops inside)
  have stop_eq := toNat_stop_payloadRange (h := h) e
  have addressable : bytes.length < Word.largest := addressable
  have span_eq : c.span = c.stop.toNat - c.start.toNat := rfl
  have long : (Bytes.slice bytes c.start.toNat c.span).length = c.span :=
    Bytes.length_slice (by omega)
  have place_eq : c.start.toNat + ((h.payloadRange e).offset.toNat - c.start.toNat)
      = (h.payloadRange e).offset.toNat := by omega
  unfold Chunk.payload?
  simp only [long]
  split
  case isTrue whole =>
    -- The run fills the chunk.
    rw [whole.2, show (h.payloadRange e).offset.toNat = c.start.toNat by omega]
  case isFalse =>
    rw [if_pos (by omega), Bytes.slice_slice (by omega), place_eq]

/-- The runs of a chunk as events that are still to be dealt with. -/
def pending (c : Chunk) : Trail WalkEvent := ⟨c.entries.map .run, none⟩

/-- The runs of a chunk inside the archive are handed out as a listing hands them out. The
error of a run without tiles comes at the same place in both. -/
theorem Spans.handOut {c : Chunk} (addressable : Content.Addressable bytes) (spans : c.Spans h)
    (inside : c.stop.toNat ≤ bytes.length) (es : List Entry) (members : es ⊆ c.entries)
    (found : List Tile) :
    c.handOut h (Bytes.slice bytes c.start.toNat c.span) es (.everything found)
      = Gathering.follow found ((⟨es.map .run, none⟩ : Trail WalkEvent).bind
          (atRun (entryTiles h (Content.read bytes)))) := by
  induction es generalizing found with
  | nil => rfl
  | cons e es ih =>
      have member : e ∈ c.entries := members List.mem_cons_self
      have ends := (stop_le_length_iff (h := h) addressable e).mp
        (Nat.le_trans (spans.stops e member) inside)
      have tiles_eq : entryTiles h (Content.read bytes) e = (entryCoords e).map
          (Tile.mk · (Bytes.slice bytes (h.payloadRange e).offset.toNat e.length.toNat)) := by
        rw [entryTiles, run_fetchBytes_of_inside ends]
        rfl
      rw [Chunk.handOut, spans.payload? addressable inside member, List.map_cons,
        Trail.bind_mk_cons, Gathering.follow_append]
      simp only [Gathering.addEntry_everything, ← tiles_eq, atRun]
      obtain ⟨new, error⟩ := entryTiles h (Content.read bytes) e
      cases error with
      | none => exact ih (fun _ later => members (List.mem_cons_of_mem e later)) _
      | some error => rfl

/-- Reading a chunk agrees with reading its runs one by one. If the read fails no tile of
the chunk was found, and one of its runs fails by itself too. -/
theorem Spans.flush_agrees {c : Chunk} (addressable : Content.Addressable bytes)
    (spans : c.Spans h) (found : List Tile) :
    ∃ t, (c.flush h (.everything found)).run (Content.read bytes) = Gathering.follow found t ∧
      t.Agrees (c.pending.tiles h bytes) := by
  by_cases none_yet : c.entries = []
  · -- Nothing is read for a chunk without runs.
    refine ⟨.nil, ?_, .inl ?_⟩
    · rw [flush, if_pos (List.isEmpty_iff.mpr none_yet)]
      rfl
    · rw [pending, none_yet]
      rfl
  have fits : c.span ≤ Word.largest32 := spans.fits.resolve_left none_yet
  obtain ⟨last, member, stop_eq⟩ := spans.reached.resolve_left none_yet
  have ordered : c.start.toNat ≤ c.stop.toNat := by
    have starts := spans.starts last member
    have last_eq := toNat_stop_payloadRange (h := h) last
    have offset_le := Word.toNat_le_largest (h.payloadRange last).offset
    rw [← stop_eq]
    omega
  have length_eq : (UInt32.ofNat c.span).toNat = c.span := Word.toNat_ofNat32 fits
  have end_eq : c.start.toNat + c.span = c.stop.toNat := Nat.add_sub_cancel' ordered
  rw [flush, if_neg (mt List.isEmpty_iff.mp none_yet), if_neg (Nat.not_lt.mpr fits),
    Fetch.run_bind]
  by_cases inside : c.stop.toNat ≤ bytes.length
  · -- Every run of the chunk is cut out of what was read.
    refine ⟨_, ?_, .inl rfl⟩
    rw [run_fetchBytes_of_inside (by simp only [length_eq, end_eq, inside])]
    simp only [length_eq]
    exact spans.handOut addressable inside _ (List.Subset.refl _) found
  · -- The run that reaches the stop of the chunk cannot be read by itself either.
    let range : ByteRange := ⟨c.start, UInt32.ofNat c.span⟩
    have outside : ¬ range.offset.toNat + range.length.toNat ≤ bytes.length := by
      rwa [show range.length.toNat = c.span from length_eq, end_eq]
    obtain ⟨error, run_eq⟩ := run_fetchBytes_of_outside outside
    refine ⟨.broken error, ?_, .inr ⟨rfl, ?_, List.nil_prefix⟩⟩
    · rw [run_eq, Gathering.follow_broken]
      rfl
    · refine Trail.error_bind_isSome_of_mem (List.mem_map_of_mem member) ?_
      have outside := mt (stop_le_length_iff (h := h) addressable last).mpr (stop_eq ▸ inside)
      obtain ⟨error', run_eq'⟩ := run_fetchBytes_of_outside outside
      show (entryTiles h (Content.read bytes) last).error.isSome
      rw [entryTiles, run_eq']
      rfl

end Chunk

/-! ### Visits -/

/-- What a visit gives that has some events before it. -/
def visitOn (h : Header) (bytes : Bytes) (threshold : UInt64) (t : Trail WalkEvent)
    (state : Chunk × Gathering Tile) : Listing Tile :=
  t.feed (fun state event => (visitEvent h threshold state event).run (Content.read bytes))
    (fun state error => (visitEnd h state error).run (Content.read bytes)) state

section

variable {h : Header} {bytes : Bytes} {threshold : UInt64} {c : Chunk} {found : List Tile}

/-- Where a visit stops, it has found what a listing finds in the runs of its chunk. At an
error of the walk the chunk is not read any more, so there the visit may have found less. -/
theorem visitEnd_agrees (addressable : Content.Addressable bytes) (spans : c.Spans h)
    (error : Option ReadError) :
    ∃ u : Trail Tile, visitOn h bytes threshold ⟨[], error⟩ (c, .everything found)
        = Gathering.finish found u ∧
      u.Agrees ((c.pending ++ ⟨[], error⟩).tiles h bytes) := by
  cases error with
  | some e =>
      -- The walk failed, and the runs of the chunk are not read any more.
      refine ⟨.broken e, ?_, .inr ⟨rfl, Trail.error_bind_isSome rfl _, List.nil_prefix⟩⟩
      simp [visitOn, Trail.feed, Trail.feedItems, visitEnd, Fetch.run, Gathering.finish,
        Trail.broken, Gathering.ended, Gathering.everything, Ending.ofError]
  | none =>
      obtain ⟨t, run_eq, agrees⟩ := spans.flush_agrees addressable found
      refine ⟨t, ?_, ?_⟩
      · show (visitEnd h (c, .everything found) none).run _ = _
        rw [visitEnd, Fetch.run_bind, run_eq]
        obtain ⟨items, error⟩ := t
        cases error with
        | none =>
            simp [Gathering.follow, Gathering.finish, Gathering.everything, Fetch.run,
              Gathering.ended, Ending.ofError]
        | some e => rfl
      · rwa [show (⟨[], none⟩ : Trail WalkEvent) = .nil from rfl, Trail.append_nil]

/-- Where a visit reads its chunk and goes on with another one, it agrees with a listing if it
does so from there on. -/
theorem flushThen_agrees (addressable : Content.Addressable bytes) (spans : c.Spans h)
    {next : Chunk} {event : WalkEvent} {t : Trail WalkEvent}
    (flushes : visitEvent h threshold (c, .everything found) event
      = flushThen h next (c, .everything found))
    (same : (next.pending ++ t).tiles h bytes = (Trail.cons event t).tiles h bytes)
    (after : ∀ found', ∃ u : Trail Tile,
      visitOn h bytes threshold t (next, .everything found') = Gathering.finish found' u ∧
        u.Agrees ((next.pending ++ t).tiles h bytes)) :
    ∃ u : Trail Tile, visitOn h bytes threshold (.cons event t) (c, .everything found)
        = Gathering.finish found u ∧
      u.Agrees ((c.pending ++ .cons event t).tiles h bytes) := by
  obtain ⟨first, run_eq, agrees⟩ := spans.flush_agrees addressable found
  rw [visitOn, Trail.feed_cons, flushes, flushThen, Fetch.run_bind, run_eq, Trail.tiles_append]
  obtain ⟨items, error⟩ := first
  cases error with
  | some e =>
      have rest : Trail.Agrees ((Trail.cons event t).tiles h bytes)
          ((Trail.cons event t).tiles h bytes) := .inl rfl
      exact ⟨⟨items, some e⟩, rfl, agrees.append rest⟩
  | none =>
      obtain ⟨u, visit_eq, agrees'⟩ := after (items.reverse ++ found)
      refine ⟨⟨items, none⟩ ++ u, ?_, agrees.append (same ▸ agrees')⟩
      rw [Gathering.finish_append]
      exact visit_eq

/-- A visit with a chunk still to be read finds what a listing finds that has still to go
through the runs of the chunk. The induction is on the events to come. -/
theorem visit_agrees (addressable : Content.Addressable bytes)
    (bounded : threshold.toNat ≤ Word.largest32) (events : List WalkEvent)
    (error : Option ReadError) (spans : c.Spans h) (found : List Tile) :
    ∃ u : Trail Tile, visitOn h bytes threshold ⟨events, error⟩ (c, .everything found)
        = Gathering.finish found u ∧
      u.Agrees ((c.pending ++ ⟨events, error⟩).tiles h bytes) := by
  induction events generalizing c found with
  | nil => exact visitEnd_agrees addressable spans error
  | cons event events ih =>
      cases event with
      | pointer => exact flushThen_agrees addressable spans rfl rfl (ih .empty)
      | leave => exact flushThen_agrees addressable spans rfl rfl (ih .empty)
      | run e =>
          cases extended : c.extend? h threshold e with
          | none =>
              have flushes : visitEvent h threshold (c, .everything found) (.run e)
                  = flushThen h (.single h e) (c, .everything found) := by
                simp only [visitEvent, extended]
              exact flushThen_agrees addressable spans flushes rfl (ih (.single e))
          | some longer =>
              -- The run joins the chunk, and nothing is read yet.
              obtain ⟨spans', entries_eq⟩ := spans.extend? bounded extended
              obtain ⟨u, visit_eq, agrees⟩ := ih spans' found
              have pending_eq : longer.pending ++ ⟨events, error⟩
                  = c.pending ++ .cons (.run e) ⟨events, error⟩ := by
                rw [Chunk.pending, entries_eq, Trail.append_eq_of_error_none rfl,
                  Trail.append_eq_of_error_none rfl]
                simp [Chunk.pending, Trail.cons]
              refine ⟨u, ?_, pending_eq ▸ agrees⟩
              rw [← visit_eq]
              show Trail.feed _ _ (.cons (.run e) ⟨events, error⟩) _ = _
              rw [Trail.feed_cons]
              simp only [visitEvent, extended]
              rfl

/-- The visit of an archive agrees with the scan of all its tiles. -/
theorem run_visitTiles (h : Header) (addressable : Content.Addressable bytes)
    (bounded : threshold.toNat ≤ Word.largest32) :
    ∃ u : Trail Tile, (visitTiles h threshold).run (Content.read bytes) = .ofTrail u ∧
      u.Agrees (scan h (Content.read bytes) (entryTiles h (Content.read bytes))) := by
  obtain ⟨u, visit_eq, agrees⟩ := visit_agrees addressable bounded
    (archiveTour h (Content.read bytes)).items (archiveTour h (Content.read bytes)).error .empty []
  have run_eq : (visitTiles h threshold).run (Content.read bytes)
      = visitOn h bytes threshold (archiveTour h (Content.read bytes)) (.empty, .new none) :=
    run_start_drive h _ _ _ fun _ => rfl
  exact ⟨u, run_eq.trans visit_eq, agrees⟩

/-- Where the scan does not fail, the visit finds the same. -/
theorem run_visitTiles_of_whole (addressable : Content.Addressable bytes)
    (bounded : threshold.toNat ≤ Word.largest32)
    (whole : (scan h (Content.read bytes) (entryTiles h (Content.read bytes))).error = none) :
    (visitTiles h threshold).run (Content.read bytes)
      = .ofTrail (scan h (Content.read bytes) (entryTiles h (Content.read bytes))) := by
  obtain ⟨u, visit_eq, agrees⟩ := run_visitTiles h addressable bounded
  rcases agrees with rfl | ⟨-, cut, -⟩
  · exact visit_eq
  · rw [whole] at cut
    cases cut

end

/-- A configuration that makes sense joins reads only as long as one read can be. -/
theorem ReaderConfig.coalesceThreshold_le {config : ReaderConfig}
    (valid : config.validate = .ok ()) : config.coalesceThreshold.toNat ≤ Word.largest32 := by
  unfold validate at valid
  by_cases large : Word.largest32 < config.coalesceThreshold.toNat
  · rw [if_pos large] at valid
    cases tiles : config.tileCache.validate <;> cases directories : config.directoryCache.validate
      <;> rw [tiles, directories] at valid <;> cases valid
  · exact Nat.not_lt.mp large

/-! ### Visit and listing -/

/-- Whatever was asked before, a visit of an archive finds all tiles exactly where a listing
does, and then it finds the same tiles in the same order. Where it fails, what it found is the
beginning of what the listing found before it failed. The number that a visit counts on its way is
the number of the tiles it has found. -/
theorem visit_agrees_with_listing {bytes : Bytes} {config : ReaderConfig} {h : Header}
    (addressable : Content.Addressable bytes) (decoded : Header.decode bytes = .ok h)
    (valid : config.validate = .ok ()) :
    ∃ source r, Reader.open? config (.ofBytes bytes) = (source, some (.ok r)) ∧
      ∀ history history', ∃ visited listed,
        (((ReaderSession.new r).after history).run .visit).2 = some (.visited visited) ∧
        (((ReaderSession.new r).after history').run (.tiles none)).2 = some (.tiles listed) ∧
        (countTiles h config.coalesceThreshold).run (Content.read bytes)
          = visited.tally.map UInt64.ofNat ∧
        (∀ n, visited.tally = .ok n ↔ listed.ending = .complete ∧ n = listed.items.length) ∧
        (listed.ending = .complete → visited = listed) ∧
        ∀ e, visited.tally = .error e →
          (∃ e', listed.ending = .failed e') ∧ visited.items <+: listed.items := by
  obtain ⟨source, r, opened, rfl, rfl, idle⟩ := Reader.open?_ofBytes decoded valid
  obtain ⟨u, visit_eq, agrees⟩ := run_visitTiles r.header addressable
    (ReaderConfig.coalesceThreshold_le valid)
  have list_eq := run_listTiles r.header (Content.read bytes)
  generalize scan r.header (Content.read bytes) _ = t at agrees list_eq
  refine ⟨source, r, opened, fun history history' => ⟨.ofTrail u, .ofTrail t, ?_, ?_, ?_, ?_⟩⟩
  · exact answered_toQuery idle history rfl visit_eq
  · exact answered_toQuery idle history' rfl list_eq
  · rw [run_countTiles, visit_eq]
  · simp only [Listing.tally_ofTrail_eq_ok_iff, Listing.ending_ofTrail_eq_complete_iff]
    rcases agrees with rfl | ⟨cut, cut', prefixed⟩
    · -- Both find the same, and fail or not alike.
      refine ⟨fun n => Iff.rfl, fun _ => rfl, fun e failed => ⟨?_, List.prefix_refl _⟩⟩
      obtain ⟨items, error⟩ := u
      cases error with
      | some e' => exact ⟨e', rfl⟩
      | none => cases failed
    · -- Both fail, so nothing is said of complete listings.
      have ne : u.error ≠ none := Option.isSome_iff_ne_none.mp cut
      have ne' : t.error ≠ none := Option.isSome_iff_ne_none.mp cut'
      refine ⟨fun n => ⟨fun whole => absurd whole.1 ne, fun whole => absurd whole.1 ne'⟩,
        fun whole => absurd whole ne', fun e _ => ⟨?_, prefixed⟩⟩
      obtain ⟨e', error_eq⟩ := Option.isSome_iff_exists.mp cut'
      exact ⟨e', by simp only [Listing.ofTrail, error_eq, Ending.ofError]⟩

/-- The last byte of the archive is missing, so that the two runs of its leaf cannot be read
together, while the first could be read by itself. -/
theorem visit_agrees_with_listing_cut_leafArchive :
    Content.Addressable leafArchive.dropLast ∧
    (∃ h, Header.decode leafArchive.dropLast = .ok h) ∧ ReaderConfig.standard.validate = .ok () ∧
    ∃ source r, Reader.open? .standard (.ofBytes leafArchive.dropLast) = (source, some (.ok r)) ∧
      ∃ visited listed,
        ((ReaderSession.new r).run .visit).2 = some (.visited visited) ∧
        (((ReaderSession.new r).after [.visit]).run (.tiles none)).2 = some (.tiles listed) ∧
        ∀ e, visited.tally = .error e →
          (∃ e', listed.ending = .failed e') ∧ visited.items <+: listed.items := by
  have addressable : Content.Addressable leafArchive.dropLast := by decide +kernel
  obtain ⟨h, decoded⟩ : ∃ h, Header.decode leafArchive.dropLast = .ok h := ⟨_, by cbv⟩
  have valid : ReaderConfig.standard.validate = .ok () := rfl
  obtain ⟨source, r, opened, agree⟩ := visit_agrees_with_listing addressable decoded valid
  obtain ⟨visited, listed, visit_eq, list_eq, -, -, -, failed⟩ := agree [] [.visit]
  exact ⟨addressable, ⟨h, decoded⟩, valid, source, r, opened, visited, listed, visit_eq, list_eq,
    failed⟩

end TileArchive
