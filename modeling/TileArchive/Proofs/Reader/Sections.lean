import TileArchive.Proofs.Reader.Coalescing
import TileArchive.Proofs.Reader.Flattening
import TileArchive.Proofs.Reader.MetadataOnce

/-!
# `TileArchive.Proofs.Reader.Sections`: what a header describes is read whole

A header describes the root directory and the metadata by an offset and a length, both of them any
words. Their end stops at the largest word, a length is computed back from it, that has to fit one
read, and a section without bytes is not read at all. This module follows a described section
through these steps.

* `Section.load` loads a section and decodes it, and `Section.Outcome` lists what may become of it.
  `load_outcome`: the bytes that were described are decoded, all of them, or the error is reported.
  There is one exception: at the largest offset the end is the offset itself, so that a section is
  taken to have no bytes, whatever its length (`Section.Outcome.beyond`).
* `Request.respond` is the response to a request by what was loaded of the root directory and of
  the metadata, and by nothing else of these sections (`direct_eq_respond`).
* `sections_whole_unless_beyond` says both of an archive that was opened, and
  `described_sections_passed_over` shows the exception.
-/

set_option autoImplicit false

namespace TileArchive

/-! ### Loading a section -/

section

variable {α : Type}

/-- Reads a section and decodes its bytes. A range without bytes is not read. -/
def Section.load (s : Section) (name : String) (decode : Bytes → Except ReadError α) (empty : α) :
    Fetch (Except ReadError α) :=
  match s.range? name with
  | .error e => .done (.error e)
  | .ok range =>
    if range.isEmpty then .done (.ok empty)
    else (fetchBytes range).bind fun data => .done (data >>= decode)

/-- What may become of a section that an archive of the given bytes describes. -/
inductive Section.Outcome (s : Section) (name : String) (bytes : Bytes)
    (decode : Bytes → Except ReadError α) (empty : α) : Except ReadError α → Prop where
  /-- A section without bytes is described. -/
  | absent (none_described : s.length = 0) : Outcome s name bytes decode empty (.ok empty)
  /-- The bytes that are described are read and decoded, all of them. Where the archive does not
  have them, that is the error. -/
  | whole {result : Except ReadError α} (below : s.offset.toNat < Word.largest)
      (described : s.length ≠ 0) (fits : s.stop.toNat - s.offset.toNat ≤ Word.largest32)
      (same : SameUpToText result
        (Content.readAt bytes s.offset.toNat s.length.toNat >>= decode)) :
      Outcome s name bytes decode empty result
  /-- More bytes are described than one read can have, which is reported. -/
  | tooLarge (below : s.offset.toNat < Word.largest)
      (large : Word.largest32 < s.stop.toNat - s.offset.toNat) :
      Outcome s name bytes decode empty (.error (.io (.of .invalidData
        s!"The {name} is too large to read: {s.stop.toNat - s.offset.toNat} bytes")))
  /-- At the largest offset the described bytes are passed over. -/
  | beyond (largest : s.offset.toNat = Word.largest) : Outcome s name bytes decode empty (.ok empty)

/-- The end of a section, as a natural number. -/
theorem Section.toNat_stop (s : Section) :
    s.stop.toNat = min (s.offset.toNat + s.length.toNat) Word.largest :=
  Word.toNat_addSat _ _

/-- Reading up to the end of a section is reading the section. Where the end stops at the largest
word, neither can be read. -/
theorem Section.readAt_stop {bytes : Bytes} (addressable : Content.Addressable bytes)
    (s : Section) :
    Content.readAt bytes s.offset.toNat (s.stop.toNat - s.offset.toNat)
      = Content.readAt bytes s.offset.toNat s.length.toNat := by
  have addressable : bytes.length < Word.largest := addressable
  have stop_eq := s.toNat_stop
  have offset_le := Word.toNat_le_largest s.offset
  by_cases inside : s.offset.toNat + s.length.toNat ≤ Word.largest
  · rw [stop_eq, Nat.min_eq_left inside, Nat.add_sub_cancel_left]
  · rw [Content.readAt, Content.readAt, if_neg (by omega), if_neg (by omega)]

/-- The range from the offset of a section up to its end. The end may be saturated, and then
the range is shorter than the section says that it is. -/
def Section.upToStop (s : Section) : ByteRange :=
  ⟨s.offset, UInt32.ofNat (s.stop.toNat - s.offset.toNat)⟩

/-- The length of what fits a read is computed without loss. -/
theorem Section.length_upToStop {s : Section}
    (fits : s.stop.toNat - s.offset.toNat ≤ Word.largest32) :
    s.upToStop.length.toNat = s.stop.toNat - s.offset.toNat :=
  Word.toNat_ofNat32 fits

/-- A section that fits one read is read from its offset up to its end. -/
theorem Section.load_of_fits {s : Section} (fits : s.stop.toNat - s.offset.toNat ≤ Word.largest32)
    (name : String) (decode : Bytes → Except ReadError α) (empty : α) :
    s.load name decode empty
      = if s.stop.toNat - s.offset.toNat = 0 then .done (.ok empty)
        else (fetchBytes s.upToStop).bind fun data => .done (data >>= decode) := by
  have range_eq : s.range? name = .ok s.upToStop := if_pos fits
  have empty_iff : s.upToStop.isEmpty = true ↔ s.stop.toNat - s.offset.toNat = 0 := by
    rw [ByteRange.isEmpty, beq_iff_eq, ← UInt32.toNat_inj, length_upToStop fits]
    rfl
  rw [load, range_eq]
  simp only [empty_iff]

/-- A section at the largest offset ends where it begins. -/
theorem Section.load_of_largest {s : Section} (largest : s.offset.toNat = Word.largest)
    (name : String) (decode : Bytes → Except ReadError α) (empty : α) :
    s.load name decode empty = .done (.ok empty) := by
  have nothing : s.stop.toNat - s.offset.toNat = 0 := by
    rw [s.toNat_stop, largest]
    omega
  rw [load_of_fits (nothing.trans_le (Nat.zero_le _)), if_pos nothing]

/-- What becomes of a section. No archive reaches the largest position, so an end that stops there
cuts off nothing that could be read. -/
theorem Section.load_outcome {bytes : Bytes} (addressable : Content.Addressable bytes)
    (s : Section) (name : String) (decode : Bytes → Except ReadError α) (empty : α) :
    s.Outcome name bytes decode empty ((s.load name decode empty).run (Content.read bytes)) := by
  have stop_eq := s.toNat_stop
  have offset_le := Word.toNat_le_largest s.offset
  by_cases largest : s.offset.toNat = Word.largest
  · rw [load_of_largest largest]
    exact .beyond largest
  have below : s.offset.toNat < Word.largest := Nat.lt_of_le_of_ne offset_le largest
  by_cases none_described : s.length = 0
  · -- The end is the offset, so nothing is read.
    have zero : s.length.toNat = 0 := congrArg UInt64.toNat none_described
    have nothing : s.stop.toNat - s.offset.toNat = 0 := by omega
    rw [load_of_fits (nothing.trans_le (Nat.zero_le _)), if_pos nothing]
    exact .absent none_described
  have some_described : s.length.toNat ≠ 0 := fun zero =>
    none_described (UInt64.toNat_inj.mp zero)
  by_cases fits : s.stop.toNat - s.offset.toNat ≤ Word.largest32
  · have read : SameUpToText ((fetchBytes s.upToStop).run (Content.read bytes))
        (Content.readAt bytes s.offset.toNat s.upToStop.length.toNat) :=
      read_sameUpToText addressable (Nat.min_eq_left offset_le).symm
    rw [length_upToStop fits, s.readAt_stop addressable] at read
    rw [load_of_fits fits, if_neg (by omega), Fetch.run_bind]
    exact .whole below none_described fits (read.bind fun _ => .refl _)
  · rw [load, range?, if_neg fits]
    exact .tooLarge below (Nat.not_le.mp fits)

end

section

variable (h : Header) (answer : ByteRange → Except IoError Bytes)

/-- What loading the root directory comes to. -/
def Header.loadedRoot : Except ReadError Directory :=
  (h.rootDirectory.load "root directory" (decodeDirectory h) .empty).run answer

/-- What loading the metadata comes to. -/
def Header.loadedMetadata : Except ReadError Metadata :=
  (h.metadata.load "metadata blob" (decodeMetadata h) .empty).run answer

/-- The metadata are loaded like any section. -/
theorem Header.loadedMetadata_eq : h.loadedMetadata answer = (loadMetadata h).run answer := rfl

/-- So is the root directory, as the directory in its range. -/
theorem Header.loadedRoot_eq :
    h.loadedRoot answer
      = match h.rootRange with
        | .error e => .error e
        | .ok range => (loadDirectory h range).run answer := by
  unfold loadedRoot Section.load rootRange
  cases h.rootDirectory.range? "root directory" <;> rfl

end

/-! ### Requests -/

section

variable (h : Header) (answer : ByteRange → Except IoError Bytes)

/-- What looking a tile number up in the root directory comes to. -/
def lookUpIn (id : UInt64) (root : Directory) : Except ReadError (Option Bytes) :=
  match root.find? id with
  | none => .ok none
  | some e =>
    if e.isPointer then
      (descend h id (maxDirectories - 1) (h.leafRange e)).run (Need.truth h answer)
    else ((loadPayload (h.payloadRange e)).run answer).map some

/-- Nothing is found in an empty directory. -/
theorem lookUpIn_empty (id : UInt64) : lookUpIn h answer id .empty = .ok none := by
  have nothing : Directory.empty.find? id = none := by
    rw [Directory.find?, Directory.locate]
    rfl
  rw [lookUpIn, nothing]

/-- The enumeration of all directories, the root directory having been loaded. Where that
failed, nothing else is enumerated. -/
def flattenLoaded {α : Type} (found : Entry → Trail (Step α)) :
    Except ReadError Directory → Trail (Step α)
  | .error e => .broken e
  | .ok root =>
    -- The root directory is open, so a leaf behind one of its rows is the second directory.
    flattenRows found (fun e => flattenDirectory h answer found 2 (h.leafRange e)) root.entries

end

/-- The response to a request, by what was loaded of the root directory and of the metadata.
A request uses the two sections in no other way. -/
def Request.respond (h : Header) (config : ReaderConfig) (bytes : Bytes)
    (root : Except ReadError Directory) (metadata : Except ReadError Metadata) :
    Request → Response
  | .tile c => .payload (root >>= lookUpIn h (Content.read bytes) c.tileId)
  | .tileAt z x y =>
    match TileCoord.of? z x y with
    | .error _ => .payload (.ok none)
    | .ok c => .payload (root >>= lookUpIn h (Content.read bytes) c.tileId)
  | .coords limit => .coords ((flattenLoaded h (Content.read bytes) coordSteps root).listing limit)
  | .tiles limit =>
    .tiles ((flattenLoaded h (Content.read bytes)
      (tileSteps h (Content.read bytes)) root).listing limit)
  | .visit =>
    .visited (visitOn h bytes config.coalesceThreshold
      (tourLoaded (leafTour h (Content.read bytes) (maxDirectories - 1)) root) (.empty, .new none))
  | .metadata => .metadata metadata
  | .summary => .summary (metadata.map (Summary.join h))

/-- The error of the section that a request needs. Outside the grid there are no tiles, and none
are needed where none are asked for. -/
def Request.sectionError? (root : Except ReadError Directory)
    (metadata : Except ReadError Metadata) : Request → Option ReadError
  | .tile _ => errorOf? root
  | .tileAt z x y =>
    match TileCoord.of? z x y with
    | .error _ => none
    | .ok _ => errorOf? root
  | .coords limit => if limit = some 0 then none else errorOf? root
  | .tiles limit => if limit = some 0 then none else errorOf? root
  | .visit => errorOf? root
  | .metadata => errorOf? metadata
  | .summary => errorOf? metadata

/-- A look-up goes on with the root directory that was loaded. -/
theorem run_lookUp_loaded (h : Header) (answer : ByteRange → Except IoError Bytes) (c : TileCoord) :
    (lookUp h c).run (Need.truth h answer)
      = h.loadedRoot answer >>= lookUpIn h answer c.tileId := by
  rw [h.loadedRoot_eq, lookUp]
  cases h.rootRange with
  | error e => rfl
  | ok range =>
      refine (run_descend_succ answer h c.tileId (maxDirectories - 1) range).trans ?_
      dsimp only
      cases (loadDirectory h range).run answer <;> rfl

/-- What is read before does not show in a listing. Reads count neither as items nor against
a limit. -/
theorem Trail.listing_behind {α : Type} (ranges : List ByteRange) (t : Trail (Step α))
    (limit : Option Nat) : (t.behind ranges).listing limit = t.listing limit := by
  have items_eq : ((t.behind ranges).within limit).filterMap Step.item?
      = (t.within limit).filterMap Step.item? := by
    induction ranges with
    | nil => rfl
    | cons range ranges ih =>
        -- One more read finds nothing. Where no items are asked for, it is not even done.
        rw [← ih]
        match limit with
        | none => rfl
        | some 0 => rw [within, within, Step.upTo, Step.upTo]
        | some (count + 1) => rfl
  rw [listing, listing, items_eq]
  rfl

/-- A listing goes on with the root directory that was loaded. -/
theorem listing_flatten_loaded {α : Type} (h : Header) (answer : ByteRange → Except IoError Bytes)
    (found : Entry → Trail (Step α)) (limit : Option Nat) :
    (flatten h answer found).listing limit
      = (flattenLoaded h answer found (h.loadedRoot answer)).listing limit := by
  rw [h.loadedRoot_eq, flatten]
  cases h.rootRange with
  | error e => rfl
  | ok range =>
      dsimp only
      rw [flattenDirectory, directorySteps_eq, Trail.listing_behind]
      cases (loadDirectory h range).run answer <;> rfl

/-- A visit goes on with the root directory that was loaded. -/
theorem run_visitTiles_loaded (h : Header) (bytes : Bytes) (threshold : UInt64) :
    (visitTiles h threshold).run (Content.read bytes)
      = visitOn h bytes threshold (tourLoaded (leafTour h (Content.read bytes) (maxDirectories - 1))
          (h.loadedRoot (Content.read bytes))) (.empty, .new none) := by
  have tour_eq : archiveTour h (Content.read bytes)
      = tourLoaded (leafTour h (Content.read bytes) (maxDirectories - 1))
          (h.loadedRoot (Content.read bytes)) := by
    rw [h.loadedRoot_eq, archiveTour]
    cases h.rootRange <;> rfl
  rw [← tour_eq]
  exact run_start_drive h (Content.read bytes) _ _ fun _ => rfl

/-- Without memory the response to a request is that by the sections that are loaded. So
what becomes of a section when it is loaded is all that a request can see of how it is
described. -/
theorem Request.direct_eq_respond (h : Header) (config : ReaderConfig) (bytes : Bytes)
    (request : Request) :
    request.direct h config bytes
      = request.respond h config bytes (h.loadedRoot (Content.read bytes))
          (h.loadedMetadata (Content.read bytes)) := by
  cases request with
  | tile c =>
      rw [direct, query, Query.run_bind, run_lookUp_loaded]
      rfl
  | tileAt z x y =>
      rw [direct, query, Query.run_bind, lookUpAt, respond]
      cases TileCoord.of? z x y with
      | error e => rfl
      | ok c =>
          dsimp only
          rw [run_lookUp_loaded]
          rfl
  | coords limit =>
      rw [direct, query, Query.run_bind, Query.run_toQuery, respond, ← listing_flatten_loaded,
        ← (listCoords_eq h (Content.read bytes) limit).1]
      rfl
  | tiles limit =>
      rw [direct, query, Query.run_bind, Query.run_toQuery, respond, ← listing_flatten_loaded,
        ← (listTiles_eq h (Content.read bytes) limit).1]
      rfl
  | visit =>
      rw [direct, query, Query.run_bind, Query.run_toQuery, respond, ← run_visitTiles_loaded]
      rfl
  | metadata =>
      rw [h.loadedMetadata_eq]
      rfl
  | summary =>
      rw [h.loadedMetadata_eq]
      rfl

/-- Where some items are asked for, an enumeration that fails at once makes a failed listing. -/
theorem Trail.listing_broken {α : Type} (e : ReadError) {limit : Option Nat}
    (open_ended : limit ≠ some 0) :
    (broken e : Trail (Step α)).listing limit = ⟨[], .failed e⟩ := by
  match limit with
  | none => rfl
  | some (count + 1) => rfl

/-- A result has the error that it is. -/
theorem errorOf?_eq_some_iff {α : Type} {result : Except ReadError α} {e : ReadError} :
    errorOf? result = some e ↔ result = .error e := by
  cases result with
  | ok value => exact ⟨nofun, nofun⟩
  | error e' => exact ⟨fun | rfl => rfl, fun | rfl => rfl⟩

/-- A section that could not be loaded makes every request fail that needs it. Look-ups
inside the grid, visits, and listings of anything at all need the root directory, and the
two calls need the metadata. -/
theorem Request.error?_respond (h : Header) (config : ReaderConfig) (bytes : Bytes)
    {root : Except ReadError Directory} {metadata : Except ReadError Metadata} {request : Request}
    {e : ReadError} (failed : request.sectionError? root metadata = some e) :
    (request.respond h config bytes root metadata).error? = some e := by
  -- What is loaded of a section is an error, and each response begins with what was loaded.
  cases request with
  | tile c =>
      obtain rfl := errorOf?_eq_some_iff.mp failed
      rfl
  | tileAt z x y =>
      rw [sectionError?] at failed
      rw [respond]
      generalize TileCoord.of? z x y = place at failed ⊢
      cases place with
      | error outside => cases failed
      | ok c =>
          obtain rfl := errorOf?_eq_some_iff.mp failed
          rfl
  | coords limit =>
      obtain ⟨open_ended, failed⟩ := (Option.ite_none_left_eq_some).mp failed
      obtain rfl := errorOf?_eq_some_iff.mp failed
      rw [respond, flattenLoaded, Trail.listing_broken e open_ended]
      rfl
  | tiles limit =>
      obtain ⟨open_ended, failed⟩ := (Option.ite_none_left_eq_some).mp failed
      obtain rfl := errorOf?_eq_some_iff.mp failed
      rw [respond, flattenLoaded, Trail.listing_broken e open_ended]
      rfl
  | visit =>
      obtain rfl := errorOf?_eq_some_iff.mp failed
      rfl
  | metadata => exact failed
  | summary =>
      obtain rfl := errorOf?_eq_some_iff.mp failed
      rfl

/-- An archive is opened whose bytes can all be addressed. Of the root directory and of the
metadata that its header describes, exactly the described bytes are used, or the error is reported;
only a section at the largest offset is taken to have no bytes. Whatever was asked before, every
request is answered by what was loaded of these sections, and reports the error of the one that it
needs. -/
theorem sections_whole_unless_beyond {bytes : Bytes} {config : ReaderConfig} {h : Header}
    (addressable : Content.Addressable bytes) (decoded : Header.decode bytes = .ok h)
    (valid : config.validate = .ok ()) :
    ∃ source r root metadata, Reader.open? config (.ofBytes bytes) = (source, some (.ok r)) ∧
      h.rootDirectory.Outcome "root directory" bytes (decodeDirectory h) .empty root ∧
      h.metadata.Outcome "metadata blob" bytes (decodeMetadata h) .empty metadata ∧
      ∀ history request,
        let response := request.respond h config bytes root metadata
        (((ReaderSession.new r).after history).run request).2 = some response ∧
          ∀ e, request.sectionError? root metadata = some e → response.error? = some e := by
  obtain ⟨source, r, opened, rfl, rfl, idle⟩ := Reader.open?_ofBytes decoded valid
  refine ⟨source, r, r.header.loadedRoot _, r.header.loadedMetadata _, opened,
    Section.load_outcome addressable _ _ _ _, Section.load_outcome addressable _ _ _ _, ?_⟩
  intro history request
  refine ⟨?_, fun e => request.error?_respond _ _ _⟩
  rw [answered_directly idle, Request.direct_eq_respond]

/-- Both sections of an archive are read whole, and whatever was asked before, what header and
metadata say together comes from them. -/
theorem sections_whole_unless_beyond_namedArchive :
    Content.Addressable namedArchive ∧ ∃ h, Header.decode namedArchive = .ok h ∧
      ReaderConfig.standard.validate = .ok () ∧
      h.rootDirectory.length = 5 ∧ h.metadata.length = 9 ∧ ∃ source r root metadata,
        Reader.open? .standard (.ofBytes namedArchive) = (source, some (.ok r)) ∧
        h.rootDirectory.Outcome "root directory" namedArchive (decodeDirectory h) .empty root ∧
        h.metadata.Outcome "metadata blob" namedArchive (decodeMetadata h) .empty metadata ∧
        (((ReaderSession.new r).after [.visit]).run .summary).2
          = some (.summary (metadata.map (Summary.join h))) := by
  have addressable : Content.Addressable namedArchive := by decide +kernel
  have valid : ReaderConfig.standard.validate = .ok () := rfl
  obtain ⟨h, decoded, root_length, metadata_length⟩ : ∃ h, Header.decode namedArchive = .ok h ∧
      h.rootDirectory.length = 5 ∧ h.metadata.length = 9 :=
    ⟨_, by cbv, by decide +kernel, by decide +kernel⟩
  obtain ⟨source, r, root, metadata, opened, root_outcome, metadata_outcome, responds⟩ :=
    sections_whole_unless_beyond addressable decoded valid
  exact ⟨addressable, h, decoded, valid, root_length, metadata_length, source, r, root, metadata,
    opened, root_outcome, metadata_outcome, (responds [.visit] .summary).1⟩

/-- An archive without any bytes behind its header, whose root directory and metadata are described
as one byte at the largest offset each. -/
def farArchive : Bytes :=
  Header.encode { Header.blank with
    rootDirectory := ⟨18446744073709551615, 1⟩
    metadata := ⟨18446744073709551615, 1⟩ }

/-- The described bytes do not exist, and nothing reports that: there are no tiles, and the
metadata are those of an archive that has none. -/
theorem described_sections_passed_over :
    ∃ h, Header.decode farArchive = .ok h ∧
      h.rootDirectory = ⟨18446744073709551615, 1⟩ ∧ h.metadata = ⟨18446744073709551615, 1⟩ ∧
      Content.readAt farArchive 18446744073709551615 1 = .error (.io ⟨.unexpectedEof, none⟩) ∧
      ∃ source r, Reader.open? .standard (.ofBytes farArchive) = (source, some (.ok r)) ∧
        let s := ReaderSession.new r
        (s.run (.tileAt 0 0 0)).2 = some (.payload (.ok none)) ∧
        (s.run (.coords none)).2 = some (.coords ⟨[], .complete⟩) ∧
        (s.run (.tiles none)).2 = some (.tiles ⟨[], .complete⟩) ∧
        (s.run .visit).2 = some (.visited ⟨[], .complete⟩) ∧
        (s.run .metadata).2 = some (.metadata (.ok .empty)) := by
  obtain ⟨h, decoded, root_eq, metadata_eq⟩ : ∃ h, Header.decode farArchive = .ok h ∧
      h.rootDirectory = ⟨18446744073709551615, 1⟩ ∧ h.metadata = ⟨18446744073709551615, 1⟩ :=
    ⟨_, by cbv, rfl, rfl⟩
  have valid : ReaderConfig.standard.validate = .ok () := rfl
  obtain ⟨source, r, opened, rfl, -, idle⟩ := Reader.open?_ofBytes decoded valid
  have root_loaded : r.header.loadedRoot (Content.read farArchive) = .ok .empty :=
    congrArg (Fetch.run _) (Section.load_of_largest (by rw [root_eq]; rfl) _ _ _)
  have metadata_loaded : r.header.loadedMetadata (Content.read farArchive) = .ok .empty :=
    congrArg (Fetch.run _) (Section.load_of_largest (by rw [metadata_eq]; rfl) _ _ _)
  have answered : ∀ request, ((ReaderSession.new r).run request).2
      = some (request.respond r.header r.config farArchive (.ok .empty) (.ok .empty)) := by
    intro request
    rw [← root_loaded, ← metadata_loaded, ← Request.direct_eq_respond]
    exact answered_directly idle [] request
  have absent : ((ReaderSession.new r).run (.tileAt 0 0 0)).2 = some (.payload (.ok none)) := by
    obtain ⟨c, inside⟩ : ∃ c, TileCoord.of? 0 0 0 = .ok c := ⟨_, rfl⟩
    rw [answered, Request.respond, inside]
    exact congrArg (some ∘ Response.payload) (lookUpIn_empty _ _ _)
  exact ⟨r.header, decoded, root_eq, metadata_eq, by decide +kernel, source, r, opened, absent,
    answered _, answered _, answered _, answered _⟩

end TileArchive
