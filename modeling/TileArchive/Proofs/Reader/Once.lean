import TileArchive.Proofs.Reader.Remembered

/-!
# `TileArchive.Proofs.Reader.Once`: what has room is read once

An archive is opened and tiles are looked up, while any of the reads may fail. Where all directories
that are given have room in their cache, and all payloads in theirs, none of them is read a second
time.

* `directoryRanges` and `payloadRanges` are the ranges of what was given.
  `sum_directoryWeight_le` and `sum_payloadWeight_le` bound what it weighs by these ranges, as every
  range comes with the one value that the archive has there.
* `ReaderSession.does_again`: a look-up that came to a result comes to it again without a read.
* `remembered_while_room` is what follows for all sequences of look-ups. Directories and payloads
  are remembered apart, so a range that is both is read once as each (`directory_read_as_payload`).

## What room means

A directory weighs forty units for each of its rows, and a payload as much as it has bytes. The
hypotheses add these up over the *ranges* that were given, each counted once, and compare with the
two ceilings. That is what someone can compute who knows the archive and the sequence of look-ups.
The caches weigh the values; that a range never comes with two values, because the archive does not
change, is what makes the two sums comparable.

Reads that fail are allowed. A failed read is given to nobody and remembered by nobody, so it is in
none of the sums, and asking again reads again. What is promised concerns what was given.

## Per role

The same range may be described as a leaf directory by one row and as a payload by another. Then it
is read once in each role, since the caches are separate and keep different things.
`directory_read_as_payload` is an archive that does this.
-/

set_option autoImplicit false

namespace TileArchive

/-! ### The weight of what was given -/

/-- The directory in a range of an archive, without rows where there is none. -/
def directoryIn (h : Header) (bytes : Bytes) (range : ByteRange) : Directory :=
  ((loadDirectory h range).run (Content.read bytes)).toOption.getD .empty

/-- The directories that were given, each with its range. As a set this counts a directory
once, however often it was asked for. -/
def directoriesGiven (es : List Exchange) : Finset (ByteRange × Directory) :=
  (es.filterMap Exchange.directory?).toFinset

/-- The payloads that were given, each with its range. -/
def payloadsGiven (es : List Exchange) : Finset (ByteRange × Bytes) :=
  (es.filterMap Exchange.payload?).toFinset

/-- The ranges of the directories that were given. How often a range is read is counted
against this set. -/
def directoryRanges (es : List Exchange) : Finset ByteRange :=
  (directoriesGiven es).image Prod.fst

/-- The ranges of the payloads that were given. -/
def payloadRanges (es : List Exchange) : Finset ByteRange :=
  (payloadsGiven es).image Prod.fst

/-- What is given in an exchange is among all that is given. -/
theorem Exchange.within_given {es : List Exchange} {e : Exchange} (member : e ∈ es) :
    e.Within (directoriesGiven es) (payloadsGiven es) := by
  refine ⟨fun p given => ?_, fun p given => ?_⟩
  · exact List.mem_toFinset.mpr (List.mem_filterMap.mpr ⟨e, member, given⟩)
  · exact List.mem_toFinset.mpr (List.mem_filterMap.mpr ⟨e, member, given⟩)

/-- Where every range comes with one value, a bound for each range bounds the sum over all. -/
theorem sum_le_sum_ranges {V : Type} [DecidableEq V] {all : Finset (ByteRange × V)}
    {weight : ByteRange × V → Nat} {bound : ByteRange → Nat} {value : ByteRange → V}
    (given : ∀ p ∈ all, value p.1 = p.2) (light : ∀ p ∈ all, weight p ≤ bound p.1) :
    ∑ p ∈ all, weight p ≤ ∑ range ∈ all.image Prod.fst, bound range := by
  have unique : Set.InjOn Prod.fst (all : Set (ByteRange × V)) := by
    intro p member q member' fst_eq
    refine Prod.ext fst_eq ?_
    rw [← given p member, ← given q member', fst_eq]
  rw [Finset.sum_image unique]
  exact Finset.sum_le_sum light

section Given

variable {h : Header} {bytes : Bytes} {es : List Exchange}
  (truth : ∀ e ∈ es, e.Succeeds → e.answer = e.need.truth h (Content.read bytes))

include truth

/-- A directory that was given is what the archive has at its range. -/
theorem run_of_mem_directoriesGiven {p : ByteRange × Directory}
    (member : p ∈ directoriesGiven es) :
    (loadDirectory h p.1).run (Content.read bytes) = .ok p.2 := by
  obtain ⟨e, among, given⟩ := List.mem_filterMap.mp (List.mem_toFinset.mp member)
  unfold Exchange.directory? at given
  split at given
  · next range reads d =>
    cases given
    exact (truth ⟨.directory range, reads, .ok d⟩ among ⟨d, rfl⟩).symm
  · cases given

/-- A payload that was given is what the archive has at its range. So a range has one
payload at most, however often it was asked for. -/
theorem read_of_mem_payloadsGiven {p : ByteRange × Bytes} (member : p ∈ payloadsGiven es) :
    Content.read bytes p.1 = .ok p.2 := by
  obtain ⟨e, among, given⟩ := List.mem_filterMap.mp (List.mem_toFinset.mp member)
  unfold Exchange.payload? at given
  split at given
  · next range reads payload =>
    cases given
    -- A success tells the truth of the archive, and the truth of a payload is the read of its
    -- range.
    have loaded : (Content.read bytes range).mapError ReadError.io = .ok payload :=
      (truth ⟨.payload range, reads, .ok payload⟩ among ⟨payload, rfl⟩).symm
    cases read_eq : Content.read bytes range with
    | error e =>
        rw [read_eq] at loaded
        cases loaded
    | ok data =>
        rw [read_eq] at loaded
        cases loaded
        rfl
  · cases given

/-- The directories weigh no more than forty for each row. -/
theorem sum_directoryWeight_le :
    ∑ p ∈ directoriesGiven es, (directoryWeight p.2).toNat
      ≤ ∑ range ∈ directoryRanges es, 40 * (directoryIn h bytes range).size := by
  have given : ∀ p ∈ directoriesGiven es, directoryIn h bytes p.1 = p.2 := by
    intro p member
    rw [directoryIn, run_of_mem_directoriesGiven truth member]
    rfl
  refine sum_le_sum_ranges given ?_
  intro p member
  rw [given p member, Nat.mul_comm]
  calc (directoryWeight p.2).toNat
    _ = (UInt64.ofNat p.2.size).toNat * 40 % 2 ^ 64 := UInt64.toNat_mul _ _
    _ ≤ (UInt64.ofNat p.2.size).toNat * 40 := Nat.mod_le _ _
    _ ≤ p.2.size * 40 := Nat.mul_le_mul_right 40 (Nat.mod_le _ _)

/-- The payloads weigh no more than their ranges are long. The weight is the length of the
payload as a word, and a payload that was read is as long as its range. -/
theorem sum_payloadWeight_le :
    ∑ p ∈ payloadsGiven es, (payloadWeight p.2).toNat
      ≤ ∑ range ∈ payloadRanges es, range.length.toNat := by
  let value (range : ByteRange) : Bytes := (Content.read bytes range).toOption.getD []
  -- A range has one payload, so a sum over what was given is a sum over ranges.
  have given : ∀ p ∈ payloadsGiven es, value p.1 = p.2 := by
    intro p member
    show (Content.read bytes p.1).toOption.getD [] = p.2
    rw [read_of_mem_payloadsGiven truth member]
    rfl
  refine sum_le_sum_ranges given ?_
  intro p member
  have read_eq := read_of_mem_payloadsGiven truth member
  rw [Content.read] at read_eq
  split at read_eq
  · next inside =>
    have length_eq : p.2.length = p.1.length.toNat := by
      rw [← Except.ok.inj read_eq]
      exact Bytes.length_slice inside
    rw [← length_eq]
    exact Nat.mod_le _ _
  · cases read_eq

end Given

/-! ### The caches of a reader while it has room -/

/-- A reader that has been opened has room for directories and payloads that together weigh no
more than its configuration allows. -/
theorem Reader.steady_ofHeader {answer : ByteRange → Except IoError Bytes}
    {outcomes : List (Option IoError)} {h : Header} {config : ReaderConfig} {s : Source}
    {D : Finset (ByteRange × Directory)} {P : Finset (ByteRange × Bytes)}
    (idle : (Reader.ofHeader h config s).Idle answer outcomes)
    (directories : ∑ p ∈ D, (directoryWeight p.2).toNat ≤ config.directoryCache.maxWeight.toNat)
    (payloads : ∑ p ∈ P, (payloadWeight p.2).toNat ≤ config.tileCache.maxWeight.toNat) :
    (Reader.ofHeader h config s).Steady answer outcomes D P :=
  ⟨idle, Cache.roomy_empty directories, Cache.roomy_empty payloads⟩

/-- A reader with room for all that it is given passes through look-ups. -/
theorem ReaderSession.passage {answer : ByteRange → Except IoError Bytes}
    {outcomes : List (Option IoError)} {D : Finset (ByteRange × Directory)}
    {P : Finset (ByteRange × Bytes)} {s : ReaderSession}
    (steady : s.reader.Steady answer outcomes D P) {calls : List TileCoord}
    (within : ∀ e ∈ exchanges (calls.map .tile) s, e.Within D P) :
    Reader.Passage answer D P s.reader (exchanges (calls.map .tile) s)
      (s.after (calls.map .tile)).reader :=
  (course (calls.map .tile) steady.toIdle).passage steady
    (shared_of_mem_exchanges calls steady.toIdle) within

/-- A look-up that came to a result comes to the same one after others, and reads nothing.
All that it was given is still held, as everything that is ever given has room. -/
theorem ReaderSession.does_again {answer : ByteRange → Except IoError Bytes}
    {outcomes : List (Option IoError)} {D : Finset (ByteRange × Directory)}
    {P : Finset (ByteRange × Bytes)} {s : ReaderSession}
    (steady : s.reader.Steady answer outcomes D P) {c : TileCoord} {found : Option Bytes}
    (run_eq : (s.run (.tile c)).2 = some (.payload (.ok found))) (between : List TileCoord)
    (within : ∀ e ∈ exchanges ((c :: between).map .tile) s, e.Within D P) :
    (s.after ((c :: between).map .tile)).Does (.tile c) (.payload (.ok found)) [] := by
  obtain ⟨course, leads⟩ := course_of_run run_eq
  obtain ⟨result, same, leads'⟩ := leads_tile leads
  cases same
  -- The look-up got values alone, and all of them are remembered after it.
  have asked : ∀ e ∈ s.reader.exchanges (s.query (.tile c)), e.need.Shared ∧ e.Succeeds :=
    fun e member => ⟨shared_of_leads_lookUp leads' _ (List.mem_map_of_mem member),
      succeeds_of_leads_lookUp leads' _ (List.mem_map_of_mem member)⟩
  have first := course.passage steady (fun e member => (asked e member).1)
    fun e member => within e (List.mem_append_left _ member)
  obtain ⟨rest, steady'⟩ := first.steady
  have second := passage steady' fun e member => within e (List.mem_append_right _ member)
  obtain ⟨rest', steady''⟩ : ∃ rest', (s.after ((c :: between).map .tile)).reader.Steady answer
      rest' D P := second.steady
  have known : ∀ p ∈ (s.reader.exchanges (s.query (.tile c))).map Exchange.asked,
      (s.after ((c :: between).map .tile)).reader.Remembers p.1 p.2 := by
    intro p member
    obtain ⟨e, among, rfl⟩ := List.mem_map.mp member
    exact second.recalls _ _ (first.learnt e among (asked e among).2)
  obtain ⟨t, advance_eq, source_eq⟩ := steady''.advance_again leads known
  obtain ⟨-, -, -, -, header_eq, config_eq⟩ :=
    after_idle ((c :: between).map .tile) steady.toIdle
  have query_eq : (s.after ((c :: between).map .tile)).query (.tile c) = s.query (.tile c) := by
    rw [query, header_eq, config_eq]
    rfl
  rw [← query_eq] at advance_eq
  have again : (s.after ((c :: between).map .tile)).run (.tile c)
      = ({ s.after ((c :: between).map .tile) with reader := t }, some (.payload (.ok found))) := by
    simp only [run, Reader.run, advance_eq]
  rw [Does, again, List.append_nil]
  exact ⟨rfl, congrArg Source.reads source_eq⟩

/-- A reader is opened on an archive, any of whose reads may fail, and tiles are looked up. Where
all directories that are given weigh no more together than the directory cache may hold, and all
payloads no more than the tile cache may hold, nothing is read again that was given once.

* What is read in all is what is read for each question in turn, which is nothing or the range that
  is asked for. A directory in a range without bytes is not read.
* Once a directory or payload was given it is not read again when it is asked for. It is still
  remembered in the end, and nothing was dropped from either cache.
* A look-up that came to a result comes to the same one again, and reads nothing. -/
theorem remembered_while_room {bytes : Bytes} {config : ReaderConfig}
    {outcomes : List (Option IoError)} {source : Source} {r : Reader}
    (opened : Reader.open? config (.failing bytes outcomes) = (source, some (.ok r)))
    (calls : List TileCoord) :
    let asked := ReaderSession.exchanges (calls.map .tile) (.new r)
    let left := ((ReaderSession.new r).after (calls.map .tile)).reader
    ∑ range ∈ directoryRanges asked, 40 * (directoryIn r.header bytes range).size
      ≤ config.directoryCache.maxWeight.toNat →
    ∑ range ∈ payloadRanges asked, range.length.toNat ≤ config.tileCache.maxWeight.toNat →
    left.source.reads = r.source.reads ++ asked.flatMap Exchange.reads ∧
    (∀ e ∈ asked, e.reads = [] ∨ e.reads = e.need.ranges) ∧
    (∀ e ∈ asked, ∀ range, e.need = .directory range → range.isEmpty → e.reads = []) ∧
    asked.Pairwise (fun e later => e.Succeeds → later.need = e.need → later.reads = []) ∧
    (∀ e ∈ asked, e.Succeeds → left.Remembers e.need e.answer) ∧
    left.directories.cache.counters.evictions = 0 ∧ left.payloads.cache.counters.evictions = 0 ∧
    ∀ before between after c found, calls = before ++ c :: (between ++ c :: after) →
      (((ReaderSession.new r).after (before.map .tile)).run (.tile c)).2
        = some (.payload (.ok found)) →
      ((ReaderSession.new r).after ((before ++ c :: between).map .tile)).Does (.tile c)
        (.payload (.ok found)) [] := by
  intro asked left directories payloads
  obtain ⟨-, -, -, -, rest, -, idle⟩ := Reader.opened_idle opened
  have truth : ∀ e ∈ asked, e.Succeeds → e.answer = e.need.truth r.header (Content.read bytes) :=
    (ReaderSession.course (s := .new r) (calls.map .tile) idle).truth idle
  -- So what was given weighs no more than its ranges say, and all of it has room.
  have steady : r.Steady (Content.read bytes) rest (directoriesGiven asked)
      (payloadsGiven asked) := by
    have opened_eq := Reader.opened_eq opened
    rw [opened_eq] at idle ⊢
    exact Reader.steady_ofHeader idle (Nat.le_trans (sum_directoryWeight_le truth) directories)
      (Nat.le_trans (sum_payloadWeight_le truth) payloads)
  -- With everything given having room, the whole history is one passage.
  have passage := ReaderSession.passage (s := .new r) steady fun e member =>
    e.within_given member
  obtain ⟨rest', steady'⟩ := passage.steady
  refine ⟨passage.logged, passage.own, ?_, passage.once, passage.learnt,
    steady'.directoriesRoomy.none_dropped, steady'.payloadsRoomy.none_dropped, ?_⟩
  · intro e member range need_eq empty
    rcases passage.own e member with none_read | read
    · exact none_read
    · rw [read, need_eq, Need.ranges, if_pos empty]
  · intro before between after c found calls_eq run_eq
    have split : calls.map Request.tile
        = before.map .tile ++ ((c :: between).map .tile ++ (c :: after).map .tile) := by
      simp [calls_eq]
    -- Up to the second look-up nothing is given but what is given in all.
    have among : ∀ e, e ∈ ReaderSession.exchanges (before.map .tile) (.new r) ∨
        e ∈ ReaderSession.exchanges ((c :: between).map .tile)
          ((ReaderSession.new r).after (before.map .tile)) → e ∈ asked := by
      intro e member
      show e ∈ ReaderSession.exchanges (calls.map .tile) (.new r)
      rw [split, ReaderSession.exchanges_append, ReaderSession.exchanges_append, List.mem_append,
        List.mem_append, ← or_assoc]
      exact .inl member
    have first := ReaderSession.passage (s := .new r) steady fun e member =>
      e.within_given (among e (.inl member))
    obtain ⟨rest'', steady''⟩ := first.steady
    rw [List.map_append, ReaderSession.after_append]
    exact ReaderSession.does_again steady'' run_eq between fun e member =>
      e.within_given (among e (.inr member))

/-- The tile of the whole world. -/
def TileCoord.world : TileCoord := ⟨0, 0, 0, Nat.zero_le _, Nat.one_pos, Nat.one_pos⟩

/-- What a look-up came to. -/
def Response.found? : Response → Option (Option Bytes)
  | .payload (.ok found) => some found
  | _ => none

/-- A response that holds a finding is that of a look-up that succeeded. -/
theorem Response.eq_of_found? {response : Response} {found : Option Bytes}
    (found_eq : response.found? = some found) : response = .payload (.ok found) := by
  unfold found? at found_eq
  split at found_eq
  · cases found_eq
    rfl
  · cases found_eq

/-- A first look-up fails on its payload, which the second one reads anew. The third one reads
nothing. -/
theorem remembered_while_room_leafArchive :
    ∃ source r, Reader.open? .standard
        (.failing leafArchive [none, none, none, some ⟨.timedOut, none⟩])
          = (source, some (.ok r)) ∧
      ∑ range ∈ directoryRanges
          (ReaderSession.exchanges [.tile .world, .tile .world, .tile .world] (.new r)),
        40 * (directoryIn r.header leafArchive range).size
          ≤ ReaderConfig.standard.directoryCache.maxWeight.toNat ∧
      ∑ range ∈ payloadRanges
          (ReaderSession.exchanges [.tile .world, .tile .world, .tile .world] (.new r)),
        range.length.toNat ≤ ReaderConfig.standard.tileCache.maxWeight.toNat ∧
      ((ReaderSession.new r).after [.tile .world, .tile .world]).Does (.tile .world)
        (.payload (.ok (some [42]))) [] := by
  -- The sums and the second look-up are found by running the first two.
  have opens : ∃ source r, Reader.open? .standard
      (.failing leafArchive [none, none, none, some ⟨.timedOut, none⟩])
        = (source, some (.ok r)) ∧
      ∑ range ∈ directoryRanges
          (ReaderSession.exchanges [.tile .world, .tile .world, .tile .world] (.new r)),
        40 * (directoryIn r.header leafArchive range).size
          ≤ ReaderConfig.standard.directoryCache.maxWeight.toNat ∧
      ∑ range ∈ payloadRanges
          (ReaderSession.exchanges [.tile .world, .tile .world, .tile .world] (.new r)),
        range.length.toNat ≤ ReaderConfig.standard.tileCache.maxWeight.toNat ∧
      (((ReaderSession.new r).after [.tile .world]).run (.tile .world)).2.bind Response.found?
        = some (some [42]) := Reader.exists_opened_with (by decide +kernel)
  obtain ⟨source, r, opened, directories, payloads, found_eq⟩ := opens
  obtain ⟨response, run_eq, found_eq⟩ := Option.bind_eq_some_iff.mp found_eq
  rw [Response.eq_of_found? found_eq] at run_eq
  obtain ⟨-, -, -, -, -, -, -, again⟩ :=
    remembered_while_room opened [.world, .world, .world] directories payloads
  exact ⟨source, r, opened, directories, payloads, again [.world] [] [] .world _ rfl run_eq⟩

/-- An archive whose root directory points to a leaf among the payloads. The leaf has one row, and
the payload of its tile are the bytes of the leaf itself. -/
def nestedArchive : Bytes :=
  (Sections.mk [1, 0, 0, 5, 1] [] [] [1, 0, 1, 5, 1]).assemble Header.blank

/-- A range that is a directory and a payload is read twice, although both have room.
Directories and payloads are remembered apart, so the bytes of the one are not those of the
other. -/
theorem directory_read_as_payload :
    ∃ source r, Reader.open? .standard (.failing nestedArchive []) = (source, some (.ok r)) ∧
      ∑ range ∈ directoryRanges (ReaderSession.exchanges [.tile .world] (.new r)),
        40 * (directoryIn r.header nestedArchive range).size
          ≤ ReaderConfig.standard.directoryCache.maxWeight.toNat ∧
      ∑ range ∈ payloadRanges (ReaderSession.exchanges [.tile .world] (.new r)),
        range.length.toNat ≤ ReaderConfig.standard.tileCache.maxWeight.toNat ∧
      (ReaderSession.exchanges [.tile .world] (.new r)).map Exchange.need
        = [.directory ⟨127, 5⟩, .directory ⟨132, 5⟩, .payload ⟨132, 5⟩] ∧
      (ReaderSession.exchanges [.tile .world] (.new r)).map Exchange.reads
        = [[⟨127, 5⟩], [⟨132, 5⟩], [⟨132, 5⟩]] ∧
      (ReaderSession.exchanges [.tile .world] (.new r)).filterMap Exchange.directory?
        = [(⟨127, 5⟩, ⟨[⟨0, 0, 5, 0⟩]⟩), (⟨132, 5⟩, ⟨[⟨0, 0, 5, 1⟩]⟩)] ∧
      ((ReaderSession.new r).after [.tile .world]).reader.source.reads
        = [⟨0, 127⟩, ⟨127, 5⟩, ⟨132, 5⟩, ⟨132, 5⟩] :=
  Reader.exists_opened_with (by decide +kernel)

end TileArchive
