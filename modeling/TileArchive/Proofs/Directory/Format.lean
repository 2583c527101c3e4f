import TileArchive.Proofs.Directory.Columns

/-!
# `TileArchive.Proofs.Directory.Format`: what is read as a directory

`Format` is the written form of a directory, said without a reader: numbers one after another,
their count first and then four columns, with the bounds that the columns have to keep.
`Columns.Describes` says which rows the columns stand for.

`decode_iff_format` says that exactly this is read. A byte string of this form is read as the
rows that its columns describe, and no other byte string is read. In particular the count of
rows, which is checked before any column is read, is never found too large for a byte string of
this form. What follows the last number does not matter, and without its last byte the directory
is cut.

## How the parts are put together

* `decodeColumns` is the reading of the four columns, with one kind of loop, and `decodeRest_eq`
  takes the count and its check off in front of it.
* `decodeColumns_eq_ok_iff` collects the numbers of all columns into one list, and
  `Columns.describes_iff` says what rows they stand for. Both directions of `decodeRest_eq_ok_iff`
  use these two.
* `decodeColumns_cut`: a byte string that is cut is cut inside of one number of one column, the
  columns before it are read, and that one is not.

A count that is too large for the bytes left is told as an error of its own, also where the bytes
were cut. So a directory that ends early is told in one of two ways (`EndsEarly`).

Numbers of rows may repeat here and runs may overlap, since a distance may be zero and run lengths
are not compared with anything. `Columns.Describes.increasing` says when the tile numbers increase.
-/

set_option autoImplicit false

namespace TileArchive.Directory

/-- The numbers of a written directory, as they stand in the bytes. The rows are put
together from them by `Columns.Describes`. -/
structure Columns where
  /-- The number of rows. -/
  count : UInt64
  /-- The distances of the tile numbers. -/
  deltas : List UInt64
  runLengths : List UInt64
  lengths : List UInt64
  /-- The codes of the offsets. -/
  codes : List UInt64

/-- The numbers in the order in which they are written. A directory is nothing but these
numbers, the count first and then one column after another. -/
def Columns.numbers (c : Columns) : List UInt64 :=
  c.count :: (c.deltas ++ (c.runLengths ++ (c.lengths ++ c.codes)))

/-- A byte string begins with the columns of a directory, and `rest` follows them. It says
which directories are read without saying how: lengths agree, numbers fit, and the first row
continues none. -/
structure Format (data : Bytes) (c : Columns) (rest : Bytes) : Prop where
  reads : Varint.Reads c.numbers data rest
  deltas_length : c.deltas.length = c.count.toNat
  runLengths_length : c.runLengths.length = c.count.toNat
  lengths_length : c.lengths.length = c.count.toNat
  codes_length : c.codes.length = c.count.toNat
  /-- Every tile number fits a word. -/
  ids_fit : ∀ i, Word.total (c.deltas.take i) ≤ Word.largest
  runLengths_fit : ∀ number ∈ c.runLengths, number.toNat ≤ Word.largest32
  lengths_fit : ∀ number ∈ c.lengths, number.toNat ≤ Word.largest32
  /-- The first row has no row before it to go on from. -/
  first_code : c.codes.head? ≠ some 0

/-- The rows that columns stand for. Numbers of tiles are sums of distances, run lengths and
lengths stand as they are, and offsets are told by codes that may refer to the row before. -/
structure Columns.Describes (c : Columns) (es : List Entry) : Prop where
  size : es.length = c.count.toNat
  /-- A tile number is the sum of the distances up to its row. -/
  ids : ∀ i e, es[i]? = some e → e.tileId.toNat = Word.total (c.deltas.take (i + 1))
  runLengths : c.runLengths = es.map fun e => e.runLength.toUInt64
  lengths : c.lengths = es.map fun e => e.length.toUInt64
  offsets : ∀ i e code, es[i]? = some e → c.codes[i]? = some code →
    Codes (rowBefore none es i) code e.offset

/-- A byte string ends before the directory in it does. Either a number breaks off, or the
count is larger than what is left could hold. -/
def EndsEarly (result : Except DirectoryError Directory) : Prop :=
  (∃ offset, result = .error (.varint .truncated offset)) ∨
    ∃ count remaining, result = .error (.countTooLarge count remaining)

/-! ### Whole directories -/

/-- Columns of the same length are the columns of rows. The reader finds the columns one
after another and puts the rows together in the end. -/
theorem exists_rows {ids offsets : List UInt64} {runs lengths : List UInt32}
    (runs_length : runs.length = ids.length) (lengths_length : lengths.length = ids.length)
    (offsets_length : offsets.length = ids.length) :
    ∃ es : List Entry, es.map Entry.tileId = ids ∧ es.map Entry.runLength = runs ∧
      es.map Entry.length = lengths ∧ es.map Entry.offset = offsets := by
  induction ids generalizing runs lengths offsets with
  | nil =>
      cases List.length_eq_zero_iff.mp runs_length
      cases List.length_eq_zero_iff.mp lengths_length
      cases List.length_eq_zero_iff.mp offsets_length
      exact ⟨[], rfl, rfl, rfl, rfl⟩
  | cons id ids ih =>
      obtain ⟨run, runs, rfl⟩ := List.exists_cons_of_length_eq_add_one runs_length
      obtain ⟨length, lengths, rfl⟩ := List.exists_cons_of_length_eq_add_one lengths_length
      obtain ⟨offset, offsets, rfl⟩ := List.exists_cons_of_length_eq_add_one offsets_length
      obtain ⟨es, rfl, rfl, rfl, rfl⟩ := ih (Nat.succ.inj runs_length)
        (Nat.succ.inj lengths_length) (Nat.succ.inj offsets_length)
      exact ⟨⟨id, offset, length, run⟩ :: es, rfl, rfl, rfl, rfl⟩

/-- Reads the columns of a directory with a known number of rows. -/
def decodeColumns (total n : Nat) (bytes : Bytes) : Except DirectoryError (Directory × Bytes) := do
  let (ids, rest) ← decodeRows total idRow n (0, 0) bytes
  let (runs, rest) ← decodeRows total (fieldRow .runLength) n 0 rest
  let (lengths, rest) ← decodeRows total (fieldRow .length) n 0 rest
  let (offsets, rest) ← decodeRows total offsetRow lengths.length (lengths, none) rest
  return (⟨ofColumns ids runs lengths offsets⟩, rest)

/-- Reading a directory, without its count: the count is checked against the bytes that are
left, and then the columns are read. -/
theorem decodeRest_eq {data rest : Bytes} {count : UInt64}
    (read : Varint.decode data = .ok (count, rest)) :
    decodeRest data = if rest.length < count.toNat * 4 then
        .error (.countTooLarge count rest.length)
      else decodeColumns data.length count.toNat rest := by
  rw [decodeRest, decodeNumber_eq_ok_iff.mpr read]
  simp only [bind, Except.bind, decodeIds_eq, decodeColumn_eq, decodeOffsets_eq]
  split <;> rfl

/-- The columns of a directory are read just if their numbers are, and the columns of its rows
are the values of the numbers. -/
theorem decodeColumns_eq_ok_iff {total n : Nat} {bytes rest : Bytes} {d : Directory} :
    decodeColumns total n bytes = .ok (d, rest) ↔
      ∃ deltas runs lengths codes,
        Varint.Reads (deltas ++ (runs ++ (lengths ++ codes))) bytes rest ∧
        (deltas.length = n ∧ runs.length = n ∧ lengths.length = n ∧ codes.length = n) ∧
        values idRow (0, 0) deltas = .ok (d.entries.map Entry.tileId) ∧
        values (fieldRow .runLength) 0 runs = .ok (d.entries.map Entry.runLength) ∧
        values (fieldRow .length) 0 lengths = .ok (d.entries.map Entry.length) ∧
        values offsetRow (d.entries.map Entry.length, none) codes
          = .ok (d.entries.map Entry.offset) := by
  simp only [decodeColumns, bind_eq_ok_iff, Prod.exists, decodeRows_eq_ok_iff,
    Varint.reads_append_iff]
  -- On both sides every column is read from where the one before it ended.
  constructor
  · rintro ⟨ids, rest₁, ⟨deltas, deltas_length, reads₁, ids_eq⟩,
      runs, rest₂, ⟨runNumbers, runNumbers_length, reads₂, runs_eq⟩,
      lengths, rest₃, ⟨lengthNumbers, lengthNumbers_length, reads₃, lengths_eq⟩,
      offsets, rest₄, ⟨codes, codes_length, reads₄, offsets_eq⟩, done⟩
    cases done
    have ids_length : ids.length = n := (length_values ids_eq).trans deltas_length
    have runs_length : runs.length = n := (length_values runs_eq).trans runNumbers_length
    have lengths_length : lengths.length = n :=
      (length_values lengths_eq).trans lengthNumbers_length
    have offsets_length : offsets.length = n :=
      (length_values offsets_eq).trans (codes_length.trans lengths_length)
    obtain ⟨es, rfl, rfl, rfl, rfl⟩ := exists_rows (runs_length.trans ids_length.symm)
      (lengths_length.trans ids_length.symm) (offsets_length.trans ids_length.symm)
    rw [ofColumns_columns]
    exact ⟨deltas, runNumbers, lengthNumbers, codes,
      ⟨rest₁, reads₁, rest₂, reads₂, rest₃, reads₃, reads₄⟩,
      ⟨deltas_length, runNumbers_length, lengthNumbers_length, by omega⟩,
      ids_eq, runs_eq, lengths_eq, offsets_eq⟩
  · rintro ⟨deltas, runNumbers, lengthNumbers, codes,
      ⟨rest₁, reads₁, rest₂, reads₂, rest₃, reads₃, reads₄⟩,
      ⟨deltas_length, runNumbers_length, lengthNumbers_length, codes_length⟩,
      ids_eq, runs_eq, lengths_eq, offsets_eq⟩
    have lengths_length := length_values lengths_eq
    refine ⟨_, rest₁, ⟨deltas, deltas_length, reads₁, ids_eq⟩,
      _, rest₂, ⟨runNumbers, runNumbers_length, reads₂, runs_eq⟩,
      _, rest₃, ⟨lengthNumbers, lengthNumbers_length, reads₃, lengths_eq⟩,
      _, rest, ⟨codes, by omega, reads₄, offsets_eq⟩, ?_⟩
    rw [ofColumns_columns]
    rfl

/-- Columns describe rows just if the columns of the rows are the values of the numbers.
This is where the description by sums and codes meets the reader, which goes through the
columns with a state. -/
theorem Columns.describes_iff {c : Columns} {es : List Entry}
    (deltas_length : c.deltas.length = c.count.toNat)
    (codes_length : c.codes.length = c.count.toNat) :
    c.Describes es ↔
      values idRow (0, 0) c.deltas = .ok (es.map Entry.tileId) ∧
      values (fieldRow .runLength) 0 c.runLengths = .ok (es.map Entry.runLength) ∧
      values (fieldRow .length) 0 c.lengths = .ok (es.map Entry.length) ∧
      values offsetRow (es.map Entry.length, none) c.codes = .ok (es.map Entry.offset) := by
  have ids_iff : values idRow (0, 0) c.deltas = .ok (es.map Entry.tileId) ↔
      es.length = c.count.toNat ∧
        ∀ i e, es[i]? = some e → e.tileId.toNat = Word.total (c.deltas.take (i + 1)) := by
    rw [values_idRow_iff, List.length_map, deltas_length]
    simp
  have offsets_iff (size : es.length = c.count.toNat) :=
    @values_offsetRow_iff none es c.codes (size.trans codes_length.symm)
  rw [ids_iff, values_fieldRow_iff, values_fieldRow_iff, List.map_map, List.map_map]
  constructor
  · intro h
    exact ⟨⟨h.size, h.ids⟩, h.runLengths, h.lengths, (offsets_iff h.size).mpr h.offsets⟩
  · intro ⟨⟨size, ids⟩, runLengths, lengths, offsets⟩
    exact ⟨size, ids, runLengths, lengths, (offsets_iff size).mp offsets⟩

/-- The columns follow the count. -/
theorem Format.reads_columns {data rest : Bytes} {c : Columns} (format : Format data c rest) :
    ∃ middle, Varint.decode data = .ok (c.count, middle) ∧
      Varint.Reads (c.deltas ++ (c.runLengths ++ (c.lengths ++ c.codes))) middle rest := by
  cases format.reads with
  | cons read reads => exact ⟨_, read, reads⟩

/-- Every number of the columns takes at least one byte, so the count is believed. -/
theorem Format.enough {data middle rest : Bytes} {c : Columns} (format : Format data c rest)
    (reads : Varint.Reads (c.deltas ++ (c.runLengths ++ (c.lengths ++ c.codes))) middle rest) :
    ¬middle.length < c.count.toNat * 4 := by
  have length_le := reads.length_le
  simp only [List.length_append, format.deltas_length, format.runLengths_length,
    format.lengths_length, format.codes_length] at length_le
  omega

/-- What is read as a directory are the byte strings of its format. The format speaks of
bytes and numbers only, so reading a directory is described without the reader. -/
theorem decodeRest_eq_ok_iff {data rest : Bytes} {d : Directory} :
    decodeRest data = .ok (d, rest) ↔ ∃ c, Format data c rest ∧ c.Describes d.entries := by
  constructor
  · intro decoded
    have ⟨⟨count, middle⟩, read, _⟩ := bind_eq_ok_iff.mp decoded
    rw [decodeRest_eq (decodeNumber_eq_ok_iff.mp read)] at decoded
    split at decoded
    · cases decoded
    obtain ⟨deltas, runs, lengths, codes, reads, ⟨deltas_length, runs_length, lengths_length,
      codes_length⟩, values_eq⟩ := decodeColumns_eq_ok_iff.mp decoded
    have ⟨ids_eq, runs_eq, lengths_eq, offsets_eq⟩ := values_eq
    let c : Columns := ⟨count, deltas, runs, lengths, codes⟩
    refine ⟨c, ?_, (c.describes_iff deltas_length codes_length).mpr values_eq⟩
    exact
      { reads := .cons (decodeNumber_eq_ok_iff.mp read) reads
        deltas_length, runLengths_length := runs_length, lengths_length, codes_length
        ids_fit := by simpa using (exists_values_idRow_iff 0).mp ⟨_, ids_eq⟩
        runLengths_fit := (exists_values_fieldRow_iff _ _).mp ⟨_, runs_eq⟩
        lengths_fit := (exists_values_fieldRow_iff _ _).mp ⟨_, lengths_eq⟩
        first_code := (exists_values_offsetRow_iff _).mp ⟨_, offsets_eq⟩ rfl }
  · intro ⟨c, format, describes⟩
    have values_eq :=
      (Columns.describes_iff format.deltas_length format.codes_length).mp describes
    obtain ⟨middle, read, reads⟩ := format.reads_columns
    rw [decodeRest_eq read, if_neg (format.enough reads)]
    exact decodeColumns_eq_ok_iff.mpr ⟨c.deltas, c.runLengths, c.lengths, c.codes, reads,
      ⟨format.deltas_length, format.runLengths_length, format.lengths_length,
        format.codes_length⟩, values_eq⟩

/-- Columns that keep their bounds describe rows. So a byte string of the format is never
refused. -/
theorem Format.exists_described {data rest : Bytes} {c : Columns} (format : Format data c rest) :
    ∃ es, c.Describes es := by
  have ids_fit : ∀ i, (0 : UInt64).toNat + Word.total (c.deltas.take i) ≤ Word.largest := by
    simpa using format.ids_fit
  obtain ⟨ids, ids_eq⟩ := (exists_values_idRow_iff 0).mpr ids_fit
  obtain ⟨runs, runs_eq⟩ := (exists_values_fieldRow_iff .runLength 0).mpr format.runLengths_fit
  obtain ⟨lengths, lengths_eq⟩ := (exists_values_fieldRow_iff .length 0).mpr format.lengths_fit
  obtain ⟨offsets, offsets_eq⟩ :=
    (exists_values_offsetRow_iff lengths).mpr fun _ => format.first_code
  have ids_length := (length_values ids_eq).trans format.deltas_length
  obtain ⟨es, rfl, rfl, rfl, rfl⟩ := exists_rows
    (((length_values runs_eq).trans format.runLengths_length).trans ids_length.symm)
    (((length_values lengths_eq).trans format.lengths_length).trans ids_length.symm)
    (((length_values offsets_eq).trans format.codes_length).trans ids_length.symm)
  exact ⟨es, (Columns.describes_iff format.deltas_length format.codes_length).mpr
    ⟨ids_eq, runs_eq, lengths_eq, offsets_eq⟩⟩

/-- The tile numbers of described rows do not fall, since distances are added up. -/
theorem Columns.Describes.increasing {c : Columns} {es : List Entry} (h : c.Describes es) :
    es.Pairwise fun e e' => e.tileId ≤ e'.tileId := by
  rw [List.pairwise_iff_getElem]
  intro i j i_lt j_lt less
  rw [UInt64.le_iff_toNat_le, h.ids i _ (List.getElem?_eq_getElem i_lt),
    h.ids j _ (List.getElem?_eq_getElem j_lt)]
  exact Word.total_take_mono _ (by omega)

/-- Where one of their numbers is cut, the columns of a directory are not read. The columns
before are whole and keep their bounds, so the cut is the first thing that is wrong. -/
theorem decodeColumns_cut {total : Nat} {c : Columns} {es : List Entry} {data rest bytes : Bytes}
    (format : Format data c rest) (describes : c.Describes es)
    (cut : Varint.Cut (c.deltas ++ (c.runLengths ++ (c.lengths ++ c.codes))) bytes) :
    ∃ offset, decodeColumns total c.count.toNat bytes = .error (.varint .truncated offset) := by
  obtain ⟨ids_eq, runs_eq, lengths_eq, offsets_eq⟩ :=
    (Columns.describes_iff format.deltas_length format.codes_length).mp describes
  -- The first column that is not read ends the reading.
  unfold decodeColumns
  rcases decodeRows_cut_or_read total format.deltas_length ids_eq cut with
    ⟨offset, failed⟩ | ⟨_, read₁, cut⟩
  · exact ⟨offset, by simp only [bind, Except.bind, failed]⟩
  rcases decodeRows_cut_or_read total format.runLengths_length runs_eq cut with
    ⟨offset, failed⟩ | ⟨_, read₂, cut⟩
  · exact ⟨offset, by simp only [bind, Except.bind, read₁, failed]⟩
  rcases decodeRows_cut_or_read total format.lengths_length lengths_eq cut with
    ⟨offset, failed⟩ | ⟨_, read₃, cut⟩
  · exact ⟨offset, by simp only [bind, Except.bind, read₁, read₂, failed]⟩
  obtain ⟨offset, failed⟩ := decodeRows_cut total cut offsets_eq
  have rows_eq : (es.map Entry.length).length = c.codes.length := by
    rw [List.length_map, describes.size, format.codes_length]
  exact ⟨offset, by simp only [bind, Except.bind, read₁, read₂, read₃, rows_eq, failed]⟩

/-- Where one of its numbers is cut, a directory is not read. If the cut comes early there
are more rows announced than bytes left, which is reported first. -/
theorem Format.endsEarly {data rest part : Bytes} {c : Columns} (format : Format data c rest)
    (cut : Varint.Cut c.numbers part) : EndsEarly (decode part) := by
  obtain ⟨es, describes⟩ := format.exists_described
  -- The cut may be in the count itself. Otherwise the count is read, and either it is found
  -- too large for what is left, or the cut is in one of the columns.
  cases cut with
  | here ended =>
      left
      rw [decode, decodeRest, decodeNumber_truncated ended]
      exact ⟨_, rfl⟩
  | later read cut =>
      rw [decode, decodeRest_eq read]
      split
      · exact .inr ⟨_, _, rfl⟩
      · obtain ⟨offset, failed⟩ := decodeColumns_cut format describes cut
        rw [failed]
        exact .inl ⟨offset, rfl⟩

/-- Reading a directory does not look at what is left over. -/
theorem decode_eq_ok_iff {data : Bytes} {d : Directory} :
    decode data = .ok d ↔ ∃ rest, decodeRest data = .ok (d, rest) := by
  rw [decode]
  cases decodeRest data with
  | error e => simp [Except.map]
  | ok found => simp [Except.map, Prod.ext_iff]

/-- What is read as a directory are the byte strings of its format, and it is read as the
rows that its columns describe. A byte string of the format is always read. Its tile numbers
do not fall, what follows its last number does not matter, and where it is ended early,
either a number is cut or too few bytes are left for the count.

The format is said without a reader but for single numbers (`Varint.Reads`), so this is a
complete description of what the reader accepts. -/
theorem decode_iff_format (data : Bytes) :
    (∀ d, decode data = .ok d ↔ ∃ c rest, Format data c rest ∧ c.Describes d.entries) ∧
    ∀ c rest, Format data c rest → ∃ d used, decode data = .ok d ∧
      d.entries.Pairwise (fun e e' => e.tileId ≤ e'.tileId) ∧
      data = used ++ rest ∧ (∀ tail, decode (used ++ tail) = .ok d) ∧
      ∀ part, part <+: used → part ≠ used → EndsEarly (decode part) := by
  constructor
  · intro d
    simp only [decode_eq_ok_iff, decodeRest_eq_ok_iff]
    exact exists_comm
  · intro c rest format
    obtain ⟨es, describes⟩ := format.exists_described
    -- The bytes that are used are of the format with anything behind them.
    obtain ⟨used, rfl, enough, needed⟩ := format.reads.exists_used
    have decoded (tail : Bytes) : decode (used ++ tail) = .ok ⟨es⟩ :=
      decode_eq_ok_iff.mpr ⟨tail, decodeRest_eq_ok_iff.mpr
        ⟨c, { format with reads := enough tail }, describes⟩⟩
    exact ⟨⟨es⟩, used, decoded rest, describes.increasing, rfl, decoded,
      fun part begins ne => format.endsEarly (needed part begins ne)⟩

/-- Two rows, written with one number longer than need be and with something behind. Every
shorter part of the bytes that are used ends early. -/
theorem decode_iff_format_long_form :
    let used : Bytes := [2, 5, 131, 0, 1, 0, 10, 20, 101, 0]
    let c : Columns := ⟨2, [5, 3], [1, 0], [10, 20], [101, 0]⟩
    Format (used ++ [9]) c [9] ∧
      decode (used ++ [9]) = .ok ⟨[⟨5, 100, 10, 1⟩, ⟨8, 110, 20, 0⟩]⟩ ∧
      ∀ part, part <+: used → part ≠ used → EndsEarly (decode part) := by
  intro used c
  have reads : Varint.Reads c.numbers (used ++ [9]) [9] :=
    .cons rfl (.cons rfl (.cons rfl (.cons rfl (.cons rfl (.cons rfl (.cons rfl (.cons rfl
      (.cons rfl (.nil [9])))))))))
  have ids_fit : ∀ i, Word.total (c.deltas.take i) ≤ Word.largest := by
    intro i
    exact Nat.le_trans (Word.total_take_mono c.deltas (Nat.le_add_right i 2)) (by simp [c]; decide)
  have format : Format (used ++ [9]) c [9] :=
    { reads, ids_fit
      deltas_length := rfl, runLengths_length := rfl, lengths_length := rfl, codes_length := rfl
      runLengths_fit := by simp [c, Word.largest32]
      lengths_fit := by simp [c, Word.largest32]
      first_code := by decide }
  obtain ⟨d, used', -, -, split, -, early⟩ := (decode_iff_format (used ++ [9])).2 c [9] format
  obtain rfl : used = used' := List.append_cancel_right split
  exact ⟨format, rfl, early⟩

end TileArchive.Directory
