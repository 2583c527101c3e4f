import TileArchive.Proofs.Directory.Format
import TileArchive.Proofs.Varint.Shortest

/-!
# `TileArchive.Proofs.Directory.Anew`: writing again what was read

A reader accepts more than a writer makes: numbers in longer forms, an offset written out where
the marker for "goes on" would do, and a marker behind a row whose end no word holds. So what is
written of a directory that was read may differ from the bytes it was read from.

* `Columns.Overflows` is the one thing that keeps the directory from being written:
  a row marked as going on behind a row that ends beyond the largest word. Such a row is read with
  the largest word as its offset, which then neither goes on nor has a code (`stuckAt_iff`).
* `length_encode_le`: otherwise every column is written with no more bytes than it was read from.
  Tile numbers, run lengths and lengths have the same numbers as before, and a code is the same or
  the marker.
* `written_anew_outcome` puts this together.

Bytes that were read are compared with bytes that are written through the numbers of
`Directory.Format`: both are numbers in a row, and `Varint.Reads.length_written_le` compares them
number by number. The columns of a byte string are determined by it (`Format.unique`), so that what
is said of some columns it may be read as is said of the ones it is read as.

The written form is also the shortest of all that are read as the same directory. The numbers of
these differ in their codes only, where a writer has the choice between the marker, one byte long,
and the offset; and the writer takes the marker wherever it can.
-/

set_option autoImplicit false

namespace TileArchive.Directory

/-- The row is marked as going on where the row before ends, and no word holds that end. The
reader saturates it, and the writer then has no form for the row. -/
def Columns.Overflows (c : Columns) (es : List Entry) (i : Nat) : Prop :=
  c.codes[i]? = some 0 ∧ ∃ p, rowBefore none es i = some p ∧ Word.largest < p.stop

/-! ### Numbers of the columns -/

/-- A byte string is the written form of no other columns, with nothing else behind them. So
whatever is said of the columns of a directory that was read is said of the bytes. -/
theorem Format.unique {data rest rest' : Bytes} {c c' : Columns} (format : Format data c rest)
    (format' : Format data c' rest') : c = c' ∧ rest = rest' := by
  obtain ⟨middle, read, reads⟩ := format.reads_columns
  obtain ⟨middle', read', reads'⟩ := format'.reads_columns
  have count_eq : c.count = c'.count ∧ middle = middle' := by
    simpa using read.symm.trans read'
  obtain ⟨count_eq, rfl⟩ := count_eq
  obtain ⟨-, deltas_length, runLengths_length, lengths_length, codes_length, -⟩ := format
  obtain ⟨-, deltas_length', runLengths_length', lengths_length', codes_length', -⟩ := format'
  rw [← count_eq] at deltas_length' runLengths_length' lengths_length' codes_length'
  obtain ⟨numbers_eq, rest_eq⟩ := reads.unique reads' (by simp only [List.length_append]; omega)
  refine ⟨?_, rest_eq⟩
  -- All columns have as many numbers as there are rows.
  obtain ⟨deltas_eq, numbers_eq⟩ := List.append_inj numbers_eq (by omega)
  obtain ⟨runLengths_eq, numbers_eq⟩ := List.append_inj numbers_eq (by omega)
  obtain ⟨lengths_eq, codes_eq⟩ := List.append_inj numbers_eq (by omega)
  cases c
  cases c'
  simp_all only

/-- Tile numbers are written with the distances they were read from. They were read by
adding, and they are written by subtracting, row by row. -/
theorem encodeIds_eq {index index' : Nat} {last : UInt64} {deltas : List UInt64}
    {es : List Entry}
    (values_eq : values idRow (index, last) deltas = .ok (es.map Entry.tileId)) :
    encodeIds index' last es = .ok (Varint.written deltas) := by
  induction es generalizing index index' last deltas with
  | nil =>
      have none_read := length_values values_eq
      obtain rfl := List.length_eq_zero_iff.mp none_read.symm
      rfl
  | cons e es ih =>
      cases deltas with
      | nil => cases values_eq
      | cons delta deltas =>
          obtain ⟨id, _, ids, row_eq, later_eq, columns_eq⟩ := values_cons_eq_ok_iff.mp values_eq
          obtain ⟨id_eq, rfl⟩ := idRow_eq_ok_iff.mp row_eq
          obtain ⟨rfl, rfl⟩ := List.cons.inj columns_eq
          have last_le : last ≤ e.tileId := by
            rw [UInt64.le_iff_toNat_le]
            omega
          -- The number was found by adding the distance without an overflow, so subtracting
          -- gives it back.
          have delta_eq : e.tileId - last = delta := by
            rw [← UInt64.toNat_inj, UInt64.toNat_sub_of_le _ _ last_le]
            omega
          rw [encodeIds_cons, if_neg (UInt64.not_lt.mpr last_le), ih later_eq, delta_eq,
            Varint.written_cons]
          rfl

/-- A column of half words is written as its numbers, whatever they were read from. -/
theorem encodeColumn_eq (value : Entry → UInt32) (es : List Entry) :
    encodeColumn value es = Varint.written (es.map fun e => (value e).toUInt64) := by
  rw [encodeColumn, Varint.written, List.flatMap_map]

/-! ### Codes of the offsets -/

/-- The offset that a code stands for is stuck just if the code is the marker and no word holds
the end of the row before. -/
theorem codeOfOffset_eq_none_iff {before : Option Entry} {code offset : UInt64}
    (codes : Codes before code offset) :
    codeOfOffset (before.map Entry.stop) offset = none ↔
      code = 0 ∧ ∃ p, before = some p ∧ Word.largest < p.stop := by
  have offset_le := Word.toNat_le_largest offset
  have code_le := Word.toNat_le_largest code
  obtain ⟨marked, unmarked⟩ := codes
  unfold codeOfOffset
  by_cases marker : code = 0
  · obtain ⟨p, rfl, offset_eq⟩ := marked marker
    simp only [Option.map_some, Option.some.injEq, marker, true_and, exists_eq_left']
    split
    · simp only [reduceCtorEq, false_iff]
      omega
    · split
      · simp only [reduceCtorEq, false_iff]
        omega
      · simp only [true_iff]
        omega
  · -- A code that is no marker is above its offset, so the offset leaves room for it.
    have code_pos : 0 < code.toNat :=
      Nat.pos_of_ne_zero fun zero => marker (UInt64.toNat_inj.mp zero)
    have room : offset.toNat < Word.largest := by
      have offset_eq := unmarked marker
      omega
    simp only [if_pos room, marker, false_and, iff_false]
    split <;> nofun

/-- An offset is written with the code that it was read from, or with the marker. The marker
is one byte long, which no code falls short of. -/
theorem length_encode_code_le {before : Option Entry} {code code' offset : UInt64}
    (codes : Codes before code offset)
    (coded : codeOfOffset (before.map Entry.stop) offset = some code') :
    (Varint.encode code').length ≤ (Varint.encode code).length := by
  have one_byte : (Varint.encode 0).length = 1 := by
    rw [Varint.encode, Varint.encodeNat, if_pos (by decide)]
    rfl
  have enough := Varint.length_encode_pos code
  obtain ⟨marked, unmarked⟩ := codes
  unfold codeOfOffset at coded
  split at coded
  · cases coded
    omega
  · next not_continued =>
    split at coded
    · next room =>
      cases coded
      -- The code was not the marker, since the offset is not the end of the row before.
      have not_marker : code ≠ 0 := by
        intro marker
        obtain ⟨p, rfl, offset_eq⟩ := marked marker
        rw [Option.map_some, Option.some.injEq] at not_continued
        omega
      have code_pos : 0 < code.toNat :=
        Nat.pos_of_ne_zero fun zero => not_marker (UInt64.toNat_inj.mp zero)
      have one_eq : (1 : UInt64).toNat = 1 := rfl
      have sum_eq : (offset + 1).toNat = offset.toNat + 1 := Word.toNat_add (b := 1) (by omega)
      have same : offset + 1 = code := by
        have offset_eq := unmarked not_marker
        rw [← UInt64.toNat_inj]
        omega
      exact Nat.le_of_eq (by rw [same])
    · cases coded

/-- Offsets are written with no more bytes than they were read from. They are compared row
by row, and the codes may be others where the marker would have done. -/
theorem length_encodeOffsets_le {index : Nat} {before : Option Entry} {es : List Entry}
    {codes : List UInt64} {bytes : Bytes} (length_eq : es.length = codes.length)
    (stand : ∀ i e code, es[i]? = some e → codes[i]? = some code →
      Codes (rowBefore before es i) code e.offset)
    (written : encodeOffsets index (before.map Entry.stop) es = .ok bytes) :
    bytes.length ≤ (Varint.written codes).length := by
  induction es generalizing index before codes bytes with
  | nil =>
      cases written
      exact Nat.zero_le _
  | cons e es ih =>
      cases codes with
      | nil => cases length_eq
      | cons code codes =>
          obtain ⟨code', tail, coded, tail_eq, rfl⟩ := encodeOffsets_cons_eq_ok written
          -- Row by row: the code that is written is never longer than the one that was read,
          -- since it is the shortest code of the offset.
          have here := length_encode_code_le (stand 0 e code rfl rfl) coded
          have later := @ih (index + 1) (some e) codes tail (Nat.succ.inj length_eq) ?_ tail_eq
          · rw [Varint.written_cons, List.length_append, List.length_append]
            omega
          · intro i e' code' row_eq code_eq
            have := stand (i + 1) e' code' row_eq code_eq
            rwa [rowBefore_cons_succ] at this

/-! ### Whole directories -/

section

variable {data rest : Bytes} {c : Columns} {d : Directory}

/-- Rows are stuck where their columns overflow. The one is said of rows and the other of
the numbers that stand in the bytes. -/
theorem stuckAt_iff (format : Format data c rest) (describes : c.Describes d.entries) (i : Nat) :
    StuckAt none d.entries i ↔ c.Overflows d.entries i := by
  have length_eq : d.entries.length = c.codes.length :=
    describes.size.trans format.codes_length.symm
  rcases Nat.lt_or_ge i d.entries.length with inside | beyond
  · have row_eq := List.getElem?_eq_getElem inside
    have code_eq := List.getElem?_eq_getElem (length_eq ▸ inside)
    have none_iff := codeOfOffset_eq_none_iff (describes.offsets i _ _ row_eq code_eq)
    rw [Columns.Overflows, code_eq, Option.some.injEq, ← none_iff]
    -- Both sides speak of the rows from `i` on.
    have tail_eq : d.entries.drop i = d.entries[i] :: d.entries.drop (i + 1) :=
      List.drop_eq_getElem_cons inside
    rw [← @stuckAt_cons_zero_iff _ _ (d.entries.drop (i + 1)), ← tail_eq, StuckAt, StuckAt,
      List.getElem?_drop]
    rfl
  · constructor
    · rintro ⟨e, found, -⟩
      rw [List.getElem?_eq_none beyond] at found
      cases found
    · rintro ⟨found, -⟩
      rw [List.getElem?_eq_none (length_eq ▸ beyond)] at found
      cases found

/-- A directory is written with no more bytes than it was read from. Every number of it is
written in its shortest form, and no code becomes longer. -/
theorem length_encode_le (format : Format data c rest) (describes : c.Describes d.entries)
    {bytes : Bytes} (written : encode d = .ok bytes) :
    bytes.length + rest.length ≤ data.length := by
  obtain ⟨ids, offsets, ids_eq, offsets_eq, rfl⟩ := encode_eq_ok_iff.mp written
  obtain ⟨deltas_eq, -⟩ :=
    (Columns.describes_iff format.deltas_length format.codes_length).mp describes
  cases ids_eq.symm.trans (encodeIds_eq deltas_eq)
  -- Only the codes of the offsets may change. The other columns are written with the numbers
  -- that were read, each in its shortest form.
  have offsets_le := @length_encodeOffsets_le 0 none _ _ _
    (describes.size.trans format.codes_length.symm) describes.offsets offsets_eq
  have count_eq : UInt64.ofNat d.size = c.count := by
    rw [size, describes.size, UInt64.ofNat_toNat]
  have all_le := format.reads.length_written_le
  rw [Columns.numbers, Varint.written_cons] at all_le
  simp only [Varint.written_append, List.length_append] at all_le
  rw [count_eq, encodeColumn_eq, encodeColumn_eq, ← describes.runLengths, ← describes.lengths]
  simp only [List.length_append]
  omega

end

/-- A directory that was read is written again unless one of its rows is marked as going on behind
a row that ends beyond the largest word; the first such row is then reported. The bytes written
are read as the same directory. They are no more than those it was read from, nor than those of any
other byte string that is read as this directory: what is written is a shortest form. -/
theorem written_anew_outcome {data : Bytes} {d : Directory} (decoded : decode data = .ok d) :
    ∃ c used rest, data = used ++ rest ∧ decodeRest data = .ok (d, rest) ∧
      Format data c rest ∧ c.Describes d.entries ∧
      (∀ c' rest', Format data c' rest' → c = c' ∧ rest = rest') ∧
      ((∃ error, encode d = .error error) ↔ ∃ i, c.Overflows d.entries i) ∧
      ((∃ i, c.Overflows d.entries i) →
        ∃ i, FirstAt (c.Overflows d.entries) i ∧ encode d = .error (.offsetOverflow i)) ∧
      ((∀ i, ¬c.Overflows d.entries i) →
        ∃ bytes, encode d = .ok bytes ∧ decode bytes = .ok d ∧ bytes.length ≤ used.length ∧
          ∀ data' rest', decodeRest data' = .ok (d, rest') →
            bytes.length + rest'.length ≤ data'.length) := by
  obtain ⟨rest, read⟩ := decode_eq_ok_iff.mp decoded
  obtain ⟨c, format, describes⟩ := decodeRest_eq_ok_iff.mp read
  obtain ⟨used, data_eq, -, -⟩ := format.reads.exists_used
  have stuck_eq : StuckAt none d.entries = c.Overflows d.entries :=
    funext fun i => propext (stuckAt_iff format describes i)
  -- The distances were added up, so the tile numbers are in order.
  have in_order : ∀ i, ¬FallsAt none d.entries i :=
    never_falls_iff.mpr ⟨fun _ _ => UInt64.zero_le, describes.increasing⟩
  have outcome := encode_cases d
  rw [stuck_eq] at outcome
  refine ⟨c, used, rest, data_eq, read, format, describes, fun _ _ => format.unique, ?_⟩
  rcases outcome with ⟨-, never, bytes, written⟩ | ⟨i, falls, -⟩ | ⟨-, i, first, failed⟩
  · refine ⟨⟨?_, ?_⟩, ?_, fun _ => ⟨bytes, written, ?_, ?_, ?_⟩⟩
    · rintro ⟨error, failed⟩
      cases written.symm.trans failed
    · exact fun ⟨i, overflows⟩ => absurd overflows (never i)
    · exact fun ⟨i, overflows⟩ => absurd overflows (never i)
    · refine decode_encode written ?_
      rw [size, describes.size]
      exact Word.toNat_le_largest _
    · have := length_encode_le format describes written
      rw [data_eq, List.length_append] at this
      omega
    · intro data' rest' read'
      obtain ⟨c', format', describes'⟩ := decodeRest_eq_ok_iff.mp read'
      exact length_encode_le format' describes' written
  · exact absurd falls.1 (in_order i)
  · refine ⟨⟨fun _ => ⟨i, first.1⟩, fun _ => ⟨_, failed⟩⟩, fun _ => ⟨i, first, failed⟩, ?_⟩
    exact fun never => absurd first.1 (never i)

/-- A directory read from a number that is longer than need be, with a byte behind, is written with
fewer bytes. One whose second row goes on behind the largest word is not written. -/
theorem written_anew_outcome_long_form :
    let long : Bytes := [2, 5, 131, 0, 1, 0, 10, 20, 101, 0, 9]
    let d : Directory := ⟨[⟨5, 100, 10, 1⟩, ⟨8, 110, 20, 0⟩]⟩
    let beyond : Bytes := [2, 0, 1, 1, 1, 10, 5, 255, 255, 255, 255, 255, 255, 255, 255, 255, 1, 0]
    let d' : Directory := ⟨[⟨0, 18446744073709551614, 10, 1⟩, ⟨1, 18446744073709551615, 5, 1⟩]⟩
    (decode long = .ok d ∧ ∃ bytes, encode d = .ok bytes ∧ decode bytes = .ok d ∧
      ∀ data' rest', decodeRest data' = .ok (d, rest') →
        bytes.length + rest'.length ≤ data'.length) ∧
    decode beyond = .ok d' ∧ ∃ i, encode d' = .error (.offsetOverflow i) := by
  intro long d beyond d'
  have read : decode long = .ok d := by rfl
  have read' : decode beyond = .ok d' := by rfl
  have writes : (encode d).isOk = true := by decide +kernel
  have fails : (encode d').isOk = false := by decide +kernel
  refine ⟨⟨read, ?_⟩, read', ?_⟩
  · obtain ⟨c, used, rest, -, -, -, -, -, fails_iff, -, written⟩ := written_anew_outcome read
    have never : ∀ i, ¬c.Overflows d.entries i := by
      intro i overflows
      obtain ⟨error, failed⟩ := fails_iff.mpr ⟨i, overflows⟩
      rw [failed] at writes
      cases writes
    obtain ⟨bytes, bytes_eq, read_again, -, shortest⟩ := written never
    exact ⟨bytes, bytes_eq, read_again, shortest⟩
  · obtain ⟨c, used, rest, -, -, -, -, -, fails_iff, reported, -⟩ := written_anew_outcome read'
    have failed : ∃ error, encode d' = .error error := by
      cases outcome : encode d' with
      | error error => exact ⟨error, rfl⟩
      | ok bytes =>
          rw [outcome] at fails
          cases fails
    obtain ⟨i, -, failed_at⟩ := reported (fails_iff.mp failed)
    exact ⟨i, failed_at⟩

end TileArchive.Directory
