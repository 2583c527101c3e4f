import TileArchive.Directory.Codec
import TileArchive.Proofs.Bytes
import TileArchive.Proofs.Varint

/-!
# `TileArchive.Proofs.Directory.Codec`: a directory that was written is read back

A directory is written column by column, so it is read back column by column:
`decodeIds_encodeIds`, `decodeColumn_encodeColumn` and `decodeOffsets_encodeOffsets`, each by
induction on the rows and with any bytes behind. `decode_encode` puts them together, and
`exists_encode` says which directories can be written.

## The columns

Tile numbers are written as distances from row to row. A distance can be taken only if the numbers
do not fall, and then adding it to the number before gives the number back without an overflow.

Run lengths and lengths are written as they are. They were half words, so they fit half words.

An offset has a code: the marker zero where the row goes on from the one before, and otherwise the
offset and one. The writer knows the end of the row before as a natural number, and the reader as
a word that stops at the largest (`knownEnd`). The two differ where a row ends beyond the largest
word. The writer never takes a row for one that goes on from there, since no offset is that large,
so `offsetOfCode_codeOfOffset` holds all the same.

Before any column the reader compares the count of rows with the bytes that are left, four for
each row. Every number takes at least one byte and there are four columns, so a written directory
passes.
-/

set_option autoImplicit false

namespace TileArchive.Directory

variable {total : Nat}

/-- A number that was written is read back, with whatever follows it left over. -/
theorem decodeNumber_encode (value : UInt64) (rest : Bytes) :
    decodeNumber total (Varint.encode value ++ rest) = .ok (value, rest) := by
  rw [decodeNumber, Varint.decode_encode]

/-! ### Tile numbers -/

/-- The column of tile numbers, one row: a number that falls ends the writing with an error,
any other is written as its distance from the one before. -/
theorem encodeIds_cons (index : Nat) (last : UInt64) (e : Entry) (es : List Entry) :
    encodeIds index last (e :: es)
      = if e.tileId < last then .error (.unsorted index)
        else (encodeIds (index + 1) e.tileId es).map (Varint.encode (e.tileId - last) ++ ·) := by
  rw [encodeIds]
  split
  · rfl
  · cases encodeIds (index + 1) e.tileId es <;> rfl

/-- What is written of rows starts with the step to the first one. The rest is what is
written of the other rows, counted from that one. -/
theorem encodeIds_cons_eq_ok {index : Nat} {last : UInt64} {e : Entry} {es : List Entry}
    {bytes : Bytes} (written : encodeIds index last (e :: es) = .ok bytes) :
    last ≤ e.tileId ∧ ∃ tail, encodeIds (index + 1) e.tileId es = .ok tail ∧
      bytes = Varint.encode (e.tileId - last) ++ tail := by
  rw [encodeIds_cons] at written
  split at written
  · cases written
  · -- The guard of the writer is that the numbers do not decrease.
    next in_order =>
    cases tail_eq : encodeIds (index + 1) e.tileId es with
    | error error =>
        rw [tail_eq] at written
        cases written
    | ok tail =>
        rw [tail_eq] at written
        cases written
        exact ⟨UInt64.not_lt.mp in_order, tail, rfl, rfl⟩

/-- The column of tile numbers is read back. The induction is on the rows, and the number
before is the state that both sides carry along. -/
theorem decodeIds_encodeIds {es : List Entry} {index index' : Nat} {last : UInt64} {bytes : Bytes}
    (written : encodeIds index last es = .ok bytes) (rest : Bytes) :
    decodeIds total es.length index' last (bytes ++ rest) = .ok (es.map Entry.tileId, rest) := by
  induction es generalizing index index' last bytes with
  | nil =>
      cases written
      rfl
  | cons e es ih =>
      obtain ⟨last_le, tail, tail_eq, rfl⟩ := encodeIds_cons_eq_ok written
      -- The sum of the step and the number before is the number, so it does not overflow.
      have delta_eq : (e.tileId - last).toNat = e.tileId.toNat - last.toNat :=
        UInt64.toNat_sub_of_le _ _ last_le
      have fits : ¬Word.largest < last.toNat + (e.tileId - last).toNat := by
        have := Word.toNat_le_largest e.tileId
        have := UInt64.le_iff_toNat_le.mp last_le
        omega
      have id_eq : last + (e.tileId - last) = e.tileId := by
        rw [UInt64.add_comm, UInt64.sub_add_cancel]
      rw [List.append_assoc, List.length_cons, decodeIds, decodeNumber_encode]
      simp only [bind, Except.bind, if_neg fits, id_eq, ih tail_eq]
      rfl

/-- Rows whose numbers do not fall can be written. -/
theorem exists_encodeIds {es : List Entry} (index : Nat) {last : UInt64}
    (first : ∀ e ∈ es, last ≤ e.tileId)
    (increasing : es.Pairwise fun e e' => e.tileId < e'.tileId) :
    ∃ bytes, encodeIds index last es = .ok bytes := by
  induction es generalizing index last with
  | nil => exact ⟨[], rfl⟩
  | cons e es ih =>
      obtain ⟨later, increasing'⟩ := List.pairwise_cons.mp increasing
      have in_order : ¬e.tileId < last := UInt64.not_lt.mpr (first e List.mem_cons_self)
      obtain ⟨tail, tail_eq⟩ := ih (index + 1)
        (fun e' member => UInt64.le_of_lt (later e' member)) increasing'
      rw [encodeIds_cons, if_neg in_order, tail_eq]
      exact ⟨_, rfl⟩

/-! ### Columns -/

/-- A column of half words is read back, whichever field of the rows it holds. Two columns
are of this kind, and one lemma is enough for both. -/
theorem decodeColumn_encodeColumn {column : Column} (value : Entry → UInt32) (es : List Entry)
    (index : Nat) (rest : Bytes) :
    decodeColumn total column es.length index (encodeColumn value es ++ rest)
      = .ok (es.map value, rest) := by
  induction es generalizing index with
  | nil => rfl
  | cons e es ih =>
      -- The reader refuses a number above 32 bits, which a half word never is.
      have fits : ¬Word.largest32 < (value e).toUInt64.toNat := by
        rw [UInt32.toNat_toUInt64]
        exact Nat.not_lt.mpr (Word.toNat_le_largest32 (value e))
      have bytes_eq : encodeColumn value (e :: es) ++ rest
          = Varint.encode (value e).toUInt64 ++ (encodeColumn value es ++ rest) := by
        rw [encodeColumn, List.flatMap_cons, List.append_assoc]
        rfl
      rw [bytes_eq, List.length_cons, decodeColumn, decodeNumber_encode]
      simp only [bind, Except.bind, if_neg fits, ih]
      rw [UInt32.toUInt32_toUInt64]
      rfl

/-! ### Offsets -/

/-- What a reader knows of the end of the row before, which may be beyond the largest word. -/
def knownEnd (previous : Option Nat) : Option UInt64 :=
  previous.map fun stop => UInt64.ofNat (min stop Word.largest)

/-- The code of an offset stands for it, wherever the row before ends. An end beyond the
words is known to the reader as the largest word, which the writer does not take for an end. -/
theorem offsetOfCode_codeOfOffset {previous : Option Nat} {offset code : UInt64}
    (coded : codeOfOffset previous offset = some code) :
    offsetOfCode (knownEnd previous) code = some offset := by
  unfold codeOfOffset at coded
  split at coded
  · -- The row starts where the one before ends, so the marker stands for its offset.
    next continued =>
    cases coded
    rw [offsetOfCode, if_pos rfl, continued, knownEnd, Option.map_some,
      Nat.min_eq_left (Word.toNat_le_largest offset), UInt64.ofNat_toNat]
  · split at coded
    · -- Any other offset is shifted by one, which leaves the marker free.
      next room =>
      cases coded
      have code_eq : (offset + 1).toNat = offset.toNat + 1 := by
        rw [UInt64.toNat_add]
        exact Nat.mod_eq_of_lt (Nat.succ_lt_succ room)
      have marked : offset + 1 ≠ 0 := by
        intro zero
        rw [zero] at code_eq
        exact absurd code_eq (Nat.succ_ne_zero _).symm
      rw [offsetOfCode, if_neg marked, UInt64.add_sub_cancel]
    · cases coded

/-- The column of offsets, one row: an offset without a code ends the writing with an error,
and the end of the row is what the next offset is compared with. -/
theorem encodeOffsets_cons (index : Nat) (previous : Option Nat) (e : Entry) (es : List Entry) :
    encodeOffsets index previous (e :: es)
      = match codeOfOffset previous e.offset with
        | none => .error (.offsetOverflow index)
        | some code =>
          (encodeOffsets (index + 1) (some e.stop) es).map (Varint.encode code ++ ·) := by
  rw [encodeOffsets]
  cases codeOfOffset previous e.offset with
  | none => rfl
  | some code => cases encodeOffsets (index + 1) (some e.stop) es <;> rfl

/-- What is written of rows starts with the code of the first offset. -/
theorem encodeOffsets_cons_eq_ok {index : Nat} {previous : Option Nat} {e : Entry}
    {es : List Entry} {bytes : Bytes}
    (written : encodeOffsets index previous (e :: es) = .ok bytes) :
    ∃ code tail, codeOfOffset previous e.offset = some code ∧
      encodeOffsets (index + 1) (some e.stop) es = .ok tail ∧
      bytes = Varint.encode code ++ tail := by
  rw [encodeOffsets_cons] at written
  split at written
  · cases written
  · next code coded =>
    cases tail_eq : encodeOffsets (index + 1) (some e.stop) es with
    | error error =>
        rw [tail_eq] at written
        cases written
    | ok tail =>
        rw [tail_eq] at written
        cases written
        exact ⟨code, tail, coded, rfl, rfl⟩

/-- The reader's end of a row is the writer's, stopped at the largest word. -/
theorem knownEnd_stop (e : Entry) :
    some (Word.addSat e.offset e.length.toUInt64) = knownEnd (some e.stop) := by
  rw [knownEnd, Option.map_some, Word.addSat, UInt32.toNat_toUInt64]
  rfl

/-- The column of offsets is read back, given the lengths that were read before it. -/
theorem decodeOffsets_encodeOffsets {es : List Entry} {index : Nat} {previous : Option Nat}
    {bytes : Bytes} (written : encodeOffsets index previous es = .ok bytes) (rest : Bytes) :
    decodeOffsets total (es.map Entry.length) (knownEnd previous) (bytes ++ rest)
      = .ok (es.map Entry.offset, rest) := by
  induction es generalizing index previous bytes with
  | nil =>
      cases written
      rfl
  | cons e es ih =>
      obtain ⟨code, tail, coded, tail_eq, rfl⟩ := encodeOffsets_cons_eq_ok written
      rw [List.append_assoc, List.map_cons, decodeOffsets, decodeNumber_encode]
      simp only [bind, Except.bind, offsetOfCode_codeOfOffset coded, knownEnd_stop, ih tail_eq]
      rfl

/-- Rows whose offsets leave room for the marker can be written. Other rows may be written
as well, if they continue the row before. -/
theorem exists_encodeOffsets {es : List Entry} (index : Nat) (previous : Option Nat)
    (room : ∀ e ∈ es, e.offset.toNat < Word.largest) :
    ∃ bytes, encodeOffsets index previous es = .ok bytes := by
  induction es generalizing index previous with
  | nil => exact ⟨[], rfl⟩
  | cons e es ih =>
      obtain ⟨tail, tail_eq⟩ := ih (index + 1) (some e.stop)
        fun e' member => room e' (List.mem_cons_of_mem _ member)
      -- An offset has no code only if it is the largest word and does not follow on the row
      -- before.
      have coded : ∃ code, codeOfOffset previous e.offset = some code := by
        unfold codeOfOffset
        rw [if_pos (room e List.mem_cons_self)]
        split <;> exact ⟨_, rfl⟩
      obtain ⟨code, code_eq⟩ := coded
      rw [encodeOffsets_cons, code_eq, tail_eq]
      exact ⟨_, rfl⟩

/-! ### Whole directories -/

/-- Rows are put together again from their four columns. -/
theorem ofColumns_columns (es : List Entry) :
    ofColumns (es.map Entry.tileId) (es.map Entry.runLength) (es.map Entry.length)
      (es.map Entry.offset) = es := by
  induction es with
  | nil => rfl
  | cons e es ih =>
      simp only [List.map_cons, ofColumns, ih]

/-- Every row takes at least one byte in a column. -/
theorem length_le_encodeColumn (value : Entry → UInt32) (es : List Entry) :
    es.length ≤ (encodeColumn value es).length := by
  induction es with
  | nil => exact Nat.le_refl 0
  | cons e es ih =>
      have := Varint.length_encode_pos (value e).toUInt64
      show es.length + 1 ≤ (Varint.encode (value e).toUInt64 ++ encodeColumn value es).length
      rw [List.length_append]
      omega

/-- The column of tile numbers has at least one byte for each row. -/
theorem length_le_encodeIds {es : List Entry} {index : Nat} {last : UInt64} {bytes : Bytes}
    (written : encodeIds index last es = .ok bytes) : es.length ≤ bytes.length := by
  induction es generalizing index last bytes with
  | nil => exact Nat.zero_le _
  | cons e es ih =>
      obtain ⟨-, tail, tail_eq, rfl⟩ := encodeIds_cons_eq_ok written
      have := Varint.length_encode_pos (e.tileId - last)
      have := ih tail_eq
      rw [List.length_append, List.length_cons]
      omega

/-- The column of offsets has at least one byte for each row. -/
theorem length_le_encodeOffsets {es : List Entry} {index : Nat} {previous : Option Nat}
    {bytes : Bytes} (written : encodeOffsets index previous es = .ok bytes) :
    es.length ≤ bytes.length := by
  induction es generalizing index previous bytes with
  | nil => exact Nat.zero_le _
  | cons e es ih =>
      obtain ⟨code, tail, -, tail_eq, rfl⟩ := encodeOffsets_cons_eq_ok written
      have := Varint.length_encode_pos code
      have := ih tail_eq
      rw [List.length_append, List.length_cons]
      omega

/-- A written directory is its columns one after another. The number of rows comes first,
and only two of the four columns can fail. -/
theorem encode_eq_ok_iff {d : Directory} {bytes : Bytes} :
    encode d = .ok bytes ↔ ∃ ids offsets, encodeIds 0 0 d.entries = .ok ids ∧
      encodeOffsets 0 none d.entries = .ok offsets ∧
      bytes = Varint.encode (UInt64.ofNat d.size) ++ ids ++ encodeColumn Entry.runLength d.entries
        ++ encodeColumn Entry.length d.entries ++ offsets := by
  rw [encode]
  -- Only the numbers and the offsets can fail to be written, in this order.
  cases encodeIds 0 0 d.entries with
  | error error => exact ⟨nofun, nofun⟩
  | ok ids =>
      cases encodeOffsets 0 none d.entries with
      | error error => exact ⟨nofun, nofun⟩
      | ok offsets =>
          constructor
          · rintro ⟨rfl⟩
            exact ⟨ids, offsets, rfl, rfl, rfl⟩
          · rintro ⟨_, _, ⟨rfl⟩, ⟨rfl⟩, rfl⟩
            rfl

/-- A written directory is read back, and what follows it is left. The rows have to be
countable by a word, since their number is written as one. -/
theorem decodeRest_encode {d : Directory} {bytes : Bytes} (written : encode d = .ok bytes)
    (countable : d.size ≤ Word.largest) (rest : Bytes) :
    decodeRest (bytes ++ rest) = .ok (d, rest) := by
  obtain ⟨ids, offsets, ids_eq, offsets_eq, rfl⟩ := encode_eq_ok_iff.mp written
  have count_eq : (UInt64.ofNat d.size).toNat = d.entries.length := Word.toNat_ofNat countable
  simp only [List.append_assoc]
  -- Every row takes at least four bytes, one in each column, so the count is believed.
  have enough : ¬(ids ++ (encodeColumn Entry.runLength d.entries
      ++ (encodeColumn Entry.length d.entries ++ (offsets ++ rest)))).length
        < d.entries.length * 4 := by
    have := length_le_encodeIds ids_eq
    have := length_le_encodeColumn Entry.runLength d.entries
    have := length_le_encodeColumn Entry.length d.entries
    have := length_le_encodeOffsets offsets_eq
    simp only [List.length_append]
    omega
  have read_offsets : ∀ total, decodeOffsets total (d.entries.map Entry.length) none
      (offsets ++ rest) = .ok (d.entries.map Entry.offset, rest) := by
    intro total
    exact decodeOffsets_encodeOffsets offsets_eq rest
  rw [decodeRest, decodeNumber_encode]
  simp only [bind, Except.bind, count_eq, if_neg enough, decodeIds_encodeIds ids_eq,
    decodeColumn_encodeColumn, read_offsets, ofColumns_columns]
  rfl

/-- A written directory is read back. -/
theorem decode_encode {d : Directory} {bytes : Bytes} (written : encode d = .ok bytes)
    (countable : d.size ≤ Word.largest) : decode bytes = .ok d := by
  have read := decodeRest_encode written countable []
  rw [List.append_nil] at read
  rw [decode, read]
  rfl

/-- Rows in order whose offsets leave room for the marker can be written. -/
theorem exists_encode {d : Directory}
    (increasing : d.entries.Pairwise fun e e' => e.tileId < e'.tileId)
    (room : ∀ e ∈ d.entries, e.offset.toNat < Word.largest) : ∃ bytes, encode d = .ok bytes := by
  obtain ⟨ids, ids_eq⟩ := exists_encodeIds 0 (fun e _ => UInt64.zero_le) increasing
  obtain ⟨offsets, offsets_eq⟩ := exists_encodeOffsets 0 none room
  exact ⟨_, encode_eq_ok_iff.mpr ⟨ids, offsets, ids_eq, offsets_eq, rfl⟩⟩

/-- A written directory has at least the byte of its number of rows. -/
theorem encode_ne_nil {d : Directory} {bytes : Bytes} (written : encode d = .ok bytes) :
    bytes ≠ [] := by
  obtain ⟨ids, offsets, -, -, rfl⟩ := encode_eq_ok_iff.mp written
  have := Varint.length_encode_pos (UInt64.ofNat d.size)
  intro empty
  have length_eq := congrArg List.length empty
  simp only [List.length_append, List.length_nil] at length_eq
  omega

end TileArchive.Directory
