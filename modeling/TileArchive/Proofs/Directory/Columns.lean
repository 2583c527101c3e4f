import TileArchive.Proofs.Directory.Writable
import TileArchive.Proofs.Varint.Reads

/-!
# `TileArchive.Proofs.Directory.Columns`: columns of a written directory

The three kinds of columns of a directory are read in the same way: one number for each row,
with a state that goes from row to row. `decodeRows` is the way they have in common, and
`idRow`, `fieldRow` and `offsetRow` are what they do with a number. `values` does the same with
numbers that have already been read.

* `decodeRows_eq_ok_iff`: a column is read just if its numbers can be read one after another,
  and its values are those of the numbers.
* `decodeRows_cut`: where one of the numbers is cut, the column is not read, and the error says
  so.
* `values_idRow_iff`, `values_fieldRow_iff` and `values_offsetRow_iff` say which rows the numbers
  of a column stand for, and `exists_values_idRow_iff` and its like when they stand for any.

## Numbers first, rows second

Reading mixes two things: finding the numbers in the bytes, and making rows of them. The lemmas on
`decodeRows` separate them, so that the statements about rows are about lists of numbers and no
byte occurs in them. The model's own loops are instances of `decodeRows`, as `decodeIds_eq`,
`decodeColumn_eq` and `decodeOffsets_eq` say.

The conditions on the numbers are those of `Directory.Format`: all sums of distances fit a word,
run lengths and lengths fit half a word, and the first code is not the marker. For the offsets this
is all that is needed, because from the second row on there is a row before to go on from.
-/

set_option autoImplicit false

namespace TileArchive

/-- A step that follows another has a result just if the first one has and the second one
has one for it. -/
theorem bind_eq_ok_iff {ε α β : Type} {x : Except ε α} {f : α → Except ε β} {result : β} :
    (x >>= f) = .ok result ↔ ∃ a, x = .ok a ∧ f a = .ok result := by
  cases x with
  | error e =>
      constructor
      · intro impossible
        cases impossible
      · rintro ⟨_, impossible, -⟩
        cases impossible
  | ok a => simp [bind, Except.bind]

namespace Directory

variable {σ α : Type}

/-- Reads a column of values, one number for each of them. -/
def decodeRows (total : Nat) (row : σ → UInt64 → Except DirectoryError (α × σ)) :
    (count : Nat) → σ → Bytes → Except DirectoryError (List α × Bytes)
  | 0, _, rest => .ok ([], rest)
  | count + 1, state, rest => do
    let (number, rest) ← decodeNumber total rest
    let (value, state) ← row state number
    let (values, rest) ← decodeRows total row count state rest
    return (value :: values, rest)

/-- The values of a column with the given numbers. -/
def values (row : σ → UInt64 → Except DirectoryError (α × σ)) :
    σ → List UInt64 → Except DirectoryError (List α)
  | _, [] => .ok []
  | state, number :: numbers => do
    let (value, state) ← row state number
    let rest ← values row state numbers
    return value :: rest

/-! ### Reading a column -/

section

variable {total : Nat} {row : σ → UInt64 → Except DirectoryError (α × σ)}

/-- Reading a number of a directory is reading a number; only the errors are told with their
place. -/
theorem decodeNumber_eq_ok_iff {bytes rest : Bytes} {number : UInt64} :
    decodeNumber total bytes = .ok (number, rest) ↔
      Varint.decode bytes = .ok (number, rest) := by
  unfold decodeNumber
  cases Varint.decode bytes <;> simp

/-- Where the bytes end inside of a number, the error names the place where this number
starts. -/
theorem decodeNumber_truncated {bytes : Bytes} (ended : Varint.decode bytes = .error .truncated) :
    decodeNumber total bytes = .error (.varint .truncated (total - bytes.length)) := by
  simp [decodeNumber, ended]

/-- The values of some numbers start with the one of the first number, and the state that
this one leaves goes to the others. -/
theorem values_cons_eq_ok_iff {state : σ} {number : UInt64} {numbers : List UInt64}
    {xs : List α} :
    values row state (number :: numbers) = .ok xs ↔
      ∃ x state' xs', row state number = .ok (x, state') ∧
        values row state' numbers = .ok xs' ∧ xs = x :: xs' := by
  simp only [values, bind_eq_ok_iff, Prod.exists]
  constructor
  · rintro ⟨x, state', row_eq, xs', values_eq, ⟨⟩⟩
    exact ⟨x, state', xs', row_eq, values_eq, rfl⟩
  · rintro ⟨x, state', xs', row_eq, values_eq, rfl⟩
    exact ⟨x, state', row_eq, xs', values_eq, rfl⟩

/-- There is one value for each number. -/
theorem length_values {state : σ} {numbers : List UInt64} {xs : List α}
    (values_eq : values row state numbers = .ok xs) : xs.length = numbers.length := by
  induction numbers generalizing state xs with
  | nil =>
      cases values_eq
      rfl
  | cons number numbers ih =>
      obtain ⟨x, state', xs', -, later_eq, rfl⟩ := values_cons_eq_ok_iff.mp values_eq
      simp [ih later_eq]

/-- A column is read just if its numbers are, and its values are those of the numbers. The
right side says nothing of how numbers and rows take turns. -/
theorem decodeRows_eq_ok_iff {count : Nat} {state : σ} {bytes rest : Bytes} {xs : List α} :
    decodeRows total row count state bytes = .ok (xs, rest) ↔
      ∃ numbers, numbers.length = count ∧ Varint.Reads numbers bytes rest ∧
        values row state numbers = .ok xs := by
  induction count generalizing state bytes rest xs with
  | zero =>
      constructor
      · rintro ⟨⟩
        exact ⟨[], rfl, .nil _, rfl⟩
      · rintro ⟨numbers, none, reads, values_eq⟩
        cases List.length_eq_zero_iff.mp none
        cases reads
        cases values_eq
        rfl
  | succ count ih =>
      -- One row on the left side is one number and the state that its value leaves.
      simp only [decodeRows, bind_eq_ok_iff, Prod.exists, decodeNumber_eq_ok_iff, ih]
      constructor
      · rintro ⟨number, middle, read, x, state', row_eq, xs', rest',
          ⟨numbers, length_eq, reads, values_eq⟩, ⟨⟩⟩
        refine ⟨number :: numbers, by simp [length_eq], .cons read reads, ?_⟩
        exact values_cons_eq_ok_iff.mpr ⟨x, state', xs', row_eq, values_eq, rfl⟩
      · rintro ⟨numbers, length_eq, reads, values_eq⟩
        cases reads with
        | nil => cases length_eq
        | cons read reads =>
            obtain ⟨x, state', xs', row_eq, later_eq, rfl⟩ := values_cons_eq_ok_iff.mp values_eq
            exact ⟨_, _, read, x, state', row_eq, xs', rest,
              ⟨_, Nat.succ.inj length_eq, reads, later_eq⟩, rfl⟩

/-- Where one of its numbers is cut, a column is not read. The numbers before it are read as
they were, so no other error comes first. -/
theorem decodeRows_cut (total : Nat) {state : σ} {numbers : List UInt64} {bytes : Bytes}
    {xs : List α} (cut : Varint.Cut numbers bytes) (values_eq : values row state numbers = .ok xs) :
    ∃ offset, decodeRows total row numbers.length state bytes
      = .error (.varint .truncated offset) := by
  induction cut generalizing state xs with
  -- The cut may be in the number of this row, or in a later one after this row was read.
  | here ended =>
      rw [List.length_cons, decodeRows, decodeNumber_truncated ended]
      exact ⟨_, rfl⟩
  | later read _ ih =>
      obtain ⟨x, state', xs', row_eq, later_eq, rfl⟩ := values_cons_eq_ok_iff.mp values_eq
      obtain ⟨offset, failed⟩ := ih later_eq
      refine ⟨offset, ?_⟩
      rw [List.length_cons, decodeRows, decodeNumber_eq_ok_iff.mpr read]
      simp only [bind, Except.bind, row_eq, failed]

/-- Where a column or something behind it is cut, the column is not read, or the cut is behind
it. -/
theorem decodeRows_cut_or_read (total : Nat) {state : σ} {numbers later : List UInt64}
    {bytes : Bytes} {xs : List α} {count : Nat} (length_eq : numbers.length = count)
    (values_eq : values row state numbers = .ok xs) (cut : Varint.Cut (numbers ++ later) bytes) :
    (∃ offset, decodeRows total row count state bytes = .error (.varint .truncated offset)) ∨
      ∃ rest, decodeRows total row count state bytes = .ok (xs, rest) ∧ Varint.Cut later rest := by
  rcases cut.of_append with cut | ⟨rest, reads, cut⟩
  · exact .inl (length_eq ▸ decodeRows_cut total cut values_eq)
  · exact .inr ⟨rest, decodeRows_eq_ok_iff.mpr ⟨numbers, length_eq, reads, values_eq⟩, cut⟩

end

/-! ### The columns -/

/-- The tile number of a row from its distance, with the row's index and the number before. -/
def idRow : Nat × UInt64 → UInt64 → Except DirectoryError (UInt64 × (Nat × UInt64))
  | (index, last), delta =>
    if Word.largest < last.toNat + delta.toNat then .error (.tileIdOverflow index)
    else .ok (last + delta, index + 1, last + delta)

/-- The value of a row in a 32-bit column, with the row's index. -/
def fieldRow (column : Column) (index : Nat) (value : UInt64) :
    Except DirectoryError (UInt32 × Nat) :=
  if Word.largest32 < value.toNat then .error (.fieldOverflow column index value)
  else .ok (value.toUInt32, index + 1)

/-- The offset of a row from its code, with the lengths from that row on and the end of the row
before. -/
def offsetRow : List UInt32 × Option UInt64 → UInt64 →
    Except DirectoryError (UInt64 × (List UInt32 × Option UInt64))
  | (lengths, previous), code =>
    match offsetOfCode previous code with
    | none => .error .noPredecessor
    | some offset =>
      .ok (offset, lengths.tail, some (Word.addSat offset (lengths.headD 0).toUInt64))

/-- Reading tile numbers is reading rows, with the row and the number before as state. -/
theorem decodeIds_eq (total count index : Nat) (last : UInt64) (bytes : Bytes) :
    decodeIds total count index last bytes = decodeRows total idRow count (index, last) bytes := by
  induction count generalizing index last bytes with
  | zero => rfl
  | succ count ih =>
      rw [decodeIds, decodeRows]
      -- Both loops stop at a number that cannot be read, and go on alike behind one that can.
      cases decodeNumber total bytes with
      | error e => rfl
      | ok found =>
          obtain ⟨delta, rest⟩ := found
          simp only [bind, Except.bind, idRow, ih]
          split <;> rfl

/-- Reading a column of half words is reading rows, with the row as state. -/
theorem decodeColumn_eq (total : Nat) (column : Column) (count index : Nat) (bytes : Bytes) :
    decodeColumn total column count index bytes
      = decodeRows total (fieldRow column) count index bytes := by
  induction count generalizing index bytes with
  | zero => rfl
  | succ count ih =>
      rw [decodeColumn, decodeRows]
      cases decodeNumber total bytes with
      | error e => rfl
      | ok found =>
          obtain ⟨value, rest⟩ := found
          simp only [bind, Except.bind, fieldRow, ih]
          split <;> rfl

/-- Reading offsets is reading rows, with the lengths still to come and the end of the row
before as state. -/
theorem decodeOffsets_eq (total : Nat) (lengths : List UInt32) (previous : Option UInt64)
    (bytes : Bytes) :
    decodeOffsets total lengths previous bytes
      = decodeRows total offsetRow lengths.length (lengths, previous) bytes := by
  induction lengths generalizing previous bytes with
  | nil => rfl
  | cons length lengths ih =>
      rw [decodeOffsets, List.length_cons, decodeRows]
      cases decodeNumber total bytes with
      | error e => rfl
      | ok found =>
          obtain ⟨code, rest⟩ := found
          simp only [bind, Except.bind, offsetRow, ih]
          cases offsetOfCode previous code <;> rfl

/-! ### Tile numbers -/

/-- A tile number is the sum of the number before and the distance, which fits a word. The
index in the state is for the error alone. -/
theorem idRow_eq_ok_iff {index : Nat} {last delta id : UInt64} {state : Nat × UInt64} :
    idRow (index, last) delta = .ok (id, state) ↔
      id.toNat = last.toNat + delta.toNat ∧ state = (index + 1, id) := by
  rw [idRow]
  by_cases beyond : Word.largest < last.toNat + delta.toNat
  · -- A sum beyond the largest word is no word, so no tile number is equal to it.
    have := Word.toNat_le_largest id
    simp only [if_pos beyond]
    constructor
    · intro impossible
      cases impossible
    · intro ⟨id_eq, _⟩
      omega
  · have sum_eq := Word.toNat_add (Nat.not_lt.mp beyond)
    rw [if_neg beyond, ← sum_eq, UInt64.toNat_inj]
    constructor
    · intro found
      cases found
      exact ⟨rfl, rfl⟩
    · rintro ⟨rfl, rfl⟩
      rfl

/-- The tile numbers are the sums of the distances up to their rows. The induction is on the
distances, with any number to begin from. -/
theorem values_idRow_iff {index : Nat} {last : UInt64} {deltas ids : List UInt64} :
    values idRow (index, last) deltas = .ok ids ↔ ids.length = deltas.length ∧
      ∀ i id, ids[i]? = some id → id.toNat = last.toNat + Word.total (deltas.take (i + 1)) := by
  induction deltas generalizing index last ids with
  | nil =>
      simp only [values, Except.ok.injEq, List.length_nil, List.length_eq_zero_iff]
      constructor
      · rintro rfl
        simp
      · rintro ⟨rfl, -⟩
        rfl
  | cons delta deltas ih =>
      simp only [values_cons_eq_ok_iff, Prod.exists, idRow_eq_ok_iff, Prod.mk.injEq]
      constructor
      · rintro ⟨id, _, _, ids, ⟨id_eq, rfl, rfl⟩, later_eq, rfl⟩
        obtain ⟨length_eq, sums⟩ := ih.mp later_eq
        refine ⟨by simp [length_eq], ?_⟩
        intro i id' found
        -- The sum up to a row is the number of the first row and the distances behind it.
        cases i with
        | zero =>
            cases found
            simpa using id_eq
        | succ i =>
            rw [sums i id' found, id_eq, List.take_succ_cons, Word.total_cons, Nat.add_assoc]
      · rintro ⟨length_eq, sums⟩
        cases ids with
        | nil => cases length_eq
        | cons id ids =>
            have id_eq : id.toNat = last.toNat + delta.toNat := by simpa using sums 0 id rfl
            refine ⟨id, _, _, ids, ⟨id_eq, rfl, rfl⟩, ih.mpr ⟨Nat.succ.inj length_eq, ?_⟩, rfl⟩
            intro i id' found
            rw [sums (i + 1) id' found, id_eq, List.take_succ_cons, Word.total_cons,
              Nat.add_assoc]

/-- There are tile numbers just if all sums of the distances fit a word. As the sums do not
fall, this is a matter of the last one. -/
theorem exists_values_idRow_iff (index : Nat) {last : UInt64} {deltas : List UInt64} :
    (∃ ids, values idRow (index, last) deltas = .ok ids) ↔
      ∀ i, last.toNat + Word.total (deltas.take i) ≤ Word.largest := by
  constructor
  · rintro ⟨ids, values_eq⟩ i
    induction deltas generalizing index last ids i with
    | nil => simp [Word.toNat_le_largest]
    | cons delta deltas ih =>
        obtain ⟨id, _, ids, row_eq, later_eq, rfl⟩ := values_cons_eq_ok_iff.mp values_eq
        obtain ⟨id_eq, rfl⟩ := idRow_eq_ok_iff.mp row_eq
        cases i with
        | zero => simp [Word.toNat_le_largest]
        | succ i =>
            -- The sum after this distance is the number that the later rows start from.
            have := ih _ ids later_eq i
            rw [List.take_succ_cons, Word.total_cons]
            omega
  · intro fits
    induction deltas generalizing index last with
    | nil => exact ⟨[], rfl⟩
    | cons delta deltas ih =>
        have fits' : last.toNat + delta.toNat ≤ Word.largest := by simpa using fits 1
        have id_eq := Word.toNat_add fits'
        have later : ∃ ids, values idRow (index + 1, last + delta) deltas = .ok ids := by
          refine ih _ fun i => ?_
          have := fits (i + 1)
          rw [List.take_succ_cons, Word.total_cons] at this
          omega
        obtain ⟨ids, later_eq⟩ := later
        exact ⟨_, values_cons_eq_ok_iff.mpr
          ⟨last + delta, _, ids, idRow_eq_ok_iff.mpr ⟨id_eq, rfl⟩, later_eq, rfl⟩⟩

/-! ### Run lengths and lengths -/

/-- The value of a row is its number, which fits 32 bits. Two columns are read in this way,
and they differ only in the error. -/
theorem fieldRow_eq_ok_iff {column : Column} {index state : Nat} {number : UInt64} {x : UInt32} :
    fieldRow column index number = .ok (x, state) ↔
      number = x.toUInt64 ∧ state = index + 1 := by
  rw [fieldRow]
  by_cases beyond : Word.largest32 < number.toNat
  · rw [if_pos beyond]
    constructor
    · intro impossible
      cases impossible
    · rintro ⟨rfl, -⟩
      have := Word.toNat_le_largest32 x
      rw [UInt32.toNat_toUInt64] at beyond
      omega
  · rw [if_neg beyond]
    constructor
    · intro found
      cases found
      refine ⟨?_, rfl⟩
      rw [← UInt64.toNat_inj, UInt32.toNat_toUInt64, Word.toNat_toUInt32 (Nat.not_lt.mp beyond)]
    · rintro ⟨rfl, rfl⟩
      rw [UInt32.toUInt32_toUInt64]

/-- The values of a 32-bit column are its numbers. Nothing is cut, as a number that needs
more bits is an error. -/
theorem values_fieldRow_iff {column : Column} {index : Nat} {numbers : List UInt64}
    {xs : List UInt32} :
    values (fieldRow column) index numbers = .ok xs ↔ numbers = xs.map UInt32.toUInt64 := by
  induction numbers generalizing index xs with
  | nil => simp [values, eq_comm]
  | cons number numbers ih =>
      simp only [values_cons_eq_ok_iff, fieldRow_eq_ok_iff, ih]
      constructor
      · rintro ⟨x, _, xs, ⟨rfl, -⟩, rfl, rfl⟩
        rfl
      · intro numbers_eq
        cases xs with
        | nil => cases numbers_eq
        | cons x xs =>
            obtain ⟨rfl, rfl⟩ := List.cons.inj numbers_eq
            exact ⟨x, _, xs, ⟨rfl, rfl⟩, rfl, rfl⟩

/-- There are values in a 32-bit column just if all its numbers fit. Rows do not depend on
each other here. -/
theorem exists_values_fieldRow_iff (column : Column) (index : Nat) {numbers : List UInt64} :
    (∃ xs, values (fieldRow column) index numbers = .ok xs) ↔
      ∀ number ∈ numbers, number.toNat ≤ Word.largest32 := by
  simp only [values_fieldRow_iff]
  constructor
  · rintro ⟨xs, rfl⟩ number member
    obtain ⟨x, -, rfl⟩ := List.mem_map.mp member
    rw [UInt32.toNat_toUInt64]
    exact Word.toNat_le_largest32 x
  · intro fit
    refine ⟨numbers.map UInt64.toUInt32, ?_⟩
    -- A number that fits half a word is the one that its half is widened to again.
    have same : ∀ number ∈ numbers, number.toUInt32.toUInt64 = number := by
      intro number member
      rw [← UInt64.toNat_inj, UInt32.toNat_toUInt64, Word.toNat_toUInt32 (fit number member)]
    rw [List.map_map]
    exact ((List.map_congr_left same).trans (List.map_id numbers)).symm

/-! ### Offsets -/

/-- A code stands for an offset: the code zero for the end of the row before, as far as it fits
a word, and any other for the number below it. -/
def Codes (before : Option Entry) (code offset : UInt64) : Prop :=
  (code = 0 → ∃ p, before = some p ∧ offset.toNat = min Word.largest p.stop) ∧
    (code ≠ 0 → offset.toNat = code.toNat - 1)

/-- What a code is read as is the offset that it stands for. -/
theorem offsetOfCode_eq_some_iff {before : Option Entry} {code offset : UInt64} :
    offsetOfCode (knownEnd (before.map Entry.stop)) code = some offset ↔
      Codes before code offset := by
  unfold offsetOfCode Codes
  by_cases marker : code = 0
  · have end_iff (p : Entry) : UInt64.ofNat (min p.stop Word.largest) = offset ↔
        offset.toNat = min Word.largest p.stop := by
      rw [← UInt64.toNat_inj, Word.toNat_ofNat (Nat.min_le_right _ _), Nat.min_comm, eq_comm]
    cases before <;> simp [marker, knownEnd, end_iff]
  · have code_pos : (1 : UInt64) ≤ code := by
      rw [UInt64.le_iff_toNat_le]
      exact Nat.pos_of_ne_zero fun zero => marker (UInt64.toNat_inj.mp zero)
    have less_eq : (code - 1).toNat = code.toNat - 1 := UInt64.toNat_sub_of_le _ _ code_pos
    simp [marker, ← UInt64.toNat_inj, less_eq, eq_comm]

/-- The offset of a row is what its code is read as. The state has the end of this row,
which the next code may stand for. -/
theorem offsetRow_eq_ok_iff {lengths : List UInt32} {previous : Option UInt64}
    {code offset : UInt64} {state : List UInt32 × Option UInt64} :
    offsetRow (lengths, previous) code = .ok (offset, state) ↔
      offsetOfCode previous code = some offset ∧
        state = (lengths.tail, some (Word.addSat offset (lengths.headD 0).toUInt64)) := by
  rw [offsetRow]
  cases offsetOfCode previous code with
  | none => simp
  | some offset' =>
      simp only [Except.ok.injEq, Prod.mk.injEq, Option.some.injEq]
      constructor
      · rintro ⟨rfl, rfl⟩
        exact ⟨rfl, rfl⟩
      · rintro ⟨rfl, rfl⟩
        exact ⟨rfl, rfl⟩

/-- The offsets of rows with known lengths are those that their codes stand for. A code
refers to the row before at most, so this can be said of each row on its own. -/
theorem values_offsetRow_iff {before : Option Entry} {es : List Entry} {codes : List UInt64}
    (length_eq : es.length = codes.length) :
    values offsetRow (es.map Entry.length, knownEnd (before.map Entry.stop)) codes
        = .ok (es.map Entry.offset) ↔
      ∀ i e code, es[i]? = some e → codes[i]? = some code →
        Codes (rowBefore before es i) code e.offset := by
  induction es generalizing before codes with
  | nil =>
      cases List.length_eq_zero_iff.mp length_eq.symm
      simp [values]
  | cons e es ih =>
      cases codes with
      | nil => cases length_eq
      | cons code codes =>
          have later := @ih (some e) codes (Nat.succ.inj length_eq)
          rw [Option.map_some, ← knownEnd_stop] at later
          -- The first row is apart; for the others it is the row to go on from.
          rw [← Nat.and_forall_add_one]
          simp only [rowBefore_cons_succ, List.getElem?_cons_succ, ← later]
          simp only [values_cons_eq_ok_iff, offsetRow_eq_ok_iff, List.map_cons]
          constructor
          · intro ⟨offset, state, offsets, ⟨read, state_eq⟩, later_eq, columns_eq⟩
            obtain ⟨rfl, rfl⟩ := List.cons.inj columns_eq
            refine ⟨?_, state_eq ▸ later_eq⟩
            intro _ _ here code_here
            cases here
            cases code_here
            exact offsetOfCode_eq_some_iff.mp read
          · intro ⟨here, later_eq⟩
            have read := offsetOfCode_eq_some_iff.mpr (here e code rfl rfl)
            exact ⟨e.offset, _, _, ⟨read, rfl⟩, later_eq, rfl⟩

/-- There are offsets just if the first code does not stand for the end of a missing row.
Every other code stands for some offset. -/
theorem exists_values_offsetRow_iff (lengths : List UInt32) {previous : Option UInt64}
    {codes : List UInt64} :
    (∃ offsets, values offsetRow (lengths, previous) codes = .ok offsets) ↔
      (previous = none → codes.head? ≠ some 0) := by
  induction codes generalizing lengths previous with
  | nil => simp [values]
  | cons code codes ih =>
      constructor
      · intro ⟨offsets, values_eq⟩ none_before first
        obtain ⟨_, _, _, row_eq, -⟩ := values_cons_eq_ok_iff.mp values_eq
        have read := (offsetRow_eq_ok_iff.mp row_eq).1
        cases first
        cases none_before
        cases read
      · intro marked
        -- A row that has been read always has an end, so only the first code can be at fault.
        obtain ⟨offset, read⟩ : ∃ offset, offsetOfCode previous code = some offset := by
          unfold offsetOfCode
          split
          · next marker =>
            cases previous with
            | none => exact absurd (congrArg some marker) (marked rfl)
            | some stop => exact ⟨stop, rfl⟩
          · exact ⟨_, rfl⟩
        let state := (lengths.tail, some (Word.addSat offset (lengths.headD 0).toUInt64))
        have later : ∃ offsets, values offsetRow state codes = .ok offsets := (ih _).mpr nofun
        obtain ⟨offsets, later_eq⟩ := later
        exact ⟨_, values_cons_eq_ok_iff.mpr
          ⟨offset, state, offsets, offsetRow_eq_ok_iff.mpr ⟨read, rfl⟩, later_eq, rfl⟩⟩

end Directory

end TileArchive
