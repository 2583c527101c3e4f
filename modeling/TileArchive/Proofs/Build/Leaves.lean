import Mathlib.Data.List.Forall2
import TileArchive.Proofs.Build.Layout
import TileArchive.Proofs.Directory.Codec
import TileArchive.Proofs.Gzip

/-!
# `TileArchive.Proofs.Build.Leaves`: directories as a builder stores them

A stored directory is loaded again, with the rows it was made of (`loadDirectory_stored`). Rows
are cut into pieces that together are all of them, and `storeLeaves` stores each piece as a
leaf directory: `PointsTo` says what a pointer has to do with its piece, and
`storeLeaves_pointers` that pointers and pieces correspond one by one.

`RunsInOrder` is what the rows of a draft satisfy and what makes every step succeed: each can be
written, and there are no more of them than a directory counts.

Storing a directory writes it and may pack it. `Unpacks` asks that unpacking gives the written bytes
back, and only where the internal compression is the one that packs; without compression nothing is
asked of the packing function. Loading reads the bytes, unpacks them and reads the rows, so the
three steps are undone one by one.

`storeLeaves` counts the bytes that it has stored so far. Its induction is on the pieces, with the
leaves stored before as a prefix, so that an offset is the length of this prefix and the leaf lies
behind it. A piece is never empty: the pointer needs the number of its first row.
-/

set_option autoImplicit false

namespace TileArchive

/-- Numbers that increase within some bounds are no more than the bounds have room for. So
rows with increasing numbers can be counted by a word. -/
theorem length_le_of_increasing {ids : List Nat} {low high : Nat}
    (increasing : ids.Pairwise (· < ·)) (inside : ∀ id ∈ ids, low ≤ id ∧ id < high) :
    ids.length ≤ high - low := by
  induction ids generalizing low with
  | nil => exact Nat.zero_le _
  | cons id rest ih =>
      obtain ⟨id_lt, rest_increasing⟩ := List.pairwise_cons.mp increasing
      have id_inside := inside id List.mem_cons_self
      -- The other numbers lie above the first, so the room for them is smaller.
      have rest_inside : ∀ id' ∈ rest, id + 1 ≤ id' ∧ id' < high := by
        intro id' member
        exact ⟨id_lt id' member, (inside id' (List.mem_cons_of_mem id member)).2⟩
      have rest_length := ih rest_increasing rest_inside
      rw [List.length_cons]
      omega

/-- There are no more increasing words than words below the largest. -/
theorem length_le_largest {ids : List UInt64} (increasing : ids.Pairwise (· < ·))
    (below : ∀ id ∈ ids, id.toNat < Word.largest) : ids.length ≤ Word.largest := by
  have numbers : (ids.map UInt64.toNat).Pairwise (· < ·) := by
    rw [List.pairwise_map]
    exact increasing.imp fun lt => UInt64.lt_iff_toNat_lt.mp lt
  have inside : ∀ n ∈ ids.map UInt64.toNat, 0 ≤ n ∧ n < Word.largest := by
    intro n member
    obtain ⟨id, id_mem, rfl⟩ := List.mem_map.mp member
    exact ⟨Nat.zero_le _, below id id_mem⟩
  have bound := length_le_of_increasing numbers inside
  rwa [List.length_map] at bound

namespace Builder

/-! ### Pieces -/

section

variable {α : Type}

/-- The pieces of a list are all of it. -/
theorem pieces_flatten (size : Nat) (items : List α) : (pieces size items).flatten = items := by
  fun_induction pieces size items with
  | case1 => rfl
  | case2 item rest ih =>
      rw [List.flatten_cons, ih, List.cons_append, List.take_append_drop]

/-- No piece is empty. -/
theorem ne_nil_of_mem_pieces {size : Nat} {items piece : List α}
    (member : piece ∈ pieces size items) : piece ≠ [] := by
  fun_induction pieces size items with
  | case1 => cases member
  | case2 item rest ih =>
      rcases List.mem_cons.mp member with rfl | member
      · exact List.cons_ne_nil _ _
      · exact ih member

/-- No piece has more than `size + 1` items. -/
theorem length_le_of_mem_pieces {size : Nat} {items piece : List α}
    (member : piece ∈ pieces size items) : piece.length ≤ size + 1 := by
  fun_induction pieces size items with
  | case1 => cases member
  | case2 item rest ih =>
      rcases List.mem_cons.mp member with rfl | member
      · exact Nat.succ_le_succ (List.length_take_le size rest)
      · exact ih member

/-- There are no more pieces than rows. -/
theorem length_pieces_le (size : Nat) (items : List α) :
    (pieces size items).length ≤ items.length := by
  fun_induction pieces size items with
  | case1 => exact Nat.le_refl _
  | case2 item rest ih =>
      rw [List.length_drop] at ih
      rw [List.length_cons, List.length_cons]
      omega

end

/-! ### Rows in order -/

/-- Runs that follow one another, whose numbers and offsets leave room for the next. These
are the rows that can be written in any piece, so they may be cut into leaves at any place. -/
structure RunsInOrder (rows : List Entry) : Prop where
  run : ∀ e ∈ rows, 0 < e.runLength.toNat
  apart : rows.Pairwise fun e e' => e.tileId.toNat + e.runLength.toNat ≤ e'.tileId.toNat
  tileId_lt : ∀ e ∈ rows, e.tileId.toNat < Word.largest
  offset_lt : ∀ e ∈ rows, e.offset.toNat < Word.largest

namespace RunsInOrder

variable {rows : List Entry}

/-- Some of the rows, in their order, are in order as well. -/
theorem sublist {some_rows : List Entry} (runs : RunsInOrder rows)
    (sublist : some_rows.Sublist rows) : RunsInOrder some_rows :=
  ⟨fun e member => runs.run e (sublist.subset member), runs.apart.sublist sublist,
    fun e member => runs.tileId_lt e (sublist.subset member),
    fun e member => runs.offset_lt e (sublist.subset member)⟩

/-- No row of a draft is a pointer, because none has an empty run. -/
theorem not_isPointer (runs : RunsInOrder rows) {e : Entry} (member : e ∈ rows) :
    ¬ e.isPointer = true := by
  have run := runs.run e member
  intro pointer
  rw [Entry.isPointer, beq_iff_eq] at pointer
  rw [pointer] at run
  exact Nat.lt_irrefl 0 run

/-- The numbers of rows increase where runs are not empty and do not overlap. -/
theorem increasing (runs : RunsInOrder rows) :
    rows.Pairwise fun e e' => e.tileId < e'.tileId := by
  refine runs.apart.imp_of_mem ?_
  intro e e' member _ apart
  have run := runs.run e member
  exact UInt64.lt_iff_toNat_lt.mpr (by omega)

/-- There are no more rows than there are words, since their numbers differ. -/
theorem length_le (runs : RunsInOrder rows) : rows.length ≤ Word.largest := by
  rw [← List.length_map Entry.tileId]
  refine length_le_largest (List.pairwise_map.mpr runs.increasing) ?_
  intro id member
  obtain ⟨e, row_mem, rfl⟩ := List.mem_map.mp member
  exact runs.tileId_lt e row_mem

end RunsInOrder

/-! ### Stored directories -/

variable {b : Builder} {gzip : Bytes → Bytes}

/-- Rows in order can be stored. -/
theorem exists_storeDirectory {rows : List Entry} (gzip : Bytes → Bytes)
    (increasing : rows.Pairwise fun e e' => e.tileId < e'.tileId)
    (room : ∀ e ∈ rows, e.offset.toNat < Word.largest) :
    ∃ stored, b.storeDirectory gzip rows = .ok stored := by
  obtain ⟨written, encode_eq⟩ := Directory.exists_encode (d := ⟨rows⟩) increasing room
  exact ⟨b.internalCompression.wrapWith gzip written, by rw [storeDirectory, encode_eq]; rfl⟩

/-- Unpacking undoes the packing of a directory with some rows, if a directory is packed at
all. -/
def Unpacks (b : Builder) (gzip : Bytes → Bytes) (rows : List Entry) : Prop :=
  b.internalCompression = .gzip →
    ∀ written, Directory.encode ⟨rows⟩ = .ok written → Gzip.gunzip (gzip written) = .ok written

/-- A stored directory that lies in the archive is loaded. Its bytes are read, unpacked and
decoded, and each step undoes one of those by which it was stored. -/
theorem loadDirectory_stored {rows : List Entry} (unpacks : Unpacks b gzip rows) {h : Header}
    (compression : h.internalCompression = b.internalCompression)
    (countable : rows.length ≤ Word.largest) {stored bytes : Bytes} {range : ByteRange}
    (stored_eq : b.storeDirectory gzip rows = .ok stored)
    (placed : Placed bytes range.offset stored) (length_eq : range.length.toNat = stored.length) :
    (loadDirectory h range).run (Content.read bytes) = .ok ⟨rows⟩ := by
  obtain ⟨written, encode_eq, rfl⟩ : ∃ written, Directory.encode ⟨rows⟩ = .ok written ∧
      b.internalCompression.wrapWith gzip written = stored := by
    rw [storeDirectory] at stored_eq
    cases encode_eq : Directory.encode ⟨rows⟩ with
    | error e =>
        rw [encode_eq] at stored_eq
        cases stored_eq
    | ok written =>
        rw [encode_eq] at stored_eq
        exact ⟨written, rfl, Except.ok.inj stored_eq⟩
  -- Only a directory that was packed has to be unpacked.
  have unpacked (packed : b.internalCompression = .gzip) :
      Gzip.gunzip (gzip written) = .ok written := unpacks packed written encode_eq
  -- The range is not empty, so it is read.
  have not_empty : ¬ range.isEmpty = true := by
    intro empty
    rw [ByteRange.isEmpty, beq_iff_eq] at empty
    rw [empty] at length_eq
    exact Compression.wrapWith_ne_nil unpacked (Directory.encode_ne_nil encode_eq)
      (List.length_eq_zero_iff.mp length_eq.symm)
  have decoded : decodeDirectory h (b.internalCompression.wrapWith gzip written) = .ok ⟨rows⟩ := by
    rw [decodeDirectory, unwrapSection, compression, Compression.unwrap_wrapWith unpacked]
    show (Directory.decode written).mapError ReadError.directory = _
    rw [Directory.decode_encode encode_eq countable]
    rfl
  rw [loadDirectory, if_neg not_empty, Fetch.run_bind, placed.run_fetchBytes length_eq]
  exact decoded

/-! ### Leaf directories -/

/-- A pointer stands for a piece of the rows: it has the number of the first of them, and
the piece is stored as the leaf directory that it points to. The place is one in the section
of leaves, of which nothing is known yet but its bytes. -/
structure PointsTo (b : Builder) (gzip : Bytes → Bytes) (leaves : Bytes) (pointer : Entry)
    (piece : List Entry) : Prop where
  isPointer : pointer.isPointer = true
  first : piece.head?.map Entry.tileId = some pointer.tileId
  stored : ∃ leaf, b.storeDirectory gzip piece = .ok leaf ∧
    pointer.length.toNat = leaf.length ∧ Placed leaves pointer.offset leaf

/-- What it takes to store leaf directories: the first one is stored and then the others
behind it, and the pointer to the first has the number of its first row. -/
theorem storeLeaves_cons_eq_ok_iff {offset : Nat} {piece : List Entry} {rest : List (List Entry)}
    {result : List Entry × Bytes} :
    b.storeLeaves gzip offset (piece :: rest) = .ok result ↔ ∃ leaf pointers bytes,
      b.storeDirectory gzip piece = .ok leaf ∧
      b.storeLeaves gzip (offset + leaf.length) rest = .ok (pointers, bytes) ∧
      result = (.pointer ((piece.head?.map Entry.tileId).getD 0) (UInt64.ofNat offset)
        (UInt32.ofNat leaf.length) :: pointers, leaf ++ bytes) := by
  rw [storeLeaves]
  cases b.storeDirectory gzip piece with
  | error e => exact ⟨nofun, nofun⟩
  | ok leaf =>
      show (b.storeLeaves gzip (offset + leaf.length) rest >>= _) = _ ↔ _
      cases rest_eq : b.storeLeaves gzip (offset + leaf.length) rest with
      | error e =>
          refine ⟨nofun, ?_⟩
          rintro ⟨_, _, _, ⟨rfl⟩, eq, -⟩
          rw [rest_eq] at eq
          cases eq
      | ok stored =>
          constructor
          · rintro ⟨rfl⟩
            exact ⟨leaf, stored.1, stored.2, rfl, rest_eq, rfl⟩
          · rintro ⟨_, _, _, ⟨rfl⟩, eq, rfl⟩
            obtain rfl := Except.ok.inj (rest_eq.symm.trans eq)
            rfl

/-- Where every piece can be stored, all can. -/
theorem exists_storeLeaves {parts : List (List Entry)}
    (each : ∀ piece ∈ parts, ∃ leaf, b.storeDirectory gzip piece = .ok leaf) (offset : Nat) :
    ∃ pointers bytes, b.storeLeaves gzip offset parts = .ok (pointers, bytes) := by
  induction parts generalizing offset with
  | nil => exact ⟨[], [], rfl⟩
  | cons piece rest ih =>
      obtain ⟨leaf, leaf_eq⟩ := each piece List.mem_cons_self
      obtain ⟨pointers, bytes, rest_eq⟩ :=
        ih (fun other member => each other (List.mem_cons_of_mem piece member))
          (offset + leaf.length)
      exact ⟨_, _, storeLeaves_cons_eq_ok_iff.mpr ⟨leaf, pointers, bytes, leaf_eq, rest_eq, rfl⟩⟩

/-- The pointers stand for the pieces, one by one. The induction is on the pieces; `before` are
the leaf directories stored for those that came earlier. -/
theorem storeLeaves_pointers {parts : List (List Entry)} (nonempty : ∀ piece ∈ parts, piece ≠ [])
    {before bytes : Bytes} {pointers : List Entry}
    (stored : b.storeLeaves gzip before.length parts = .ok (pointers, bytes))
    (small : (before ++ bytes).length ≤ Word.largest32) :
    List.Forall₂ (PointsTo b gzip (before ++ bytes)) pointers parts := by
  induction parts generalizing before bytes pointers with
  | nil =>
      cases stored
      exact .nil
  | cons piece rest ih =>
      obtain ⟨leaf, pointers', bytes', leaf_eq, rest_eq, eq⟩ := storeLeaves_cons_eq_ok_iff.mp stored
      obtain ⟨rfl, rfl⟩ := Prod.mk.inj eq
      have total : before.length + (leaf.length + bytes'.length) ≤ Word.largest32 := by
        rwa [List.length_append, List.length_append] at small
      obtain ⟨first, others, rfl⟩ :=
        List.exists_cons_of_ne_nil (nonempty piece List.mem_cons_self)
      have rest_pointers :
          List.Forall₂ (PointsTo b gzip (before ++ (leaf ++ bytes'))) pointers' rest := by
        rw [← List.length_append] at rest_eq
        rw [← List.append_assoc] at small ⊢
        exact ih (fun other member => nonempty other (List.mem_cons_of_mem _ member)) rest_eq small
      have offset_le : before.length ≤ Word.largest := by
        have le : before.length ≤ Word.largest32 := by omega
        exact Nat.le_trans le (by decide)
      have placed : Placed (before ++ (leaf ++ bytes')) (UInt64.ofNat before.length) leaf :=
        ⟨before, bytes', (List.append_assoc _ _ _).symm, (Word.toNat_ofNat offset_le).symm⟩
      have length_eq : (UInt32.ofNat leaf.length).toNat = leaf.length :=
        Word.toNat_ofNat32 (by omega)
      exact .cons ⟨rfl, rfl, leaf, leaf_eq, length_eq, placed⟩ rest_pointers

end Builder

end TileArchive
