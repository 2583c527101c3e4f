import TileArchive.Proofs.Bytes
import TileArchive.Proofs.Build.Tiles
import TileArchive.Proofs.Directory.Search

/-!
# `TileArchive.Proofs.Build.Draft`: the rows of a builder stand for its tiles

A draft merges consecutive tiles with one payload into a row and stores a payload once.
`Draft.Holds` says what a draft has to do with the tiles it was made of: its rows, one after
another, count exactly these tiles, and the payload of every row lies in the tile data where
the row says.

A step of the draft takes one more tile into the invariant (`Holds.addTile`), so the draft of a
builder holds all of them (`holds_draft`). A row counts at most `2 ^ 32 - 1` tiles and an offset
must not wrap; this is where the bounds on runs and on the tile data come in.

## One step

`addTile_cases` says all that a step can do: the last row gets longer by the tile, or a new row is
put behind it. In the first case the tile data does not change. In the second the payload is looked
for among the ones stored so far and appended if it is not there, so the tile data only grows
(`prefix_addTile`), and what was placed in it stays placed (`Placed.mono`).

The bounds are asked of the finished draft, and hold of every draft on the way to it, since tile
data only grow and a run that is too long stays too long (`LongRun.mono`). So `Holds.foldl` can go
along the tiles with bounds on the end.

Tiles have words for numbers and runs are counted in natural numbers. `numbered` is the list of
tiles with natural numbers, and a row stands for a stretch of such numbers (`rowTiles`).
-/

set_option autoImplicit false

namespace TileArchive

/-- Some bytes lie in the data at an offset. What is before and behind them does not matter,
and so bytes that are placed stay where they are when the data grow at the end. -/
def Placed (data : Bytes) (offset : UInt64) (payload : Bytes) : Prop :=
  ∃ before after, data = before ++ payload ++ after ∧ before.length = offset.toNat

namespace Placed

variable {data : Bytes} {offset : UInt64} {payload : Bytes}

/-- What is placed in some bytes is placed in all longer ones. -/
theorem mono {data' : Bytes} (placed : Placed data offset payload) (starts : data <+: data') :
    Placed data' offset payload := by
  obtain ⟨before, after, rfl, length_eq⟩ := placed
  obtain ⟨more, rfl⟩ := starts
  exact ⟨before, after ++ more, by simp only [List.append_assoc], length_eq⟩

/-- A payload that is placed ends within the bytes. -/
theorem stop_le (placed : Placed data offset payload) :
    offset.toNat + payload.length ≤ data.length := by
  obtain ⟨before, after, rfl, length_eq⟩ := placed
  simp only [List.length_append]
  omega

/-- An offset within tile data that fits half a word is not the largest word. -/
theorem offset_lt (placed : Placed data offset payload) (small : data.length ≤ Word.largest32) :
    offset.toNat < Word.largest := by
  have stop_le := placed.stop_le
  have offset_le : offset.toNat ≤ Word.largest32 := by omega
  exact Nat.lt_of_le_of_lt offset_le (by decide)

end Placed

namespace Builder

/-- Tiles with their numbers as natural numbers. A row counts its tiles from its own number
on, and sums of words would wrap around there. -/
def numbered (tiles : List (UInt64 × Bytes)) : List (Nat × Bytes) :=
  tiles.map fun t => (t.1.toNat, t.2)

/-- A tile is one of some tiles just if it is among them with its number as a natural
number. -/
theorem mem_numbered_iff {tiles : List (UInt64 × Bytes)} {id : UInt64} {payload : Bytes} :
    (id.toNat, payload) ∈ numbered tiles ↔ (id, payload) ∈ tiles := by
  rw [numbered, List.mem_map]
  constructor
  · rintro ⟨t, member, eq⟩
    injection eq with id_eq payload_eq
    rwa [← UInt64.toNat_inj.mp id_eq, ← payload_eq]
  · exact fun member => ⟨_, member, rfl⟩

/-- The tiles that a row counts: consecutive numbers from that of the row on, and one
payload for all of them. -/
def rowTiles (row : Entry × Bytes) : List (Nat × Bytes) :=
  (List.range' row.1.tileId.toNat row.1.runLength.toNat).map fun id => (id, row.2)

/-- A row stands for the tiles with its payload that its run covers. -/
theorem mem_rowTiles_iff {row : Entry × Bytes} {id : UInt64} {payload : Bytes} :
    (id.toNat, payload) ∈ rowTiles row ↔ row.1.covers id = true ∧ row.2 = payload := by
  rw [rowTiles, List.mem_map, row.1.covers_iff]
  constructor
  · rintro ⟨n, member, eq⟩
    injection eq with n_eq payload_eq
    rw [List.mem_range'_1, n_eq] at member
    exact ⟨member, payload_eq⟩
  · rintro ⟨inside, payload_eq⟩
    exact ⟨id.toNat, List.mem_range'_1.mpr inside, by rw [payload_eq]⟩

namespace Draft

/-- A row has a tile, and its payload lies in the tile data where it says. The tile data
only grow at their end, so this stays true while tiles are taken in (`RowPlaced.mono`). -/
structure RowPlaced (data : Bytes) (row : Entry × Bytes) : Prop where
  run : 0 < row.1.runLength.toNat
  length_eq : row.1.length.toNat = row.2.length
  placed : Placed data row.1.offset row.2

/-- The rows of a draft stand for some tiles, and all payloads are stored. This is the
invariant of taking tiles in: the rows one after another give the tiles in their order. -/
structure Holds (d : Draft) (tiles : List (UInt64 × Bytes)) : Prop where
  tiles_eq : d.rows.reverse.flatMap rowTiles = numbered tiles
  rows : ∀ row ∈ d.rows, RowPlaced d.tileData row
  stored : ∀ s ∈ d.stored, Placed d.tileData s.2 s.1

/-- The draft of no tiles holds no tiles. -/
theorem holds_empty : Draft.empty.Holds [] := ⟨rfl, nofun, nofun⟩

/-- A row that is placed stays so when tile data grow. -/
theorem RowPlaced.mono {data data' : Bytes} {row : Entry × Bytes}
    (placed : RowPlaced data row) (starts : data <+: data') : RowPlaced data' row :=
  ⟨placed.run, placed.length_eq, placed.placed.mono starts⟩

/-! ### Storing payloads -/

/-- An offset that is found for a payload is one at which it was stored. -/
theorem offset?_sound {d : Draft} {payload : Bytes} {offset : UInt64}
    (found : d.offset? payload = some offset) : (payload, offset) ∈ d.stored := by
  rw [offset?, Option.map_eq_some_iff] at found
  obtain ⟨s, find_eq, rfl⟩ := found
  have same : s.1 = payload := by simpa using List.find?_some find_eq
  rw [← same]
  exact List.mem_of_find?_eq_some find_eq

/-- Storing a payload leaves the tile data before it as they are. -/
theorem prefix_store (d : Draft) (payload : Bytes) :
    d.tileData <+: (d.store payload).1.tileData := by
  unfold store
  split
  · exact List.prefix_refl _
  · exact List.prefix_append _ _

/-- Storing a payload does not change rows. -/
theorem store_rows (d : Draft) (payload : Bytes) : (d.store payload).1.rows = d.rows := by
  unfold store
  split <;> rfl

/-- A payload lies where storing says, and all that were stored before stay in place. The
tile data grow at their end if they grow at all. -/
theorem store_placed {d : Draft} {payload : Bytes}
    (small : (d.store payload).1.tileData.length ≤ Word.largest32)
    (stored : ∀ s ∈ d.stored, Placed d.tileData s.2 s.1) :
    Placed (d.store payload).1.tileData (d.store payload).2 payload ∧
      ∀ s ∈ (d.store payload).1.stored, Placed (d.store payload).1.tileData s.2 s.1 := by
  unfold store at small ⊢
  split
  · -- The payload is stored already.
    next offset found => exact ⟨stored _ (offset?_sound found), stored⟩
  · -- The payload is put behind all that is stored.
    next missing =>
    rw [missing] at small
    have fits : d.tileData.length ≤ Word.largest := by
      have total : (d.tileData ++ payload).length ≤ Word.largest32 := small
      rw [List.length_append, Word.largest32] at total
      rw [Word.largest]
      omega
    have offset_eq : (UInt64.ofNat d.tileData.length).toNat = d.tileData.length :=
      Word.toNat_ofNat fits
    have new_placed : Placed (d.tileData ++ payload) (UInt64.ofNat d.tileData.length) payload :=
      ⟨d.tileData, [], (List.append_nil _).symm, offset_eq.symm⟩
    refine ⟨new_placed, ?_⟩
    intro s member
    rcases List.mem_cons.mp member with rfl | member
    · exact new_placed
    · exact (stored s member).mono (List.prefix_append _ payload)

/-! ### Adding tiles -/

/-- A new row has a run of one tile, and the offset at which its payload is stored. -/
theorem addRow_eq (d : Draft) (id : UInt64) (payload : Bytes) :
    d.addRow id payload = { (d.store payload).1 with
      rows := (⟨id, (d.store payload).2, UInt32.ofNat payload.length, 1⟩, payload)
        :: (d.store payload).1.rows } := rfl

/-- What a tile does to a draft: it makes the last row longer where it continues it, or else it
gets a row of its own. -/
theorem addTile_cases (d : Draft) (t : UInt64 × Bytes) :
    (∃ row rows, d.rows = row :: rows ∧ row.1.tileId.toNat + row.1.runLength.toNat = t.1.toNat ∧
      row.2 = t.2 ∧
      d.addTile t = { d with
        rows := ({ row.1 with runLength := row.1.runLength + 1 }, row.2) :: rows }) ∨
    (∀ row ∈ d.rows.head?,
      ¬ (row.1.tileId.toNat + row.1.runLength.toNat = t.1.toNat ∧ row.2 = t.2)) ∧
    d.addTile t = d.addRow t.1 t.2 := by
  unfold addTile
  split
  · next row rows rows_eq =>
    have continues_iff : continues row t.1 t.2 = true
        ↔ row.1.tileId.toNat + row.1.runLength.toNat = t.1.toNat ∧ row.2 = t.2 := by
      rw [continues, Bool.and_eq_true, beq_iff_eq, beq_iff_eq]
    split
    · next next_tile =>
      obtain ⟨next_id, same⟩ := continues_iff.mp next_tile
      exact .inl ⟨row, rows, rows_eq, next_id, same, rfl⟩
    · next no_next =>
      refine .inr ⟨?_, rfl⟩
      rw [rows_eq]
      rintro _ ⟨rfl⟩
      rwa [← continues_iff]
  · next rows_eq =>
    refine .inr ⟨?_, rfl⟩
    rw [rows_eq]
    exact nofun

/-- Tile data only grow. -/
theorem prefix_addTile (d : Draft) (t : UInt64 × Bytes) :
    d.tileData <+: (d.addTile t).tileData := by
  rcases d.addTile_cases t with ⟨row, rows, -, -, -, eq⟩ | ⟨-, eq⟩
  · simpa only [eq] using List.prefix_refl d.tileData
  · simpa only [eq, addRow_eq] using d.prefix_store t.2

/-- Adding tiles leaves the tile data before them as they are. -/
theorem prefix_foldl (tiles : List (UInt64 × Bytes)) (d : Draft) :
    d.tileData <+: (tiles.foldl addTile d).tileData := by
  induction tiles generalizing d with
  | nil => exact List.prefix_refl _
  | cons t rest ih => exact (d.prefix_addTile t).trans (ih (d.addTile t))

/-- A new row takes one more tile into the invariant: its payload is placed, and the rows
before are where they were. -/
theorem Holds.addRow {d : Draft} {tiles : List (UInt64 × Bytes)} (holds : d.Holds tiles)
    {id : UInt64} {payload : Bytes}
    (small : (d.addRow id payload).tileData.length ≤ Word.largest32) :
    (d.addRow id payload).Holds (tiles ++ [(id, payload)]) := by
  rw [addRow_eq] at small ⊢
  obtain ⟨placed, stored⟩ := store_placed small holds.stored
  have payload_small : payload.length ≤ Word.largest32 := by
    have := placed.stop_le
    have total : (d.store payload).1.tileData.length ≤ Word.largest32 := small
    omega
  refine ⟨?_, ?_, stored⟩
  · rw [store_rows, List.reverse_cons, List.flatMap_append, holds.tiles_eq, numbered, numbered,
      List.map_append]
    rfl
  · intro row member
    rcases List.mem_cons.mp member with rfl | member
    · exact ⟨Nat.one_pos, Word.toNat_ofNat32 payload_small, placed⟩
    · rw [store_rows] at member
      exact (holds.rows row member).mono (d.prefix_store payload)

/-- Every number that a row counts is that of a tile with its payload. -/
theorem Holds.exists_tile {d : Draft} {tiles : List (UInt64 × Bytes)} (holds : d.Holds tiles)
    {row : Entry × Bytes} (member : row ∈ d.rows) {n : Nat} (low_le : row.1.tileId.toNat ≤ n)
    (lt : n < row.1.tileId.toNat + row.1.runLength.toNat) :
    ∃ t ∈ tiles, t.1.toNat = n ∧ t.2 = row.2 := by
  have counted : (n, row.2) ∈ numbered tiles := by
    rw [← holds.tiles_eq, List.mem_flatMap]
    exact ⟨row, List.mem_reverse.mpr member,
      List.mem_map.mpr ⟨n, List.mem_range'_1.mpr ⟨low_le, lt⟩, rfl⟩⟩
  obtain ⟨t, tile_mem, eq⟩ := List.mem_map.mp counted
  injection eq with id_eq payload_eq
  exact ⟨t, tile_mem, id_eq, payload_eq⟩

/-- A row that may be made longer does not count as many tiles as it can. -/
theorem Holds.runLength_lt {d : Draft} {tiles : List (UInt64 × Bytes)} (holds : d.Holds tiles)
    {row : Entry × Bytes} (member : row ∈ d.rows) {t : UInt64 × Bytes}
    (next_id : row.1.tileId.toNat + row.1.runLength.toNat = t.1.toNat) (same : row.2 = t.2)
    (short : ¬ LongRun (tiles ++ [t])) : row.1.runLength.toNat + 1 ≤ Word.largest32 := by
  have bound : row.1.runLength.toNat ≤ Word.largest32 := Word.toNat_le_largest32 _
  -- The tiles of a full row and the tile behind them would make a long run.
  refine Classical.byContradiction fun full => short ⟨row.1.tileId.toNat, t.2, ?_⟩
  intro k small
  by_cases last : k = row.1.runLength.toNat
  · exact ⟨t, List.mem_append_right tiles (List.mem_singleton_self t), by omega, rfl⟩
  · obtain ⟨t', tile_mem, id_eq, payload_eq⟩ := holds.exists_tile member
      (n := row.1.tileId.toNat + k) (by omega) (by omega)
    exact ⟨t', List.mem_append_left _ tile_mem, id_eq, payload_eq.trans same⟩

/-- One more tile is taken in. If it makes the last row longer, the length of that run has
to fit, which is what `LongRun` excludes. -/
theorem Holds.addTile {d : Draft} {tiles : List (UInt64 × Bytes)} (holds : d.Holds tiles)
    {t : UInt64 × Bytes} (small : (d.addTile t).tileData.length ≤ Word.largest32)
    (short : ¬ LongRun (tiles ++ [t])) : (d.addTile t).Holds (tiles ++ [t]) := by
  rcases d.addTile_cases t with ⟨row, rows, rows_eq, next_id, same, eq⟩ | ⟨-, eq⟩
  · -- The last row gets longer by this tile.
    have row_mem : row ∈ d.rows := by
      rw [rows_eq]
      exact List.mem_cons_self
    have length_eq : (row.1.runLength + 1).toNat = row.1.runLength.toNat + 1 := by
      have room := holds.runLength_lt row_mem next_id same short
      rw [UInt32.toNat_add]
      exact Nat.mod_eq_of_lt (Nat.lt_succ_of_le room)
    have row_eq : rowTiles ({ row.1 with runLength := row.1.runLength + 1 }, row.2)
        = rowTiles row ++ [(t.1.toNat, t.2)] := by
      show (List.range' row.1.tileId.toNat (row.1.runLength + 1).toNat).map _ = _
      rw [length_eq, List.range'_1_concat, List.map_append, next_id, ← same]
      rfl
    have before_eq := holds.tiles_eq
    rw [rows_eq, List.reverse_cons, List.flatMap_append, List.flatMap_singleton] at before_eq
    rw [eq]
    refine ⟨?_, ?_, holds.stored⟩
    · show (_ :: rows).reverse.flatMap rowTiles = _
      rw [List.reverse_cons, List.flatMap_append, List.flatMap_singleton, row_eq,
        ← List.append_assoc, before_eq, numbered, numbered, List.map_append]
      rfl
    · intro row' member
      rcases List.mem_cons.mp member with rfl | member
      · have placed := holds.rows row row_mem
        refine ⟨?_, placed.length_eq, placed.placed⟩
        show 0 < (row.1.runLength + 1).toNat
        omega
      · exact holds.rows row' (rows_eq ▸ List.mem_cons_of_mem row member)
  · rw [eq] at small ⊢
    exact holds.addRow small

/-- Many more tiles are taken in. The induction is on the tiles still to be added, and the
bounds are those of the finished draft, as everything before it is no larger. -/
theorem Holds.foldl {d : Draft} {tiles more : List (UInt64 × Bytes)} (holds : d.Holds tiles)
    (small : (more.foldl Draft.addTile d).tileData.length ≤ Word.largest32)
    (short : ¬ LongRun (tiles ++ more)) : (more.foldl Draft.addTile d).Holds (tiles ++ more) := by
  induction more generalizing d tiles with
  | nil => rwa [List.append_nil]
  | cons t rest ih =>
      have split : tiles ++ t :: rest = tiles ++ [t] ++ rest := by
        rw [List.append_assoc]
        rfl
      rw [split] at short ⊢
      have first_small : (d.addTile t).tileData.length ≤ Word.largest32 :=
        Nat.le_trans (prefix_foldl rest (d.addTile t)).length_le small
      have first_short : ¬ LongRun (tiles ++ [t]) := by
        intro long
        exact short (long.mono fun _ member => List.mem_append_left rest member)
      exact ih (holds.addTile first_small first_short) small short

end Draft

/-- The draft of a builder holds its tiles. -/
theorem holds_draft {b : Builder} (small : b.draft.tileData.length ≤ Word.largest32)
    (short : ¬ LongRun b.tiles) : b.draft.Holds b.tiles :=
  Draft.holds_empty.foldl small short

namespace Draft

/-! ### Rows of a finished draft -/

variable {d : Draft} {tiles : List (UInt64 × Bytes)}

/-- A tile is among those of the draft where a row counts its number and has its payload. -/
theorem Holds.mem_iff (holds : d.Holds tiles) {id : UInt64} {payload : Bytes} :
    (id, payload) ∈ tiles ↔ ∃ row ∈ d.rows, row.1.covers id = true ∧ row.2 = payload := by
  rw [← mem_numbered_iff, ← holds.tiles_eq, List.mem_flatMap]
  simp only [List.mem_reverse, mem_rowTiles_iff]

/-- A row ends before the next one begins. The rows give the tiles in their order, and the
numbers of the tiles increase. -/
theorem Holds.entries_apart (holds : d.Holds tiles) (increasing : Increasing tiles) :
    d.entries.Pairwise fun e e' => e.tileId.toNat + e.runLength.toNat ≤ e'.tileId.toNat := by
  have numbers : (d.rows.reverse.flatMap rowTiles).Pairwise fun t t' => t.1 < t'.1 := by
    rw [holds.tiles_eq, numbered, List.pairwise_map]
    exact increasing.imp fun lt => UInt64.lt_iff_toNat_lt.mp lt
  rw [entries, List.pairwise_map]
  refine (List.pairwise_flatMap.mp numbers).2.imp_of_mem ?_
  intro row row' member member' apart
  -- The last tile of a row lies before the first tile of the next.
  have run := (holds.rows row (List.mem_reverse.mp member)).run
  have run' := (holds.rows row' (List.mem_reverse.mp member')).run
  have last_mem : (row.1.tileId.toNat + (row.1.runLength.toNat - 1), row.2) ∈ rowTiles row :=
    List.mem_map.mpr ⟨_, List.mem_range'_1.mpr (by omega), rfl⟩
  have first_mem : (row'.1.tileId.toNat, row'.2) ∈ rowTiles row' :=
    List.mem_map.mpr ⟨_, List.mem_range'_1.mpr (by omega), rfl⟩
  have lt : row.1.tileId.toNat + (row.1.runLength.toNat - 1) < row'.1.tileId.toNat :=
    apart _ last_mem _ first_mem
  omega

/-- The entries of a draft are those of its rows. -/
theorem mem_entries_iff {e : Entry} : e ∈ d.entries ↔ ∃ row ∈ d.rows, row.1 = e := by
  rw [entries, List.mem_map]
  simp only [List.mem_reverse]

end Draft

end Builder

end TileArchive
