import Mathlib.Data.Fin.Pigeonhole
import Mathlib.Data.List.Chain
import Mathlib.Data.List.Nodup
import TileArchive.Proofs.Build.Draft

/-!
# `TileArchive.Proofs.Build.Compact`: a builder wastes neither rows nor bytes

`Draft.Thrifty` says what a draft does not do twice: its rows are all separated, so that no two
neighbours could have been one row, and its tile data are the payloads of the tiles, each once, in
the order of their first use. A step of the draft keeps this (`Thrifty.addTile`). A tile that
continues the last row brings no new payload, which is why the payload of a row need not be looked
for again.

`StandsFor` says that rows stand for some tiles, and `StandsFor.length_le` is what separation is
good for: a run that covers the first tiles of two rows would cover a number without a tile or a
tile with another payload, so whatever stands for the same tiles has as many rows.

## As few rows as possible

The comparison is with any rows that stand for the same tiles, whatever their order and also where
they overlap. Each of the rows of the draft has a first tile, and some row on the other side covers
it (`StandsFor.first_mem`). If one of these covered the first tiles of two rows of the draft, it
would cover all numbers between them. But between two neighbours there is a number without a tile,
or their payloads differ (`Compact.gap_or_differ`). So the first tiles are covered by different
rows (`Compact.not_covered_together`), and there are at least as many of them.
-/

set_option autoImplicit false

namespace TileArchive

namespace Builder

/-! ### Distinct payloads -/

/-- The payloads of some tiles, each once, in the order of their first use. This is what an
archive stores of them, so it says what the number of contents in the header should be. -/
def contents (tiles : List (UInt64 × Bytes)) : List Bytes := (tiles.map Prod.snd).eraseDups

section

variable {tiles : List (UInt64 × Bytes)} {t : UInt64 × Bytes}

/-- The contents are the payloads of the tiles. -/
theorem mem_contents_iff {payload : Bytes} :
    payload ∈ contents tiles ↔ ∃ t ∈ tiles, t.2 = payload := by
  rw [contents, List.mem_eraseDups, List.mem_map]

/-- A payload that was used before is not listed again. -/
theorem contents_append_of_mem (used : t.2 ∈ contents tiles) :
    contents (tiles ++ [t]) = contents tiles := by
  have known := List.elem_eq_true_of_mem (List.mem_eraseDups.mp used)
  have removed : [t.2].removeAll (tiles.map Prod.snd) = [] := by
    rw [List.removeAll, List.filter_cons, known]
    rfl
  rw [contents, List.map_append, List.eraseDups_append]
  exact (congrArg _ (congrArg List.eraseDups removed)).trans (List.append_nil _)

/-- A new payload is listed last. -/
theorem contents_append_of_not_mem (unused : t.2 ∉ contents tiles) :
    contents (tiles ++ [t]) = contents tiles ++ [t.2] := by
  have unknown : (tiles.map Prod.snd).elem t.2 = false := by
    refine Bool.eq_false_iff.mpr fun known => unused ?_
    exact List.mem_eraseDups.mpr (List.mem_of_elem_eq_true known)
  have kept : [t.2].removeAll (tiles.map Prod.snd) = [t.2] := by
    rw [List.removeAll, List.filter_cons, unknown]
    rfl
  rw [contents, List.map_append, List.eraseDups_append]
  exact congrArg _ (congrArg List.eraseDups kept)

/-- No payload is among the contents twice. -/
theorem nodup_contents (tiles : List (UInt64 × Bytes)) : (contents tiles).Nodup := by
  induction tiles using List.reverseRecOn with
  | nil => exact List.nodup_nil
  | append_singleton tiles t ih =>
      by_cases used : t.2 ∈ contents tiles
      · rwa [contents_append_of_mem used]
      · rw [contents_append_of_not_mem used]
        rw [← List.concat_eq_append]
        exact ih.concat used

/-- There are no more contents than tiles. -/
theorem length_contents_le (tiles : List (UInt64 × Bytes)) :
    (contents tiles).length ≤ tiles.length := by
  have subset : contents tiles ⊆ tiles.map Prod.snd := fun _ member => List.mem_eraseDups.mp member
  simpa using ((nodup_contents tiles).subperm subset).length_le

end

/-- Two neighbouring rows that are not one run: the second does not begin where the first ends,
or it has another payload. -/
def Separated (row next : Entry × Bytes) : Prop :=
  row.1.tileId.toNat + row.1.runLength.toNat ≠ next.1.tileId.toNat ∨ row.2 ≠ next.2

namespace Draft

/-! ### What a draft does only once -/

/-- No two neighbouring rows of a draft could be one, and every payload is stored once. Rows
and stored payloads stand with the last one first. The invariant goes with the tiles taken
in so far, since the stored payloads are those of the tiles in the order of their first use. -/
structure Thrifty (d : Draft) (tiles : List (UInt64 × Bytes)) : Prop where
  separated : d.rows.IsChain fun next row => Separated row next
  used : ∀ row ∈ d.rows, row.2 ∈ contents tiles
  stored : d.stored.reverse.map Prod.fst = contents tiles
  tileData : d.tileData = (contents tiles).flatten

/-- A draft of no tiles wastes nothing. -/
theorem thrifty_empty : Draft.empty.Thrifty [] := ⟨.nil, nofun, rfl, rfl⟩

/-- No offset is found exactly for the payloads that are not stored. -/
theorem offset?_eq_none_iff {d : Draft} {payload : Bytes} :
    d.offset? payload = none ↔ payload ∉ d.stored.map Prod.fst := by
  rw [offset?, Option.map_eq_none_iff, List.find?_eq_none]
  simp only [List.mem_map, decide_eq_true_eq, not_exists, not_and]

variable {d : Draft} {tiles : List (UInt64 × Bytes)}

/-- Storing the payload of one more tile stores it unless it is stored. A payload that is
used again does not move, so the stored ones stay in the order of their first use. -/
theorem Thrifty.store (thrifty : d.Thrifty tiles) (t : UInt64 × Bytes) :
    (d.store t.2).1.stored.reverse.map Prod.fst = contents (tiles ++ [t]) ∧
      (d.store t.2).1.tileData = (contents (tiles ++ [t])).flatten := by
  have stored_iff : t.2 ∈ d.stored.map Prod.fst ↔ t.2 ∈ contents tiles := by
    rw [← thrifty.stored, List.map_reverse, List.mem_reverse]
  unfold Draft.store
  split
  · next offset found =>
    have used : t.2 ∈ contents tiles := by
      rw [← stored_iff]
      exact List.mem_map.mpr ⟨_, offset?_sound found, rfl⟩
    rw [contents_append_of_mem used]
    exact ⟨thrifty.stored, thrifty.tileData⟩
  · next missing =>
    have unused : t.2 ∉ contents tiles := by
      rw [← stored_iff]
      exact offset?_eq_none_iff.mp missing
    rw [contents_append_of_not_mem unused, List.flatten_append, ← thrifty.stored]
    refine ⟨?_, ?_⟩
    · rw [List.reverse_cons, List.map_append]
      rfl
    · rw [thrifty.stored, ← thrifty.tileData]
      simp

/-- A new row keeps the draft thrifty, where it does not continue the last one. What makes
it a row of its own is just what keeps the two rows from being one. -/
theorem Thrifty.addRow (thrifty : d.Thrifty tiles) {t : UInt64 × Bytes}
    (no_next : ∀ row ∈ d.rows.head?,
      ¬ (row.1.tileId.toNat + row.1.runLength.toNat = t.1.toNat ∧ row.2 = t.2)) :
    (d.addRow t.1 t.2).Thrifty (tiles ++ [t]) := by
  obtain ⟨stored_eq, data_eq⟩ := thrifty.store t
  rw [addRow_eq]
  refine ⟨?_, ?_, stored_eq, data_eq⟩
  · rw [store_rows, List.isChain_cons]
    refine ⟨?_, thrifty.separated⟩
    intro row row_mem
    exact not_and_or.mp (no_next row row_mem)
  · intro row member
    rw [mem_contents_iff]
    rcases List.mem_cons.mp member with rfl | member
    · exact ⟨t, List.mem_append_right tiles (List.mem_singleton_self t), rfl⟩
    · rw [store_rows] at member
      obtain ⟨t', tile_mem, same⟩ := mem_contents_iff.mp (thrifty.used row member)
      exact ⟨t', List.mem_append_left _ tile_mem, same⟩

/-- One more tile is taken in. It makes the last row longer, which changes neither the
payloads nor the gap before that row, or it gets a row of its own. -/
theorem Thrifty.addTile (thrifty : d.Thrifty tiles) (t : UInt64 × Bytes) :
    (d.addTile t).Thrifty (tiles ++ [t]) := by
  rcases d.addTile_cases t with ⟨row, rows, rows_eq, -, same, eq⟩ | ⟨no_next, eq⟩
  · -- The tile has the payload of the last row, and that row begins where it did.
    have row_used : row.2 ∈ contents tiles := by
      refine thrifty.used row ?_
      rw [rows_eq]
      exact List.mem_cons_self
    have separated := thrifty.separated
    rw [rows_eq, List.isChain_cons] at separated
    rw [eq]
    have contents_eq : contents (tiles ++ [t]) = contents tiles :=
      contents_append_of_mem (same ▸ row_used)
    refine ⟨List.isChain_cons.mpr separated, ?_, ?_, ?_⟩
    · rw [contents_eq]
      intro row' member
      rcases List.mem_cons.mp member with rfl | member
      · exact row_used
      · refine thrifty.used row' ?_
        rw [rows_eq]
        exact List.mem_cons_of_mem row member
    · rw [contents_eq]
      exact thrifty.stored
    · rw [contents_eq]
      exact thrifty.tileData
  · rw [eq]
    exact thrifty.addRow no_next

/-- Many more tiles are taken in. -/
theorem Thrifty.foldl (thrifty : d.Thrifty tiles) (more : List (UInt64 × Bytes)) :
    (more.foldl Draft.addTile d).Thrifty (tiles ++ more) := by
  induction more generalizing d tiles with
  | nil => rwa [List.append_nil]
  | cons t rest ih =>
      have all := ih (thrifty.addTile t)
      rwa [List.append_assoc] at all

end Draft

/-- The draft of a builder is thrifty. -/
theorem thrifty_draft (b : Builder) : b.draft.Thrifty b.tiles :=
  Draft.thrifty_empty.foldl b.tiles

/-! ### No fewer rows would do -/

/-- Rows stand for tiles: they cover the numbers of these tiles, with their payloads, and nothing
else. -/
def StandsFor (rows : List (Entry × Bytes)) (tiles : List (UInt64 × Bytes)) : Prop :=
  ∀ id payload, (id, payload) ∈ tiles ↔ ∃ row ∈ rows, row.1.covers id = true ∧ row.2 = payload

/-- Rows are runs that follow one another, and no two neighbours could be one. This alone
makes the rows as few as can be, whoever has made them (`Compact.length_le`). -/
structure Compact (rows : List (Entry × Bytes)) : Prop where
  run : ∀ row ∈ rows, 0 < row.1.runLength.toNat
  apart : rows.Pairwise fun row later =>
    row.1.tileId.toNat + row.1.runLength.toNat ≤ later.1.tileId.toNat
  separated : rows.IsChain Separated

section

variable {rows others : List (Entry × Bytes)} {tiles : List (UInt64 × Bytes)}

/-- A number has one payload. -/
theorem Increasing.payload_unique (increasing : Increasing tiles) {id : UInt64}
    {payload payload' : Bytes} (member : (id, payload) ∈ tiles) (member' : (id, payload') ∈ tiles) :
    payload = payload' :=
  congrArg Prod.snd (List.inj_on_of_nodup_map increasing.nodup member member' rfl)

/-- A row stands for its first tile. -/
theorem StandsFor.first_mem (stands : StandsFor rows tiles) {row : Entry × Bytes}
    (member : row ∈ rows) (run : 0 < row.1.runLength.toNat) : (row.1.tileId, row.2) ∈ tiles :=
  (stands _ _).mpr ⟨row, member, (row.1.covers_iff _).mpr ⟨Nat.le_refl _, by omega⟩, rfl⟩

/-- A number in the gap between two neighbouring rows is that of no tile. A tile would have
to be in some row, and the rows before end too early and those after begin too late. -/
theorem Compact.not_mem_gap (compact : Compact rows) (stands : StandsFor rows tiles) {i : Nat}
    (next_lt : i + 1 < rows.length) {id : UInt64}
    (ends_le : (rows[i]).1.tileId.toNat + (rows[i]).1.runLength.toNat ≤ id.toNat)
    (lt_next : id.toNat < (rows[i + 1]).1.tileId.toNat) (payload : Bytes) :
    (id, payload) ∉ tiles := by
  intro member
  obtain ⟨row, row_mem, covered, -⟩ := (stands id payload).mp member
  obtain ⟨k, k_lt, rfl⟩ := List.mem_iff_getElem.mp row_mem
  obtain ⟨low_le, lt_high⟩ := (Entry.covers_iff _ _).mp covered
  have apart := List.pairwise_iff_getElem.mp compact.apart
  -- The row would lie before the first of the two, be that row, or lie behind it.
  rcases Nat.lt_trichotomy k i with before | rfl | behind
  · have := apart k i k_lt (by omega) before
    omega
  · omega
  · rcases Nat.eq_or_lt_of_le (show i + 1 ≤ k from behind) with rfl | behind
    · omega
    · have := apart (i + 1) k next_lt k_lt behind
      omega

/-- Between two neighbouring rows lies a number without a tile, or they have different
payloads. -/
theorem Compact.gap_or_differ (compact : Compact rows) (stands : StandsFor rows tiles) :
    rows.IsChain fun row next => row.2 ≠ next.2 ∨ ∃ id : UInt64,
      row.1.tileId.toNat + row.1.runLength.toNat ≤ id.toNat ∧
        id.toNat < next.1.tileId.toNat ∧ ∀ payload, (id, payload) ∉ tiles := by
  rw [List.isChain_iff_getElem]
  intro i next_lt
  have ends_le := List.pairwise_iff_getElem.mp compact.apart i (i + 1) (by omega) next_lt
    (Nat.lt_succ_self i)
  rcases List.isChain_iff_getElem.mp compact.separated i next_lt with gap | differ
  · -- The number right behind the row is a word, since the next row begins later.
    obtain ⟨id, id_eq⟩ : ∃ id : UInt64,
        id.toNat = (rows[i]).1.tileId.toNat + (rows[i]).1.runLength.toNat :=
      ⟨_, Word.toNat_ofNat (Nat.le_trans ends_le (Word.toNat_le_largest _))⟩
    have lt_next : id.toNat < (rows[i + 1]).1.tileId.toNat := by omega
    exact .inr ⟨id, Nat.le_of_eq id_eq.symm, lt_next,
      compact.not_mem_gap stands next_lt (Nat.le_of_eq id_eq.symm) lt_next⟩
  · exact .inl differ

/-- A run that covers only tiles does not cover the first numbers of two rows. Otherwise it
would cover all numbers in between, so that the first of the rows and the next one could be
one. -/
theorem Compact.not_covered_together (compact : Compact rows) (increasing : Increasing tiles)
    (stands : StandsFor rows tiles) {run : Entry × Bytes}
    (within : ∀ id, run.1.covers id = true → (id, run.2) ∈ tiles) {i j : Nat} (lt : i < j)
    (j_lt : j < rows.length) (covers_first : run.1.covers (rows[i]).1.tileId = true) :
    ¬ run.1.covers (rows[j]).1.tileId = true := by
  intro covers_later
  have next_lt : i + 1 < rows.length := by omega
  have apart := List.pairwise_iff_getElem.mp compact.apart
  have next_le : (rows[i + 1]).1.tileId.toNat ≤ (rows[j]).1.tileId.toNat := by
    rcases Nat.eq_or_lt_of_le (show i + 1 ≤ j from lt) with rfl | before
    · exact Nat.le_refl _
    · have := apart (i + 1) j next_lt j_lt before
      omega
  rw [Entry.covers_iff] at covers_first covers_later
  -- The run covers all numbers from the first row to the next.
  have between (id : UInt64) (from_first : (rows[i]).1.tileId.toNat ≤ id.toNat)
      (to_next : id.toNat ≤ (rows[i + 1]).1.tileId.toNat) : (id, run.2) ∈ tiles :=
    within id ((run.1.covers_iff id).mpr ⟨by omega, by omega⟩)
  have ends_le := apart i (i + 1) (by omega) next_lt (Nat.lt_succ_self i)
  rcases List.isChain_iff_getElem.mp (compact.gap_or_differ stands) i next_lt with
    differ | ⟨id, id_ge, id_lt, absent⟩
  · -- Both rows would have the payload of the run.
    have payload_eq (k : Nat) (k_lt : k < rows.length)
        (member : ((rows[k]).1.tileId, run.2) ∈ tiles) : (rows[k]).2 = run.2 :=
      increasing.payload_unique
        (stands.first_mem (List.getElem_mem k_lt) (compact.run _ (List.getElem_mem k_lt))) member
    refine differ ?_
    rw [payload_eq i (by omega) (between _ (Nat.le_refl _) (by omega)),
      payload_eq (i + 1) next_lt (between _ (by omega) (Nat.le_refl _))]
  · exact absent run.2 (between id (by omega) (by omega))

/-- Whatever stands for the same tiles has as many rows. Each row is assigned one that covers its
first number; by separation no two are assigned the same. -/
theorem Compact.length_le (compact : Compact rows) (increasing : Increasing tiles)
    (stands : StandsFor rows tiles) (others_stand : StandsFor others tiles) :
    rows.length ≤ others.length := by
  have exists_cover (i : Fin rows.length) :
      ∃ k : Fin others.length, (others[k]).1.covers (rows[i]).1.tileId = true := by
    have member := List.getElem_mem i.isLt
    obtain ⟨other, other_mem, covered, -⟩ :=
      (others_stand _ _).mp (stands.first_mem member (compact.run _ member))
    obtain ⟨k, k_lt, rfl⟩ := List.mem_iff_getElem.mp other_mem
    exact ⟨⟨k, k_lt⟩, covered⟩
  choose cover covers using exists_cover
  have within (k : Fin others.length) (id : UInt64) (covered : (others[k]).1.covers id = true) :
      (id, (others[k]).2) ∈ tiles :=
    (others_stand _ _).mpr ⟨_, List.getElem_mem k.isLt, covered, rfl⟩
  have distinct {i j : Fin rows.length} (lt : i < j) : cover i ≠ cover j := by
    intro same
    exact compact.not_covered_together increasing stands (within (cover i)) lt j.isLt (covers i)
      (same ▸ covers j)
  refine Fin.le_of_injective cover ?_
  intro i j same
  rcases lt_trichotomy i j with lt | eq | lt
  · exact absurd same (distinct lt)
  · exact eq
  · exact absurd same.symm (distinct lt)

end

end Builder

end TileArchive
