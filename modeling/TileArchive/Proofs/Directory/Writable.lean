import TileArchive.Proofs.Directory.Codec

/-!
# `TileArchive.Proofs.Directory.Writable`: which directories can be written

Two things keep a directory from being written: a tile number that falls below the one before
it (`FallsAt`), and an offset that cannot be increased and does not continue the row before
(`StuckAt`). The writer goes through the tile numbers first and then through the offsets, and
reports the first row at fault (`encodeIds_outcome`, `encodeOffsets_outcome`).
`encode_outcome` puts this together with the way back of `Codec.lean`.

Both conditions look at a row and the one before it, so they are said with `rowBefore`, which takes
the row in front of the list as a parameter. The writer's loop carries this row along, and with it
the inductions go through: what is said of row `i + 1` of a list is what is said of row `i` of its
tail (`fallsAt_cons_succ_iff`, `stuckAt_cons_succ_iff`), and the errors count their index up
likewise. In front of the first row stands none, and no number falls below zero.

An offset of the largest word is not at fault by itself. If it continues the row before, it is
written as the marker and needs no code of its own.

`FirstAt` is the first place where something holds. Since both outcomes of the writer name the
first row at fault, the error of a directory with several faults is determined, and a tile number
that falls wins over any offset, also one of an earlier row.
-/

set_option autoImplicit false

namespace TileArchive.Directory

/-! ### Rows at fault -/

/-- The row before each row; `first` is the row before all of them, if there is one. With it
the statements hold of the rest of a directory too, which is what the inductions are about. -/
def rowBefore (first : Option Entry) (es : List Entry) : Nat → Option Entry
  | 0 => first
  | i + 1 => es[i]?

/-- The tile number of a row is below that of the row before. The writer stores distances,
and has none for such a row. -/
def FallsAt (first : Option Entry) (es : List Entry) (i : Nat) : Prop :=
  ∃ p e, rowBefore first es i = some p ∧ es[i]? = some e ∧ e.tileId < p.tileId

/-- The offset of a row is the largest word, and no row before it ends there. The writer
stores one more than the offset, which no word holds here, unless the row goes on where the
last one ended. -/
def StuckAt (first : Option Entry) (es : List Entry) (i : Nat) : Prop :=
  ∃ e, es[i]? = some e ∧ e.offset.toNat = Word.largest ∧
    ∀ p, rowBefore first es i = some p → p.stop ≠ Word.largest

/-- The first number with a property. An error names it, as the writer stops there. -/
def FirstAt (P : Nat → Prop) (i : Nat) : Prop := P i ∧ ∀ j < i, ¬P j

/-- What holds of the first row holds there first. -/
theorem FirstAt.zero {P : Nat → Prop} (here : P 0) : FirstAt P 0 :=
  ⟨here, fun j lt => absurd lt (Nat.not_lt_zero j)⟩

/-- What does not hold of the first row and holds first somewhere in the others holds first
there. -/
theorem FirstAt.succ {P Q : Nat → Prop} {i : Nat} (not_here : ¬P 0)
    (shift : ∀ i, P (i + 1) ↔ Q i) (later : FirstAt Q i) : FirstAt P (i + 1) := by
  refine ⟨(shift i).mpr later.1, fun j lt => ?_⟩
  cases j with
  | zero => exact not_here
  | succ j => exact fun earlier => later.2 j (Nat.lt_of_succ_lt_succ lt) ((shift j).mp earlier)

variable {first : Option Entry} {e : Entry} {es : List Entry}

/-- Behind the first row the rows of the tail are looked at, with the first row in front of
them. -/
theorem rowBefore_cons_succ (i : Nat) :
    rowBefore first (e :: es) (i + 1) = rowBefore (some e) es i := by
  cases i <;> rfl

/-- A number falls behind the first row just if it falls in the tail. -/
theorem fallsAt_cons_succ_iff (i : Nat) :
    FallsAt first (e :: es) (i + 1) ↔ FallsAt (some e) es i := by
  rw [FallsAt, FallsAt, rowBefore_cons_succ, List.getElem?_cons_succ]

/-- An offset has no code behind the first row just if it has none in the tail. -/
theorem stuckAt_cons_succ_iff (i : Nat) :
    StuckAt first (e :: es) (i + 1) ↔ StuckAt (some e) es i := by
  rw [StuckAt, StuckAt, rowBefore_cons_succ, List.getElem?_cons_succ]

/-- The writer starts from zero where there is no row before. -/
def lastId (first : Option Entry) : UInt64 := (first.map Entry.tileId).getD 0

/-- The number of the first row falls just if it is below the one it is compared with. -/
theorem fallsAt_cons_zero_iff : FallsAt first (e :: es) 0 ↔ e.tileId < lastId first := by
  cases first with
  | none => exact ⟨nofun, fun below => absurd below (UInt64.not_lt.mpr UInt64.zero_le)⟩
  | some p =>
      constructor
      · rintro ⟨_, _, ⟨rfl⟩, ⟨rfl⟩, below⟩
        exact below
      · exact fun below => ⟨p, e, rfl, rfl, below⟩

/-- An offset has no code just if its row is stuck. The row before, if there is one, is what
decides whether the marker can stand for it. -/
theorem stuckAt_cons_zero_iff :
    StuckAt first (e :: es) 0 ↔ codeOfOffset (first.map Entry.stop) e.offset = none := by
  have at_most := Word.toNat_le_largest e.offset
  rw [codeOfOffset]
  constructor
  · rintro ⟨_, ⟨rfl⟩, largest, apart⟩
    have not_continued : first.map Entry.stop ≠ some e.offset.toNat := by
      intro continued
      obtain ⟨p, before, stop_eq⟩ := Option.map_eq_some_iff.mp continued
      exact apart p before (stop_eq.trans largest)
    rw [if_neg not_continued, if_neg (Nat.not_lt.mpr (Nat.le_of_eq largest.symm))]
  · -- There is no code only where the offset does not continue and cannot be increased.
    intro no_code
    split at no_code
    · cases no_code
    · next not_continued =>
      split at no_code
      · cases no_code
      · next no_room =>
        have largest : e.offset.toNat = Word.largest := by omega
        refine ⟨e, rfl, largest, ?_⟩
        rintro p before stop_eq
        exact not_continued (Option.map_eq_some_iff.mpr ⟨p, before, stop_eq.trans largest.symm⟩)

/-- Tile numbers never fall just if they are in order. The first row is compared with what
stands before the rows, which is nothing for a whole directory. -/
theorem never_falls_iff : (∀ i, ¬FallsAt first es i) ↔
    (∀ e ∈ es, lastId first ≤ e.tileId) ∧ es.Pairwise fun e e' => e.tileId ≤ e'.tileId := by
  induction es generalizing first with
  | nil => exact ⟨fun _ => ⟨nofun, .nil⟩, by rintro - i ⟨_, _, -, ⟨⟩, -⟩⟩
  | cons e es ih =>
      -- The first row is compared with the one in front, and all later rows by the
      -- hypothesis.
      rw [← Nat.and_forall_add_one]
      simp only [fallsAt_cons_zero_iff, fallsAt_cons_succ_iff, ih, UInt64.not_lt,
        List.forall_mem_cons, List.pairwise_cons]
      constructor
      · rintro ⟨first_le, later, in_order⟩
        exact ⟨⟨first_le, fun e' mem => UInt64.le_trans first_le (later e' mem)⟩, later, in_order⟩
      · rintro ⟨⟨first_le, -⟩, later, in_order⟩
        exact ⟨first_le, later, in_order⟩

/-! ### Writing each column -/

/-- The tile numbers are written, or the first one that falls is reported. The index in the
error counts from the start of the directory. -/
theorem encodeIds_outcome (index : Nat) (first : Option Entry) (es : List Entry) :
    ((∀ i, ¬FallsAt first es i) ∧ ∃ bytes, encodeIds index (lastId first) es = .ok bytes) ∨
      ∃ i, FirstAt (FallsAt first es) i ∧
        encodeIds index (lastId first) es = .error (.unsorted (index + i)) := by
  induction es generalizing index first with
  | nil =>
      refine .inl ⟨?_, [], rfl⟩
      rintro i ⟨_, _, -, ⟨⟩, -⟩
  | cons e es ih =>
      rw [encodeIds_cons]
      by_cases below : e.tileId < lastId first
      · rw [if_pos below]
        exact .inr ⟨0, FirstAt.zero (fallsAt_cons_zero_iff.mpr below), rfl⟩
      · -- This row does not fall, so the first that does, if any, is one behind it.
        rw [if_neg below]
        have not_here : ¬FallsAt first (e :: es) 0 := mt fallsAt_cons_zero_iff.mp below
        rcases ih (index + 1) (some e) with ⟨never, bytes, written⟩ | ⟨i, falls, failed⟩
        · refine .inl ⟨Nat.and_forall_add_one.mp ⟨not_here, fun i => ?_⟩, ?_⟩
          · exact mt (fallsAt_cons_succ_iff i).mp (never i)
          · exact ⟨_, congrArg (Except.map _) written⟩
        · refine .inr ⟨i + 1, falls.succ not_here fallsAt_cons_succ_iff, ?_⟩
          rw [Nat.add_right_comm] at failed
          exact congrArg (Except.map _) failed

/-- The offsets are written, or the first one that is stuck is reported. Tile numbers are
written before, so an error of theirs comes first. -/
theorem encodeOffsets_outcome (index : Nat) (first : Option Entry) (es : List Entry) :
    ((∀ i, ¬StuckAt first es i) ∧
      ∃ bytes, encodeOffsets index (first.map Entry.stop) es = .ok bytes) ∨
      ∃ i, FirstAt (StuckAt first es) i ∧
        encodeOffsets index (first.map Entry.stop) es = .error (.offsetOverflow (index + i)) := by
  induction es generalizing index first with
  | nil =>
      refine .inl ⟨?_, [], rfl⟩
      rintro i ⟨_, ⟨⟩, -⟩
  | cons e es ih =>
      rw [encodeOffsets_cons]
      cases coded : codeOfOffset (first.map Entry.stop) e.offset with
      | none => exact .inr ⟨0, FirstAt.zero (stuckAt_cons_zero_iff.mpr coded), rfl⟩
      | some code =>
          have not_here : ¬StuckAt first (e :: es) 0 := by
            rw [stuckAt_cons_zero_iff, coded]
            nofun
          rcases ih (index + 1) (some e) with ⟨never, bytes, written⟩ | ⟨i, stuck, failed⟩
          · refine .inl ⟨Nat.and_forall_add_one.mp ⟨not_here, fun i => ?_⟩, ?_⟩
            · exact mt (stuckAt_cons_succ_iff i).mp (never i)
            · exact ⟨_, congrArg (Except.map _) written⟩
          · refine .inr ⟨i + 1, stuck.succ not_here stuckAt_cons_succ_iff, ?_⟩
            rw [Nat.add_right_comm] at failed
            exact congrArg (Except.map _) failed

/-! ### Writing a directory -/

/-- A directory is written unless a tile number falls or, where none does, an offset is stuck.
The first row at fault is reported. -/
theorem encode_cases (d : Directory) :
    ((∀ i, ¬FallsAt none d.entries i) ∧ (∀ i, ¬StuckAt none d.entries i) ∧
      ∃ bytes, encode d = .ok bytes) ∨
    (∃ i, FirstAt (FallsAt none d.entries) i ∧ encode d = .error (.unsorted i)) ∨
    ((∀ i, ¬FallsAt none d.entries i) ∧
      ∃ i, FirstAt (StuckAt none d.entries) i ∧ encode d = .error (.offsetOverflow i)) := by
  -- Offsets are looked at only where no tile number falls.
  rcases encodeIds_outcome 0 none d.entries with ⟨never, ids, ids_eq⟩ | ⟨i, falls, failed⟩
  · rcases encodeOffsets_outcome 0 none d.entries with ⟨never', offsets, offsets_eq⟩
      | ⟨i, stuck, failed⟩
    · exact .inl ⟨never, never', _, encode_eq_ok_iff.mpr ⟨ids, offsets, ids_eq, offsets_eq, rfl⟩⟩
    · refine .inr (.inr ⟨never, i, stuck, ?_⟩)
      have ids_eq' : encodeIds 0 0 d.entries = .ok ids := ids_eq
      have failed' : encodeOffsets 0 none d.entries = .error (.offsetOverflow i) :=
        Nat.zero_add i ▸ failed
      rw [encode, ids_eq', failed']
      rfl
  · refine .inr (.inl ⟨i, falls, ?_⟩)
    have failed' : encodeIds 0 0 d.entries = .error (.unsorted i) := Nat.zero_add i ▸ failed
    rw [encode, failed']
    rfl

/-- Which directories can be written, which row is reported otherwise, and that a written
directory is read back whatever follows it. No list in memory has more rows than a word can
count. -/
theorem encode_outcome (d : Directory) :
    ((∃ bytes, encode d = .ok bytes) ↔
      d.entries.Pairwise (fun e e' => e.tileId ≤ e'.tileId) ∧ ∀ i, ¬StuckAt none d.entries i) ∧
    (¬d.entries.Pairwise (fun e e' => e.tileId ≤ e'.tileId) →
      ∃ i, FirstAt (FallsAt none d.entries) i ∧ encode d = .error (.unsorted i)) ∧
    (d.entries.Pairwise (fun e e' => e.tileId ≤ e'.tileId) →
      (∃ i, StuckAt none d.entries i) →
      ∃ i, FirstAt (StuckAt none d.entries) i ∧ encode d = .error (.offsetOverflow i)) ∧
    (d.size ≤ Word.largest → ∀ bytes rest, encode d = .ok bytes →
      decode (bytes ++ rest) = .ok d) := by
  have in_order_iff : d.entries.Pairwise (fun e e' => e.tileId ≤ e'.tileId) ↔
      ∀ i, ¬FallsAt none d.entries i := by
    rw [never_falls_iff]
    exact (and_iff_right fun e _ => UInt64.zero_le).symm
  -- Each of the parts excludes all but one case of what writing comes to.
  rw [in_order_iff]
  refine ⟨⟨?_, ?_⟩, ?_, ?_, ?_⟩
  · rintro ⟨bytes, written⟩
    rcases encode_cases d with ⟨never, never', -⟩ | ⟨i, -, failed⟩ | ⟨-, i, -, failed⟩
    · exact ⟨never, never'⟩
    · cases written.symm.trans failed
    · cases written.symm.trans failed
  · rintro ⟨never, never'⟩
    rcases encode_cases d with ⟨-, -, written⟩ | ⟨i, falls, -⟩ | ⟨-, i, stuck, -⟩
    · exact written
    · exact absurd falls.1 (never i)
    · exact absurd stuck.1 (never' i)
  · intro some_falls
    rcases encode_cases d with ⟨never, -⟩ | found | ⟨never, -⟩
    · exact absurd never some_falls
    · exact found
    · exact absurd never some_falls
  · rintro never ⟨i, stuck⟩
    rcases encode_cases d with ⟨-, never', -⟩ | ⟨j, falls, -⟩ | ⟨-, found⟩
    · exact absurd stuck (never' i)
    · exact absurd falls.1 (never j)
    · exact found
  · intro countable bytes rest written
    rw [decode, decodeRest_encode written countable rest]
    rfl

/-- Offsets up to the largest word are written if the rows before them end there. -/
theorem encode_outcome_largest :
    let d : Directory :=
      ⟨[⟨5, 18446744073709551612, 3, 1⟩, ⟨5, 18446744073709551615, 0, 1⟩,
        ⟨9, 18446744073709551615, 7, 0⟩]⟩
    d.size ≤ Word.largest ∧
    ∃ bytes, encode d = .ok bytes ∧ decode (bytes ++ [1, 2, 3]) = .ok d := by
  intro d
  have countable : d.size ≤ Word.largest := by decide
  have in_order : d.entries.Pairwise fun e e' => e.tileId ≤ e'.tileId := by decide
  have never : ∀ i, ¬StuckAt none d.entries i := by
    -- The first offset is below the largest word, and the others are where the row before
    -- ends.
    rintro (_ | _ | _ | i) ⟨e, found, largest, apart⟩
    · cases found
      exact absurd largest (by decide)
    · exact apart _ rfl rfl
    · exact apart _ rfl rfl
    · cases found
  obtain ⟨bytes, written⟩ := (encode_outcome d).1.mpr ⟨in_order, never⟩
  exact ⟨countable, bytes, written, (encode_outcome d).2.2.2 countable bytes [1, 2, 3] written⟩

end TileArchive.Directory
