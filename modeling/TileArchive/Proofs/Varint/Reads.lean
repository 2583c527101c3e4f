import TileArchive.Proofs.Varint

/-!
# `TileArchive.Proofs.Varint.Reads`: numbers one after another

`Reads` says that some numbers stand one after another at the front of a byte string, and what
follows them. `Cut` says that the byte string ends inside one of them, after whole numbers.

A reader does not look beyond the last byte of a number and cannot do without it
(`decodeFrom_used`). So the bytes that numbers are read from are read as the same numbers
whatever follows them, and whoever ends them early cuts one of the numbers
(`Reads.exists_used`).

Both relations follow the list of numbers and use the reader for one number in each step, so facts
about single numbers become facts about lists by induction on the derivation. `reads_append_iff`
splits a list where a column of a directory ends, and `Cut.of_append` says that a list is cut in its
front or, after the whole front, in its back.
-/

set_option autoImplicit false

namespace TileArchive.Varint

/-- Numbers are read one after another from the front of a byte string, and `rest` is left.
Nothing is said of how the numbers are spelled, which may be longer than need be. -/
inductive Reads : List UInt64 → Bytes → Bytes → Prop where
  | nil (bytes : Bytes) : Reads [] bytes bytes
  | cons {value : UInt64} {values : List UInt64} {bytes rest rest' : Bytes} :
      decode bytes = .ok (value, rest) → Reads values rest rest' →
        Reads (value :: values) bytes rest'

/-- A byte string ends inside one of some numbers. Those before it are whole, so the reader
gets that far and then reports the end. -/
inductive Cut : List UInt64 → Bytes → Prop where
  | here {value : UInt64} {values : List UInt64} {bytes : Bytes} :
      decode bytes = .error .truncated → Cut (value :: values) bytes
  | later {value : UInt64} {values : List UInt64} {bytes rest : Bytes} :
      decode bytes = .ok (value, rest) → Cut values rest → Cut (value :: values) bytes

/-! ### One number -/

/-- A number that is read has its own bytes: they are enough, and none can be spared. The
first part is why what follows is left alone, and the second why every shorter part is cut. -/
theorem decodeFrom_used {index value : Nat} {bytes rest : Bytes} {v : UInt64}
    (read : decodeFrom index value bytes = .ok (v, rest)) :
    ∃ used, bytes = used ++ rest ∧
      (∀ tail, decodeFrom index value (used ++ tail) = .ok (v, tail)) ∧
      ∀ part, part <+: used → part ≠ used → decodeFrom index value part = .error .truncated := by
  induction bytes generalizing index value with
  | nil => cases read
  | cons b bytes ih =>
      rw [decodeFrom] at read
      split at read
      · cases read
      next not_over =>
      split at read
      · -- The last byte of the number is all of what is read here.
        next last =>
        cases read
        refine ⟨[b], rfl, ?_, ?_⟩
        · intro tail
          simp [decodeFrom, not_over, last]
        · intro part begins ne
          rcases List.prefix_cons_iff.mp begins with rfl | ⟨part', rfl, begins'⟩
          · rfl
          · exact absurd (by rw [List.prefix_nil.mp begins']) ne
      next more =>
      split at read
      · cases read
      next early =>
      obtain ⟨used, rfl, enough, needed⟩ := ih read
      refine ⟨b :: used, rfl, ?_, ?_⟩
      · intro tail
        simp only [List.cons_append, decodeFrom, if_neg not_over, if_neg more, if_neg early]
        exact enough tail
      · intro part begins ne
        rcases List.prefix_cons_iff.mp begins with rfl | ⟨part', rfl, begins'⟩
        · rfl
        · simp only [decodeFrom, if_neg not_over, if_neg more, if_neg early]
          exact needed part' begins' fun same => ne (by rw [same])

/-- The bytes of a number are what is read of it, no more and no less. -/
theorem decode_used {bytes rest : Bytes} {value : UInt64}
    (read : decode bytes = .ok (value, rest)) :
    ∃ used, bytes = used ++ rest ∧ (∀ tail, decode (used ++ tail) = .ok (value, tail)) ∧
      ∀ part, part <+: used → part ≠ used → decode part = .error .truncated :=
  decodeFrom_used read

/-- A number takes at least one byte. -/
theorem length_lt_of_decode {bytes rest : Bytes} {value : UInt64}
    (read : decode bytes = .ok (value, rest)) : rest.length < bytes.length := by
  obtain ⟨used, rfl, enough, -⟩ := decode_used read
  -- Otherwise the number could be read from nothing.
  have some_used : used ≠ [] := by
    intro none_used
    have impossible := enough []
    rw [none_used] at impossible
    cases impossible
  have := List.length_pos_iff.mpr some_used
  rw [List.length_append]
  omega

/-! ### Several numbers -/

variable {values values' : List UInt64} {bytes rest : Bytes}

/-- Reading goes on where it stopped. So several columns can be read as one list of numbers,
and one list can be cut into columns. -/
theorem reads_append_iff :
    Reads (values ++ values') bytes rest ↔
      ∃ middle, Reads values bytes middle ∧ Reads values' middle rest := by
  induction values generalizing bytes with
  | nil =>
      constructor
      · intro reads
        exact ⟨bytes, .nil bytes, reads⟩
      · rintro ⟨_, ⟨⟩, reads⟩
        exact reads
  | cons value values ih =>
      constructor
      · rintro (_ | ⟨read, reads⟩)
        obtain ⟨middle, reads, reads'⟩ := ih.mp reads
        exact ⟨middle, .cons read reads, reads'⟩
      · rintro ⟨middle, _ | ⟨read, reads⟩, reads'⟩
        exact .cons read (ih.mpr ⟨middle, reads, reads'⟩)

/-- Every number takes at least one byte. -/
theorem Reads.length_le (reads : Reads values bytes rest) :
    values.length + rest.length ≤ bytes.length := by
  induction reads with
  | nil bytes => simp
  | cons read _ ih =>
      have := length_lt_of_decode read
      rw [List.length_cons]
      omega

/-- What is cut within some numbers is cut within the first ones or within the others. -/
theorem Cut.of_append (cut : Cut (values ++ values') bytes) :
    Cut values bytes ∨ ∃ middle, Reads values bytes middle ∧ Cut values' middle := by
  induction values generalizing bytes with
  | nil => exact .inr ⟨bytes, .nil bytes, cut⟩
  | cons value values ih =>
      rcases cut with ended | ⟨read, cut⟩
      · exact .inl (.here ended)
      · rcases ih cut with cut | ⟨middle, reads, cut⟩
        · exact .inl (.later read cut)
        · exact .inr ⟨middle, .cons read reads, cut⟩

/-- Numbers that are read have their own bytes: they are enough, and whoever ends them early
cuts one of the numbers. -/
theorem Reads.exists_used (reads : Reads values bytes rest) :
    ∃ used, bytes = used ++ rest ∧ (∀ tail, Reads values (used ++ tail) tail) ∧
      ∀ part, part <+: used → part ≠ used → Cut values part := by
  induction reads with
  | nil bytes =>
      refine ⟨[], rfl, .nil, ?_⟩
      intro part begins ne
      exact absurd (List.prefix_nil.mp begins) ne
  | cons read _ ih =>
      obtain ⟨first, rfl, enough, needed⟩ := decode_used read
      obtain ⟨used, rfl, enough', needed'⟩ := ih
      refine ⟨first ++ used, by rw [List.append_assoc], ?_, ?_⟩
      · intro tail
        rw [List.append_assoc]
        exact .cons (enough _) (enough' tail)
      · intro part begins ne
        by_cases whole : first <+: part
        · -- The first number is whole, so a later one is cut.
          obtain ⟨part', rfl⟩ := whole
          have begins' := (List.prefix_append_right_inj first).mp begins
          exact .later (enough part') (needed' part' begins' fun same => ne (by rw [same]))
        · have within : part <+: first :=
            (List.prefix_or_prefix_of_prefix begins (List.prefix_append _ _)).resolve_right whole
          exact .here (needed part within fun same => whole (same ▸ List.prefix_rfl))

end TileArchive.Varint
