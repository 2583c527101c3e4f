import TileArchive.Proofs.Bytes
import TileArchive.Proofs.Reader.Idle

/-!
# `TileArchive.Proofs.Reader.Direct`: looking a tile up in the bytes of an archive

`Content.findTile` looks a tile up in bytes at hand. Nothing is remembered, nothing can fail on
the way, and positions are natural numbers: a leaf or a payload that would lie beyond the
largest word simply lies outside the archive.

A reader computes positions in words that stop at the largest one. For an archive that is
shorter than the largest word this makes no difference (`run_lookUp`): the results are the same
up to the texts of read errors, which name positions.

## The reference

`Content.findTile` is what a look-up is held against. It shares with the reader how a directory is
decoded and how a row is found in one, which have their own specifications
(`Proofs/Directory/Format.lean`, `Proofs/Directory/Search.lean`). It does not share anything about
reading: neither ranges nor words, neither caches nor sources.

Why texts are left out: a read beyond the end reports the range it was asked for, and where a
position had to stop at the largest word the range differs from the true one. Kinds of errors, and
errors of any other sort, are compared exactly (`SameUpToText`).
-/

set_option autoImplicit false

namespace TileArchive

/-- The error without the text that a failed read carries. The text names a range, and the
direct look-up has no ranges but positions. -/
def ReadError.plain : ReadError → ReadError
  | .io error => .io ⟨error.kind, none⟩
  | error => error

/-- The results are equal, or are errors that differ at most in the texts of failed reads.
Such a text tells which part of the program has asked, so it is not the same for every way
to a result. -/
inductive SameUpToText {α : Type} : Except ReadError α → Except ReadError α → Prop where
  | ok (value : α) : SameUpToText (.ok value) (.ok value)
  | error {e e' : ReadError} : e.plain = e'.plain → SameUpToText (.error e) (.error e')

/-- The bytes can be addressed: every position inside them lies below the largest word.
Positions that were saturated then lie outside, as do the true ones that they stand for. -/
def Content.Addressable (bytes : Bytes) : Prop := bytes.length < Word.largest

instance (bytes : Bytes) : Decidable (Content.Addressable bytes) :=
  inferInstanceAs (Decidable (_ < _))

namespace Content

/-- Reads bytes at any position. Nothing saturates here, since positions and lengths are
natural numbers. -/
def readAt (bytes : Bytes) (position length : Nat) : Except ReadError Bytes :=
  if position + length ≤ bytes.length then .ok (Bytes.slice bytes position length)
  else .error (.io ⟨.unexpectedEof, none⟩)

/-- The directory at a position. Without bytes it has no rows, wherever it lies. -/
def directoryAt (h : Header) (bytes : Bytes) (position length : Nat) :
    Except ReadError Directory :=
  if length = 0 then .ok .empty else readAt bytes position length >>= decodeDirectory h

/-- Looks a tile number up, starting at the directory at a position and visiting at most
`depth` directories. -/
def findFrom (h : Header) (bytes : Bytes) (id : UInt64) :
    (depth position length : Nat) → Except ReadError (Option Bytes)
  | 0, _, _ => .ok none
  | depth + 1, position, length =>
    match directoryAt h bytes position length with
    | .error e => .error e
    | .ok directory =>
      match directory.find? id with
      | none => .ok none
      | some e =>
        if e.isPointer then
          findFrom h bytes id depth (h.leafDirectories.offset.toNat + e.offset.toNat) e.length.toNat
        else
          (readAt bytes (h.tileData.offset.toNat + e.offset.toNat) e.length.toNat).map some

/-- Looks a tile up. No cache is consulted, and each directory is read where it is used. -/
def findTile (h : Header) (bytes : Bytes) (c : TileCoord) : Except ReadError (Option Bytes) :=
  match h.rootRange with
  | .error e => .error e
  | .ok range => findFrom h bytes c.tileId maxDirectories range.offset.toNat range.length.toNat

/-- Looks up the tile with a zoom, column and row. Outside the grid there are no tiles. -/
def findTileAt (h : Header) (bytes : Bytes) (z x y : Nat) : Except ReadError (Option Bytes) :=
  match TileCoord.of? z x y with
  | .error _ => .ok none
  | .ok c => findTile h bytes c

end Content

/-! ### Results up to texts -/

/-- A result is the same as itself. -/
theorem SameUpToText.refl {α : Type} (a : Except ReadError α) : SameUpToText a a := by
  cases a with
  | error e => exact .error rfl
  | ok value => exact .ok value

/-- Going on alike keeps results equal up to texts. -/
theorem SameUpToText.bind {α β : Type} {a b : Except ReadError α} (same : SameUpToText a b)
    {f g : α → Except ReadError β} (next : ∀ value, SameUpToText (f value) (g value)) :
    SameUpToText (a >>= f) (b >>= g) := by
  cases same with
  | ok value => exact next value
  | error plain_eq => exact .error plain_eq

/-! ### Positions in words and in numbers -/

/-- Reading at a position in words is reading at the position itself: one that does not fit a
word lies outside the archive, and so does the largest word. -/
theorem read_sameUpToText {bytes : Bytes} (addressable : Content.Addressable bytes)
    {range : ByteRange} {position : Nat}
    (offset_eq : range.offset.toNat = min position Word.largest) :
    SameUpToText ((fetchBytes range).run (Content.read bytes))
      (Content.readAt bytes position range.length.toNat) := by
  have addressable : bytes.length < Word.largest := addressable
  have run_eq : (fetchBytes range).run (Content.read bytes)
      = (Content.read bytes range).mapError .io := rfl
  rw [run_eq, Content.read, Content.readAt, offset_eq]
  -- Inside the archive the position is its own word. Outside, the word lies outside as well:
  -- it is the position or the largest word, and the archive ends before that.
  by_cases fits : position + range.length.toNat ≤ bytes.length
  · have below : min position Word.largest = position := Nat.min_eq_left (by omega)
    rw [below, if_pos fits, if_pos fits]
    exact .ok _
  · have outside : ¬ min position Word.largest + range.length.toNat ≤ bytes.length := by omega
    rw [if_neg fits, if_neg outside]
    exact .error rfl

/-- A directory is loaded from where it is, or lies outside the archive in both readings. A
position beyond the words is cut to the largest of them, where no archive has a byte. -/
theorem loadDirectory_sameUpToText {bytes : Bytes} (addressable : Content.Addressable bytes)
    (h : Header) {range : ByteRange} {position : Nat}
    (offset_eq : range.offset.toNat = min position Word.largest) :
    SameUpToText ((loadDirectory h range).run (Content.read bytes))
      (Content.directoryAt h bytes position range.length.toNat) := by
  have empty_iff : range.isEmpty = true ↔ range.length.toNat = 0 := by
    rw [ByteRange.isEmpty, beq_iff_eq, ← UInt32.toNat_inj]
    rfl
  unfold loadDirectory Content.directoryAt
  -- A range without bytes is not read, so it does not matter where it lies.
  by_cases empty : range.isEmpty = true
  · rw [if_pos empty, if_pos (empty_iff.mp empty)]
    exact .refl _
  · rw [if_neg empty, if_neg (mt empty_iff.mpr empty), Fetch.run_bind]
    exact (read_sameUpToText addressable offset_eq).bind fun _ => .refl _

/-- What a look-up in a directory comes to, when every need is answered by the truth. It is
the recursion of `descend` with the questions answered. -/
theorem run_descend_succ (answer : ByteRange → Except IoError Bytes) (h : Header) (id : UInt64)
    (depth : Nat) (range : ByteRange) :
    (descend h id (depth + 1) range).run (Need.truth h answer)
      = match (loadDirectory h range).run answer with
        | .error e => .error e
        | .ok directory =>
          match directory.find? id with
          | none => .ok none
          | some e =>
            if e.isPointer then (descend h id depth (h.leafRange e)).run (Need.truth h answer)
            else ((loadPayload (h.payloadRange e)).run answer).map some := by
  -- The answer to a need has a type of its own, which the equation leaves behind.
  have ask_eq (next : Except ReadError Directory → Query (Except ReadError (Option Bytes))) :
      Query.run (Need.truth h answer) (.ask (.directory range) next)
        = Query.run (Need.truth h answer) (next ((loadDirectory h range).run answer)) := rfl
  refine (ask_eq _).trans ?_
  cases (loadDirectory h range).run answer with
  | error e => rfl
  | ok directory =>
      simp only
      cases directory.find? id with
      | none => rfl
      | some e =>
          simp only
          split <;> rfl

/-- A look-up from a directory on is the direct one. The induction is on the number of
directories that may still be visited. -/
theorem run_descend {bytes : Bytes} (addressable : Content.Addressable bytes) (h : Header)
    (id : UInt64) (depth : Nat) {range : ByteRange} {position : Nat}
    (offset_eq : range.offset.toNat = min position Word.largest) :
    SameUpToText ((descend h id depth range).run (Need.truth h (Content.read bytes)))
      (Content.findFrom h bytes id depth position range.length.toNat) := by
  induction depth generalizing range position with
  | zero => exact .refl _
  | succ depth ih =>
      have loaded := loadDirectory_sameUpToText addressable h offset_eq
      rw [run_descend_succ, Content.findFrom]
      -- Both sides go on with the same directory, or stop with errors alike up to texts.
      generalize (loadDirectory h range).run (Content.read bytes) = read at loaded
      generalize Content.directoryAt h bytes position range.length.toNat = direct at loaded
      cases loaded with
      | error plain_eq => exact .error plain_eq
      | ok directory =>
          simp only
          cases directory.find? id with
          | none => exact .ok none
          | some e =>
              simp only
              by_cases pointer : e.isPointer = true
              · rw [if_pos pointer, if_pos pointer]
                have offset_eq : (h.leafRange e).offset.toNat
                    = min (h.leafDirectories.offset.toNat + e.offset.toNat) Word.largest :=
                  Word.toNat_addSat _ _
                exact ih offset_eq
              · rw [if_neg pointer, if_neg pointer]
                have offset_eq : (h.payloadRange e).offset.toNat
                    = min (h.tileData.offset.toNat + e.offset.toNat) Word.largest :=
                  Word.toNat_addSat _ _
                exact (read_sameUpToText addressable offset_eq).bind fun value => .ok (some value)

/-- Looking a tile up by true answers is the direct look-up. -/
theorem run_lookUp {bytes : Bytes} (addressable : Content.Addressable bytes) (h : Header)
    (c : TileCoord) :
    SameUpToText ((lookUp h c).run (Need.truth h (Content.read bytes)))
      (Content.findTile h bytes c) := by
  unfold lookUp Content.findTile
  cases h.rootRange with
  | error e => exact .refl _
  | ok range =>
      -- The root range is a word to begin with.
      have offset_eq : range.offset.toNat = min range.offset.toNat Word.largest :=
        (Nat.min_eq_left (Word.toNat_le_largest _)).symm
      exact run_descend addressable h c.tileId maxDirectories offset_eq

/-- The same for a tile that is given by zoom, column and row. -/
theorem run_lookUpAt {bytes : Bytes} (addressable : Content.Addressable bytes) (h : Header)
    (z x y : Nat) :
    SameUpToText ((lookUpAt h z x y).run (Need.truth h (Content.read bytes)))
      (Content.findTileAt h bytes z x y) := by
  unfold lookUpAt Content.findTileAt
  cases TileCoord.of? z x y with
  | error e => exact .refl _
  | ok c => exact run_lookUp addressable h c

end TileArchive
