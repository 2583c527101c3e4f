import TileArchive.Proofs.Bytes
import TileArchive.Proofs.Digits
import TileArchive.Proofs.Source.Retries
import TileArchive.Source.RangeServer

/-!
# `TileArchive.Proofs.Source.RangeServer`: reading through a range server

A range server sends what exists of a range and says in a header what that is. The numbers in
headers are written and read in decimal digits, so server and reader understand each other:

* `requested?_requestHeader`: the server finds the positions that the reader asks for.
* `names?_contentRange`: the reader takes the part that is sent for the one asked for
  exactly where position and number of bytes are the same. It can always count them.

A read of at least one byte therefore ends with the first reply. Ranges inside the file and
ranges behind it are read as from the bytes at hand. Of a range that straddles the end the
server sends a shorter part, which the reader takes for a wrong one and not for the end of
the file (`read_agrees_unless_straddles`).

The three places of a range, inside, straddling the end and beyond it, have one lemma each on the
verdict (`judge_of_within`, `judge_of_straddles`, `judge_of_beyond`). None of the three verdicts
asks for another attempt, so `read_of_settled` turns them into the outcome of the whole read.

A file has at most as many bytes as a word counts. The header of a range server names positions
inside of the file, so its count never overflows here.
-/

set_option autoImplicit false

namespace TileArchive

/-- A range begins inside a file of some size and ends beyond it. A server sends the part
that exists, and this is where its answer and the expected error differ. -/
def ByteRange.Straddles (range : ByteRange) (size : Nat) : Prop :=
  range.offset.toNat < size ∧ size < range.offset.toNat + range.length.toNat

namespace Http

/-! ### Numbers in headers -/

/-- A number as it stands in a header. -/
def decimal (n : Nat) : Bytes := (Nat.toDigits 10 n).map fun c => UInt8.ofNat c.toNat

/-- A number is written with its decimal digits. -/
theorem utf8_toString (n : Nat) : (toString n).toUTF8.data.toList = decimal n := by
  rw [Nat.toString_eq_ofList_toDigits]
  exact Text.utf8_ofList fun c mem => by have := Digits.toNat_of_mem mem; omega

/-- The bytes of a number are the codes of its digits. -/
theorem map_toNat_decimal (n : Nat) :
    (decimal n).map UInt8.toNat = (Nat.toDigits 10 n).map Char.toNat := by
  rw [decimal, List.map_map]
  refine List.map_congr_left fun c written => ?_
  have digit := Digits.toNat_of_mem written
  have fits : c.toNat < UInt8.size := Nat.lt_of_le_of_lt digit.2 (by decide)
  exact UInt8.toNat_ofNat_of_lt' fits

/-- Written digits are digits. -/
theorem toNat_of_mem_decimal {n : Nat} {b : UInt8} (mem : b ∈ decimal n) :
    48 ≤ b.toNat ∧ b.toNat ≤ 57 := by
  have code := List.mem_map_of_mem (f := UInt8.toNat) mem
  rw [map_toNat_decimal] at code
  obtain ⟨c, written, code_eq⟩ := List.mem_map.1 code
  exact code_eq ▸ Digits.toNat_of_mem written

/-- The bytes between numbers are no digits. -/
theorem not_mem_decimal {n : Nat} {b : UInt8} (apart : b.toNat < 48) : b ∉ decimal n :=
  fun mem => absurd (toNat_of_mem_decimal mem).1 (by omega)

/-- The value of the digits of a number is the number. -/
theorem digitsValue_decimal (n : Nat) : digitsValue (decimal n) = n := by
  let gather (value code : Nat) : Nat := value * 10 + (code - 48)
  calc digitsValue (decimal n)
      = (decimal n).foldl (fun value b => gather value b.toNat) 0 := rfl
    _ = ((decimal n).map UInt8.toNat).foldl gather 0 := List.foldl_map.symm
    _ = ((Nat.toDigits 10 n).map Char.toNat).foldl gather 0 := by rw [map_toNat_decimal]
    _ = (Nat.toDigits 10 n).foldl (fun value c => gather value c.toNat) 0 := List.foldl_map
    _ = n := Digits.foldl_toDigits n

/-- What is written of a number is a number for a reader. -/
theorem numeral_decimal (n : Nat) : Numeral (decimal n) n := by
  have nonempty : decimal n ≠ [] := by simp [decimal]
  have numeral := Numeral.plain nonempty fun _ mem => toNat_of_mem_decimal mem
  rwa [digitsValue_decimal] at numeral

/-- A number that fits a word is read back from its digits. -/
theorem parseWord?_decimal {n : Nat} (fits : n ≤ Word.largest) :
    parseWord? (decimal n) = some (UInt64.ofNat n) := by
  rw [parseWord?_eq_some_iff, Word.toNat_ofNat fits]
  exact numeral_decimal n

/-! ### Headers -/

/-- The bytes of the header that asks for a range. -/
theorem utf8_requestHeader (range : ByteRange) :
    (requestHeader range).toUTF8.data.toList
      = [98, 121, 116, 101, 115, 61]
        ++ (decimal range.offset.toNat ++ 45 :: decimal (lastPosition range).toNat) := by
  have header_eq : requestHeader range
      = "bytes=" ++ toString range.offset.toNat ++ "-" ++ toString (lastPosition range).toNat :=
    rfl
  rw [header_eq]
  simp only [Text.utf8_append, utf8_toString, List.append_assoc]
  rfl

/-- The bytes of the header that names a part. -/
theorem contentRange_eq (first last size : Nat) :
    contentRange first last size
      = [98, 121, 116, 101, 115, 32]
        ++ (decimal first ++ 45 :: (decimal last ++ 47 :: decimal size)) := by
  have header_eq : s!"bytes {first}-{last}/{size}"
      = "bytes " ++ toString first ++ "-" ++ toString last ++ "/" ++ toString size := rfl
  rw [contentRange, header_eq]
  simp only [Text.utf8_append, utf8_toString, List.append_assoc]
  rfl

/-- The part that a header names is read back from it, whatever the size of the file. -/
theorem parseRange?_contentRange {first last : Nat} (firstFits : first ≤ Word.largest)
    (lastFits : last ≤ Word.largest) (size : Nat) :
    parseRange? (contentRange first last size)
      = some (UInt64.ofNat first, UInt64.ofNat last) := by
  rw [parseRange?_eq_some_iff, Word.toNat_ofNat firstFits, Word.toNat_ofNat lastFits]
  refine ⟨decimal first, decimal last, decimal size, ?_, ?_, not_mem_decimal (by decide),
    numeral_decimal first, numeral_decimal last⟩
  · simp [contentRange_eq, unit]
  · simp [not_mem_decimal (b := 47) (by decide)]

/-- The header that names a part is a text, so a reader looks at it. -/
theorem printable_contentRange (first last size : Nat) :
    printable (contentRange first last size) = true := by
  have digits (n : Nat) : printable (decimal n) = true := by
    refine List.all_eq_true.2 fun b mem => ?_
    have digit := toNat_of_mem_decimal mem
    simp [UInt8.le_iff_toNat_le, UInt8.lt_iff_toNat_lt]
    omega
  simp only [printable] at digits
  simp [printable, contentRange_eq, digits]

/-- The positions that a reader asks for are those that a server finds in the header. -/
theorem requested?_requestHeader (range : ByteRange) :
    requested? (requestHeader range).toUTF8.data.toList
      = some (range.offset, lastPosition range) := by
  have separate : (45 : UInt8) ∉ decimal range.offset.toNat := not_mem_decimal (by decide)
  rw [utf8_requestHeader]
  simp [requested?, splitAt?_eq_some_iff.mpr ⟨separate, rfl⟩,
    parseWord?_decimal (Word.toNat_le_largest _)]

/-- The server answers a range by its first and its last position. -/
theorem serveRange_eq (content : Bytes) (range : ByteRange) :
    serveRange content range
      = serve content range.offset.toNat (lastPosition range).toNat := by
  rw [serveRange, serveHeader, requested?_requestHeader]

/-! ### Which part is the one asked for -/

/-- The header names the range asked for where it begins at the same position and names as
many bytes. A file has fewer bytes than a word can count, so they are counted for every part. -/
theorem names?_contentRange {first last size : Nat} (le : first ≤ last) (within : last < size)
    (sized : size ≤ Word.largest) (range : ByteRange) :
    names? (contentRange first last size) range
      = some (decide (first = range.offset.toNat ∧ last - first + 1 = range.length.toNat)) := by
  have last_fits : last ≤ Word.largest := Nat.le_of_lt (Nat.lt_of_lt_of_le within sized)
  have first_fits : first ≤ Word.largest := Nat.le_trans le last_fits
  rw [names?, if_pos (printable_contentRange first last size),
    namesPart?_of_parsed (parseRange?_contentRange first_fits last_fits size),
    Word.toNat_ofNat first_fits, Word.toNat_ofNat last_fits, UInt32.toNat_toUInt64]
  split
  · next wrong => simp [show ¬ first = range.offset.toNat by omega]
  · next right =>
    have same : first = range.offset.toNat := by omega
    rw [if_neg (by omega)]
    simp [same]

/-- A range that is not empty has a byte. -/
theorem length_pos {range : ByteRange} (nonempty : range.isEmpty = false) :
    0 < range.length.toNat := by
  refine Nat.pos_of_ne_zero fun zero => ?_
  have zero : range.length = 0 := UInt32.toNat_inj.1 zero
  simp [ByteRange.isEmpty, zero] at nonempty

/-- The last position asked for, where any bytes are. -/
theorem toNat_lastPosition {range : ByteRange} (nonempty : range.isEmpty = false) :
    (lastPosition range).toNat
      = min (range.offset.toNat + range.length.toNat - 1) Word.largest := by
  have one_le : 1 ≤ range.length.toUInt64 := by
    rw [UInt64.le_iff_toNat_le, UInt32.toNat_toUInt64]
    exact length_pos nonempty
  rw [lastPosition, Word.toNat_addSat, UInt64.toNat_sub_of_le _ _ one_le, UInt32.toNat_toUInt64]
  have one : (1 : UInt64).toNat = 1 := rfl
  rw [UInt64.le_iff_toNat_le, one, UInt32.toNat_toUInt64] at one_le
  rw [one, Nat.add_sub_assoc one_le]

/-! ### What becomes of a read

A reply decides a read unless it is worth asking again, and no reply of a range server is. -/

/-- A reply that is not worth asking again decides a read. -/
theorem read_of_settled {c : HttpConfig} (valid : c.validate = .ok ()) {range : ByteRange}
    (nonempty : range.isEmpty = false) {reply : Reply} {outcome : Outcome}
    (verdict : judge range reply = ⟨outcome, false⟩) :
    read c (fun _ => reply) range = (1, outcome) := by
  obtain ⟨attempts, attempts_eq⟩ := Nat.exists_eq_add_one.mpr (maxAttempts_pos valid)
  rw [read, if_neg (by simp [nonempty]), attempts_eq, attempt, verdict]
  rfl

section Replies

variable {content : Bytes} {range : ByteRange} (sized : content.length ≤ Word.largest)
  (nonempty : range.isEmpty = false)

include sized nonempty

/-- The reply to a request for a range that begins inside the file: what exists of it, up to
its end or the end of the file. -/
theorem serveRange_of_inside (inside : range.offset.toNat < content.length) :
    let stop := min (range.offset.toNat + range.length.toNat) content.length
    serveRange content range = .response 206
      (some (contentRange range.offset.toNat (stop - 1) content.length))
      (some (Bytes.slice content range.offset.toNat (stop - range.offset.toNat))) := by
  have positive := length_pos nonempty
  have last_eq := toNat_lastPosition nonempty
  intro stop
  have stop_eq : min ((lastPosition range).toNat + 1) content.length = stop := by omega
  rw [serveRange_eq, serve, if_pos ⟨inside, by omega⟩, stop_eq]

/-- A range inside the file is read. -/
theorem judge_of_within
    (within : range.offset.toNat + range.length.toNat ≤ content.length) :
    judge range (serveRange content range)
      = ⟨.returned (.ok (Bytes.slice content range.offset.toNat range.length.toNat)), false⟩ := by
  have positive := length_pos nonempty
  have stop_eq : min (range.offset.toNat + range.length.toNat) content.length
      = range.offset.toNat + range.length.toNat := Nat.min_eq_left within
  have named : names? (contentRange range.offset.toNat
      (range.offset.toNat + range.length.toNat - 1) content.length) range = some true := by
    rw [names?_contentRange (by omega) (by omega) sized, decide_eq_true ⟨rfl, by omega⟩]
  rw [serveRange_of_inside sized nonempty (by omega), stop_eq, Nat.add_sub_cancel_left]
  simp [judge, judgePart, named, judgeBody, Bytes.length_slice within]

/-- A range that reaches beyond the end of the file is answered with fewer bytes, and the
header that says so is taken for that of another range. -/
theorem judge_of_straddles (straddles : range.Straddles content.length) :
    judge range (serveRange content range)
      = ⟨.returned (.error (otherRange range
          (contentRange range.offset.toNat (content.length - 1) content.length))), false⟩ := by
  obtain ⟨inside, beyond⟩ := straddles
  have stop_eq : min (range.offset.toNat + range.length.toNat) content.length
      = content.length := Nat.min_eq_right (Nat.le_of_lt beyond)
  have unnamed : names? (contentRange range.offset.toNat (content.length - 1) content.length)
      range = some false := by
    rw [names?_contentRange (by omega) (by omega) sized, decide_eq_false (by omega)]
  rw [serveRange_of_inside sized nonempty inside, stop_eq]
  simp [judge, judgePart, unnamed]

omit sized nonempty in
/-- A range that begins at the end of the file or beyond is refused. -/
theorem judge_of_beyond (beyond : content.length ≤ range.offset.toNat) :
    judge range (serveRange content range)
      = ⟨.returned (.error (refusal range 416)), false⟩ := by
  have refused : serve content range.offset.toNat (lastPosition range).toNat
      = .response 416 none (some []) := by
    rw [serve, if_neg fun within => absurd within.1 (Nat.not_lt.2 beyond)]
  rw [serveRange_eq, refused]
  simp [judge, transient]

end Replies

/-- The kind of error for a read of a file at hand that reaches beyond its end. -/
theorem kind_content_read {content : Bytes} {range : ByteRange}
    (outside : content.length < range.offset.toNat + range.length.toNat) :
    (Content.read content range).mapError IoError.kind = .error .unexpectedEof := by
  rw [Content.read, if_neg (Nat.not_le.2 outside)]
  rfl

/-- Through a range server every read of at least one byte takes one request and returns. It
gives the bytes of a range inside the file, and fails with the end of the file where the range
begins at its end or beyond. In both cases that is what a read of the file at hand gives. A range
that straddles the end fails too, but is taken for a reply with another range, so it is the one
case in which the two differ. -/
theorem read_agrees_unless_straddles {c : HttpConfig} (valid : c.validate = .ok ())
    {content : Bytes} (sized : content.length ≤ Word.largest) {range : ByteRange}
    (nonempty : range.isEmpty = false) :
    ∃ result, read c (fun _ => serveRange content range) range = (1, .returned result) ∧
      (range.offset.toNat + range.length.toNat ≤ content.length →
        result = .ok (Bytes.slice content range.offset.toNat range.length.toNat)) ∧
      (content.length ≤ range.offset.toNat →
        result.mapError IoError.kind = .error .unexpectedEof) ∧
      (range.Straddles content.length →
        result.mapError IoError.kind = .error .invalidData) ∧
      (result.mapError IoError.kind = (Content.read content range).mapError IoError.kind
        ↔ ¬ range.Straddles content.length) := by
  have positive := length_pos nonempty
  by_cases within : range.offset.toNat + range.length.toNat ≤ content.length
  · have verdict := judge_of_within sized nonempty within
    refine ⟨_, read_of_settled valid nonempty verdict, ?_⟩
    have apart : ¬ range.Straddles content.length := fun straddles =>
      absurd straddles.2 (Nat.not_lt.2 within)
    have at_hand : Content.read content range
        = .ok (Bytes.slice content range.offset.toNat range.length.toNat) := if_pos within
    rw [at_hand]
    exact ⟨fun _ => rfl, fun beyond => absurd within (by omega),
      fun straddles => absurd straddles apart, iff_of_true rfl apart⟩
  · have at_hand := kind_content_read (Nat.not_le.1 within)
    by_cases beyond : content.length ≤ range.offset.toNat
    · have verdict := judge_of_beyond beyond
      refine ⟨_, read_of_settled valid nonempty verdict, ?_⟩
      have apart : ¬ range.Straddles content.length := fun straddles =>
        absurd straddles.1 (Nat.not_lt.2 beyond)
      rw [at_hand]
      exact ⟨fun inside => absurd inside within, fun _ => rfl,
        fun straddles => absurd straddles apart, iff_of_true rfl apart⟩
    · have straddles : range.Straddles content.length :=
        ⟨Nat.not_le.1 beyond, Nat.not_le.1 within⟩
      have verdict := judge_of_straddles sized nonempty straddles
      refine ⟨_, read_of_settled valid nonempty verdict, ?_⟩
      rw [at_hand]
      refine ⟨fun inside => absurd inside within, fun after => absurd after beyond,
        fun _ => rfl, iff_of_false ?_ (not_not_intro straddles)⟩
      -- The kinds of the two errors differ.
      rintro ⟨⟩

/-- The theorem holds of a range inside eight bytes, of one that straddles their end and of
one behind it. -/
theorem read_agrees_unless_straddles_eight :
    (∃ result, read .standard (fun _ => serveRange [0, 1, 2, 3, 4, 5, 6, 7] ⟨2, 3⟩) ⟨2, 3⟩
        = (1, .returned result) ∧ result = .ok [2, 3, 4]) ∧
      (∃ result, read .standard (fun _ => serveRange [0, 1, 2, 3, 4, 5, 6, 7] ⟨6, 4⟩) ⟨6, 4⟩
        = (1, .returned result) ∧ result.mapError IoError.kind = .error .invalidData) ∧
      ∃ result, read .standard (fun _ => serveRange [0, 1, 2, 3, 4, 5, 6, 7] ⟨8, 1⟩) ⟨8, 1⟩
        = (1, .returned result) ∧ result.mapError IoError.kind = .error .unexpectedEof := by
  have sized : [0, 1, 2, 3, 4, 5, 6, (7 : UInt8)].length ≤ Word.largest := by decide
  have reads {range : ByteRange} (nonempty : range.isEmpty = false) :=
    read_agrees_unless_straddles (c := .standard) rfl sized nonempty
  have at_two : (⟨2, 3⟩ : ByteRange).isEmpty = false := rfl
  have at_six : (⟨6, 4⟩ : ByteRange).isEmpty = false := rfl
  have at_eight : (⟨8, 1⟩ : ByteRange).isEmpty = false := rfl
  obtain ⟨_, within_eq, within, -⟩ := reads at_two
  obtain ⟨_, straddling_eq, -, -, straddling, -⟩ := reads at_six
  obtain ⟨_, beyond_eq, -, beyond, -⟩ := reads at_eight
  exact ⟨⟨_, within_eq, within (by decide)⟩,
    ⟨_, straddling_eq, straddling ⟨by decide, by decide⟩⟩,
    ⟨_, beyond_eq, beyond (by decide)⟩⟩

/-- Of the last two of eight bytes and two more a read through a server says that the reply
is for another range, where a read of the bytes at hand says that they end too early. -/
theorem straddling_read_differs :
    (∃ result, read .standard (fun _ => serveRange [0, 1, 2, 3, 4, 5, 6, 7] ⟨6, 4⟩) ⟨6, 4⟩
        = (1, .returned result) ∧ result.mapError IoError.kind = .error .invalidData) ∧
      (Content.read [0, 1, 2, 3, 4, 5, 6, 7] ⟨6, 4⟩).mapError IoError.kind
        = .error .unexpectedEof := by
  have sized : [0, 1, 2, 3, 4, 5, 6, (7 : UInt8)].length ≤ Word.largest := by decide
  have nonempty : (⟨6, 4⟩ : ByteRange).isEmpty = false := rfl
  have verdict := judge_of_straddles sized nonempty ⟨by decide, by decide⟩
  exact ⟨⟨_, read_of_settled rfl nonempty verdict, rfl⟩, rfl⟩

end Http

end TileArchive
