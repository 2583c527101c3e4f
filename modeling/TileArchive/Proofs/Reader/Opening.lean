import TileArchive.Build.Layout
import TileArchive.Proofs.Reader.Idle

/-!
# `TileArchive.Proofs.Reader.Opening`: what an opened reader starts with

Opening reads the first 127 bytes. `opened_idle`: whatever reads may fail later, a reader that
opens has the header that the whole archive decodes to, its configuration has been checked, and
it is idle. `open?_ofBytes`: where nothing fails, an archive with a header opens.

A header is decoded from 127 bytes when an archive is opened and from the whole archive in
statements about it. That this is the same is `decode_slice`: every field lies in the first 127
bytes and nothing behind them is looked at. Shorter archives do not open, because the read fails
that asks for as many bytes.

`opened_idle` and `opened_eq` are the starting points of all theorems about histories of a reader.
They take the equation that an archive opened as their hypothesis, `open? … = (_, some (.ok r))`,
and give everything that is known of `r`: its header, its configuration, its source with the
outcomes that are left, and that it remembers nothing yet.
-/

set_option autoImplicit false

namespace TileArchive

namespace Header

/-- A byte in front of a cut stays where it is. -/
theorem byteAt_take {i n : Nat} (inside : i < n) (bytes : Bytes) :
    byteAt (bytes.take n) i = byteAt bytes i := by
  simp [byteAt, List.getD_eq_getElem?_getD, List.getElem?_take_of_lt inside]

/-- A stretch in front of a cut stays as it is. -/
theorem slice_take {i width n : Nat} (inside : i + width ≤ n) (bytes : Bytes) :
    Bytes.slice (bytes.take n) i width = Bytes.slice bytes i width := by
  rw [Bytes.slice, Bytes.slice, List.drop_take, List.take_take, Nat.min_eq_left (by omega)]

/-- The fields lie in the first 127 bytes. -/
theorem decodeFields_take (bytes : Bytes) :
    decodeFields (bytes.take length) = decodeFields bytes := by
  simp (disch := decide) only [decodeFields, sectionAt, positionAt, signedAt, wordAt, byteAt_take,
    slice_take]

/-- A header decodes from the first 127 bytes as from all. -/
theorem decode_slice {bytes : Bytes} (long : length ≤ bytes.length) :
    decode (Bytes.slice bytes 0 length) = decode bytes := by
  have slice_eq : Bytes.slice bytes 0 length = bytes.take length := rfl
  have length_eq : (bytes.take length).length = length := List.length_take_of_le long
  have mark_eq : (bytes.take length).take 7 = bytes.take 7 := by
    rw [List.take_take]
    rfl
  rw [slice_eq, decode, decode, length_eq, mark_eq, byteAt_take (by decide), decodeFields_take,
    if_neg (Nat.lt_irrefl length), if_neg (Nat.not_lt.mpr long)]

/-- Bytes that decode to a header are long enough for one. -/
theorem length_le_of_decode {bytes : Bytes} {h : Header} (decoded : decode bytes = .ok h) :
    length ≤ bytes.length := by
  by_cases short : bytes.length < length
  · rw [decode, if_pos short] at decoded
    cases decoded
  · exact Nat.not_lt.mp short

end Header

namespace Reader

/-- Reading the header hands a read error on. -/
theorem handsOn_fetchHeader : fetchHeader.HandsOn Fetch.failure FailedWith :=
  handsOn_fetchBytes_bind _ _

/-- The header is fetched exactly where the archive decodes to it. An archive that is
shorter than a header fails on both sides, if with different errors. -/
theorem run_fetchHeader_eq_ok_iff (bytes : Bytes) (h : Header) :
    fetchHeader.run (Content.read bytes) = .ok h ↔ Header.decode bytes = .ok h := by
  have run_eq : fetchHeader.run (Content.read bytes)
      = ((Content.read bytes ⟨0, 127⟩).mapError .io >>= fun data =>
          (Header.decode data).mapError .header) := rfl
  have read_eq : Content.read bytes ⟨0, 127⟩ = if Header.length ≤ bytes.length then
      .ok (Bytes.slice bytes 0 Header.length)
    else .error (.of .unexpectedEof
      s!"Read beyond source bounds: {0} + {127} > {bytes.length}") := by
    rw [Content.read]
    rfl
  rw [run_eq, read_eq]
  by_cases long : Header.length ≤ bytes.length
  · rw [if_pos long]
    show (Header.decode (Bytes.slice bytes 0 Header.length)).mapError ReadError.header = _ ↔ _
    rw [Header.decode_slice long]
    cases Header.decode bytes with
    | error e => exact ⟨nofun, nofun⟩
    | ok h' => exact ⟨fun | rfl => rfl, fun | rfl => rfl⟩
  · -- Too few bytes neither are read nor decode to a header.
    rw [if_neg long]
    refine ⟨nofun, ?_⟩
    intro decoded
    exact absurd (Header.length_le_of_decode decoded) long

/-- A reader that opens has the header of the archive and a configuration that makes sense. It
is idle, and its reads turn out as the rest of the outcomes say. -/
theorem opened_idle {bytes : Bytes} {config : ReaderConfig} {outcomes : List (Option IoError)}
    {s : Source} {r : Reader}
    (opened : open? config (.failing bytes outcomes) = (s, some (.ok r))) :
    Header.decode bytes = .ok r.header ∧ r.config = config ∧ config.validate = .ok () ∧
      ∃ used rest, outcomes = used ++ rest ∧ r.Idle (Content.read bytes) rest := by
  obtain ⟨result, t, used, rest, poll_eq, split, serves, ends⟩ :=
    Fetch.poll_serves handsOn_fetchHeader (Source.serves_failing bytes outcomes) false
  rw [open?] at opened
  cases valid : config.validate with
  | error e =>
      rw [valid] at opened
      cases opened
  | ok checked =>
      simp only [valid, poll_eq] at opened
      cases result with
      | error e => cases opened
      | ok h =>
          cases opened
          -- A header was fetched, so its read met no error.
          have fetched := (ends.eq_truth fun _ handed => by cases handed).2
          exact ⟨(run_fetchHeader_eq_ok_iff bytes h).mp fetched.symm, rfl, rfl, used, rest, split,
            .ofHeader h config serves⟩

/-- A reader that has been opened has nothing in its caches. All that it took from the
source is the header. -/
theorem opened_eq {config : ReaderConfig} {source s : Source} {r : Reader}
    (opened : open? config source = (s, some (.ok r))) :
    r = .ofHeader r.header config r.source := by
  rw [open?] at opened
  cases valid : config.validate with
  | error e =>
      rw [valid] at opened
      cases opened
  | ok checked =>
      rw [valid] at opened
      dsimp only at opened
      split at opened
      · next header _ =>
        cases header with
        | error e => cases opened
        | ok h =>
            cases opened
            rfl
      · cases opened

/-- Where opening an archive gives a reader with a property, there is such a reader. -/
theorem exists_opened_with {config : ReaderConfig} {source : Source} {p : Reader → Prop}
    [DecidablePred p]
    (opens : (open? config source).2.any fun result => result.toOption.any fun r => p r) :
    ∃ s r, open? config source = (s, some (.ok r)) ∧ p r := by
  cases open_eq : open? config source with
  | mk s response =>
      rw [open_eq] at opens
      cases response with
      | none => cases opens
      | some result =>
          cases result with
          | error e => cases opens
          | ok r => exact ⟨s, r, rfl, of_decide_eq_true opens⟩

/-- Whether an archive opens can be computed, and then there is a reader. -/
theorem exists_opened {config : ReaderConfig} {source : Source}
    (opens : (open? config source).2.any Except.isOk) :
    ∃ s r, open? config source = (s, some (.ok r)) := by
  have isOk_eq : (Except.isOk : Except ReadError Reader → Bool)
      = fun result => result.toOption.any fun _ => True := by
    funext result
    cases result <;> simp [Except.isOk, Except.toBool, Except.toOption]
  rw [isOk_eq] at opens
  obtain ⟨s, r, open_eq, -⟩ := exists_opened_with opens
  exact ⟨s, r, open_eq⟩

/-- Without failing reads an archive with a header opens. -/
theorem open?_ofBytes {bytes : Bytes} {config : ReaderConfig} {h : Header}
    (decoded : Header.decode bytes = .ok h) (valid : config.validate = .ok ()) :
    ∃ s r, open? config (.ofBytes bytes) = (s, some (.ok r)) ∧ r.header = h ∧
      r.config = config ∧ r.Idle (Content.read bytes) [] := by
  obtain ⟨result, t, used, rest, poll_eq, split, serves, ends⟩ :=
    Fetch.poll_serves handsOn_fetchHeader (Source.serves_ofBytes bytes) false
  obtain ⟨rfl, rfl⟩ := List.nil_eq_append_iff.mp split
  rw [(run_fetchHeader_eq_ok_iff bytes h).mpr decoded] at ends
  cases ends
  refine ⟨t, .ofHeader h config t, ?_, rfl, rfl, .ofHeader h config serves⟩
  simp only [open?, valid, poll_eq]
  rfl

end Reader

/-- An archive whose root directory points to one leaf with two runs: tile number 0 with a
payload of one byte, and numbers 2 to 4 with another of two bytes. -/
def leafArchive : Bytes :=
  (Sections.mk [1, 0, 0, 9, 1] [] [2, 0, 2, 1, 3, 1, 2, 1, 0] [42, 7, 8]).assemble Header.blank

end TileArchive
