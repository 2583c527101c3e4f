import TileArchive.Gzip.Inflate

/-!
# `TileArchive.Gzip.Member`: gzip members

A gzip member is a header, compressed data, and a trailer with a checksum of the data and
their number. The header may carry extra data, a file name, a comment and a checksum of
itself.

* `gunzip` undoes the compression of the member at the front of some bytes and ignores what
  follows it. Both checksums and the number of bytes have to be right, and there may be at
  most `maxContent` of them.
* `gzip` makes a member; it stores the bytes as they are.

## What is assumed

The layout of a member is the published one. A reader of members is expected to check what
can be checked: the magic number and the method, that no flag without a meaning is set, the
checksum of the header where there is one, and both parts of the trailer. Names and comments
are read but limited in length, so that a header cannot be endless. One member is read; what
follows it in a section of an archive is left alone.

What packs is free to compress as it likes. `gzip` is the simplest packer, and it is only
used where a packer has to be named; the archives that a builder makes take one as a
parameter.
-/

set_option autoImplicit false

namespace TileArchive.Gzip

/-- Why some bytes are not unpacked. -/
inductive GzipError where
  /-- The header is cut short, is no gzip header, or its checksum is wrong. -/
  | header
  /-- The compressed data are cut short or have no meaning. -/
  | content
  /-- There are more than `maxContent` bytes of data. -/
  | tooLarge
  /-- The trailer is cut short. -/
  | trailer
  /-- The data have another checksum or number than the trailer says. -/
  | mismatch
deriving DecidableEq, Repr

/-- The text of a gzip error. -/
def GzipError.message : GzipError → String
  | .header => "gzip decompression failed: invalid header"
  | .content => "gzip decompression failed: invalid content"
  | .tooLarge => s!"decompressed size exceeds limit of {maxContent} bytes"
  | .trailer => "gzip decompression failed: incomplete trailer"
  | .mismatch => "gzip decompression failed: content does not match its trailer"

/-! ## Checksums -/

/-- One step of the checksum: divides by the generator polynomial. -/
def checksumStep (c : UInt32) : UInt32 :=
  if c &&& 1 = 1 then (c >>> 1) ^^^ 0xedb88320 else c >>> 1

/-- Takes one byte into the checksum. -/
def checksumByte (c : UInt32) (b : UInt8) : UInt32 :=
  let step := checksumStep
  step (step (step (step (step (step (step (step (c ^^^ b.toUInt32))))))))

/-- The checksum of some bytes. -/
def checksum (bytes : Bytes) : UInt32 :=
  bytes.foldl checksumByte 0xffffffff ^^^ 0xffffffff

/-! ## Headers -/

/-- The longest name or comment that is read. -/
def maxText : Nat := 65535

/-- What follows a text that ends in a zero byte. -/
def skipText (bytes : Bytes) : Option Bytes :=
  let text := bytes.takeWhile (· != 0)
  if maxText < text.length then none
  else match bytes.drop text.length with
    | [] => none
    | _ :: rest => some rest

/-- What follows extra data, whose number stands before them. -/
def skipExtra : Bytes → Option Bytes
  | a :: b :: rest =>
    let count := Bytes.toWord [a, b]
    if rest.length < count then none else some (rest.drop count)
  | _ => none

/-- What follows a checksum of the header, the bytes of `whole` up to here. -/
def skipChecksum (whole : Bytes) : Bytes → Option Bytes
  | a :: b :: rest =>
    let header := whole.take (whole.length - (rest.length + 2))
    if Bytes.toWord [a, b] = (checksum header).toNat % 65536 then some rest else none
  | _ => none

/-- Does a step where a flag is set. -/
def whenSet (flags : UInt8) (bit : Nat) (step : Bytes → Option Bytes) (bytes : Bytes) :
    Option Bytes :=
  if flags.toNat.testBit bit then step bytes else some bytes

/-- What follows the header of a member. -/
def skipHeader (bytes : Bytes) : Option Bytes :=
  match bytes with
  | 0x1f :: 0x8b :: 8 :: flags :: _ :: _ :: _ :: _ :: _ :: _ :: rest => do
    -- The three highest flags have no meaning and must not be set.
    if 32 ≤ flags.toNat then none
    let rest ← whenSet flags 2 skipExtra rest
    let rest ← whenSet flags 3 skipText rest
    let rest ← whenSet flags 4 skipText rest
    whenSet flags 1 (skipChecksum bytes) rest
  | _ => none

/-! ## Members -/

/-- The trailer of a member that holds the given bytes. -/
def trailer (content : Bytes) : Bytes :=
  Bytes.ofWord 4 (checksum content).toNat ++ Bytes.ofWord 4 content.length

/-- The content of the member at the front of some bytes. The checks come in the order of
the bytes, except that the size of the content is checked before the trailer is looked at. -/
def gunzip (data : Bytes) : Except GzipError Bytes :=
  match skipHeader data with
  | none => .error .header
  | some rest =>
    match inflate rest with
    | none => .error .content
    | some (content, rest) =>
      if maxContent < content.length then .error .tooLarge
      else if rest.length < 8 then .error .trailer
      else if rest.take 8 = trailer content then .ok content
      else .error .mismatch

/-- A member that holds the given bytes. -/
def gzip (content : Bytes) : Bytes :=
  [0x1f, 0x8b, 8, 0, 0, 0, 0, 0, 0, 0xff] ++ storeBlocks content ++ trailer content

end TileArchive.Gzip
