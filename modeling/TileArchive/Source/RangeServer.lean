import TileArchive.Source.Http

/-!
# `TileArchive.Source.RangeServer`: a web server that sends parts of a file

A range server answers a request for positions `first` to `last` of a file. Where the first
position lies inside the file it sends the part that exists and names it; otherwise it
refuses. The positions stand in a header of the request. A header of another form is passed
over, and the whole file is sent.

This is the server that `Http.read` expects, in its simplest form: it is always there, and it never
sends less than it names. What a server in trouble may send is any other list of replies, and is
treated by `Proofs/Source/Retries.lean`.
-/

set_option autoImplicit false

namespace TileArchive.Http

/-- The header that names a part of a file. -/
def contentRange (first last size : Nat) : Bytes :=
  s!"bytes {first}-{last}/{size}".toUTF8.data.toList

/-- The reply to a request for positions `first` to `last` of a file. -/
def serve (content : Bytes) (first last : Nat) : Reply :=
  if first < content.length ∧ first ≤ last then
    let stop := min (last + 1) content.length
    .response 206 (some (contentRange first (stop - 1) content.length))
      (some (Bytes.slice content first (stop - first)))
  else .response 416 none (some [])

/-- First and last position that the header `bytes=first-last` asks for. -/
def requested? : Bytes → Option (UInt64 × UInt64)
  | 98 :: 121 :: 116 :: 101 :: 115 :: 61 :: positions => do
    let (first, last) ← splitAt? 45 positions
    return (← parseWord? first, ← parseWord? last)
  | _ => none

/-- The reply to a request with a header. -/
def serveHeader (content header : Bytes) : Reply :=
  match requested? header with
  | some (first, last) => serve content first.toNat last.toNat
  | none => .response 200 none (some content)

/-- The reply to a request for a range of a file. -/
def serveRange (content : Bytes) (range : ByteRange) : Reply :=
  serveHeader content (requestHeader range).toUTF8.data.toList

end TileArchive.Http
