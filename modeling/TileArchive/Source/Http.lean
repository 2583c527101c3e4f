import TileArchive.Reader.Error
import TileArchive.Source.Basic
import TileArchive.Source.Duration

/-!
# `TileArchive.Source.Http`: archives on a web server

A web server is asked for a range of a file, and answers with a status, possibly a header
that says which range it sends, and a body. `Http.judge` says what one reply means for a
read and whether it is worth asking again. `Http.read` asks until a reply is not worth
asking again or the allowed number of attempts has been made; the last reply decides.

What the client of the web server does is not modelled. A `Reply` is what it delivers: the
status, the header and the body as the server sent them, or the way in which the connection
failed. The replies to all requests of a read are given as a function of the number of the
request, so a statement about every such function is one about every server.

The header comes from a server that need not be trusted, and the bytes that it names are
counted with words. `namesPart?` has no answer where that count does not fit a word. The
reader is built to stop there, and its caller gets neither bytes nor an error. An `Outcome`
keeps this apart from both: `Outcome.overflowed` is passed on by `judgePart`, `judge`,
`attempt` and `read` like a result.

The waits between requests change nothing about the outcome. They are left out, and with them
the time after which a request is given up: the client reports that as `Reply.unreachable`.
-/

set_option autoImplicit false

namespace TileArchive

open Json

/-- How a web server is asked. The number of requests is all that a read takes from it. The
two times are checked and stored, and a reply that takes too long is `Reply.unreachable`. -/
structure HttpConfig where
  /-- The most requests for one read. -/
  maxAttempts : UInt32
  /-- How long a reply may take. -/
  timeout : Duration
  /-- How long to wait before asking again the first time. -/
  backoff : Duration
deriving DecidableEq, Repr, Inhabited

namespace HttpConfig

/-- How a web server is asked unless said otherwise. -/
def standard : HttpConfig := ⟨3, .ofSeconds 180, .ofSeconds 1⟩

/-- Checks that the configuration makes sense. -/
def validate (c : HttpConfig) : Except ReadError Unit :=
  if c.maxAttempts = 0 then .error (.configuration .noAttempts)
  else if c.timeout.isZero then .error (.configuration .noTimeout)
  else .ok ()

/-- Reads a configuration from JSON. -/
def read? {α : Type} [Viewable α] (a : α) : Option HttpConfig := do
  match ← record? ["max_retries", "timeout", "retry_backoff"] a with
  | [some attempts, some timeout, some backoff] =>
    return ⟨UInt32.ofNat (← natural? Word.largest32 attempts), ← Duration.read? timeout,
      ← Duration.read? backoff⟩
  | _ => none

/-- The configuration as a JSON value. -/
def value (c : HttpConfig) : Value :=
  .object [("max_retries", .number (.natural c.maxAttempts.toUInt64)),
    ("timeout", c.timeout.value), ("retry_backoff", c.backoff.value)]

end HttpConfig

namespace Http

/-- What becomes of a request. A request that was never answered is worth another one if the
connection was the trouble. A body that breaks off counts as a reply without one. -/
inductive Reply where
  /-- There is no reply: the connection failed or took too long. -/
  | unreachable
  /-- There is no reply for another reason. -/
  | broken
  /-- A reply with a status, the header that says which range is sent, and a body, unless
  the body breaks off. -/
  | response (status : Nat) (contentRange : Option Bytes) (body : Option Bytes)
deriving DecidableEq, Repr

/-! ## The range sent -/

/-- A natural number in digits, possibly after a plus sign, that fits a word. -/
def parseWord? (text : Bytes) : Option UInt64 :=
  let digits := match text with
    | 43 :: rest => rest
    | text => text
  if digits = [] ∨ !digits.all fun b => 48 ≤ b && b ≤ 57 then none
  else
    let value := digits.foldl (fun n b => n * 10 + (b.toNat - 48)) 0
    if Word.largest < value then none else some (UInt64.ofNat value)

/-- What stands before and after the first occurrence of a byte. -/
def splitAt? (mark : UInt8) : Bytes → Option (Bytes × Bytes)
  | [] => none
  | b :: rest =>
    if b = mark then some ([], rest)
    else (splitAt? mark rest).map fun (front, back) => (b :: front, back)

/-- What follows the unit at the front of the header. -/
def afterUnit? : Bytes → Option Bytes
  | 98 :: 121 :: 116 :: 101 :: 115 :: 32 :: rest => some rest
  | _ => none

/-- First and last position in the header `bytes first-last/size`, whatever the size. -/
def parseRange? (header : Bytes) : Option (UInt64 × UInt64) := do
  let rest ← afterUnit? header
  let (range, _) ← splitAt? 47 rest
  let (first, last) ← splitAt? 45 range
  return (← parseWord? first, ← parseWord? last)

/-- Whether the header names `length` bytes from `start` on. There is no answer where the header
names more bytes than a word can count. -/
def namesPart? (header : Bytes) (start length : UInt64) : Option Bool :=
  match parseRange? header with
  | none => some false
  | some (first, last) =>
    -- The bytes are counted only where they begin at the right position.
    if last < first ∨ first ≠ start then some false
    else do
      let gap ← Word.sub? last first
      return (← Word.add? gap 1) == length

/-- Whether all bytes of a header are printable. -/
def printable (header : Bytes) : Bool := header.all fun b => (32 ≤ b && b < 127) || b == 9

/-- Whether a header names a range. One with unprintable bytes names none, and is not taken
apart. There is no answer where the bytes that the header names cannot be counted. -/
def names? (header : Bytes) (range : ByteRange) : Option Bool :=
  if printable header then namesPart? header range.offset range.length.toUInt64 else some false

/-- A hexadecimal digit. -/
def hexDigit (n : Nat) : Char :=
  if n < 10 then Char.ofNat (48 + n) else Char.ofNat (87 + n)

/-- A header between quotes, with escapes for quotes and unprintable bytes. -/
def quoted (header : Bytes) : String :=
  let written (b : UInt8) : List Char :=
    if b = 34 then ['\\', '"']
    else if printable [b] then [Char.ofNat b.toNat]
    else ['\\', 'x', hexDigit (b.toNat / 16), hexDigit (b.toNat % 16)]
  String.ofList ('"' :: (header.flatMap written ++ ['"']))

/-! ## Statuses -/

/-- The standard meaning of each status. -/
def meanings : List (Nat × String) :=
  [(100, "Continue"), (101, "Switching Protocols"), (102, "Processing"),
    (103, "Early Hints"), (200, "OK"), (201, "Created"), (202, "Accepted"),
    (203, "Non Authoritative Information"), (204, "No Content"), (205, "Reset Content"),
    (206, "Partial Content"), (207, "Multi-Status"), (208, "Already Reported"),
    (226, "IM Used"), (300, "Multiple Choices"), (301, "Moved Permanently"), (302, "Found"),
    (303, "See Other"), (304, "Not Modified"), (305, "Use Proxy"),
    (307, "Temporary Redirect"), (308, "Permanent Redirect"), (400, "Bad Request"),
    (401, "Unauthorized"), (402, "Payment Required"), (403, "Forbidden"), (404, "Not Found"),
    (405, "Method Not Allowed"), (406, "Not Acceptable"),
    (407, "Proxy Authentication Required"), (408, "Request Timeout"), (409, "Conflict"),
    (410, "Gone"), (411, "Length Required"), (412, "Precondition Failed"),
    (413, "Payload Too Large"), (414, "URI Too Long"), (415, "Unsupported Media Type"),
    (416, "Range Not Satisfiable"), (417, "Expectation Failed"), (418, "I'm a teapot"),
    (421, "Misdirected Request"), (422, "Unprocessable Entity"), (423, "Locked"),
    (424, "Failed Dependency"), (425, "Too Early"), (426, "Upgrade Required"),
    (428, "Precondition Required"), (429, "Too Many Requests"),
    (431, "Request Header Fields Too Large"), (451, "Unavailable For Legal Reasons"),
    (500, "Internal Server Error"), (501, "Not Implemented"), (502, "Bad Gateway"),
    (503, "Service Unavailable"), (504, "Gateway Timeout"),
    (505, "HTTP Version Not Supported"), (506, "Variant Also Negotiates"),
    (507, "Insufficient Storage"), (508, "Loop Detected"), (510, "Not Extended"),
    (511, "Network Authentication Required")]

/-- A status as text: its number and its meaning. -/
def statusText (status : Nat) : String :=
  let meaning := ((meanings.find? fun m => m.1 = status).map (·.2)).getD "<unknown status code>"
  s!"{status} {meaning}"

/-- Whether a status tells of trouble that may pass. -/
def transient (status : Nat) : Bool :=
  (500 ≤ status && status < 600) || status == 429 || status == 408

/-! ## Reading -/

/-- The last position of a range, or the largest word where it does not fit. -/
def lastPosition (range : ByteRange) : UInt64 :=
  Word.addSat range.offset (range.length.toUInt64 - 1)

/-- The header that asks for a range. -/
def requestHeader (range : ByteRange) : String :=
  s!"bytes={range.offset.toNat}-{(lastPosition range).toNat}"

/-- How a read ends. -/
inductive Outcome where
  /-- The caller gets bytes or an error. -/
  | returned (result : Except IoError Bytes)
  /-- The bytes that a header names could not be counted. The reader stops, and the caller gets
  nothing. -/
  | overflowed

/-- What the caller of a read gets, if it gets anything. -/
def Outcome.result : (outcome : Outcome) → outcome ≠ .overflowed → Except IoError Bytes
  | .returned result, _ => result
  | .overflowed, stops => absurd rfl stops

/-- What a reply means for a read, and whether it is worth asking again. The outcome is that
of the read if no further request is made, so it is there in either case. -/
structure Verdict where
  outcome : Outcome
  again : Bool

/-- The verdict on the body of a reply that sends the right range. -/
def judgeBody (range : ByteRange) : Option Bytes → Verdict
  | none => ⟨.returned (.error ⟨.other, none⟩), false⟩
  | some body =>
    if body.length = range.length.toNat then ⟨.returned (.ok body), false⟩
    else ⟨.returned (.error (.of .unexpectedEof
      s!"Incomplete data: expected {range.length.toNat} bytes, received {body.length}")), true⟩

/-- The error for a reply that names another range. -/
def otherRange (range : ByteRange) (header : Bytes) : IoError :=
  .of .invalidData s!"Content-Range {quoted header} does not match {requestHeader range}"

/-- The verdict on a reply that sends a part of the file. -/
def judgePart (range : ByteRange) (contentRange body : Option Bytes) : Verdict :=
  match contentRange with
  | none => judgeBody range body
  | some header =>
    match names? header range with
    | some true => judgeBody range body
    | some false => ⟨.returned (.error (otherRange range header)), false⟩
    | none => ⟨.overflowed, false⟩

/-- The error for a reply that does not send a part of the file. -/
def refusal (range : ByteRange) (status : Nat) : IoError :=
  .of (if status = 416 then .unexpectedEof else .other)
    s!"Range request for {requestHeader range} returned {statusText status}"

/-- The verdict on a reply. -/
def judge (range : ByteRange) : Reply → Verdict
  | .unreachable => ⟨.returned (.error ⟨.other, none⟩), true⟩
  | .broken => ⟨.returned (.error ⟨.other, none⟩), false⟩
  | .response status contentRange body =>
    if status = 206 then judgePart range contentRange body
    else ⟨.returned (.error (refusal range status)), transient status⟩

/-- The error of a read for which no request may be made. -/
def exhausted (range : ByteRange) : IoError :=
  .of .other s!"Maximum retry attempts exceeded for {requestHeader range}"

/-- Asks up to `attempts` times, `made` requests having been made. `replies` are the replies
to all requests in order. Returns the number of requests made with the outcome. -/
def attempt (range : ByteRange) (replies : Nat → Reply) : (attempts made : Nat) → Nat × Outcome
  | 0, made => (made, .returned (.error (exhausted range)))
  | attempts + 1, made =>
    let verdict := judge range (replies made)
    if verdict.again ∧ 0 < attempts then attempt range replies attempts (made + 1)
    else (made + 1, verdict.outcome)

/-- Reads a range, given the replies to all requests, and counts the requests. Nothing is
asked for a range without bytes. -/
def read (c : HttpConfig) (replies : Nat → Reply) (range : ByteRange) : Nat × Outcome :=
  if range.isEmpty then (0, .returned (.ok []))
  else attempt range replies c.maxAttempts.toNat 0

/-- A source whose server replies to a range by a rule, where every read of it returns. -/
def source (c : HttpConfig) (serve : ByteRange → Reply)
    (returns : ∀ range, (read c (fun _ => serve range) range).2 ≠ .overflowed) : Source :=
  .ofAnswer fun range => (read c (fun _ => serve range) range).2.result (returns range)

/-- Requests without an overflow among the verdicts on their replies end without one. -/
theorem attempt_ne_overflowed {range : ByteRange} {replies : Nat → Reply}
    (counted : ∀ i, (judge range (replies i)).outcome ≠ .overflowed) (attempts made : Nat) :
    (attempt range replies attempts made).2 ≠ .overflowed := by
  induction attempts generalizing made with
  | zero => nofun
  | succ attempts ih =>
      rw [attempt]
      split
      · exact ih (made + 1)
      · exact counted made

/-- A server makes a source if no reply of it has a header whose bytes cannot be counted. -/
theorem read_ne_overflowed (c : HttpConfig) {replies : Nat → Reply} {range : ByteRange}
    (counted : ∀ i, (judge range (replies i)).outcome ≠ .overflowed) :
    (read c replies range).2 ≠ .overflowed := by
  rw [read]
  split
  · nofun
  · exact attempt_ne_overflowed counted _ _

end Http

end TileArchive
