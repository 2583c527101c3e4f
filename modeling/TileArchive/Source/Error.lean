/-!
# `TileArchive.Source.Error`: failed reads

A read can fail for many reasons outside the program. An `IoError` has a kind that programs
can act on and, where the source knows more, a text for people.
-/

set_option autoImplicit false

namespace TileArchive

/-- The kinds of failed reads. -/
inductive IoKind where
  | notFound
  | permissionDenied
  | connectionRefused
  | connectionReset
  | hostUnreachable
  | networkUnreachable
  | connectionAborted
  | notConnected
  | addrInUse
  | addrNotAvailable
  | networkDown
  | brokenPipe
  | alreadyExists
  | wouldBlock
  | invalidInput
  | invalidData
  | timedOut
  | writeZero
  | storageFull
  | resourceBusy
  | deadlock
  | interrupted
  | unsupported
  | unexpectedEof
  | outOfMemory
  | other
deriving DecidableEq, Repr

namespace IoKind

/-- The name of a kind. -/
def name : IoKind → String
  | .notFound => "NotFound"
  | .permissionDenied => "PermissionDenied"
  | .connectionRefused => "ConnectionRefused"
  | .connectionReset => "ConnectionReset"
  | .hostUnreachable => "HostUnreachable"
  | .networkUnreachable => "NetworkUnreachable"
  | .connectionAborted => "ConnectionAborted"
  | .notConnected => "NotConnected"
  | .addrInUse => "AddrInUse"
  | .addrNotAvailable => "AddrNotAvailable"
  | .networkDown => "NetworkDown"
  | .brokenPipe => "BrokenPipe"
  | .alreadyExists => "AlreadyExists"
  | .wouldBlock => "WouldBlock"
  | .invalidInput => "InvalidInput"
  | .invalidData => "InvalidData"
  | .timedOut => "TimedOut"
  | .writeZero => "WriteZero"
  | .storageFull => "StorageFull"
  | .resourceBusy => "ResourceBusy"
  | .deadlock => "Deadlock"
  | .interrupted => "Interrupted"
  | .unsupported => "Unsupported"
  | .unexpectedEof => "UnexpectedEof"
  | .outOfMemory => "OutOfMemory"
  | .other => "Other"

/-- All kinds. -/
def all : List IoKind :=
  [.notFound, .permissionDenied, .connectionRefused, .connectionReset, .hostUnreachable,
    .networkUnreachable, .connectionAborted, .notConnected, .addrInUse, .addrNotAvailable,
    .networkDown, .brokenPipe, .alreadyExists, .wouldBlock, .invalidInput, .invalidData,
    .timedOut, .writeZero, .storageFull, .resourceBusy, .deadlock, .interrupted,
    .unsupported, .unexpectedEof, .outOfMemory, .other]

/-- The kind with a name; any name that is not known stands for `other`. -/
def ofName (name : String) : IoKind :=
  (all.find? fun k => k.name = name).getD .other

end IoKind

/-- A failed read. The kind is what a program can act on. Errors with equal kinds may have
different texts, which `SameUpToText` passes over. -/
structure IoError where
  kind : IoKind
  /-- The text for people, where the program knows one. -/
  detail : Option String
deriving DecidableEq, Repr

/-- A failed read with a text. -/
def IoError.of (kind : IoKind) (detail : String) : IoError := ⟨kind, some detail⟩

end TileArchive
