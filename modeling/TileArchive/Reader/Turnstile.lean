/-!
# `TileArchive.Reader.Turnstile`: a value that is made once

A turnstile keeps a value that is made on first use. Only one at a time may try to make it;
the others wait in line. If the one whose turn it is fails or gives up, the turn goes to the
first in line, who keeps it until it has tried in turn. Once the value is made everyone gets
it. Those who come get tickets, numbered in the order of their coming.

## What is assumed

The turnstile stands for a cell that is initialised at most once by tasks that share it. The
following is what such a cell promises, and all that is relied on:

* At most one task at a time runs the initialisation. A task that comes while another runs
  it waits, and does not start a second one.
* Those who wait are served in the order of their arrival.
* A failed initialisation leaves the cell empty. The failure goes to the task that ran it
  and to nobody else, and the next in line runs it again.
* A task that is dropped while it runs the initialisation, or while it has been given the
  turn and has not used it yet, hands the turn on.
* A successful initialisation fills the cell for good, and everyone who waits or comes later
  gets the value.

How the reader of an archive uses it is in `Reader/Session.lean`, and what follows for its
metadata in `Proofs/Reader/MetadataOnce.lean`.
-/

set_option autoImplicit false

namespace TileArchive

/-- A value that is made once, and those who wait for it. While the value is missing,
someone waits in line only if it is somebody's turn, so nobody waits for nothing. -/
structure Turnstile (α : Type) where
  value : Option α
  /-- The ticket whose turn it is to make the value. -/
  turn : Option Nat
  /-- The tickets that wait in line. -/
  line : List Nat
  nextTicket : Nat
deriving DecidableEq, Repr

namespace Turnstile

variable {α : Type}

/-- A value that has not been made. -/
def new : Turnstile α := ⟨none, none, [], 0⟩

/-- Comes for the value and gets a ticket; it is that ticket's turn if nobody else tries. -/
def enter (t : Turnstile α) : Turnstile α × Nat :=
  let ticket := t.nextTicket
  let t := { t with nextTicket := ticket + 1 }
  match t.turn with
  | none => ({ t with turn := some ticket }, ticket)
  | some _ => ({ t with line := t.line ++ [ticket] }, ticket)

/-- Hands the turn to the first in line. With nobody in line it is nobody's turn, and the
next who comes may try at once. -/
def pass (t : Turnstile α) : Turnstile α :=
  { t with turn := t.line.head?, line := t.line.tail }

/-- The value has been made. Those in line need no turn any more and leave with the value. -/
def fulfil (t : Turnstile α) (value : α) : Turnstile α :=
  { t with value := some value, turn := none, line := [] }

/-- A ticket is given up. Whoever has the turn passes it on, whether it has begun to make
the value or not. -/
def leave (t : Turnstile α) (ticket : Nat) : Turnstile α :=
  if t.turn = some ticket then t.pass
  else { t with line := t.line.filter (· ≠ ticket) }

end Turnstile

end TileArchive
