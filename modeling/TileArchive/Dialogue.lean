import TileArchive.ByteRange
import TileArchive.Source.Basic

/-!
# `TileArchive.Dialogue`: computations that ask and wait

Reading an archive needs bytes that may come late or never. A `Dialogue` is a computation
that is either done or asks a question and goes on with the answer. Nothing is said about
who answers and when, so one description of a computation serves for running it at once, for
suspending it at every question, and for reasoning about it.

* `Fetch` is a dialogue whose questions are reads. `Fetch.run` answers them by a rule,
  `Fetch.reads` lists them, and `Fetch.poll` goes on as far as a source allows.

## Waiting

`Suspended` is a computation on its way. It remembers whether its next read was begun, because a
read is begun once, however often someone asks whether it has ended. Dropping a computation is
forgetting it: what was begun has been counted, and nothing goes on.

A dialogue is a tree with one branch for each answer, so every computation described by one ends for
every list of answers. Loops of the reader are therefore written with a measure that shows why they
end.
-/

set_option autoImplicit false

namespace TileArchive

/-- A computation that asks questions `q : Q` and goes on with answers in `A q`. It fixes
what is asked next after each answer and nothing of how the answers come about, so the same
look-up can be run directly on bytes, through caches, or against a source that fails. -/
inductive Dialogue (Q : Type) (A : Q → Type) (α : Type) where
  | done (result : α)
  | ask (question : Q) (next : A question → Dialogue Q A α)

namespace Dialogue

variable {Q : Type} {A : Q → Type} {α β γ : Type}

/-- Goes on with the result of a dialogue. -/
def bind : Dialogue Q A α → (α → Dialogue Q A β) → Dialogue Q A β
  | .done result, f => f result
  | .ask question next, f => .ask question fun answer => (next answer).bind f

instance : Monad (Dialogue Q A) where
  pure := .done
  bind := bind

/-- Asks one question. -/
def question (q : Q) : Dialogue Q A (A q) := .ask q .done

/-- What is done goes on with its result at once. -/
@[simp]
theorem done_bind (result : α) (f : α → Dialogue Q A β) :
    (Dialogue.done result).bind f = f result := rfl

/-- What asks goes on behind the answer. -/
@[simp]
theorem ask_bind (q : Q) (next : A q → Dialogue Q A α) (f : α → Dialogue Q A β) :
    (Dialogue.ask q next).bind f = .ask q fun answer => (next answer).bind f := rfl

/-- Going on in two steps is going on in one. -/
theorem bind_assoc (d : Dialogue Q A α) (f : α → Dialogue Q A β) (g : β → Dialogue Q A γ) :
    (d.bind f).bind g = d.bind fun result => (f result).bind g := by
  induction d with
  | done result => rfl
  | ask q next ih => simp [ih]

/-- Ending with the result is no step. -/
@[simp]
theorem bind_done (d : Dialogue Q A α) : d.bind .done = d := by
  induction d with
  | done result => rfl
  | ask q next ih => simp [ih]

end Dialogue

/-- A computation that reads from an archive. -/
abbrev Fetch (α : Type) : Type := Dialogue ByteRange (fun _ => Except IoError Bytes) α

namespace Fetch

variable {α β : Type}

/-- Runs a computation, answering reads by a rule. -/
def run (answer : ByteRange → Except IoError Bytes) : Fetch α → α
  | .done result => result
  | .ask range next => run answer (next (answer range))

/-- The reads of a computation whose reads are answered by a rule. -/
def reads (answer : ByteRange → Except IoError Bytes) : Fetch α → List ByteRange
  | .done _ => []
  | .ask range next => range :: reads answer (next (answer range))

/-- Two computations in a row are run one after the other. -/
@[simp]
theorem run_bind (answer : ByteRange → Except IoError Bytes) (d : Fetch α) (f : α → Fetch β) :
    run answer (d.bind f) = run answer (f (run answer d)) := by
  induction d with
  | done result => rfl
  | ask range next ih => simp [run, ih]

/-- The reads of two computations in a row are those of the first and then those of the
second. -/
@[simp]
theorem reads_bind (answer : ByteRange → Except IoError Bytes) (d : Fetch α)
    (f : α → Fetch β) :
    reads answer (d.bind f) = reads answer d ++ reads answer (f (run answer d)) := by
  induction d with
  | done result => rfl
  | ask range next ih => simp [run, reads, ih]

end Fetch

namespace Source

/-- Goes on with a read. It is begun unless it was before; where the source is held it has
to wait. -/
def poll (s : Source) (range : ByteRange) (begun : Bool) :
    Source × Option (Except IoError Bytes) :=
  let s := if begun then s else s.start range
  if s.held then (s, none)
  else
    let (s, answer) := s.finish range
    (s, some answer)

end Source

/-- A computation on its way. It stands at a question, and what is remembered besides is
whether the read for this question was begun, since a read that waits must not be begun
twice. -/
structure Suspended (α : Type) where
  fetch : Fetch α
  /-- Whether its next read was begun and waits. -/
  begun : Bool

/-- A computation that has not asked anything yet. -/
def Suspended.fresh {α : Type} (fetch : Fetch α) : Suspended α := ⟨fetch, false⟩

namespace Fetch

variable {α : Type}

/-- Goes on as far as a source allows: to the result, or to a read that has to wait. -/
def poll : Fetch α → (begun : Bool) → Source → Source × (α ⊕ Suspended α)
  | .done result, _, s => (s, .inl result)
  | .ask range next, begun, s =>
    match s.poll range begun with
    | (s, some answer) => poll (next answer) false s
    | (s, none) => (s, .inr ⟨.ask range next, true⟩)

end Fetch

/-- Goes on as far as a source allows. -/
def Suspended.poll {α : Type} (c : Suspended α) (s : Source) : Source × (α ⊕ Suspended α) :=
  c.fetch.poll c.begun s

end TileArchive
