import TileArchive.Dialogue
import TileArchive.Proofs.Trail

/-!
# `TileArchive.Proofs.Steps`: what is read and what is found, in order

A computation that goes through an archive reads ranges and finds items, and it matters in
which order it does so. A trail of `Step`s lists both. A consumer is handed the items as they
are found; what it reads on its own comes in between.

* `Trail.found` forgets the reads of a trail, and `Step.expand` replaces every item by a trail
  that may read and find something else.
* `Trail.conduct` is the computation that reads what a trail reads and hands a consumer what it
  finds. `Trail.run_conduct` says what comes out.
* `Fetch.Alike` is what two computations have in common that give the same result and read the
  same ranges in the same order.

A trail of steps already knows how its reads are answered: what was found because of an answer
stands behind the read. So `Trail.conduct` asks for every range and ignores the answer. This makes
sense only for the answering rule that the trail was made for, which is why `Fetch.Alike` is stated
for one rule at a time.
-/

set_option autoImplicit false

namespace TileArchive

/-- One thing that is done on the way through an archive: a range is read, or an item is
found. Reads and items are kept in one list, so that it says which reads came before which
items. -/
inductive Step (α : Type) where
  | read (range : ByteRange)
  | find (item : α)
deriving DecidableEq

namespace Step

variable {α β : Type}

/-- The range that is read, if one is. -/
def range? : Step α → Option ByteRange
  | .read range => some range
  | .find _ => none

/-- The item that is found, if one is. -/
def item? : Step α → Option α
  | .read _ => none
  | .find item => some item

/-- The step with an item replaced by a trail. -/
def expand (f : α → Trail (Step β)) : Step α → Trail (Step β)
  | .read range => .cons (.read range) .nil
  | .find item => f item

end Step

namespace Trail

variable {α β σ : Type}

/-- The ranges that are read, in order. -/
def ranges (t : Trail (Step α)) : List ByteRange := t.items.filterMap Step.range?

/-- What is found, without the reads. -/
def found (t : Trail (Step α)) : Trail α := ⟨t.items.filterMap Step.item?, t.error⟩

/-- Some reads before all that is done. -/
def behind (ranges : List ByteRange) (t : Trail (Step α)) : Trail (Step α) :=
  ⟨ranges.map .read ++ t.items, t.error⟩

/-- Reads in front of a trail are in front of all that follows it. -/
theorem behind_append (ranges : List ByteRange) (t u : Trail (Step α)) :
    t.behind ranges ++ u = (t ++ u).behind ranges := by
  match t with
  | ⟨items, some e⟩ => rfl
  | ⟨items, none⟩ =>
    show (⟨ranges.map .read ++ items ++ u.items, u.error⟩ : Trail (Step α)) = _
    rw [List.append_assoc]
    rfl

/-- Reads before all that is done stay there when items are replaced. -/
theorem bind_behind (ranges : List ByteRange) (t : Trail (Step α)) (f : α → Trail (Step β)) :
    (t.behind ranges).bind (Step.expand f) = (t.bind (Step.expand f)).behind ranges := by
  induction ranges with
  | nil => rfl
  | cons range ranges ih =>
      have split : t.behind (range :: ranges) = cons (.read range) (t.behind ranges) := rfl
      rw [split, cons_bind, ih]
      rfl

/-- Reads in front of a trail find nothing. -/
@[simp]
theorem found_behind (ranges : List ByteRange) (t : Trail (Step α)) :
    (t.behind ranges).found = t.found := by
  simp [found, behind, Step.item?, Function.comp_def]

/-- What two trails in a row find is what the first finds and then what the second does. -/
@[simp]
theorem found_append (t u : Trail (Step α)) : (t ++ u).found = t.found ++ u.found := by
  match t with
  | ⟨items, some e⟩ => rfl
  | ⟨items, none⟩ =>
    show (⟨(items ++ u.items).filterMap Step.item?, u.error⟩ : Trail α) = _
    rw [List.filterMap_append]
    rfl

/-- An item that is found is found first. -/
@[simp]
theorem found_cons_find (item : α) (t : Trail (Step α)) :
    (cons (.find item) t).found = cons item t.found := rfl

/-! ### Consumers -/

/-- Reads what some steps read, and hands a consumer what they find. -/
def conductSteps (onItem : σ → α → Fetch (σ ⊕ β)) (atEnd : σ → Fetch β) :
    List (Step α) → σ → Fetch β
  | [], state => atEnd state
  -- What the read is answered with is in the steps behind it.
  | .read range :: rest, state => .ask range fun _ => conductSteps onItem atEnd rest state
  | .find item :: rest, state =>
    (onItem state item).bind fun
      | .inl state => conductSteps onItem atEnd rest state
      | .inr result => .done result

/-- Reads what a trail reads, and hands a consumer what it finds. The consumer goes on with a new
state or stops with a result; `atEnd` makes the result where it did not stop. -/
def conduct (onItem : σ → α → Fetch (σ ⊕ β)) (atEnd : σ → Option ReadError → Fetch β)
    (t : Trail (Step α)) (state : σ) : Fetch β :=
  conductSteps onItem (atEnd · t.error) t.items state

variable {onItem : σ → α → Fetch (σ ⊕ β)} {atEnd : σ → Option ReadError → Fetch β}

/-- A read is made, and the computation goes on. -/
@[simp]
theorem conduct_cons_read (range : ByteRange) (t : Trail (Step α)) (state : σ) :
    (cons (.read range) t).conduct onItem atEnd state
      = .ask range fun _ => t.conduct onItem atEnd state := rfl

/-- An item is handed to the consumer, who goes on or is done. -/
@[simp]
theorem conduct_cons_find (item : α) (t : Trail (Step α)) (state : σ) :
    (cons (.find item) t).conduct onItem atEnd state
      = (onItem state item).bind fun
        | .inl state => t.conduct onItem atEnd state
        | .inr result => .done result := rfl

/-- The result is that of the consumer that is handed the items alone. Reads on the way have
no part in it. -/
theorem run_conduct (answer : ByteRange → Except IoError Bytes) (t : Trail (Step α)) (state : σ) :
    (t.conduct onItem atEnd state).run answer
      = t.found.feed (fun state item => (onItem state item).run answer)
          (fun state error => (atEnd state error).run answer) state := by
  obtain ⟨steps, error⟩ := t
  induction steps generalizing state with
  | nil => rfl
  | cons step steps ih =>
      cases step with
      | read range => exact ih state
      | find item =>
          show Fetch.run answer (conduct onItem atEnd (cons (.find item) ⟨steps, error⟩) state)
            = feed _ _ (cons item (found ⟨steps, error⟩)) state
          rw [conduct_cons_find, Fetch.run_bind, feed_cons]
          cases (onItem state item).run answer with
          | inl state => exact ih state
          | inr result => rfl

end Trail

/-! ### Computations that do the same -/

namespace Fetch

variable {α β γ σ : Type} {answer : ByteRange → Except IoError Bytes}

/-- With the given answers both computations give the same result and read the same ranges
in the same order. Nothing is said of other answers. -/
structure Alike (answer : ByteRange → Except IoError Bytes) (d d' : Fetch α) : Prop where
  run_eq : d.run answer = d'.run answer
  reads_eq : d.reads answer = d'.reads answer

namespace Alike

/-- Every computation is alike to itself. -/
theorem refl (d : Fetch α) : Alike answer d d := ⟨rfl, rfl⟩

/-- Computations alike to the same one are alike. -/
theorem trans {d d' d'' : Fetch α} (first : Alike answer d d') (second : Alike answer d' d'') :
    Alike answer d d'' :=
  ⟨first.run_eq.trans second.run_eq, first.reads_eq.trans second.reads_eq⟩

/-- Computations that are alike are followed by alike ones where these are so on their result. -/
theorem bind {d d' : Fetch α} {f f' : α → Fetch β} (first : Alike answer d d')
    (second : Alike answer (f (d'.run answer)) (f' (d'.run answer))) :
    Alike answer (d.bind f) (d'.bind f') := by
  refine ⟨?_, ?_⟩
  · rw [run_bind, run_bind, first.run_eq, second.run_eq]
  · rw [reads_bind, reads_bind, first.run_eq, first.reads_eq, second.reads_eq]

/-- Reads may be done by a computation or listed before a trail. -/
theorem behind {d : Fetch α} {f : α → Fetch β} {onItem : σ → γ → Fetch (σ ⊕ β)}
    {atEnd : σ → Option ReadError → Fetch β} {t : Trail (Step γ)} {state : σ}
    (rest : Alike answer (f (d.run answer)) (t.conduct onItem atEnd state)) :
    Alike answer (d.bind f) ((t.behind (d.reads answer)).conduct onItem atEnd state) := by
  induction d with
  | done result => exact rest
  | ask range next ih =>
      obtain ⟨run_eq, reads_eq⟩ := ih (answer range) rest
      exact ⟨run_eq, congrArg (range :: ·) reads_eq⟩

end Alike

end Fetch

end TileArchive
