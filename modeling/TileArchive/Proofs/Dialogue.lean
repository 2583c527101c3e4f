import TileArchive.Dialogue

/-!
# `TileArchive.Proofs.Dialogue`: computations over a source whose reads may fail

A source `Serves` an answering rule with given outcomes when its next reads fail or pass as
the outcomes say, one outcome for each read, and all later reads pass. Nothing waits.

* `Dialogue.HandsOn` says of a computation that it stops at the first question that fails and
  hands the error on. `HandsOn.bind` composes such computations.
* `Dialogue.Leads` lists the questions and answers on the way to a result, whatever the answers.
* `Ends` relates a result to the errors that the reads on the way met: none, and the result is
  the true one, or exactly one, and the result hands it on.
* `Fetch.poll_serves`: over a source that serves a rule a computation that hands errors on
  runs to its end in one go and ends in this way.

## Three ways to look at a computation

A computation is a tree: a question at every node and one branch per answer. With an answering rule
it has one way through the tree, and a result (`run`). Over a source that disturbs reads it has one
way too, but which one depends on the state of the source (`poll_serves`). And without any rule it
has many ways, one for each sequence of answers; `Leads` is the relation between a way and its
result. Statements about a hostile or changing source quantify over all ways, statements about an
archive take the one that the archive gives.
-/

set_option autoImplicit false

namespace TileArchive

/-! ### Sources with given outcomes -/

/-- The disturbance that makes a read fail with the given error, or that leaves it alone. -/
def Disturbance.ofOutcome : Option IoError → Disturbance
  | some error => .fail error
  | none => .short 0

/-- The error that a disturbance makes a read fail with. -/
def Disturbance.error? : Disturbance → Option IoError
  | .fail error => some error
  | .short _ => none

/-- The errors among the outcomes of some reads. -/
def errorsOf (outcomes : List (Option IoError)) : List IoError := outcomes.filterMap id

/-- The errors of two stretches of reads. -/
@[simp]
theorem errorsOf_append (first second : List (Option IoError)) :
    errorsOf (first ++ second) = errorsOf first ++ errorsOf second := by
  simp [errorsOf]

/-- The error of a disturbance made of an outcome is the outcome. -/
@[simp]
theorem Disturbance.error?_ofOutcome (outcome : Option IoError) :
    (Disturbance.ofOutcome outcome).error? = outcome := by
  cases outcome <;> rfl

/-- The errors of disturbances made of outcomes are the errors among the outcomes. -/
theorem filterMap_error?_ofOutcome (outcomes : List (Option IoError)) :
    (outcomes.map Disturbance.ofOutcome).filterMap Disturbance.error? = errorsOf outcomes := by
  simp only [List.filterMap_map, Function.comp_def, Disturbance.error?_ofOutcome]
  rfl

namespace Source

/-- A source of bytes at hand whose first reads turn out as given; all later ones pass. A
statement about all lists of outcomes is one about every way in which reads can fail. -/
def failing (bytes : Bytes) (outcomes : List (Option IoError)) : Source :=
  { ofBytes bytes with queue := outcomes.map Disturbance.ofOutcome }

/-- The source answers reads by a rule at once, except that its next reads turn out as the
outcomes say: `none` is a read without a disturbance, and an error is one that fails with
it. -/
structure Serves (answer : ByteRange → Except IoError Bytes)
    (outcomes : List (Option IoError)) (s : Source) : Prop where
  answer_eq : s.answer = answer
  held_eq : s.held = false
  queue_eq : s.queue = outcomes.map Disturbance.ofOutcome

/-- A source that was told which reads fail serves with these outcomes. -/
theorem serves_failing (bytes : Bytes) (outcomes : List (Option IoError)) :
    (failing bytes outcomes).Serves (Content.read bytes) outcomes := ⟨rfl, rfl, rfl⟩

/-- A source of some bytes serves without a failure. -/
theorem serves_ofBytes (bytes : Bytes) : (ofBytes bytes).Serves (Content.read bytes) [] :=
  ⟨rfl, rfl, rfl⟩

/-- What a read is answered with whose outcome is the first of those given. -/
def firstAnswer (answer : ByteRange → Except IoError Bytes) (range : ByteRange) :
    List (Option IoError) → Except IoError Bytes
  | some error :: _ => .error error
  | _ => answer range

/-- A read takes one outcome and is answered by it. This is so whether or not the read was
begun before, since outcomes are taken when reads come to their end. -/
theorem poll_serves {answer : ByteRange → Except IoError Bytes}
    {outcomes : List (Option IoError)} {s : Source} (serves : s.Serves answer outcomes)
    (range : ByteRange) (begun : Bool) :
    ∃ t, s.poll range begun = (t, some (firstAnswer answer range outcomes)) ∧
      t.Serves answer outcomes.tail := by
  obtain ⟨answer_eq, held_eq, queue_eq⟩ := serves
  -- Beginning a read only writes the log.
  have begin_eq : ∃ r : Source, (if begun then s else s.start range) = r ∧
      r.answer = answer ∧ r.held = false ∧ r.queue = outcomes.map Disturbance.ofOutcome := by
    cases begun
    · exact ⟨s.start range, rfl, answer_eq, held_eq, queue_eq⟩
    · exact ⟨s, rfl, answer_eq, held_eq, queue_eq⟩
  obtain ⟨r, hr, answer_eq, held_eq, queue_eq⟩ := begin_eq
  simp only [poll, hr, held_eq, Bool.false_eq_true, if_false, finish, queue_eq]
  match outcomes with
  | [] => exact ⟨r, by simp [firstAnswer, answer_eq], answer_eq, held_eq, queue_eq⟩
  | some error :: rest =>
    exact ⟨⟨r.answer, rest.map .ofOutcome, false, r.log⟩, rfl, answer_eq, rfl, rfl⟩
  | none :: rest =>
    refine ⟨⟨r.answer, rest.map .ofOutcome, false, r.log⟩, ?_, answer_eq, rfl, rfl⟩
    -- A read that is cut by no byte is left alone.
    have whole : (Disturbance.short 0).apply (answer range) = answer range := by
      cases answer range with
      | error _ => rfl
      | ok bytes => simp [Disturbance.apply]
    simp [Disturbance.ofOutcome, firstAnswer, answer_eq, whole]

end Source

/-! ### Handing errors on -/

/-- How a run ends whose reads met some errors: with the true result where they met none,
and otherwise with a result that hands on the only error they met. There is no case for two
errors, because a run is over with the first one. -/
inductive Ends {α : Type} (handedOn : IoError → α → Prop) (truth : α) :
    List IoError → α → Prop where
  | undisturbed : Ends handedOn truth [] truth
  | failed {error : IoError} {result : α} :
      handedOn error result → Ends handedOn truth [error] result

/-- A result that hands no error on is the true one. -/
theorem Ends.eq_truth {α : Type} {handedOn : IoError → α → Prop} {truth result : α}
    {errors : List IoError} (ends : Ends handedOn truth errors result)
    (clean : ∀ error, ¬ handedOn error result) : errors = [] ∧ result = truth := by
  cases ends with
  | undisturbed => exact ⟨rfl, rfl⟩
  | failed handed => exact absurd handed (clean _)

namespace Dialogue

variable {Q : Type} {A : Q → Type} {α β : Type}

/-- The computation is over as soon as a question fails, and its result hands the error on.
`fails` is the answer to a question that fails. -/
def HandsOn (fails : IoError → (q : Q) → A q) (handedOn : IoError → α → Prop) :
    Dialogue Q A α → Prop
  | .done _ => True
  | .ask q next =>
    (∀ error, ∃ result, next (fails error q) = .done result ∧ handedOn error result) ∧
      ∀ answer, HandsOn fails handedOn (next answer)

variable {fails : IoError → (q : Q) → A q} {handedOn : IoError → α → Prop}
  {handedOnNext : IoError → β → Prop}

/-- A computation that goes on with a result hands errors on if both parts do, and the second
part is over at once where the first hands an error on. -/
theorem HandsOn.bind {d : Dialogue Q A α} {f : α → Dialogue Q A β}
    (first : d.HandsOn fails handedOn) (second : ∀ result, (f result).HandsOn fails handedOnNext)
    (across : ∀ error result, handedOn error result →
      ∃ final, f result = .done final ∧ handedOnNext error final) :
    (d.bind f).HandsOn fails handedOnNext := by
  induction d with
  | done result => exact second result
  | ask q next ih =>
      refine ⟨?_, fun answer => ih answer (first.2 answer)⟩
      intro error
      obtain ⟨result, next_eq, handed⟩ := first.1 error
      obtain ⟨final, f_eq, handedNext⟩ := across error result handed
      exact ⟨final, by simp [next_eq, f_eq], handedNext⟩

end Dialogue

/-! ### Paths

A path lists the questions on the way to a result with the answers that they get. Any answer may
come at any time, also a different one to the same question.
-/

namespace Dialogue

variable {Q : Type} {A : Q → Type} {α β : Type}

/-- Where its questions are answered along a path, the computation comes to a result. The
path holds each question with its answer, so it also says what was asked. -/
inductive Leads : Dialogue Q A α → List ((q : Q) × A q) → α → Prop where
  | done (result : α) : Leads (.done result) [] result
  | ask {q : Q} {next : A q → Dialogue Q A α} {path : List ((q : Q) × A q)} {result : α}
      (answer : A q) (rest : Leads (next answer) path result) :
      Leads (.ask q next) (⟨q, answer⟩ :: path) result

/-- A computation that is done leads to its result without a question. -/
theorem leads_done_iff {given : α} {path : List ((q : Q) × A q)} {result : α} :
    (Dialogue.done given : Dialogue Q A α).Leads path result ↔ path = [] ∧ result = given := by
  constructor
  · intro leads
    cases leads
    exact ⟨rfl, rfl⟩
  · rintro ⟨rfl, rfl⟩
    exact .done _

/-- A path through a computation that goes on with a result is a path to that result and one from
there on. -/
theorem leads_bind_iff {d : Dialogue Q A α} {f : α → Dialogue Q A β}
    {path : List ((q : Q) × A q)} {result : β} :
    (d.bind f).Leads path result ↔
      ∃ first middle rest, path = first ++ rest ∧ d.Leads first middle ∧
        (f middle).Leads rest result := by
  induction d generalizing path with
  | done given =>
      simp only [done_bind, leads_done_iff]
      constructor
      · intro leads
        exact ⟨[], given, path, rfl, ⟨rfl, rfl⟩, leads⟩
      · rintro ⟨_, _, rest, rfl, ⟨rfl, rfl⟩, leads⟩
        exact leads
  | ask q next ih =>
      rw [ask_bind]
      constructor
      · intro leads
        cases leads with
        | ask answer leads =>
            obtain ⟨first, middle, rest, rfl, there, on⟩ := (ih answer).mp leads
            exact ⟨_, middle, rest, rfl, .ask answer there, on⟩
      · rintro ⟨_, middle, rest, rfl, there, on⟩
        cases there with
        | ask answer there => exact .ask answer ((ih answer).mpr ⟨_, middle, rest, rfl, there, on⟩)

end Dialogue

namespace Fetch

variable {α : Type}

/-- Under a rule for answers a computation leads to what comes of running it. -/
theorem leads_run (answer : ByteRange → Except IoError Bytes) (d : Fetch α) :
    Dialogue.Leads d ((d.reads answer).map fun range => ⟨range, answer range⟩)
      (d.run answer) := by
  induction d with
  | done result => exact .done result
  | ask range next ih =>
      refine Dialogue.Leads.ask (A := fun _ => Except IoError Bytes) (answer range) ?_
      exact ih (answer range)

/-- The answer to a read that fails. -/
def failure (error : IoError) (_ : ByteRange) : Except IoError Bytes := .error error

/-- A computation that hands errors on runs to its end over a source that serves a rule. It
takes the outcomes of its reads, and ends in the way their errors say. -/
theorem poll_serves {answer : ByteRange → Except IoError Bytes}
    {handedOn : IoError → α → Prop} {d : Fetch α} (handsOn : d.HandsOn failure handedOn)
    {outcomes : List (Option IoError)} {s : Source} (serves : s.Serves answer outcomes)
    (begun : Bool) :
    ∃ result t used rest, d.poll begun s = (t, .inl result) ∧ outcomes = used ++ rest ∧
      t.Serves answer rest ∧ Ends handedOn (d.run answer) (errorsOf used) result := by
  induction d generalizing s outcomes begun with
  | done result => exact ⟨result, s, [], outcomes, rfl, rfl, serves, .undisturbed⟩
  | ask range next ih =>
      obtain ⟨r, poll_eq, serves'⟩ := Source.poll_serves serves range begun
      match outcomes with
      | some error :: rest =>
        -- The read fails: the computation is over, and no further outcome is taken.
        obtain ⟨result, next_eq, handed⟩ := handsOn.1 error
        refine ⟨result, r, [some error], rest, ?_, rfl, serves', .failed handed⟩
        have stops : next (.error error) = .done result := next_eq
        simp only [poll, poll_eq, Source.firstAnswer, stops]
      | [] =>
        -- Without an outcome the read passes, as one that is left alone does.
        obtain ⟨result, t, used, rest, poll_next, split, served, ends⟩ :=
          ih (answer range) (handsOn.2 _) serves' false
        exact ⟨result, t, used, rest, by simp only [poll, poll_eq, Source.firstAnswer, poll_next],
          split, served, ends⟩
      | none :: rest =>
        obtain ⟨result, t, used, rest', poll_next, split, served, ends⟩ :=
          ih (answer range) (handsOn.2 _) serves' false
        refine ⟨result, t, none :: used, rest', ?_, ?_, served, ends⟩
        · simp only [poll, poll_eq, Source.firstAnswer, poll_next]
        · rw [List.cons_append, ← split]
          rfl

end Fetch

end TileArchive
