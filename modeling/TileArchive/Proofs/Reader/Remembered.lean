import TileArchive.Proofs.Cache.Room
import TileArchive.Proofs.Reader.Exchanges

/-!
# `TileArchive.Proofs.Reader.Remembered`: a reader with room

A reader remembers the directories and payloads that it read, as long as its caches have room for
them. A `Reader.Steady` reader is between two requests, and all that it is ever given has room.

* `Steady.ask_held`: what is remembered is given without a read.
* `Steady.ask_missed`: anything else is read, and remembered from then on unless that fails.
* `Passage` says what follows for a reader that goes through any number of exchanges, and
  `Course.passage` proves it by induction on them.
* `Steady.advance_again`: a query whose answers are all remembered comes to the same result again,
  without a read.

## Room, given in advance

The two sets `D` and `P` are all directories and all payloads that the reader is given in the
course of events, each with its range. They are parameters: whoever uses the theorems collects them
from the whole history first and shows that they have room, and then every single step is known to
stay within them (`Exchange.Within`). In this way the caches never drop anything, so what was
remembered once is remembered in the end, and "given before" and "remembered now" are the same.

## Passages

A passage is what can be said of a stretch of exchanges by itself: what is remembered at its
beginning is given without a read, what is given in it is remembered at its end, and nothing in it
is read twice. Two passages in a row make one (`Passage.append`), because the end of the first is
the beginning of the second. A single exchange makes one (`Passage.one`). So the induction over a
history has nothing left to do.

Bytes read plainly and the metadata are not remembered in these caches. `Need.Shared` leaves them
out, and a look-up asks for neither.
-/

set_option autoImplicit false

namespace TileArchive

/-! ### Pools -/

namespace Pool.Idle

variable {V : Type} {truth : ByteRange → Except ReadError V} {p : Pool V}
  {all : Finset (ByteRange × V)} {range : ByteRange}

/-- A pool gives a value that it holds. Asking stamps the value, and what is held is the
same afterwards. -/
theorem ask_held (idle : p.Idle truth) (roomy : p.cache.Roomy all) {value : V}
    (held : p.cache.Holds range value) (load : Fetch (Except ReadError V)) :
    ∃ q, p.ask range load = (q, .inl value) ∧ q.Idle truth ∧ q.cache.Roomy all ∧
      ∀ key v, q.cache.Holds key v ↔ p.cache.Holds key v := by
  obtain ⟨r, found, rfl⟩ := Cache.resident?_of_holds roomy.keyed held
  obtain ⟨roomy', same⟩ := roomy.request range
  have request_eq : p.cache.request range
      = ((p.cache.touch range).1.countLookup true, .hit r.value) := by
    rcases p.cache.request_cases range with ⟨r', found', request_eq⟩ | ⟨absent, -⟩ | ⟨absent, -⟩
    · rw [found] at found'
      cases found'
      exact request_eq
    · rw [found] at absent
      cases absent
    · rw [found] at absent
      cases absent
  have ask_eq : p.ask range load
      = ({ p with cache := (p.cache.request range).1 }, .inl r.value) := by
    simp only [Pool.ask, request_eq]
  -- An idle pool gives the value or starts a load, and here it gives the value.
  rcases idle.ask range load with ⟨q, value, ask_eq', idle', -⟩ | ⟨cache, ask_eq', -⟩
  · rw [ask_eq] at ask_eq'
    cases ask_eq'
    exact ⟨_, ask_eq, idle', roomy', same⟩
  · rw [ask_eq] at ask_eq'
    simp at ask_eq'

/-- A value that is not held is loaded and looked at. If it is one of those with room it is
held from then on, unless the load fails, and what was held stays. -/
theorem ask_missed (idle : p.Idle truth) (roomy : p.cache.Roomy all)
    (absent : ∀ value, ¬ p.cache.Holds range value) {load : Fetch (Except ReadError V)}
    {s t : Source} {outcome : Except ReadError V}
    (poll_eq : load.poll false s = (t, .inl outcome)) :
    ∃ begun number q, p.ask range load = (begun, .inr number) ∧
      begun.look range number s = (q, t, some outcome) ∧
      ((∀ value, outcome = .ok value → (range, value) ∈ all) → q.cache.Roomy all ∧
        (∀ value, outcome = .ok value → q.cache.Holds range value) ∧
        ∀ key v, p.cache.Holds key v → q.cache.Holds key v) := by
  obtain ⟨flights_eq, numbered, -⟩ := idle
  obtain ⟨roomy', same⟩ := roomy.request range
  -- No load is under way, so the request starts one, and it is this one that ends.
  have request_eq : p.cache.request range
      = ((p.cache.countLookup false).startFlight range, .started p.loads.length) := by
    rcases p.cache.request_cases range with ⟨r, found, -⟩ | ⟨-, f, registered, -⟩
      | ⟨-, -, request_eq⟩
    · exact absurd (Cache.holds_of_resident? found) (absent _)
    · simp [Cache.flight?, flights_eq] at registered
    · rw [request_eq, numbered]
  have registered : (p.cache.request range).1.flight? range = some ⟨range, p.loads.length, 1⟩ := by
    simp [request_eq, Cache.startFlight, Cache.flight?, numbered]
  have finish_eq : (p.cache.request range).1.finish range p.loads.length outcome
      = (p.cache.request range).1.processed range outcome := by
    rcases (p.cache.request range).1.finish_cases range p.loads.length outcome with
      ⟨_, -, -, finish_eq⟩ | ⟨other, -⟩
    · exact finish_eq
    · exact absurd rfl (other _ registered)
  refine ⟨⟨(p.cache.request range).1, p.loads ++ [.running (.fresh load)]⟩, p.loads.length,
    ⟨(p.cache.request range).1.processed range outcome, p.loads ++ [.finished outcome]⟩, ?_, ?_, ?_⟩
  · simp only [Pool.ask, request_eq]
  · simp [Pool.look, Load.poll, Suspended.poll, Suspended.fresh, poll_eq, finish_eq]
  · intro known
    obtain ⟨roomy'', held, others⟩ := roomy'.processed known
    refine ⟨roomy'', held, ?_⟩
    intro key v before
    have apart : key ≠ range := by
      rintro rfl
      exact absent v before
    exact others key v apart ((same key v).mpr before)

end Pool.Idle

/-! ### What is read for a question -/

/-- A read that is begun is written to the log. -/
theorem Source.reads_poll (s : Source) (range : ByteRange) :
    (s.poll range false).1.reads = s.reads ++ [range] := by
  rw [← s.reads_start range, poll]
  simp only [Bool.false_eq_true, if_false, finish]
  split
  · rfl
  · cases (s.start range).queue <;> rfl

/-- A computation that reads a range and makes something of the bytes reads that range
alone. It does so whatever comes of the read. -/
theorem reads_poll_fetchBytes {α : Type} {range : ByteRange} {f : Except ReadError Bytes → α}
    {s t : Source} {result : α}
    (poll_eq : Fetch.poll ((fetchBytes range).bind fun data => .done (f data)) false s
      = (t, .inl result)) :
    t.reads = s.reads ++ [range] := by
  rw [← s.reads_poll range]
  simp only [fetchBytes, Dialogue.ask_bind, Dialogue.done_bind, Fetch.poll] at poll_eq
  cases reply_eq : s.poll range false with
  | mk u reply =>
      rw [reply_eq] at poll_eq
      cases reply with
      | none => cases poll_eq
      | some reply =>
          cases poll_eq
          rfl

namespace Need

/-- What is read for a directory or a payload that is not remembered. A range without bytes holds
the directory without rows, and is not read. -/
def ranges : Need → List ByteRange
  | .directory range => if range.isEmpty then [] else [range]
  | .payload range => [range]
  | .bytes _ => []
  | .metadata => []

end Need

/-- Loading a directory reads its range, if it has bytes. -/
theorem reads_poll_loadDirectory {h : Header} {range : ByteRange} {s t : Source}
    {outcome : Except ReadError Directory}
    (poll_eq : (loadDirectory h range).poll false s = (t, .inl outcome)) :
    t.reads = s.reads ++ (Need.directory range).ranges := by
  rw [loadDirectory] at poll_eq
  rw [Need.ranges]
  split at poll_eq
  · next empty =>
    cases poll_eq
    rw [if_pos empty, List.append_nil]
  · next filled =>
    rw [if_neg filled]
    exact reads_poll_fetchBytes poll_eq

/-- Loading a payload reads its range, even one without bytes. -/
theorem reads_poll_loadPayload {range : ByteRange} {s t : Source} {outcome : Except ReadError Bytes}
    (poll_eq : (loadPayload range).poll false s = (t, .inl outcome)) :
    t.reads = s.reads ++ (Need.payload range).ranges := by
  rw [loadPayload, ← (fetchBytes range).bind_done] at poll_eq
  exact reads_poll_fetchBytes poll_eq

/-! ### Readers with room -/

/-- What was given is among some directories and payloads. The two sets are those of a whole
history, and their weight is what the caches must have room for. -/
def Exchange.Within (D : Finset (ByteRange × Directory)) (P : Finset (ByteRange × Bytes))
    (e : Exchange) : Prop :=
  (∀ p, e.directory? = some p → p ∈ D) ∧ ∀ p, e.payload? = some p → p ∈ P

namespace Reader

variable {answer : ByteRange → Except IoError Bytes} {outcomes : List (Option IoError)}
  {D : Finset (ByteRange × Directory)} {P : Finset (ByteRange × Bytes)} {r s : Reader}

/-- The reader remembers the answer to a need. Only successes are remembered, and only of
needs that have a cache. -/
def Remembers (r : Reader) : (need : Need) → need.Answer → Prop
  | .bytes _, _ => False
  | .directory range, given =>
    ∃ d, given = Except.ok d ∧ r.directories.cache.Holds range d
  | .payload range, given =>
    ∃ payload, given = Except.ok payload ∧ r.payloads.cache.Holds range payload
  | .metadata, _ => False

/-- Whatever one reader remembers, another does. This is what a history keeps as long as
nothing has to be dropped. -/
def Recalls (r s : Reader) : Prop :=
  ∀ need given, r.Remembers need given → s.Remembers need given

/-- A reader recalls what another remembered if its caches hold what the other's held.
Nothing else of a reader counts as memory here. -/
theorem recalls_of_holds
    (directories : ∀ range d, r.directories.cache.Holds range d → s.directories.cache.Holds range d)
    (payloads : ∀ range payload, r.payloads.cache.Holds range payload →
      s.payloads.cache.Holds range payload) : r.Recalls s := by
  intro need given known
  -- Only directories and payloads are remembered, and each of them in its own cache.
  cases need with
  | bytes range => exact known
  | directory range =>
      obtain ⟨d, given_eq, held⟩ := known
      exact ⟨d, given_eq, directories range d held⟩
  | payload range =>
      obtain ⟨payload, given_eq, held⟩ := known
      exact ⟨payload, given_eq, payloads range payload held⟩
  | metadata => exact known

/-- An idle reader whose caches have room for some directories and payloads, and hold no
others. Nothing is ever dropped from such caches, so what was put in is found again. -/
structure Steady (answer : ByteRange → Except IoError Bytes) (outcomes : List (Option IoError))
    (D : Finset (ByteRange × Directory)) (P : Finset (ByteRange × Bytes)) (r : Reader) : Prop
    extends r.Idle answer outcomes where
  directoriesRoomy : r.directories.cache.Roomy D
  payloadsRoomy : r.payloads.cache.Roomy P

namespace Steady

/-- What is remembered is given without a read, and remembered further on. The source is
untouched, so an error that is still to come does not show. -/
theorem ask_held (steady : r.Steady answer outcomes D P) {need : Need} {given : need.Answer}
    (known : r.Remembers need given) :
    ∃ s, r.ask .fresh need = (s, .inl given) ∧ s.source = r.source ∧
      s.Steady answer outcomes D P ∧ r.Recalls s := by
  -- The two kinds go to their own pools, so the other pool is left as it is and its part of
  -- the state is handed on.
  cases need with
  | bytes range => exact known.elim
  | directory range =>
      obtain ⟨d, rfl, held⟩ := known
      obtain ⟨q, ask_eq, idle, roomy, same⟩ :=
        steady.directories.ask_held steady.directoriesRoomy held (loadDirectory r.header range)
      have asked : r.askDirectory range .fresh = ({ r with directories := q }, .inl (.ok d)) := by
        simp only [askDirectory, ask_eq]
      exact ⟨_, asked, rfl,
        ⟨⟨steady.serves, idle, steady.payloads, steady.metadata⟩, roomy, steady.payloadsRoomy⟩,
        recalls_of_holds (fun key v => (same key v).mpr) fun _ _ held => held⟩
  | payload range =>
      obtain ⟨payload, rfl, held⟩ := known
      obtain ⟨q, ask_eq, idle, roomy, same⟩ :=
        steady.payloads.ask_held steady.payloadsRoomy held (loadPayload range)
      have asked : r.askPayload range .fresh = ({ r with payloads := q }, .inl (.ok payload)) := by
        simp only [askPayload, ask_eq]
      exact ⟨_, asked, rfl,
        ⟨⟨steady.serves, steady.directories, idle, steady.metadata⟩, steady.directoriesRoomy,
          roomy⟩,
        recalls_of_holds (fun _ _ held => held) fun key v => (same key v).mpr⟩
  | metadata => exact known.elim

/-- What is not remembered is read. If it is one of the values with room it is remembered
afterwards, and nothing that was remembered is lost. -/
theorem ask_missed (steady : r.Steady answer outcomes D P) {need : Need} (shared : need.Shared)
    (unknown : ∀ given, ¬ r.Remembers need given) :
    ∃ s given, r.ask .fresh need = (s, .inl given) ∧
      s.source.reads = r.source.reads ++ need.ranges ∧
      (∀ reads, (Exchange.mk need reads given).Within D P →
        s.directories.cache.Roomy D ∧ s.payloads.cache.Roomy P ∧
        (need.Succeeds given → s.Remembers need given) ∧ r.Recalls s) := by
  cases need with
  | bytes range => exact shared.elim
  | directory range =>
      -- What is not remembered is not held in the pool of its kind.
      have absent : ∀ d, ¬ r.directories.cache.Holds range d :=
        fun d held => unknown (.ok d) ⟨d, rfl, held⟩
      obtain ⟨outcome, t, -, -, poll_eq, -⟩ :=
        Fetch.poll_serves (handsOn_loadDirectory r.header range) steady.serves false
      obtain ⟨begun, number, q, ask_eq, look_eq, keeps⟩ :=
        steady.directories.ask_missed steady.directoriesRoomy absent poll_eq
      have asked : r.askDirectory range .fresh
          = ({ r with directories := q, source := t }, .inl outcome) := by
        simp only [askDirectory, ask_eq, lookDirectory, look_eq]
      refine ⟨_, outcome, asked, reads_poll_loadDirectory poll_eq, ?_⟩
      intro reads within
      -- A directory that was given is among those with room, by the bound on all that is
      -- given.
      have known : ∀ d, outcome = .ok d → (range, d) ∈ D := by
        rintro d rfl
        exact within.1 (range, d) rfl
      obtain ⟨roomy, held, others⟩ := keeps known
      refine ⟨roomy, steady.payloadsRoomy, ?_, recalls_of_holds others fun _ _ held => held⟩
      rintro ⟨d, given_eq⟩
      exact ⟨d, given_eq, held d given_eq⟩
  | payload range =>
      have absent : ∀ payload, ¬ r.payloads.cache.Holds range payload :=
        fun payload held => unknown (.ok payload) ⟨payload, rfl, held⟩
      obtain ⟨outcome, t, -, -, poll_eq, -⟩ :=
        Fetch.poll_serves (handsOn_fetchBytes range) steady.serves false
      obtain ⟨begun, number, q, ask_eq, look_eq, keeps⟩ :=
        steady.payloads.ask_missed steady.payloadsRoomy absent poll_eq
      have asked : r.askPayload range .fresh
          = ({ r with payloads := q, source := t }, .inl outcome) := by
        simp only [askPayload, loadPayload, ask_eq, lookPayload, look_eq]
      refine ⟨_, outcome, asked, reads_poll_loadPayload poll_eq, ?_⟩
      intro reads within
      have known : ∀ payload, outcome = .ok payload → (range, payload) ∈ P := by
        rintro payload rfl
        exact within.2 (range, payload) rfl
      obtain ⟨roomy, held, others⟩ := keeps known
      refine ⟨steady.directoriesRoomy, roomy, ?_, recalls_of_holds (fun _ _ held => held) others⟩
      rintro ⟨payload, given_eq⟩
      exact ⟨payload, given_eq, held payload given_eq⟩
  | metadata => exact shared.elim

end Steady

/-! ### Exchanges with a reader that has room -/

/-- How a reader that has room for all that it is given goes through some exchanges. It is
proved by going through them one at a time, and everything about remembering over a history
is one of its fields. -/
structure Passage (answer : ByteRange → Except IoError Bytes) (D : Finset (ByteRange × Directory))
    (P : Finset (ByteRange × Bytes)) (r : Reader) (es : List Exchange) (t : Reader) : Prop where
  steady : ∃ rest, t.Steady answer rest D P
  recalls : r.Recalls t
  logged : t.source.reads = r.source.reads ++ es.flatMap Exchange.reads
  /-- No other ranges are read than those that are asked for. -/
  own : ∀ e ∈ es, e.reads = [] ∨ e.reads = e.need.ranges
  /-- What was remembered before is given, without a read. -/
  known : ∀ e ∈ es, ∀ given, r.Remembers e.need given → e.answer = given ∧ e.reads = []
  /-- What is given is remembered. -/
  learnt : ∀ e ∈ es, e.Succeeds → t.Remembers e.need e.answer
  /-- What was given once is not read again. -/
  once : es.Pairwise fun e later => e.Succeeds → later.need = e.need → later.reads = []

namespace Passage

variable {t : Reader} {es es' : List Exchange}

/-- A reader that is asked nothing. -/
theorem nil (steady : r.Steady answer outcomes D P) : Passage answer D P r [] r where
  steady := ⟨outcomes, steady⟩
  recalls _ _ known := known
  logged := (List.append_nil _).symm
  own _ member := absurd member List.not_mem_nil
  known _ member := absurd member List.not_mem_nil
  learnt _ member := absurd member List.not_mem_nil
  once := .nil

/-- One stretch of exchanges after another. What was given in the first is remembered by the
reader in between, so the second does not read it again. -/
theorem append (first : Passage answer D P r es s) (second : Passage answer D P s es' t) :
    Passage answer D P r (es ++ es') t where
  steady := second.steady
  recalls need given known := second.recalls need given (first.recalls need given known)
  logged := by
    rw [second.logged, first.logged, List.append_assoc, List.flatMap_append]
  own e member := (List.mem_append.mp member).elim (first.own e) (second.own e)
  known e member given known := by
    rcases List.mem_append.mp member with member | member
    · exact first.known e member given known
    · exact second.known e member given (first.recalls _ _ known)
  learnt e member succeeds := by
    rcases List.mem_append.mp member with member | member
    · exact second.recalls _ _ (first.learnt e member succeeds)
    · exact second.learnt e member succeeds
  once := by
    -- What the first exchanges gave is remembered when the second ones begin.
    refine List.pairwise_append.mpr ⟨first.once, second.once, ?_⟩
    rintro e member ⟨_, reads, given⟩ member' succeeds rfl
    exact (second.known _ member' _ (first.learnt e member succeeds)).2

/-- A single exchange: the answer was remembered, or it is read. Both cases are needed, as
nothing is known of what the reader has gone through before. -/
theorem one (steady : r.Steady answer outcomes D P) {need : Need} (shared : need.Shared)
    {given : need.Answer} (ask_eq : r.ask .fresh need = (s, .inl given)) {reads : List ByteRange}
    (reads_eq : reads = s.source.reads.drop r.source.reads.length)
    (within : (Exchange.mk need reads given).Within D P) :
    Passage answer D P r [⟨need, reads, given⟩] s := by
  -- A remembered answer is the one that is given, whichever it is.
  have held : ∀ given', r.Remembers need given' → given = given' ∧ reads = [] ∧
      s.Steady answer outcomes D P ∧ r.Recalls s ∧ s.source = r.source := by
    intro given' known
    obtain ⟨s', ask_eq', source_eq, steady', recalls⟩ := steady.ask_held known
    rw [ask_eq] at ask_eq'
    cases ask_eq'
    refine ⟨rfl, ?_, steady', recalls, source_eq⟩
    rw [reads_eq, source_eq, List.drop_length]
  -- What is remembered is given, and the reader stays as it is. Otherwise it reads.
  by_cases remembered : ∃ given', r.Remembers need given'
  · obtain ⟨given', known⟩ := remembered
    obtain ⟨rfl, rfl, steady', recalls, source_eq⟩ := held given' known
    exact
      { steady := ⟨outcomes, steady'⟩
        recalls := recalls
        logged := by simp [source_eq]
        own := by simp
        known := by
          intro e member
          cases List.mem_singleton.mp member
          exact fun given' known => ⟨(held given' known).1, rfl⟩
        learnt := by
          intro e member succeeds
          cases List.mem_singleton.mp member
          exact recalls _ _ known
        once := List.pairwise_singleton _ _ }
  · have unknown : ∀ given', ¬ r.Remembers need given' := not_exists.mp remembered
    obtain ⟨s', given', ask_eq', logged, keeps⟩ := steady.ask_missed shared unknown
    obtain ⟨s'', given'', ask_eq'', -, -, -, rest, -, idle, -⟩ := steady.toIdle.ask need
    -- All three equations are about the same step, so what they lead to is the same.
    rw [ask_eq] at ask_eq' ask_eq''
    cases ask_eq'
    cases ask_eq''
    obtain ⟨directories, payloads, learnt, recalls⟩ := keeps reads within
    have reads_eq' : reads = need.ranges := by
      rw [reads_eq, logged, List.drop_left]
    exact
      { steady := ⟨rest, idle, directories, payloads⟩
        recalls := recalls
        logged := by simp [logged, reads_eq']
        own := by simp [reads_eq']
        known := by
          intro e member given' known
          cases List.mem_singleton.mp member
          exact absurd known (unknown given')
        learnt := by
          intro e member succeeds
          cases List.mem_singleton.mp member
          exact learnt succeeds
        once := List.pairwise_singleton _ _ }

end Passage

/-- A reader with room for all that it is given passes through its exchanges. -/
theorem Course.passage {t : Reader} {es : List Exchange} (course : Course r es t)
    (steady : r.Steady answer outcomes D P) (shared : ∀ e ∈ es, e.need.Shared)
    (within : ∀ e ∈ es, e.Within D P) : Passage answer D P r es t := by
  induction course generalizing outcomes with
  | nil r => exact .nil steady
  | cons ask_eq later ih =>
      have first := Passage.one steady (shared _ List.mem_cons_self) ask_eq rfl
        (within _ List.mem_cons_self)
      obtain ⟨rest, steady'⟩ := first.steady
      have others := ih steady' (fun e member => shared e (List.mem_cons_of_mem _ member))
        fun e member => within e (List.mem_cons_of_mem _ member)
      exact first.append others

/-- A query whose answers are all remembered comes to the same result, without a read. -/
theorem Steady.advance_again {α : Type} {query : Query α} {path : Asked} {result : α}
    (leads : query.Leads path result) (steady : r.Steady answer outcomes D P)
    (known : ∀ p ∈ path, r.Remembers p.1 p.2) :
    ∃ s, advance query .fresh r = (s, .inl result) ∧ s.source = r.source := by
  induction leads generalizing r with
  | done result => exact ⟨r, rfl, rfl⟩
  | ask given later ih =>
      obtain ⟨s, ask_eq, source_eq, steady', recalls⟩ :=
        steady.ask_held (known _ List.mem_cons_self)
      obtain ⟨t, advance_eq, source_eq'⟩ :=
        ih steady' fun p member => recalls _ _ (known p (List.mem_cons_of_mem _ member))
      refine ⟨t, ?_, source_eq'.trans source_eq⟩
      simp only [advance, ask_eq]
      exact advance_eq

end Reader

end TileArchive
