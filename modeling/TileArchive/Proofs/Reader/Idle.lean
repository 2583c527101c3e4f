import TileArchive.Proofs.Cache.Holds
import TileArchive.Proofs.Dialogue
import TileArchive.Reader.Session

/-!
# `TileArchive.Proofs.Reader.Idle`: a reader between two requests

A reader on which no request is on its way is `Idle`: no load is registered in its caches,
nobody waits for the metadata, and everything it remembers is what reading the archive gives.
This is the invariant behind all that a reader answers.

* `Need.truth` is what reading the archive directly answers to a need, and `Query.run` carries
  a query out with given answers.
* `Reader.Idle.ask`: an idle reader answers a need with the truth, from memory or not, or
  hands on the one read error that it met; it is idle again.
* `Reader.Idle.advance`: the same for a whole query that hands errors on.

## Transparency of what is remembered

A pool remembers a value under a range. It was put there by a load of this range that succeeded,
and a load that succeeds has met no failing read, so its value is what the range gives
(`Ends.eq_truth`). Nothing else puts values in, and dropping them does no harm. So whether a
question is answered from memory or by reading, the answer is the same, and the bounds of the
cache, its evictions and its counters are out of the picture: `Pool.Idle` says nothing about them.

## Errors that come and go

The source is given the outcomes of the reads to come (`Source.Serves`): some succeed, some fail
with a given error. `Ends` relates the result to those that were used: without a failure it is the
truth, and otherwise the first failure ended it. An idle reader is idle again in both cases,
because a failed load leaves nothing in cache, register and turnstile.
-/

set_option autoImplicit false

namespace TileArchive

/-- The result is the given read error. -/
def FailedWith {α : Type} (error : IoError) (result : Except ReadError α) : Prop :=
  result = .error (.io error)

/-- A computation that goes on with a result that may be an error. -/
theorem Dialogue.HandsOn.bindResult {Q : Type} {A : Q → Type} {α β : Type}
    {fails : IoError → (q : Q) → A q} {handedOn : IoError → β → Prop}
    {d : Dialogue Q A (Except ReadError α)} {f : Except ReadError α → Dialogue Q A β}
    (first : d.HandsOn fails FailedWith) (second : ∀ result, (f result).HandsOn fails handedOn)
    (across : ∀ error, ∃ final, f (.error (.io error)) = .done final ∧ handedOn error final) :
    (d.bind f).HandsOn fails handedOn := by
  refine first.bind second ?_
  intro error result failed
  rw [show result = .error (.io error) from failed]
  exact across error

/-! ### Loads -/

/-- Reading some bytes hands a read error on. -/
theorem handsOn_fetchBytes (range : ByteRange) :
    (fetchBytes range).HandsOn Fetch.failure FailedWith :=
  ⟨fun _ => ⟨_, rfl, rfl⟩, fun _ => trivial⟩

/-- Reading some bytes and making something of them hands a read error on. -/
theorem handsOn_fetchBytes_bind {α : Type} (range : ByteRange) (f : Bytes → Except ReadError α) :
    ((fetchBytes range).bind fun data => .done (data >>= f)).HandsOn Fetch.failure FailedWith :=
  (handsOn_fetchBytes range).bindResult (fun _ => trivial) fun _ => ⟨_, rfl, rfl⟩

/-- Loading a directory hands a read error on. -/
theorem handsOn_loadDirectory (h : Header) (range : ByteRange) :
    (loadDirectory h range).HandsOn Fetch.failure FailedWith := by
  unfold loadDirectory
  split
  · trivial
  · exact handsOn_fetchBytes_bind range _

/-- Loading the metadata hands a read error on. -/
theorem handsOn_loadMetadata (h : Header) :
    (loadMetadata h).HandsOn Fetch.failure FailedWith := by
  unfold loadMetadata
  split
  · trivial
  · split
    · trivial
    · exact handsOn_fetchBytes_bind _ _

/-! ### Pools -/

/-- No load of a pool is under way, and what it holds is true. What is true is a parameter,
so a pool of directories and one of payloads are idle in the same sense. -/
structure Pool.Idle {V : Type} (truth : ByteRange → Except ReadError V) (p : Pool V) : Prop where
  flights_eq : p.cache.flights = []
  numbered : p.cache.nextLoad = p.loads.length
  sound : ∀ range value, p.cache.Holds range value → truth range = .ok value

namespace Pool.Idle

variable {V : Type} {truth : ByteRange → Except ReadError V} {p : Pool V}

/-- A new pool remembers nothing and has nothing under way. -/
theorem new (config : CacheConfig) (weigh : ByteRange → V → UInt64) :
    (Pool.new (.empty config weigh)).Idle truth :=
  ⟨rfl, rfl, fun range value held => absurd held (Cache.not_holds_empty _ _ range value)⟩

/-- An idle pool gives what it holds, or starts the load itself. It never joins a load, as
none is under way, and what it holds is true by assumption. -/
theorem ask (idle : p.Idle truth) (range : ByteRange) (load : Fetch (Except ReadError V)) :
    (∃ q value, p.ask range load = (q, .inl value) ∧ q.Idle truth ∧ truth range = .ok value) ∨
    (∃ cache, p.ask range load =
        (⟨cache, p.loads ++ [.running (.fresh load)]⟩, .inr p.loads.length) ∧
      cache.flights = [⟨range, p.loads.length, 1⟩] ∧
      cache.nextLoad = p.loads.length + 1 ∧
      ∀ key value, cache.Holds key value → truth key = .ok value) := by
  obtain ⟨flights_eq, numbered, sound⟩ := idle
  -- Touching an entry moves its stamp, but puts nothing in.
  have held : ∀ key value, (p.cache.touch range).1.Holds key value → truth key = .ok value :=
    fun key value h => sound key value ((Cache.holds_touch _ _ _ _).mp h)
  have found : ∀ value, (p.cache.touch range).2 = some value → truth range = .ok value :=
    fun value h => sound range value (Cache.holds_of_touch h)
  have flights_touch := p.cache.flights_touch range
  have next_touch := p.cache.nextLoad_touch range
  unfold Pool.ask Cache.request
  match touched : p.cache.touch range with
  | (c, some value) =>
    rw [touched] at held found flights_touch next_touch
    left
    refine ⟨⟨c.countLookup true, p.loads⟩, value, rfl, ⟨?_, ?_, held⟩, found value rfl⟩
    · exact flights_touch.trans flights_eq
    · exact next_touch.trans numbered
  | (c, none) =>
    rw [touched] at held flights_touch next_touch
    right
    have flights_nil : c.flights = [] := flights_touch.trans flights_eq
    have next_eq : c.nextLoad = p.loads.length := next_touch.trans numbered
    -- There is no load to join in an idle pool, so one is started, under the next number.
    refine ⟨(c.countLookup false).startFlight range, ?_, ?_, ?_, held⟩
    · simp [Cache.flight?, flights_nil, next_eq]
    · simp [Cache.startFlight, flights_nil, next_eq]
    · simp [Cache.startFlight, next_eq]

/-- The one who has started a load looks at it. The load ends at once, since the source
keeps nobody waiting; its value is remembered if it succeeded, and nothing is left behind if
it failed. -/
theorem look {range : ByteRange} {load : Fetch (Except ReadError V)} {loads : List (Load V)}
    {cache : Cache ByteRange V} {answer : ByteRange → Except IoError Bytes}
    {outcomes : List (Option IoError)} {s : Source}
    (flights_eq : cache.flights = [⟨range, loads.length, 1⟩])
    (next_eq : cache.nextLoad = loads.length + 1)
    (sound : ∀ key value, cache.Holds key value → truth key = .ok value)
    (loaded : load.run answer = truth range) (handsOn : load.HandsOn Fetch.failure FailedWith)
    (serves : s.Serves answer outcomes) :
    ∃ q t outcome used rest,
      (⟨cache, loads ++ [.running (.fresh load)]⟩ : Pool V).look range loads.length s
        = (q, t, some outcome) ∧
      q.Idle truth ∧ outcomes = used ++ rest ∧ t.Serves answer rest ∧
      Ends FailedWith (truth range) (errorsOf used) outcome := by
  obtain ⟨outcome, t, used, rest, poll_eq, split, served, ends⟩ :=
    Fetch.poll_serves handsOn serves false
  rw [loaded] at ends
  let q : Pool V :=
    ⟨cache.finish range loads.length outcome, loads ++ [.finished outcome]⟩
  refine ⟨q, t, outcome, used, rest, ?_, ?_, split, served, ends⟩
  · simp [Pool.look, Load.poll, Suspended.poll, Suspended.fresh, poll_eq, q]
  · cases outcome with
    | error e =>
        -- A load that failed leaves nothing behind.
        refine ⟨?_, ?_, ?_⟩
        · simp [q, Cache.finish, Cache.flight?, flights_eq, Cache.dropFlight]
        · simp [q, Cache.finish, Cache.flight?, flights_eq, Cache.dropFlight, next_eq]
        · intro key value held
          have held' : cache.Holds key value := by
            -- Besides what was put in, the cache holds what it held.
            simpa [q, Cache.finish, Cache.flight?, flights_eq, Cache.dropFlight, Cache.Holds]
              using held
          exact sound key value held'
    | ok value =>
        -- Only an undisturbed load succeeds, so its value is the true one.
        have true_value : truth range = .ok value :=
          (ends.eq_truth fun _ handed => by cases handed).2.symm
        refine ⟨?_, ?_, ?_⟩
        · simp [q, Cache.finish, Cache.flight?, flights_eq, Cache.dropFlight]
        · simp [q, Cache.finish, Cache.flight?, flights_eq, Cache.dropFlight, next_eq]
        · intro key v held
          have held' : (cache.insert range value).Holds key v := by
            simpa [q, Cache.finish, Cache.flight?, flights_eq, Cache.dropFlight, Cache.Holds]
              using held
          rcases held'.of_insert with ⟨rfl, rfl⟩ | before
          · exact true_value
          · exact sound key v before

/-- An idle pool gives what it holds, or the load that it starts is carried on to its end. -/
theorem ask_look (idle : p.Idle truth) {range : ByteRange} {load : Fetch (Except ReadError V)}
    {answer : ByteRange → Except IoError Bytes} {outcomes : List (Option IoError)} {s : Source}
    (loaded : load.run answer = truth range) (handsOn : load.HandsOn Fetch.failure FailedWith)
    (serves : s.Serves answer outcomes) :
    (∃ q value, p.ask range load = (q, .inl value) ∧ q.Idle truth ∧ truth range = .ok value) ∨
    ∃ begun number q t outcome used rest, p.ask range load = (begun, .inr number) ∧
      begun.look range number s = (q, t, some outcome) ∧ q.Idle truth ∧
      outcomes = used ++ rest ∧ t.Serves answer rest ∧
      Ends FailedWith (truth range) (errorsOf used) outcome := by
  rcases idle.ask range load with held | ⟨cache, ask_eq, flights_eq, next_eq, sound⟩
  · exact .inl held
  · obtain ⟨q, t, outcome, used, rest, looked⟩ :=
      look flights_eq next_eq sound loaded handsOn serves
    exact .inr ⟨_, _, q, t, outcome, used, rest, ask_eq, looked⟩

end Pool.Idle

/-! ### Needs and queries -/

/-- Nobody makes the value of a turnstile or waits for it, and a value that it has is true.
Nothing is said where the true result is an error, as an error is not kept. -/
structure Turnstile.Idle {α : Type} (truth : Except ReadError α) (t : Turnstile α) : Prop where
  turn_eq : t.turn = none
  line_eq : t.line = []
  sound : ∀ value, t.value = some value → truth = .ok value

/-- What reading an archive directly answers to a need, with nothing remembered. -/
def Need.truth (h : Header) (answer : ByteRange → Except IoError Bytes) :
    (need : Need) → need.Answer
  | .bytes range => answer range
  | .directory range => (loadDirectory h range).run answer
  | .payload range => (loadPayload range).run answer
  | .metadata => (loadMetadata h).run answer

/-- The answer to a need whose read fails. -/
def Need.failure (error : IoError) : (need : Need) → need.Answer
  | .bytes _ => .error error
  | .directory _ => .error (.io error)
  | .payload _ => .error (.io error)
  | .metadata => .error (.io error)

/-- Carries a query out, answering needs by a rule. -/
def Query.run {α : Type} (answer : (need : Need) → need.Answer) : Query α → α
  | .done result => result
  | .ask need next => run answer (next (answer need))

/-- A query in two parts is carried out one part after the other. -/
@[simp]
theorem Query.run_bind {α β : Type} (answer : (need : Need) → need.Answer) (d : Query α)
    (f : α → Query β) :
    Query.run answer (d.bind f) = Query.run answer (f (Query.run answer d)) := by
  induction d with
  | done result => rfl
  | ask need next ih => exact ih _

/-- A query that shares nothing runs like the computation it stands for. -/
@[simp]
theorem Query.run_toQuery {α : Type} (h : Header) (answer : ByteRange → Except IoError Bytes)
    (d : Fetch α) : Query.run (Need.truth h answer) d.toQuery = d.run answer := by
  induction d with
  | done result => rfl
  | ask range next ih => exact ih _

/-- A computation that hands read errors on does so as a query. -/
theorem handsOn_toQuery {α : Type} {handedOn : IoError → α → Prop} {d : Fetch α}
    (handsOn : d.HandsOn Fetch.failure handedOn) : d.toQuery.HandsOn Need.failure handedOn := by
  induction d with
  | done result => trivial
  | ask range next ih =>
      refine ⟨?_, fun answer => ih answer (handsOn.2 answer)⟩
      intro error
      obtain ⟨result, next_eq, handed⟩ := handsOn.1 error
      have stops : next (.error error) = .done result := next_eq
      exact ⟨result, congrArg Fetch.toQuery stops, handed⟩

/-! ### Readers -/

/-- No request to the reader is on its way, what it remembers is true of the archive, and
its next reads turn out as the outcomes say. This is the state between two requests of a
history in which every request is carried out at once, and an opened reader is in it. -/
structure Reader.Idle (answer : ByteRange → Except IoError Bytes)
    (outcomes : List (Option IoError)) (r : Reader) : Prop where
  serves : r.source.Serves answer outcomes
  directories : r.directories.Idle fun range => (loadDirectory r.header range).run answer
  payloads : r.payloads.Idle fun range => (loadPayload range).run answer
  metadata : r.metadata.Idle ((loadMetadata r.header).run answer)

namespace Reader.Idle

variable {answer : ByteRange → Except IoError Bytes} {outcomes : List (Option IoError)}
  {r : Reader}

/-- A reader that has just been made of a header is idle. -/
theorem ofHeader (h : Header) (config : ReaderConfig) {s : Source}
    (serves : s.Serves answer outcomes) : (Reader.ofHeader h config s).Idle answer outcomes :=
  ⟨serves, .new _ _, .new _ _, rfl, rfl, fun _ some_eq => by cases some_eq⟩

/-- An idle reader answers a question to its end with a result, and is idle again. -/
def Answers {α : Type} (answer : ByteRange → Except IoError Bytes)
    (outcomes : List (Option IoError)) (r : Reader) (handedOn : IoError → α → Prop) (truth : α)
    (s : Reader) (result : α) : Prop :=
  s.header = r.header ∧ s.config = r.config ∧
    ∃ used rest, outcomes = used ++ rest ∧ s.Idle answer rest ∧
      Ends handedOn truth (errorsOf used) result

/-- An idle reader answers for a directory. It takes an outcome from the source only if the
directory is not held, and the answer is that of the archive unless this outcome is an
error. -/
theorem askDirectory (idle : r.Idle answer outcomes) (range : ByteRange) :
    ∃ s result, r.askDirectory range .fresh = (s, .inl result) ∧
      Answers answer outcomes r FailedWith ((loadDirectory r.header range).run answer) s
        result := by
  -- A value that is held is answered without a read. Otherwise the load is looked at in the
  -- same move and comes to its end, because no read is held.
  rcases idle.directories.ask_look rfl (handsOn_loadDirectory r.header range) idle.serves with
    ⟨q, value, ask_eq, pool, truth_eq⟩ |
    ⟨begun, number, q, t, outcome, used, rest, ask_eq, look_eq, pool, split, serves, ends⟩
  · refine ⟨{ r with directories := q }, .ok value, ?_, rfl, rfl, [], outcomes, rfl,
      ⟨idle.serves, pool, idle.payloads, idle.metadata⟩, ?_⟩
    · simp only [Reader.askDirectory, ask_eq]
    · rw [truth_eq]
      exact .undisturbed
  · refine ⟨{ r with directories := q, source := t }, outcome, ?_, rfl, rfl, used, rest, split,
      ⟨serves, pool, idle.payloads, idle.metadata⟩, ends⟩
    simp only [Reader.askDirectory, ask_eq, Reader.lookDirectory, look_eq]

/-- An idle reader answers for a payload. -/
theorem askPayload (idle : r.Idle answer outcomes) (range : ByteRange) :
    ∃ s result, r.askPayload range .fresh = (s, .inl result) ∧
      Answers answer outcomes r FailedWith ((loadPayload range).run answer) s result := by
  rcases idle.payloads.ask_look rfl (handsOn_fetchBytes range) idle.serves with
    ⟨q, value, ask_eq, pool, truth_eq⟩ |
    ⟨begun, number, q, t, outcome, used, rest, ask_eq, look_eq, pool, split, serves, ends⟩
  · refine ⟨{ r with payloads := q }, .ok value, ?_, rfl, rfl, [], outcomes, rfl,
      ⟨idle.serves, idle.directories, pool, idle.metadata⟩, ?_⟩
    · simp only [Reader.askPayload, ask_eq]
    · rw [truth_eq]
      exact .undisturbed
  · refine ⟨{ r with payloads := q, source := t }, outcome, ?_, rfl, rfl, used, rest, split,
      ⟨serves, idle.directories, pool, idle.metadata⟩, ends⟩
    simp only [Reader.askPayload, ask_eq, Reader.lookPayload, look_eq]

/-- An idle reader answers for the metadata. They are given if they were loaded before;
otherwise it is the turn of this request, and it loads them itself. -/
theorem askMetadata (idle : r.Idle answer outcomes) :
    ∃ s result, r.askMetadata .fresh = (s, .inl result) ∧
      Answers answer outcomes r FailedWith ((loadMetadata r.header).run answer) s result := by
  obtain ⟨turn_eq, line_eq, sound⟩ := idle.metadata
  cases value_eq : r.metadata.value with
  | some metadata =>
      -- What was loaded before is given without a read.
      refine ⟨r, .ok metadata, ?_, rfl, rfl, [], outcomes, rfl, idle, ?_⟩
      · simp only [Reader.askMetadata, value_eq]
      · rw [sound metadata value_eq]
        exact .undisturbed
  | none =>
      obtain ⟨result, t, used, rest, poll_eq, split, serves, ends⟩ :=
        Fetch.poll_serves (handsOn_loadMetadata r.header) idle.serves false
      -- Nobody else has the turn, so the request gets it and loads the metadata itself.
      let entered : Turnstile Metadata :=
        ⟨none, some r.metadata.nextTicket, [], r.metadata.nextTicket + 1⟩
      have asked : r.askMetadata .fresh =
          { r with metadata := entered }.loadTurn r.metadata.nextTicket
            (.fresh (loadMetadata r.header)) := by
        simp [Reader.askMetadata, value_eq, Turnstile.enter, turn_eq, line_eq, Reader.awaitTurn,
          entered]
      rw [asked]
      simp only [Reader.loadTurn, Suspended.poll, Suspended.fresh, poll_eq]
      cases result with
      | error e =>
          refine ⟨_, .error e, rfl, rfl, rfl, used, rest, split, ⟨serves, idle.directories,
            idle.payloads, rfl, rfl, ?_⟩, ends⟩
          intro value some_eq
          cases some_eq
      | ok metadata =>
          refine ⟨_, .ok metadata, rfl, rfl, rfl, used, rest, split, ⟨serves, idle.directories,
            idle.payloads, rfl, rfl, ?_⟩, ends⟩
          intro value some_eq
          cases some_eq
          exact (ends.eq_truth fun _ handed => by cases handed).2.symm

/-- An idle reader answers every need. This is the one step that all queries are made of,
and `advance` repeats it. -/
theorem ask (idle : r.Idle answer outcomes) (need : Need) :
    ∃ s result, r.ask .fresh need = (s, .inl result) ∧
      Answers answer outcomes r (fun error result => result = need.failure error)
        (need.truth r.header answer) s result := by
  cases need with
  | bytes range =>
      obtain ⟨t, poll_eq, serves⟩ := Source.poll_serves idle.serves range false
      refine ⟨r.withSource t, Source.firstAnswer answer range outcomes, ?_, rfl, rfl, ?_⟩
      · simp only [Reader.ask, Reader.askBytes, poll_eq]
        rfl
      · have idle' : (r.withSource t).Idle answer outcomes.tail :=
          ⟨serves, idle.directories, idle.payloads, idle.metadata⟩
        -- One read is one outcome of the source: undisturbed, or the error that was injected.
        match outcomes with
        | [] => exact ⟨[], [], rfl, idle', .undisturbed⟩
        | none :: rest => exact ⟨[none], rest, rfl, idle', .undisturbed⟩
        | some error :: rest => exact ⟨[some error], rest, rfl, idle', .failed rfl⟩
  | directory range => exact idle.askDirectory range
  | payload range => exact idle.askPayload range
  | metadata => exact idle.askMetadata

/-- An idle reader carries a query that hands errors on to its end, and is idle again. The
induction is on the query. A query that meets an error asks for nothing more, so no later
outcome is used up. -/
theorem advance {α : Type} {handedOn : IoError → α → Prop} {query : Query α}
    (handsOn : query.HandsOn Need.failure handedOn) (idle : r.Idle answer outcomes) :
    ∃ s result, Reader.advance query .fresh r = (s, .inl result) ∧
      Answers answer outcomes r handedOn (query.run (Need.truth r.header answer)) s result := by
  induction query generalizing r outcomes with
  | done result =>
      exact ⟨r, result, rfl, rfl, rfl, [], outcomes, rfl, idle, .undisturbed⟩
  | ask need next ih =>
      obtain ⟨s, reply, ask_eq, header_eq, config_eq, used, rest, rfl, idle', ends⟩ :=
        idle.ask need
      simp only [Reader.advance, ask_eq]
      generalize errors_eq : errorsOf used = errors at ends
      cases ends with
      | undisturbed =>
          -- The reply is the true one, so the rest of the query goes on as it does directly.
          obtain ⟨t, result, advance_eq, header_eq', config_eq', used', rest', rfl, idle'',
            ends'⟩ := ih _ (handsOn.2 _) idle'
          rw [header_eq] at ends'
          refine ⟨t, result, advance_eq, header_eq'.trans header_eq, config_eq'.trans config_eq,
            used ++ used', rest', (List.append_assoc _ _ _).symm, idle'', ?_⟩
          rw [errorsOf_append, errors_eq, List.nil_append]
          exact ends'
      | failed handed =>
          next error =>
          -- The failed answer ends the query at once.
          obtain ⟨result, next_eq, handed'⟩ := handsOn.1 error
          rw [handed, next_eq]
          refine ⟨s, result, rfl, header_eq, config_eq, used, rest, rfl, idle', ?_⟩
          rw [errors_eq]
          exact .failed handed'

end Reader.Idle

end TileArchive
