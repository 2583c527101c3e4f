import TileArchive.Proofs.Reader.Bounds
import TileArchive.Proofs.Reader.Log

/-!
# `TileArchive.Proofs.Reader.Exchanges`: questions, reads and answers

A query puts one question after another to a reader. An `Exchange` is a question with the reads
that were begun for it and the answer, and `Reader.exchanges` lists those of a query.

* `Reader.Course` says that a reader goes through some exchanges. `course_of_advance` and
  `ReaderSession.course` say that a query and a whole history go through theirs, and that the
  questions and answers of a query are a path through it.
* `shared_of_leads_lookUp` and `succeeds_of_leads_lookUp` say what a look-up asks for, and that it
  fails with any of its questions.

An exchange keeps the three things apart that a statement about remembering has to relate: what was
asked, what was read for it, and what was given. The reads are told from the log of the source,
which only grows, by what the question has added to it.

`Course` is a relation and `exchanges` a function. The function is what a theorem mentions, since it
can be computed from a history. The relation is what proofs use: it can be taken apart and put
together at any place, and it forgets which query a question belongs to. All of this is about
readers whose source keeps nobody waiting, so that every question is answered at once.
-/

set_option autoImplicit false

namespace TileArchive

/-- A question that was put to a reader, the reads begun for it, and the answer. An exchange
without reads was answered from what the reader remembers, or needed no bytes. -/
structure Exchange where
  need : Need
  reads : List ByteRange
  answer : need.Answer

/-- Whether a need is met by a value and not by an error. -/
def Need.Succeeds : (need : Need) → need.Answer → Prop
  | .bytes _, answer => ∃ bytes, answer = Except.ok bytes
  | .directory _, answer => ∃ d, answer = Except.ok d
  | .payload _, answer => ∃ payload, answer = Except.ok payload
  | .metadata, answer => ∃ metadata, answer = Except.ok metadata

/-- Whether answers to a need are remembered for all who ask. Bytes are not, and the
metadata are kept apart from the caches. -/
def Need.Shared : Need → Prop
  | .bytes _ => False
  | .directory _ => True
  | .payload _ => True
  | .metadata => False

namespace Exchange

/-- The question with its answer. -/
def asked (e : Exchange) : (need : Need) × need.Answer := ⟨e.need, e.answer⟩

/-- Whether the answer is a value. -/
def Succeeds (e : Exchange) : Prop := e.need.Succeeds e.answer

/-- The directory that was given, with its range. -/
def directory? : Exchange → Option (ByteRange × Directory)
  | ⟨.directory range, _, .ok d⟩ => some (range, d)
  | _ => none

/-- The payload that was given, with its range. -/
def payload? : Exchange → Option (ByteRange × Bytes)
  | ⟨.payload range, _, .ok payload⟩ => some (range, payload)
  | _ => none

end Exchange

/-! ### Exchanges of a query -/

namespace Reader

variable {α : Type} {r s : Reader}

/-- The exchanges of a query that is put to a reader, up to where it would have to wait. -/
def exchanges : Query α → Reader → List Exchange
  | .done _, _ => []
  | .ask need next, r =>
    match r.ask .fresh need with
    | (s, .inl answer) =>
      ⟨need, s.source.reads.drop r.source.reads.length, answer⟩ :: exchanges (next answer) s
    | (_, .inr _) => []

/-- A reader goes through some exchanges, one after another, and becomes another. The reads
of an exchange are what it adds to the log of the source. -/
inductive Course : Reader → List Exchange → Reader → Prop where
  | nil (r : Reader) : Course r [] r
  | cons {r s t : Reader} {need : Need} {answer : need.Answer} {es : List Exchange}
      (ask_eq : r.ask .fresh need = (s, .inl answer)) (later : Course s es t) :
      Course r (⟨need, s.source.reads.drop r.source.reads.length, answer⟩ :: es) t

/-- One course after another. -/
theorem Course.append {t : Reader} {es es' : List Exchange} (first : Course r es s)
    (second : Course s es' t) : Course r (es ++ es') t := by
  induction first with
  | nil r => exact second
  | cons ask_eq _ ih => exact .cons ask_eq (ih second)

/-- A query that comes to a result goes through its exchanges, and their questions and answers
lead to the result. -/
theorem course_of_advance {query : Query α} {result : α}
    (advance_eq : advance query .fresh r = (s, .inl result)) :
    Course r (exchanges query r) s ∧
      query.Leads ((exchanges query r).map Exchange.asked) result := by
  induction query generalizing r with
  | done given =>
      cases advance_eq
      exact ⟨.nil _, .done _⟩
  | ask need next ih =>
      rw [advance] at advance_eq
      rw [exchanges]
      cases ask_eq : r.ask .fresh need with
      | mk t reply =>
          rw [ask_eq] at advance_eq
          -- A fresh query that comes to its result was never made to wait on the way.
          cases reply with
          | inl answer =>
              obtain ⟨course, leads⟩ := ih answer advance_eq
              exact ⟨.cons ask_eq course, .ask answer leads⟩
          | inr stage => cases advance_eq

end Reader

/-! ### Exchanges of a history -/

namespace ReaderSession

/-- The exchanges of requests that are carried out one after another. -/
def exchanges : List Request → ReaderSession → List Exchange
  | [], _ => []
  | request :: history, s =>
    s.reader.exchanges (s.query request) ++ exchanges history (s.run request).1

/-- The exchanges of a history in two parts. -/
theorem exchanges_append (first second : List Request) (s : ReaderSession) :
    exchanges (first ++ second) s = exchanges first s ++ exchanges second (s.after first) := by
  induction first generalizing s with
  | nil => rfl
  | cons request first ih =>
      rw [List.cons_append, exchanges, ih, exchanges, List.append_assoc]
      rfl

/-- A history in two parts leads where the second part leads from where the first has. -/
theorem after_append (first second : List Request) (s : ReaderSession) :
    s.after (first ++ second) = (s.after first).after second :=
  List.foldl_append

/-- A request that is answered goes through its exchanges. -/
theorem course_of_run {s : ReaderSession} {request : Request} {response : Response}
    (run_eq : (s.run request).2 = some response) :
    s.reader.Course (s.reader.exchanges (s.query request)) (s.run request).1.reader ∧
      (s.query request).Leads ((s.reader.exchanges (s.query request)).map Exchange.asked)
        response := by
  rw [run, Reader.run] at run_eq ⊢
  cases advance_eq : Reader.advance (s.query request) .fresh s.reader with
  | mk t result =>
      rw [advance_eq] at run_eq
      cases result with
      | inl result =>
          cases run_eq
          exact Reader.course_of_advance advance_eq
      | inr waiting => cases run_eq

/-- A history goes through its exchanges. -/
theorem course {answer : ByteRange → Except IoError Bytes} (history : List Request)
    {outcomes : List (Option IoError)} {s : ReaderSession}
    (idle : s.reader.Idle answer outcomes) :
    s.reader.Course (exchanges history s) (s.after history).reader := by
  induction history generalizing s outcomes with
  | nil => exact .nil s.reader
  | cons request history ih =>
      obtain ⟨response, rest, run_eq, -, -, -, idle', -⟩ :=
        run_idle (handsOn_query _ _ request) idle
      exact (course_of_run run_eq).1.append (ih idle')

end ReaderSession

/-! ### Exchanges of a look-up -/

/-- A path through a request for a tile is one through the look-up. -/
theorem leads_tile {h : Header} {config : ReaderConfig} {c : TileCoord} {path : Asked}
    {response : Response} (leads : ((Request.tile c).query h config).Leads path response) :
    ∃ result, response = .payload result ∧ (lookUp h c).Leads path result := by
  obtain ⟨first, result, rest, rfl, there, on⟩ := Dialogue.leads_bind_iff.mp leads
  obtain ⟨rfl, rfl⟩ := Dialogue.leads_done_iff.mp on
  exact ⟨result, rfl, by rwa [List.append_nil]⟩

/-- A look-up asks for directories and payloads alone. It needs no bytes of its own and no
metadata, so all it reads goes through the caches. -/
theorem shared_of_leads_lookUp {h : Header} {c : TileCoord} {path : Asked}
    {result : Except ReadError (Option Bytes)} (leads : (lookUp h c).Leads path result) :
    ∀ p ∈ path, p.1.Shared := by
  rw [lookUp] at leads
  split at leads
  · obtain ⟨rfl, -⟩ := Dialogue.leads_done_iff.mp leads
    simp
  · -- A way down is directories and then at most one payload.
    obtain ⟨visited, payloads, rfl, descends⟩ := descends_of_leads leads
    intro p member
    rcases List.mem_append.mp member with member | member
    · obtain ⟨range, need_eq⟩ := descends.directories p member
      rw [need_eq]
      trivial
    · obtain ⟨range, need_eq⟩ := descends.payload p member
      rw [need_eq]
      trivial

/-- Going down the directories succeeds only if every answer on the way does. This is what
lets a successful look-up be repeated from what is remembered. -/
theorem succeeds_of_leads_descend {h : Header} {id : UInt64} {depth : Nat} {range : ByteRange}
    {path : Asked} {found : Option Bytes}
    (leads : (descend h id depth range).Leads path (.ok found)) :
    ∀ p ∈ path, p.1.Succeeds p.2 := by
  induction depth generalizing range path with
  | zero =>
      obtain ⟨rfl, -⟩ := Dialogue.leads_done_iff.mp leads
      simp
  | succ depth ih =>
      rw [descend] at leads
      cases leads with
      | ask answer leads =>
      cases answer with
      -- A directory that fails would have been the end of the look-up, with its error.
      | error e => cases leads
      | ok d =>
          have first : (Need.directory range).Succeeds (.ok d) := ⟨d, rfl⟩
          dsimp only at leads
          split at leads
          · obtain ⟨rfl, -⟩ := Dialogue.leads_done_iff.mp leads
            simpa using first
          · next e _ =>
            split at leads
            · simpa using ⟨first, ih leads⟩
            · cases leads with
              | ask payload leads =>
                  obtain ⟨rfl, mapped⟩ := Dialogue.leads_done_iff.mp leads
                  -- So would the payload.
                  cases payload with
                  | error e => cases mapped
                  | ok payload =>
                      have second : (Need.payload (h.payloadRange e)).Succeeds (.ok payload) :=
                        ⟨payload, rfl⟩
                      simpa using ⟨first, second⟩

/-- A look-up that succeeds got a value for each of its questions. -/
theorem succeeds_of_leads_lookUp {h : Header} {c : TileCoord} {path : Asked}
    {found : Option Bytes} (leads : (lookUp h c).Leads path (.ok found)) :
    ∀ p ∈ path, p.1.Succeeds p.2 := by
  rw [lookUp] at leads
  split at leads
  · cases leads
  · exact succeeds_of_leads_descend leads

/-- A failed answer is no success, whatever was asked for. -/
theorem Need.not_succeeds_failure (need : Need) (error : IoError) :
    ¬ need.Succeeds (need.failure error) := by
  cases need <;> exact nofun

/-- Every value that a reader is given is the one that the archive holds. The induction is
on the exchanges, and a reader that is idle before one is idle after it. -/
theorem Reader.Course.truth {answer : ByteRange → Except IoError Bytes}
    {outcomes : List (Option IoError)} {r t : Reader} {es : List Exchange}
    (course : r.Course es t) (idle : r.Idle answer outcomes) :
    ∀ e ∈ es, e.Succeeds → e.answer = e.need.truth r.header answer := by
  induction course generalizing outcomes with
  | nil r => exact fun _ member => absurd member List.not_mem_nil
  | @cons r s t need given es ask_eq later ih =>
      obtain ⟨s', given', ask_eq', header_eq, -, used, rest, -, idle', ends⟩ := idle.ask need
      rw [ask_eq] at ask_eq'
      cases ask_eq'
      intro e member succeeds
      rcases List.mem_cons.mp member with rfl | member
      · -- A need is answered by what the archive holds, or it fails and the exchange
        -- does not succeed.
        generalize errorsOf used = errors at ends
        cases ends with
        | undisturbed => rfl
        | failed handed =>
            rw [Exchange.Succeeds, handed] at succeeds
            exact absurd succeeds (need.not_succeeds_failure _)
      · rw [← header_eq]
        exact ih idle' e member succeeds

/-- Look-ups ask for directories and payloads alone. This is `shared_of_leads_lookUp` for
each look-up of a history, whatever became of those before it. -/
theorem ReaderSession.shared_of_mem_exchanges {answer : ByteRange → Except IoError Bytes}
    (calls : List TileCoord) {outcomes : List (Option IoError)} {s : ReaderSession}
    (idle : s.reader.Idle answer outcomes) :
    ∀ e ∈ exchanges (calls.map .tile) s, e.need.Shared := by
  induction calls generalizing s outcomes with
  | nil => exact fun _ member => absurd member List.not_mem_nil
  | cons c calls ih =>
      obtain ⟨response, rest, run_eq, -, -, -, idle', -⟩ :=
        run_idle (handsOn_query _ _ (.tile c)) idle
      obtain ⟨result, -, leads⟩ := leads_tile (course_of_run run_eq).2
      intro e member
      -- The exchanges of a history are those of its first request and those of the rest.
      rcases List.mem_append.mp member with member | member
      · exact shared_of_leads_lookUp leads _ (List.mem_map_of_mem member)
      · exact ih idle' e member

end TileArchive
