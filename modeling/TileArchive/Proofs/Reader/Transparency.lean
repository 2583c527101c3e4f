import TileArchive.Proofs.Reader.Direct
import TileArchive.Proofs.Reader.FirstError
import TileArchive.Proofs.Reader.Opening

/-!
# `TileArchive.Proofs.Reader.Transparency`: what is remembered does not show

A reader remembers directories, payloads and metadata, drops some of them again, and may meet
failing reads at any time. None of this shows in what it answers.

* `ReaderSession.after` carries requests out one after another, and `ReaderSession.met` lists
  the read errors that a request meets.
* `ReaderSession.run_idle`: every request ends, with the response that true answers to its
  needs give, or with the one read error it met.
* `request_transparent`: so after any history a look-up gives what the direct look-up in the
  bytes of the archive gives, or the one read error that it met itself.

## Histories with failing reads

The source is given a list of outcomes in advance, one for each read to come: it passes or fails
with a given error. The list may be of any length, and once it is used up all reads pass. How many
outcomes a request uses depends on what is remembered, so no request can be told its share
beforehand. `met` says afterwards which errors were in it. If there are none the response is the
true one; otherwise there is exactly one, the request ended with it, and the reader is left as
able to answer as before.

`answered_after` is the statement for all requests, `answered_directly` the case without failures,
and `request_transparent` the one for look-ups, with the reference of `Proofs/Reader/Direct.lean` on
the other side.
-/

set_option autoImplicit false

namespace TileArchive

namespace ReaderSession

/-- The session after some requests, each of which was carried out before the next. No
request waits in it, and its caches hold what these requests left there. -/
def after (s : ReaderSession) (history : List Request) : ReaderSession :=
  history.foldl (fun s request => (s.run request).1) s

/-- The read errors that a request meets: those of the disturbances that its reads take.
They are told by the queue before and after the request. -/
def met (s : ReaderSession) (request : Request) : List IoError :=
  let before := s.reader.source.queue
  let left := (s.run request).1.reader.source.queue
  (before.take (before.length - left.length)).filterMap Disturbance.error?

/-- A request to an idle reader ends, and the reader is idle again. Its response is that of
true answers, or reports the only read error that it met. -/
theorem run_idle {answer : ByteRange → Except IoError Bytes} {outcomes : List (Option IoError)}
    {s : ReaderSession} {request : Request} {handedOn : IoError → Response → Prop}
    (handsOn : (s.query request).HandsOn Need.failure handedOn)
    (idle : s.reader.Idle answer outcomes) :
    ∃ response rest, (s.run request).2 = some response ∧
      (s.run request).1.reader.header = s.reader.header ∧
      (s.run request).1.reader.config = s.reader.config ∧
      (∃ used, outcomes = used ++ rest) ∧ (s.run request).1.reader.Idle answer rest ∧
      Ends handedOn ((s.query request).run (Need.truth s.reader.header answer))
        (s.met request) response := by
  obtain ⟨t, response, advance_eq, header_eq, config_eq, used, rest, split, idle', ends⟩ :=
    idle.advance handsOn
  have run_eq : s.run request = ({ s with reader := t }, some response) := by
    simp only [run, Reader.run, advance_eq]
  -- The request took the outcomes `used` off the queue, so it met their errors.
  have met_eq : s.met request = errorsOf used := by
    have before_eq : s.reader.source.queue
        = used.map .ofOutcome ++ rest.map Disturbance.ofOutcome := by
      rw [idle.serves.queue_eq, split, List.map_append]
    have left_eq : t.source.queue = rest.map .ofOutcome := idle'.serves.queue_eq
    simp only [met, run_eq]
    rw [before_eq, left_eq, List.length_append, Nat.add_sub_cancel, List.take_left,
      filterMap_error?_ofOutcome]
  rw [run_eq, met_eq]
  exact ⟨response, rest, rfl, header_eq, config_eq, ⟨used, split⟩, idle', ends⟩

/-- After any history an idle reader is idle, with the header and configuration it had. -/
theorem after_idle {answer : ByteRange → Except IoError Bytes} (history : List Request)
    {outcomes : List (Option IoError)} {s : ReaderSession}
    (idle : s.reader.Idle answer outcomes) :
    ∃ used rest, outcomes = used ++ rest ∧ (s.after history).reader.Idle answer rest ∧
      (s.after history).reader.header = s.reader.header ∧
      (s.after history).reader.config = s.reader.config := by
  induction history generalizing s outcomes with
  | nil => exact ⟨[], outcomes, rfl, idle, rfl, rfl⟩
  | cons request history ih =>
      obtain ⟨-, rest, -, header_eq, config_eq, ⟨used, rfl⟩, idle', -⟩ :=
        run_idle (handsOn_query _ _ request) idle
      obtain ⟨used', rest', rfl, idle'', header_eq', config_eq'⟩ := ih idle'
      exact ⟨used ++ used', rest', (List.append_assoc _ _ _).symm, idle'',
        header_eq'.trans header_eq, config_eq'.trans config_eq⟩

end ReaderSession

/-- The response to a request without memory and without failing reads. Everything is read
from the bytes at hand whenever it is needed. -/
def Request.direct (h : Header) (config : ReaderConfig) (bytes : Bytes) (request : Request) :
    Response :=
  (request.query h config).run (Need.truth h (Content.read bytes))

/-- After any history a request to a reader that was idle is answered as without memory, or
with the one read error that it met. -/
theorem answered_after {bytes : Bytes} {outcomes : List (Option IoError)} {r : Reader}
    {request : Request} {handedOn : IoError → Response → Prop}
    (handsOn : (request.query r.header r.config).HandsOn Need.failure handedOn)
    (idle : r.Idle (Content.read bytes) outcomes) (history : List Request) :
    ∃ response, (((ReaderSession.new r).after history).run request).2 = some response ∧
      (((ReaderSession.new r).after history).met request = [] →
        response = request.direct r.header r.config bytes) ∧
      ∀ error ∈ ((ReaderSession.new r).after history).met request, handedOn error response := by
  obtain ⟨-, rest, -, idle', header_eq, config_eq⟩ :=
    ReaderSession.after_idle (s := .new r) history idle
  have query_eq : ((ReaderSession.new r).after history).query request
      = request.query r.header r.config := by
    rw [ReaderSession.query, header_eq, config_eq]
    rfl
  obtain ⟨response, -, run_eq, -, -, -, -, ends⟩ :=
    ReaderSession.run_idle (query_eq ▸ handsOn) idle'
  refine ⟨response, run_eq, ?_, ?_⟩
  · intro none_met
    rw [none_met, query_eq, header_eq] at ends
    cases ends
    rfl
  · intro error member
    generalize ((ReaderSession.new r).after history).met request = errors at ends member
    cases ends with
    | undisturbed => cases member
    | failed handed =>
        -- No request meets more than one error.
        rw [List.mem_singleton.mp member]
        exact handed

/-- Where no reads fail, every request is answered as without memory. -/
theorem answered_directly {bytes : Bytes} {r : Reader} (idle : r.Idle (Content.read bytes) [])
    (history : List Request) (request : Request) :
    (((ReaderSession.new r).after history).run request).2
      = some (request.direct r.header r.config bytes) := by
  obtain ⟨used, rest, split, idle', -, -⟩ := ReaderSession.after_idle (s := .new r) history idle
  obtain ⟨rfl, rfl⟩ := List.nil_eq_append_iff.mp split
  have none_met : ((ReaderSession.new r).after history).met request = [] := by
    simp [ReaderSession.met, idle'.serves.queue_eq]
  obtain ⟨response, run_eq, undisturbed, -⟩ :=
    answered_after (handsOn_query _ _ request) idle history
  rw [run_eq, undisturbed none_met]

/-- A request that shares nothing is then answered by the computation that it stands for. -/
theorem answered_toQuery {α : Type} {bytes : Bytes} {r : Reader}
    (idle : r.Idle (Content.read bytes) []) {request : Request} {d : Fetch α}
    {respond : α → Response} {result : α} (history : List Request)
    (query_eq : request.query r.header r.config
      = d.toQuery.bind fun result => .done (respond result))
    (run_eq : d.run (Content.read bytes) = result) :
    (((ReaderSession.new r).after history).run request).2 = some (respond result) := by
  rw [answered_directly idle, Request.direct, query_eq, Query.run_bind, Query.run_toQuery, run_eq]
  rfl

/-- The same for a look-up: its response is the result of the direct look-up, or the one read
error that it met. -/
theorem lookUp_answered_after {bytes : Bytes} {outcomes : List (Option IoError)} {r : Reader}
    {request : Request} {query : Query (Except ReadError (Option Bytes))}
    {found : Except ReadError (Option Bytes)}
    (query_eq : request.query r.header r.config
      = query.bind fun result => .done (.payload result))
    (handsOn : query.HandsOn Need.failure FailedWith)
    (direct : SameUpToText (query.run (Need.truth r.header (Content.read bytes))) found)
    (idle : r.Idle (Content.read bytes) outcomes) (history : List Request) :
    ∃ result, (((ReaderSession.new r).after history).run request).2 = some (.payload result) ∧
      (((ReaderSession.new r).after history).met request = [] → SameUpToText result found) ∧
      ∀ error ∈ ((ReaderSession.new r).after history).met request,
        result = .error (.io error) := by
  have handsOn' : (request.query r.header r.config).HandsOn Need.failure
      fun error response => response = .payload (.error (.io error)) := by
    rw [query_eq]
    exact handsOn.bindResult (fun _ => trivial) fun error => ⟨_, rfl, rfl⟩
  obtain ⟨response, run_eq, undisturbed, disturbed⟩ := answered_after handsOn' idle history
  cases met_eq : ((ReaderSession.new r).after history).met request with
  | nil =>
      -- Without an error the response is the direct one, so it carries a result.
      have response_eq := undisturbed met_eq
      rw [Request.direct, query_eq, Query.run_bind] at response_eq
      subst response_eq
      exact ⟨_, run_eq, fun _ => direct, nofun⟩
  | cons error errors =>
      rw [met_eq] at disturbed
      have response_eq := disturbed error List.mem_cons_self
      subst response_eq
      refine ⟨_, run_eq, nofun, ?_⟩
      intro error' member
      have same := disturbed error' member
      injection same

/-- A reader is opened on an archive, any of whose reads may fail. After any history of
requests, carried out or failed, every request is answered. A request that meets no failing
read is answered as if nothing were remembered; for a look-up that is the direct look-up in the
bytes. A request that meets one reports its error. -/
theorem request_transparent {bytes : Bytes} {config : ReaderConfig}
    {outcomes : List (Option IoError)} {source : Source} {r : Reader}
    (addressable : Content.Addressable bytes)
    (opened : Reader.open? config (.failing bytes outcomes) = (source, some (.ok r)))
    (history : List Request) :
    let s := (ReaderSession.new r).after history
    (∀ c, ∃ result, (s.run (.tile c)).2 = some (.payload result) ∧
      (s.met (.tile c) = [] → SameUpToText result (Content.findTile r.header bytes c)) ∧
      ∀ error ∈ s.met (.tile c), result = .error (.io error)) ∧
    (∀ z x y, ∃ result, (s.run (.tileAt z x y)).2 = some (.payload result) ∧
      (s.met (.tileAt z x y) = [] →
        SameUpToText result (Content.findTileAt r.header bytes z x y)) ∧
      ∀ error ∈ s.met (.tileAt z x y), result = .error (.io error)) ∧
    ∀ request, ∃ response, (s.run request).2 = some response ∧
      (s.met request = [] → response = request.direct r.header config bytes) ∧
      ∀ error ∈ s.met request, response.error? = some (.io error) := by
  obtain ⟨-, rfl, -, -, rest, -, idle⟩ := Reader.opened_idle opened
  refine ⟨?_, ?_, ?_⟩
  · intro c
    exact lookUp_answered_after rfl (handsOn_lookUp _ c) (run_lookUp addressable _ c) idle history
  · intro z x y
    exact lookUp_answered_after rfl (handsOn_lookUpAt _ z x y)
      (run_lookUpAt addressable _ z x y) idle history
  · intro request
    exact answered_after (handsOn_query _ _ request) idle history

/-- The payload read of a first look-up fails, and the next look-up of the same tile finds its
directories remembered and reads the payload anew. -/
theorem request_transparent_leafArchive :
    Content.Addressable leafArchive ∧
    ∃ source r, Reader.open? .standard
        (.failing leafArchive [none, none, none, some ⟨.timedOut, none⟩])
          = (source, some (.ok r)) ∧
      let s := (ReaderSession.new r).after [.tileAt 0 0 0]
      ∃ result, (s.run (.tileAt 0 0 0)).2 = some (.payload result) ∧
        (s.met (.tileAt 0 0 0) = [] →
          SameUpToText result (Content.findTileAt r.header leafArchive 0 0 0)) ∧
        ∀ error ∈ s.met (.tileAt 0 0 0), result = .error (.io error) := by
  obtain ⟨source, r, opened⟩ : ∃ source r, Reader.open? .standard
      (.failing leafArchive [none, none, none, some ⟨.timedOut, none⟩])
        = (source, some (.ok r)) := Reader.exists_opened (by decide +kernel)
  have addressable : Content.Addressable leafArchive := by decide +kernel
  exact ⟨addressable, source, r, opened,
    (request_transparent addressable opened [.tileAt 0 0 0]).2.1 0 0 0⟩

end TileArchive
