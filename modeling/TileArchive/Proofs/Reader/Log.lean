import TileArchive.Proofs.Reader.Transparency

/-!
# `TileArchive.Proofs.Reader.Log`: the reads of a request

A source keeps a log of the reads that were begun. A request that shares nothing with others
begins exactly the reads of the computation that it stands for, whatever was asked before.

* `Reader.advance_toQuery`: the log grows by the reads of the computation, in order.
* `ReaderSession.Does` says of a request what it is answered and what it reads, and `does_toQuery`
  finds both in the computation.

Listings and visits are such requests. They go past the caches: what look-ups have remembered is
not used, and what they read is not remembered. So their reads are those of the computation alone,
and the many statements about the reads of a scan become statements about a computation over a
fixed answering rule, where no session, no cache and no log occur.
-/

set_option autoImplicit false

namespace TileArchive

/-- Where nothing waits and no read fails, a read is logged and answered by the rule. -/
theorem Source.poll_serves_nil {answer : ByteRange → Except IoError Bytes} {s : Source}
    (serves : s.Serves answer []) (range : ByteRange) :
    s.poll range false = (s.start range, some (answer range)) ∧
      (s.start range).Serves answer [] := by
  obtain ⟨rfl, held_eq, queue_eq⟩ := serves
  have queue_nil : s.queue = [] := queue_eq
  refine ⟨?_, rfl, held_eq, queue_eq⟩
  simp [poll, start, held_eq, finish, queue_nil]

/-- Reads come one after another in the log. -/
theorem Source.reads_start (s : Source) (range : ByteRange) :
    (s.start range).reads = s.reads ++ [range] :=
  List.reverse_cons

/-- A query that shares nothing reads what the computation reads that it stands for. Each of
its reads is begun anew, whatever has been read before, and none is put into a cache. -/
theorem Reader.advance_toQuery {α β : Type} {answer : ByteRange → Except IoError Bytes}
    (d : Fetch α) (respond : α → β) {r : Reader} (serves : r.source.Serves answer []) :
    ∃ t, advance (d.toQuery.bind fun result => .done (respond result)) .fresh r
        = (t, .inl (respond (d.run answer))) ∧
      t.source.reads = r.source.reads ++ d.reads answer := by
  induction d generalizing r with
  | done result => exact ⟨r, rfl, (List.append_nil _).symm⟩
  | ask range next ih =>
      obtain ⟨poll_eq, serves'⟩ := Source.poll_serves_nil serves range
      -- Nothing is disturbed and nothing is held, so the answer is there at once.
      obtain ⟨t, advance_eq, reads_eq⟩ := ih (answer range) (r := r.withSource _) serves'
      refine ⟨t, ?_, ?_⟩
      · have ask_eq : r.ask .fresh (.bytes range)
            = (r.withSource (r.source.start range), .inl (answer range)) := by
          simp only [ask, askBytes, poll_eq]
          rfl
        simp only [Fetch.toQuery, Dialogue.ask_bind, advance, ask_eq]
        exact advance_eq
      · rw [reads_eq, Fetch.reads]
        show (r.source.start range).reads ++ _ = _
        rw [Source.reads_start, List.append_assoc]
        rfl

/-- The request is answered with the response, and begins the given reads, in order. -/
def ReaderSession.Does (s : ReaderSession) (request : Request) (response : Response)
    (ranges : List ByteRange) : Prop :=
  (s.run request).2 = some response ∧
    (s.run request).1.reader.source.reads = s.reader.source.reads ++ ranges

/-- After any history a request that shares nothing is answered by the computation that it stands
for, and reads what that reads. -/
theorem does_toQuery {α : Type} {answer : ByteRange → Except IoError Bytes} {r : Reader}
    (idle : r.Idle answer []) {request : Request} {d : Fetch α} {respond : α → Response}
    (history : List Request)
    (query_eq : request.query r.header r.config
      = d.toQuery.bind fun result => .done (respond result)) :
    ((ReaderSession.new r).after history).Does request (respond (d.run answer))
      (d.reads answer) := by
  obtain ⟨used, rest, split, idle', header_eq, config_eq⟩ :=
    ReaderSession.after_idle (s := .new r) history idle
  -- No outcomes are left to be used up, before the history and after it.
  obtain ⟨rfl, rfl⟩ := List.nil_eq_append_iff.mp split
  generalize (ReaderSession.new r).after history = s at idle' header_eq config_eq
  have asked : s.query request = d.toQuery.bind fun result => .done (respond result) := by
    rw [ReaderSession.query, header_eq, config_eq]
    exact query_eq
  obtain ⟨t, advance_eq, reads_eq⟩ := Reader.advance_toQuery d respond idle'.serves
  have run_eq : s.run request = ({ s with reader := t }, some (respond (d.run answer))) := by
    simp only [ReaderSession.run, Reader.run, asked, advance_eq]
  rw [ReaderSession.Does, run_eq]
  exact ⟨rfl, reads_eq⟩

end TileArchive
