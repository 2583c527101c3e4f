import TileArchive.Proofs.Reader.Turns

/-!
# `TileArchive.Proofs.Reader.Calls`: calls for the metadata

`Reader.Orderly` says of a reader and the queries that wait for it that the turnstile of the
metadata knows their tickets, and that only a call that has the turn loads. `CallMove` lists what
may come of carrying a call on: it is given the value, it waits for another call, its read has to
wait, or its own load ends. `Orderly.advance_call` is the one place where a call is taken apart; all
that is known about calls follows from it.

## What a load reads

The metadata are one section, so a load begins one read, or none where the section is empty or
too long to be read (`Header.metadataReads`, `loadMetadata_cases`). This makes a load simple
enough to be described without following it: `Source.metadata` is what it comes to where nothing
has to wait, and `poll_loadMetadata` says that carrying it on either ends with that outcome or
leaves it with its one read begun.

## Who may wait

A query that waits is *regular* (`Waiting.Regular`) in one of four ways. It spares the metadata
and holds no ticket, or it is a call that has not begun, stands in line, or loads. In the last
two the header gives the load something to read, because a load without a read never waits.
Regularity is what every event keeps of every waiter, and it is what tells a proof which stage a
call can be in when it is carried on (`Waiting.Regular.stage_cases`).

## The proof of `advance_call`

It goes by the stage of the call. A call that has not asked enters the turnstile unless the value
is there. From then on the three lemmas of this section apply, one inside the other: a call that
waits for its turn either has it by now or not (`awaitTurn`), and one that has it loads
(`loadTurn`). All three conclude with the same three facts: the step that was taken, the move it
amounts to, and that those who wait are orderly afterwards.
-/

set_option autoImplicit false

namespace TileArchive

/-! ### Loading the metadata -/

/-- The reads that it takes to load the metadata. There is one, unless the header gives no
range or an empty one. -/
def Header.metadataReads (h : Header) : List ByteRange :=
  match h.metadataRange with
  | .error _ => []
  | .ok range => if range.isEmpty then [] else [range]

/-- What comes of loading the metadata from a source as it is. The disturbances that are
queued in the source count, so this may be an error now and a success later. -/
def Source.metadata (s : Source) (h : Header) : Except ReadError Metadata :=
  (loadMetadata h).run fun range => (s.finish range).2

/-- A read may be begun and ended at once. Its answer does not depend on when it was begun. -/
theorem Source.finish_start (s : Source) (range : ByteRange) :
    ((s.start range).finish range).2 = (s.finish range).2 ∧
      ((s.start range).finish range).1.reads = s.reads ++ [range] ∧
      (s.finish range).1.reads = s.reads := by
  rw [← s.reads_start range]
  unfold finish start
  dsimp only
  split <;> exact ⟨rfl, rfl, rfl⟩

/-- A load of the metadata reads nothing, or it reads one range and makes something of the bytes. -/
theorem loadMetadata_cases (h : Header) :
    (h.metadataReads = [] ∧ ∃ result, loadMetadata h = .done result) ∨
      ∃ range, h.metadataReads = [range] ∧ loadMetadata h
        = .ask range fun answer => .done (answer.mapError .io >>= decodeMetadata h) := by
  rw [Header.metadataReads, loadMetadata]
  cases h.metadataRange with
  | error e => exact .inl ⟨rfl, _, rfl⟩
  | ok range =>
      dsimp only
      by_cases empty : range.isEmpty = true
      · rw [if_pos empty, if_pos empty]
        exact .inl ⟨rfl, _, rfl⟩
      · rw [if_neg empty, if_neg empty]
        exact .inr ⟨range, rfl, rfl⟩

/-- What it takes to load the metadata and what comes of it, by the length of their section.
A section that is too long for a read fails before it is read, and an empty one needs no
read. -/
theorem Source.metadata_cases (s : Source) (h : Header) :
    let length := h.metadata.stop.toNat - h.metadata.offset.toNat
    let range : ByteRange := ⟨h.metadata.offset, UInt32.ofNat length⟩
    (Word.largest32 < length ∧ h.metadataReads = [] ∧ s.metadata h = .error (.io
      (.of .invalidData s!"The metadata blob is too large to read: {length} bytes"))) ∨
    (¬ Word.largest32 < length ∧ length = 0 ∧ h.metadataReads = [] ∧ s.metadata h = .ok .empty) ∨
    (¬ Word.largest32 < length ∧ length ≠ 0 ∧ h.metadataReads = [range] ∧
      s.metadata h = ((s.finish range).2.mapError .io >>= decodeMetadata h)) := by
  intro length range
  rw [Header.metadataReads, Source.metadata, loadMetadata, Header.metadataRange, Section.range?]
  by_cases fits : length ≤ Word.largest32
  · rw [if_pos fits]
    -- The length is cut to 32 bits only after it was found to fit, so an empty range is an
    -- empty section.
    have empty_iff : range.isEmpty = true ↔ length = 0 := by
      rw [ByteRange.isEmpty, beq_iff_eq, ← UInt32.toNat_inj]
      show (UInt32.ofNat length).toNat = 0 ↔ _
      rw [Word.toNat_ofNat32 fits]
    by_cases empty : length = 0
    · refine .inr (.inl ⟨Nat.not_lt.mpr fits, empty, if_pos (empty_iff.mpr empty), ?_⟩)
      dsimp only
      rw [if_pos (empty_iff.mpr empty)]
      rfl
    · have not_empty := mt empty_iff.mp empty
      refine .inr (.inr ⟨Nat.not_lt.mpr fits, empty, if_neg not_empty, ?_⟩)
      dsimp only
      rw [if_neg not_empty]
      rfl
  · rw [if_neg fits]
    exact .inl ⟨Nat.not_le.mp fits, rfl, rfl⟩

/-- The metadata of an archive, where reads are answered by a rule: none for an empty section, and
else what the unwrapped bytes of the section decode to. -/
def Header.StoresMetadata (h : Header) (answer : ByteRange → Except IoError Bytes)
    (metadata : Metadata) : Prop :=
  let length := h.metadata.stop.toNat - h.metadata.offset.toNat
  (length = 0 ∧ metadata = .empty) ∨
    (length ≠ 0 ∧ length ≤ Word.largest32 ∧ ∃ stored data,
      answer ⟨h.metadata.offset, UInt32.ofNat length⟩ = .ok stored ∧
      h.internalCompression.unwrap stored = .ok data ∧ Metadata.decode data = .ok metadata)

/-- Stored bytes that hold metadata unwrap to bytes that decode to them. Both steps have
their own errors, and this is about neither. -/
theorem decodeMetadata_eq_ok {h : Header} {stored : Bytes} {metadata : Metadata}
    (decoded : decodeMetadata h stored = .ok metadata) :
    ∃ data, h.internalCompression.unwrap stored = .ok data ∧
      Metadata.decode data = .ok metadata := by
  rw [decodeMetadata, unwrapSection] at decoded
  -- An error of either step would have been the result.
  cases unwrapped : h.internalCompression.unwrap stored with
  | error e =>
      rw [unwrapped] at decoded
      cases decoded
  | ok data =>
      rw [unwrapped] at decoded
      refine ⟨data, rfl, ?_⟩
      change (Metadata.decode data).mapError ReadError.metadata = .ok metadata at decoded
      cases parsed : Metadata.decode data with
      | error e =>
          rw [parsed] at decoded
          cases decoded
      | ok own =>
          rw [parsed] at decoded
          cases decoded
          rfl

/-- Where reads may fail but do not lose bytes, what is loaded are the metadata of the
archive. A read that lost bytes could still be decoded, to something else. -/
theorem Source.Faithful.storesMetadata {answer : ByteRange → Except IoError Bytes} {s : Source}
    (faithful : s.Faithful answer) {h : Header} {metadata : Metadata}
    (loaded : s.metadata h = .ok metadata) : h.StoresMetadata answer metadata := by
  -- A section that is too long has no result, and an empty one has a result without a read.
  rcases s.metadata_cases h with
    ⟨-, -, result_eq⟩ | ⟨-, empty, -, result_eq⟩ | ⟨fits, not_empty, -, result_eq⟩
  · cases result_eq.symm.trans loaded
  · cases result_eq.symm.trans loaded
    exact .inl ⟨empty, rfl⟩
  · rw [result_eq] at loaded
    refine .inr ⟨not_empty, Nat.not_lt.mp fits, ?_⟩
    generalize (⟨h.metadata.offset, _⟩ : ByteRange) = range at loaded ⊢
    cases finished : (s.finish range).2 with
    | error e =>
        rw [finished] at loaded
        cases loaded
    | ok stored =>
        rw [finished] at loaded
        obtain ⟨data, unwrapped, decoded⟩ := decodeMetadata_eq_ok loaded
        exact ⟨stored, data, faithful.answer_eq_ok finished, unwrapped, decoded⟩

/-- A load of the metadata comes to its end, or its read has to wait. Its read is begun
once: a load that was begun before adds nothing to the log. -/
theorem poll_loadMetadata (h : Header) (begun : Bool) (s : Source) : ∃ t,
    t.reads = (s.reads ++ if begun then [] else h.metadataReads) ∧
      ((loadMetadata h).poll begun s = (t, .inl (s.metadata h)) ∨
        h.metadataReads ≠ [] ∧ s.held = true ∧
          (loadMetadata h).poll begun s = (t, .inr ⟨loadMetadata h, true⟩)) := by
  rcases loadMetadata_cases h with ⟨reads_eq, result, load_eq⟩ | ⟨range, reads_eq, load_eq⟩
  · rw [Source.metadata, load_eq, reads_eq, ite_self, List.append_nil]
    exact ⟨s, rfl, .inl rfl⟩
  · rw [Source.metadata, load_eq, reads_eq]
    obtain ⟨answer_eq, started, finished⟩ := s.finish_start range
    -- Where reads are held the load stays where it was, but its read has been begun by now.
    cases held_eq : s.held with
    | true =>
        refine ⟨if begun then s else s.start range, ?_, .inr ⟨List.cons_ne_nil _ _, rfl, ?_⟩⟩
        · cases begun
          · exact s.reads_start range
          · exact (List.append_nil _).symm
        · cases begun <;> simp [Fetch.poll, Source.poll, Source.start, held_eq]
    | false =>
        refine ⟨((if begun then s else s.start range).finish range).1, ?_, .inl ?_⟩
        · cases begun
          · exact started
          · exact finished.trans (List.append_nil _).symm
        · have start_held : (s.start range).held = false := held_eq
          cases begun
          · simp [Fetch.poll, Source.poll, start_held, answer_eq, Fetch.run]
          · simp [Fetch.poll, Source.poll, held_eq, Fetch.run]

/-! ### Queries that wait for the metadata -/

/-- The tickets held by queries that wait. A query without a ticket does not wait for the
metadata, and so does not count. -/
def ticketsOf (ws : List (Waiting Response)) : List Nat :=
  ws.filterMap fun w => w.stage.ticket?

/-- A query that holds no ticket adds none. -/
theorem ticketsOf_cons_none {w : Waiting Response} (ticket : w.stage.ticket? = none)
    (ws : List (Waiting Response)) : ticketsOf (w :: ws) = ticketsOf ws := by
  rw [ticketsOf, List.filterMap_cons, ticket]
  rfl

/-- A query that holds a ticket adds it. -/
theorem ticketsOf_cons_some {w : Waiting Response} {n : Nat} (ticket : w.stage.ticket? = some n)
    (ws : List (Waiting Response)) : ticketsOf (w :: ws) = n :: ticketsOf ws := by
  rw [ticketsOf, List.filterMap_cons, ticket]
  rfl

/-- The reads for the metadata that a call at some stage has begun. Only the call whose turn
it is reads; the ones behind it wait for what comes of that. -/
def Stage.metadataReads (h : Header) : Stage → List ByteRange
  | .loading _ _ => h.metadataReads
  | _ => []

/-- A query on its way spares the metadata, or it is a call for them. A call waits only
where the metadata have to be read, and then either for its turn or for its read. So at any
time the stage of a call says which part of the work it has done. -/
inductive Waiting.Regular (h : Header) : Waiting Response → Prop where
  | spares {w : Waiting Response} (spares : w.query.Spares fun response => ¬ response.HasMetadata)
      (ticket : w.stage.ticket? = none) : Regular h w
  | fresh (call : MetadataCall) : Regular h ⟨call.query h, .fresh⟩
  | queued (call : MetadataCall) (ticket : Nat) (reads : h.metadataReads ≠ []) :
      Regular h ⟨call.query h, .queued ticket⟩
  | loading (call : MetadataCall) (ticket : Nat) (reads : h.metadataReads ≠ []) :
      Regular h ⟨call.query h, .loading ticket ⟨loadMetadata h, true⟩⟩

/-- A request that has not asked for anything yet. -/
theorem Waiting.regular_fresh (h : Header) (config : ReaderConfig) (request : Request) :
    (Waiting.fresh (request.query h config)).Regular h := by
  rcases request.call_or_spares with ⟨call, rfl⟩ | spares
  · rw [MetadataCall.query_request]
    exact .fresh call
  · exact .spares (spares h config) rfl

/-- A call holds a ticket only where the load of the metadata has something to read. -/
theorem Waiting.Regular.reads_ne_nil {h : Header} {w : Waiting Response} (regular : w.Regular h)
    (ticket : w.stage.ticket? ≠ none) : h.metadataReads ≠ [] := by
  cases regular with
  | spares _ no_ticket => exact absurd no_ticket ticket
  | fresh call => exact absurd rfl ticket
  | queued _ _ reads => exact reads
  | loading _ _ reads => exact reads

/-- The stages at which a call may be. -/
theorem Waiting.Regular.stage_cases {h : Header} {call : MetadataCall} {stage : Stage}
    (regular : (⟨call.query h, stage⟩ : Waiting Response).Regular h) :
    stage = .fresh ∨ (∃ ticket, stage = .queued ticket) ∨
      ∃ ticket, stage = .loading ticket ⟨loadMetadata h, true⟩ := by
  generalize w_eq : (⟨call.query h, stage⟩ : Waiting Response) = w at regular
  cases regular with
  | spares spares _ =>
      rw [← w_eq] at spares
      exact absurd rfl spares.1
  | fresh => exact .inl (congrArg Waiting.stage w_eq)
  | queued _ ticket _ => exact .inr (.inl ⟨ticket, congrArg Waiting.stage w_eq⟩)
  | loading _ ticket _ => exact .inr (.inr ⟨ticket, congrArg Waiting.stage w_eq⟩)

/-- A reader and the queries that wait for it are in order: the turnstile knows the tickets,
all queries are regular, and whoever loads has the turn. At most one query loads, since at
most one ticket has the turn and no ticket is out twice. -/
structure Reader.Orderly (r : Reader) (ws : List (Waiting Response)) : Prop where
  accounts : r.metadata.Accounts (ticketsOf ws)
  regular : ∀ w ∈ ws, w.Regular r.header
  loading : ∀ w ∈ ws, ∀ ticket computation, w.stage = .loading ticket computation →
    r.metadata.turn = some ticket

/-- What may come of carrying a call on, at a stage and while some others wait. Loading ends
with what the source gives at that moment. In each case the reads begun in this move are
those that the stage has not accounted for. -/
inductive CallMove (r : Reader) (call : MetadataCall) (stage : Stage)
    (others : List (Waiting Response)) : Reader → Response ⊕ Waiting Response → Prop where
  /-- The metadata were loaded before. -/
  | given {metadata : Metadata} (value_eq : r.metadata.value = some metadata)
      (no_read : stage.metadataReads r.header = []) :
      CallMove r call stage others r (.inl (call.respond r.header (.ok metadata)))
  /-- Another call has the turn. -/
  | waits {t : Reader} {ticket : Nat} (no_value : r.metadata.value = none)
      (no_value' : t.metadata.value = none) (no_read : stage.metadataReads r.header = [])
      (source_eq : t.source = r.source) (reads : r.header.metadataReads ≠ [])
      (behind : ticketsOf others ≠ []) :
      CallMove r call stage others t (.inr ⟨call.query r.header, .queued ticket⟩)
  /-- The read has to wait. -/
  | suspended {t : Reader} {ticket : Nat} {begun : List ByteRange}
      (no_value : r.metadata.value = none) (no_value' : t.metadata.value = none)
      (reads_eq : t.source.reads = r.source.reads ++ begun)
      (once : stage.metadataReads r.header ++ begun = r.header.metadataReads)
      (reads : r.header.metadataReads ≠ []) (held : r.source.held = true) :
      CallMove r call stage others t
        (.inr ⟨call.query r.header, .loading ticket ⟨loadMetadata r.header, true⟩⟩)
  /-- The load ends. -/
  | answered {t : Reader} {begun : List ByteRange} (no_value : r.metadata.value = none)
      (value_eq : t.metadata.value = (r.source.metadata r.header).toOption)
      (reads_eq : t.source.reads = r.source.reads ++ begun)
      (once : stage.metadataReads r.header ++ begun = r.header.metadataReads) :
      CallMove r call stage others t (.inl (call.respond r.header (r.source.metadata r.header)))

/-! ### Carrying a call on -/

/-- Where a call stands after its question has been carried on. -/
def MetadataCall.outcome (h : Header) (call : MetadataCall) :
    Except ReadError Metadata ⊕ Stage → Response ⊕ Waiting Response
  | .inl result => .inl (call.respond h result)
  | .inr stage => .inr ⟨call.query h, stage⟩

/-- Carrying a call on is asking for the metadata and responding with what that gives. -/
theorem advance_call_eq (h : Header) (call : MetadataCall) (stage : Stage) (r : Reader) :
    Reader.advance (call.query h) stage r
      = ((r.askMetadata stage).1, call.outcome h (r.askMetadata stage).2) := by
  simp only [MetadataCall.query, Reader.advance, Reader.ask]
  split <;> next ask_eq => rw [ask_eq]; rfl

/-- Coming for the metadata does not change what may come of it. -/
theorem CallMove.of_enter {r t : Reader} {call : MetadataCall} {stage : Stage}
    {others : List (Waiting Response)} {outcome : Response ⊕ Waiting Response}
    {metadata : Turnstile Metadata} (entered : metadata.value = none)
    (no_value : r.metadata.value = none)
    (move : CallMove { r with metadata := metadata } call stage others t outcome) :
    CallMove r call stage others t outcome := by
  cases move with
  | given value_eq _ => cases entered.symm.trans value_eq
  | waits _ no_value' no_read source_eq reads behind =>
      exact .waits no_value no_value' no_read source_eq reads behind
  | suspended _ no_value' reads_eq once reads held =>
      exact .suspended no_value no_value' reads_eq once reads held
  | answered _ value_eq reads_eq once => exact .answered no_value value_eq reads_eq once

/-- The queries that wait after one more has been carried on. -/
def waitingAfter (ws : List (Waiting Response)) : Response ⊕ Waiting Response →
    List (Waiting Response)
  | .inl _ => ws
  | .inr w => w :: ws

namespace Reader.Orderly

variable {r t : Reader} {w : Waiting Response} {ws : List (Waiting Response)}

/-- The order of those who wait does not matter. -/
theorem perm {ws' : List (Waiting Response)} (orderly : r.Orderly ws) (same : ws.Perm ws') :
    r.Orderly ws' :=
  ⟨orderly.accounts.perm (same.filterMap _), fun w member =>
    orderly.regular w (same.mem_iff.mpr member), fun w member =>
    orderly.loading w (same.mem_iff.mpr member)⟩

/-- It is a matter of the header and of the turnstile alone. -/
theorem congr (orderly : r.Orderly ws) (header_eq : t.header = r.header)
    (metadata_eq : t.metadata = r.metadata) : t.Orderly ws := by
  obtain ⟨accounts, regular, loading⟩ := orderly
  exact ⟨metadata_eq ▸ accounts, header_eq ▸ regular, metadata_eq ▸ loading⟩

/-- A query that has not begun may join those who wait: it holds no ticket. -/
theorem cons_fresh (orderly : r.Orderly ws) {query : Query Response}
    (regular : (Waiting.fresh query).Regular r.header) : r.Orderly (.fresh query :: ws) := by
  refine ⟨orderly.accounts, ?_, ?_⟩
  · intro w member
    rcases List.mem_cons.mp member with rfl | member
    · exact regular
    · exact orderly.regular w member
  · intro w member ticket computation stage_eq
    rcases List.mem_cons.mp member with rfl | member
    · cases stage_eq
    · exact orderly.loading w member ticket computation stage_eq

/-- One more query waits. What has to be shown of the new one is that it is regular, and
that it has the turn if it loads. -/
theorem cons {stage : Stage} {query : Query Response}
    (accounts : r.metadata.Accounts (ticketsOf (⟨query, stage⟩ :: ws)))
    (regular : ∀ w ∈ ws, w.Regular r.header)
    (loading : ∀ w ∈ ws, ∀ ticket computation, w.stage = .loading ticket computation →
      r.metadata.turn = some ticket)
    (new_regular : (⟨query, stage⟩ : Waiting Response).Regular r.header)
    (new_loading : ∀ ticket computation, stage = .loading ticket computation →
      r.metadata.turn = some ticket) : r.Orderly (⟨query, stage⟩ :: ws) := by
  refine ⟨accounts, ?_, ?_⟩
  · intro w member
    rcases List.mem_cons.mp member with rfl | member
    · exact new_regular
    · exact regular w member
  · intro w member
    rcases List.mem_cons.mp member with rfl | member
    · exact new_loading
    · exact loading w member

section

variable {call : MetadataCall} {stage : Stage} {ticket : Nat}
  (accounts : r.metadata.Accounts (ticket :: ticketsOf ws))
  (regular : ∀ w ∈ ws, w.Regular r.header)
  (loading : ∀ w ∈ ws, ∀ other computation, w.stage = .loading other computation →
    r.metadata.turn = some other)

include accounts regular loading

/-- A call that has the turn loads. The load ends with a value or a failure, and either way
the turn is over, or its read has to wait and the call keeps the turn. -/
theorem loadTurn (turn_eq : r.metadata.turn = some ticket) (begun : Bool)
    (stage_reads : stage.metadataReads r.header = if begun then r.header.metadataReads else []) :
    ∃ t result, r.loadTurn ticket ⟨loadMetadata r.header, begun⟩ = (t, result) ∧
      CallMove r call stage ws t (call.outcome r.header result) ∧
      t.Orderly (waitingAfter ws (call.outcome r.header result)) := by
  have no_value : r.metadata.value = none := by
    refine Classical.byContradiction fun value => ?_
    rw [accounts.settled value] at turn_eq
    cases turn_eq
  have once : (stage.metadataReads r.header ++ if begun then [] else r.header.metadataReads)
      = r.header.metadataReads := by
    rw [stage_reads]
    cases begun
    · rfl
    · exact List.append_nil _
  -- No other call loads, since it would have the same ticket.
  have none_loads : ∀ w ∈ ws, ∀ other computation, w.stage ≠ .loading other computation := by
    intro w member other computation stage_eq
    obtain rfl : ticket = other :=
      Option.some.inj (turn_eq.symm.trans (loading w member other computation stage_eq))
    refine (List.nodup_cons.mp accounts.distinct).1 ?_
    exact List.mem_filterMap.mpr ⟨w, member, by rw [stage_eq]; rfl⟩
  obtain ⟨s, reads_eq, ended | ⟨reads, held, poll_eq⟩⟩ :=
    poll_loadMetadata r.header begun r.source
  · -- With a value everybody is served; a failure passes the turn to the next in line.
    cases own : r.source.metadata r.header with
    | ok metadata =>
        rw [own] at ended
        refine ⟨{ r with source := s, metadata := r.metadata.fulfil metadata }, .inl (.ok metadata),
          ?_, ?_, accounts.fulfil metadata, regular, ?_⟩
        · simp only [Reader.loadTurn, Suspended.poll, ended]
        · rw [← own]
          exact .answered no_value (by rw [own]; rfl) reads_eq once
        · intro w member other computation stage_eq
          exact absurd stage_eq (none_loads w member other computation)
    | error e =>
        rw [own] at ended
        refine ⟨{ r with source := s, metadata := r.metadata.pass }, .inl (.error e), ?_, ?_,
          accounts.pass turn_eq, regular, ?_⟩
        · simp only [Reader.loadTurn, Suspended.poll, ended]
        · rw [← own]
          exact .answered no_value (by rw [own]; exact no_value) reads_eq once
        · intro w member other computation stage_eq
          exact absurd stage_eq (none_loads w member other computation)
  · refine ⟨r.withSource s, .inr (.loading ticket ⟨loadMetadata r.header, true⟩), ?_,
      .suspended no_value no_value reads_eq once reads held,
      cons accounts regular loading (.loading call ticket reads) ?_⟩
    · simp only [Reader.loadTurn, Suspended.poll, poll_eq]
    · rintro _ _ ⟨rfl⟩
      exact turn_eq

/-- A call that waits for its turn loads if it has it, and otherwise goes on waiting for
whoever has. -/
theorem awaitTurn (no_value : r.metadata.value = none)
    (no_read : stage.metadataReads r.header = []) :
    ∃ t result, r.awaitTurn ticket = (t, result) ∧
      CallMove r call stage ws t (call.outcome r.header result) ∧
      t.Orderly (waitingAfter ws (call.outcome r.header result)) := by
  by_cases turn_eq : r.metadata.turn = some ticket
  · have await_eq : r.awaitTurn ticket = r.loadTurn ticket ⟨loadMetadata r.header, false⟩ := by
      simp only [Reader.awaitTurn, no_value, if_pos turn_eq, Suspended.fresh]
    rw [await_eq]
    exact loadTurn accounts regular loading turn_eq false no_read
  · -- Somebody else has the turn, since the line is not empty.
    have await_eq : r.awaitTurn ticket = (r, .inr (.queued ticket)) := by
      simp only [Reader.awaitTurn, no_value, if_neg turn_eq]
    obtain ⟨other, other_eq⟩ : ∃ other, r.metadata.turn = some other := by
      rw [← Option.ne_none_iff_exists']
      intro no_turn
      have known := accounts.known no_value
      rw [no_turn, accounts.closed no_turn] at known
      cases known.symm.eq_nil
    have behind : other ∈ ticketsOf ws := by
      rcases List.mem_cons.mp (accounts.mem_of_turn other_eq) with rfl | member
      · exact absurd other_eq turn_eq
      · exact member
    obtain ⟨w, member, ticket_eq⟩ := List.mem_filterMap.mp behind
    have reads : r.header.metadataReads ≠ [] :=
      (regular w member).reads_ne_nil (by rw [ticket_eq]; exact Option.some_ne_none other)
    refine ⟨r, _, await_eq,
      .waits no_value no_value no_read rfl reads (List.ne_nil_of_mem behind),
      cons accounts regular loading (.queued call ticket reads) ?_⟩
    intro _ _ stage_eq
    cases stage_eq

end

/-- A call is carried on. Whatever it comes to is one of the four moves, and the reader is
in order afterwards with the call among those who wait or not. -/
theorem advance_call {call : MetadataCall} {stage : Stage}
    (orderly : r.Orderly (⟨call.query r.header, stage⟩ :: ws)) :
    ∃ t outcome, Reader.advance (call.query r.header) stage r = (t, outcome) ∧
      CallMove r call stage ws t outcome ∧ t.Orderly (waitingAfter ws outcome) := by
  have regular : ∀ w ∈ ws, w.Regular r.header := fun w member =>
    orderly.regular w (List.mem_cons_of_mem _ member)
  have loading : ∀ w ∈ ws, ∀ other computation, w.stage = .loading other computation →
      r.metadata.turn = some other := fun w member =>
    orderly.loading w (List.mem_cons_of_mem _ member)
  have accounts := orderly.accounts
  rw [advance_call_eq]
  -- It is enough to speak of the question for the metadata, since that is all a call does.
  suffices asked : ∃ t result, r.askMetadata stage = (t, result) ∧
      CallMove r call stage ws t (call.outcome r.header result) ∧
      t.Orderly (waitingAfter ws (call.outcome r.header result)) by
    obtain ⟨t, result, ask_eq, move, orderly'⟩ := asked
    rw [ask_eq]
    exact ⟨t, _, rfl, move, orderly'⟩
  rcases (orderly.regular _ List.mem_cons_self).stage_cases with
    rfl | ⟨ticket, rfl⟩ | ⟨ticket, rfl⟩
  · -- A call that has not asked yet is given the value, or comes for it.
    cases value_eq : r.metadata.value with
    | some metadata =>
        refine ⟨r, .inl (.ok metadata), ?_, .given value_eq rfl, accounts, regular, loading⟩
        simp only [askMetadata, value_eq]
    | none =>
        have others : r.metadata.Accounts (ticketsOf ws) := accounts
        obtain ⟨accounts', no_value', turn_kept⟩ := others.enter value_eq
        have loading' : ∀ w ∈ ws, ∀ other computation, w.stage = .loading other computation →
            r.metadata.enter.1.turn = some other := fun w member other computation stage_eq =>
          turn_kept other (loading w member other computation stage_eq)
        obtain ⟨t, result, await_eq, move, orderly'⟩ : ∃ t result,
            Reader.awaitTurn { r with metadata := r.metadata.enter.1 } r.metadata.enter.2
                = (t, result) ∧
              CallMove { r with metadata := r.metadata.enter.1 } call .fresh ws t
                (call.outcome r.header result) ∧
              t.Orderly (waitingAfter ws (call.outcome r.header result)) :=
          Orderly.awaitTurn (r := { r with metadata := r.metadata.enter.1 }) accounts' regular
            loading' no_value' rfl
        refine ⟨t, result, ?_, move.of_enter no_value' value_eq, orderly'⟩
        simp only [askMetadata, value_eq]
        exact await_eq
  · cases value_eq : r.metadata.value with
    | some metadata =>
        refine ⟨r, .inl (.ok metadata), ?_, .given value_eq rfl, ?_, regular, loading⟩
        · simp only [askMetadata, Reader.awaitTurn, value_eq]
        · exact Turnstile.Accounts.collect accounts (by rw [value_eq]; exact Option.some_ne_none _)
    | none => exact awaitTurn accounts regular loading value_eq rfl
  · have turn_eq := orderly.loading _ List.mem_cons_self ticket _ rfl
    exact loadTurn accounts regular loading turn_eq true rfl

/-! ### Other queries, and queries that are given up -/

/-- A query without a ticket goes. -/
theorem tail (orderly : r.Orderly (w :: ws)) (ticket : w.stage.ticket? = none) : r.Orderly ws := by
  obtain ⟨accounts, regular, loading⟩ := orderly
  rw [ticketsOf_cons_none ticket] at accounts
  exact ⟨accounts, fun w member => regular w (List.mem_cons_of_mem _ member),
    fun w member => loading w (List.mem_cons_of_mem _ member)⟩

/-- A query that spares the metadata is carried on. It leaves the turnstile alone, so the
others that wait are in order as before. -/
theorem advance_spares (orderly : r.Orderly (w :: ws))
    (spares : w.query.Spares fun response => ¬ response.HasMetadata)
    (ticket : w.stage.ticket? = none) :
    ∃ t outcome, Reader.advance w.query w.stage r = (t, outcome) ∧ t.metadata = r.metadata ∧
      (∀ response, outcome = .inl response → ¬ response.HasMetadata) ∧
      t.Orderly (waitingAfter ws outcome) := by
  obtain ⟨metadata_eq, results, waits⟩ := Reader.advance_spares spares w.stage r
  have header_eq := (onward_advance w.query w.stage r).header_eq
  have others := (orderly.tail ticket).congr header_eq metadata_eq
  refine ⟨_, _, rfl, metadata_eq, results, ?_⟩
  cases outcome : (Reader.advance w.query w.stage r).2 with
  | inl response => exact others
  | inr w' =>
      obtain ⟨spares', ticket'⟩ := waits w' outcome
      -- The query goes back among those that wait, without a ticket, so the line of callers
      -- is that of the others.
      refine cons ?_ others.regular others.loading (.spares spares' ticket') ?_
      · rw [ticketsOf_cons_none ticket']
        exact others.accounts
      · intro other computation stage_eq
        rw [stage_eq] at ticket'
        cases ticket'

/-- A ticket is given up. The turn goes to the next in line if the ticket had it, and
otherwise the ticket is taken out of the line. -/
theorem leave {ticket : Nat} (orderly : r.Orderly (w :: ws))
    (ticket_eq : w.stage.ticket? = some ticket) :
    Orderly { r with metadata := r.metadata.leave ticket } ws := by
  obtain ⟨accounts, regular, loading⟩ := orderly
  rw [ticketsOf_cons_some ticket_eq] at accounts
  refine ⟨accounts.leave, fun w member => regular w (List.mem_cons_of_mem _ member), ?_⟩
  intro w' member other computation stage_eq
  have turn_eq := loading w' (List.mem_cons_of_mem _ member) other computation stage_eq
  -- A call that loads keeps the turn, since the ticket that is given up is not its own.
  have apart : other ≠ ticket := by
    rintro rfl
    refine (List.nodup_cons.mp accounts.distinct).1 ?_
    exact List.mem_filterMap.mpr ⟨w', member, by rw [stage_eq]; rfl⟩
  have other_turn : r.metadata.turn ≠ some ticket := by
    rw [turn_eq]
    exact fun same => apart (Option.some.inj same)
  show (r.metadata.leave ticket).turn = some other
  rw [Turnstile.leave, if_neg other_turn]
  exact turn_eq

/-- A query that waits is given up. -/
theorem abandon (orderly : r.Orderly (w :: ws)) :
    (r.abandon w).Orderly ws ∧ (r.abandon w).metadata.value = r.metadata.value := by
  have value_leave (ticket : Nat) : (r.metadata.leave ticket).value = r.metadata.value := by
    unfold Turnstile.leave
    split <;> rfl
  -- Only a call that has a ticket leaves the line. Leaving it does not touch a value.
  cases orderly.regular w List.mem_cons_self with
  | spares spares ticket =>
      have metadata_eq := abandon_spares spares r
      have header_eq := (onward_abandon r w).1.header_eq
      exact ⟨(orderly.tail ticket).congr header_eq metadata_eq, congrArg _ metadata_eq⟩
  | fresh call => exact ⟨orderly.tail rfl, rfl⟩
  | queued call ticket _ => exact ⟨orderly.leave rfl, value_leave ticket⟩
  | loading call ticket _ => exact ⟨orderly.leave rfl, value_leave ticket⟩

end Reader.Orderly

end TileArchive
