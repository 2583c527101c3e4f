import Mathlib.Order.Bounds.Defs
import TileArchive.Proofs.Source.ContentRange

/-!
# `TileArchive.Proofs.Source.Retries`: how often a range is asked for

A reply may tell of trouble that passes, and then the range is asked for again as long as attempts
are left. `Reply.Retryable` lists these replies and `Reply.Delivers` describes the one that sends
the range, both by what the reply is and not by what `judge` says of it. The third kind of reply
that matters is described by `Reply.Overflows`: its header names all positions that a word can
have, from zero on, and the reader cannot count them.

* `judge_again_iff`, `judge_outcome_eq_ok_iff` and `judge_outcome_eq_overflowed_iff`: the verdict
  says the same. The three rest on `judgePart_cases`, which lists the verdicts on a part.
* `attempt_lastRequest`: the loop stops at the first reply that is not worth asking again, or when
  the attempts are used up, and ends with the verdict on that reply.

`last_reply_decides` puts them together for a whole read. The number of requests is the least of
the allowed number and the numbers at which a reply is not retryable. The last reply alone decides
how the read ends: with the bytes, with an error, or without a result where the last reply
overflows. The error for a read without any attempt is never returned.

A server can thus make a read end without a result, and may do so on any attempt.
`largest_part_ends_read` is a read whose second reply does.
-/

set_option autoImplicit false

namespace TileArchive.Http

variable {range : ByteRange}

/-! ### What replies say -/

/-- The header that comes with a part, if there is one, names the range. A part that comes
without a header is taken for the right one. -/
def Matching (range : ByteRange) (contentRange : Option Bytes) : Prop :=
  ∀ header, contentRange = some header →
    printable header ∧ NamesPart header range.offset.toNat range.length.toNat

/-- The reply tells of trouble that may pass: there was none because of the connection, its
status is that of a server in trouble, of too many requests or of a timeout, or it names the
right part and sends another number of bytes. -/
inductive Reply.Retryable (range : ByteRange) : Reply → Prop where
  | unreachable : Retryable range .unreachable
  | server_error {status : Nat} {contentRange body : Option Bytes} (least : 500 ≤ status)
      (below : status < 600) : Retryable range (.response status contentRange body)
  | too_many_requests {contentRange body : Option Bytes} :
      Retryable range (.response 429 contentRange body)
  | request_timeout {contentRange body : Option Bytes} :
      Retryable range (.response 408 contentRange body)
  | incomplete {contentRange : Option Bytes} {body : Bytes} (named : Matching range contentRange)
      (differs : body.length ≠ range.length.toNat) :
      Retryable range (.response 206 contentRange (some body))

/-- The reply sends the bytes of the range, all of them. What the server says of the range
must be right, and the number of bytes must be too. -/
def Reply.Delivers (range : ByteRange) (reply : Reply) (data : Bytes) : Prop :=
  ∃ contentRange, reply = .response 206 contentRange (some data) ∧ Matching range contentRange ∧
    data.length = range.length.toNat

/-- The reply sends a part whose header names every position that a word can have, and the range
begins at the first of them. There is one position more than a word can count. -/
def Reply.Overflows (range : ByteRange) (reply : Reply) : Prop :=
  ∃ header body, reply = .response 206 (some header) body ∧ printable header ∧
    range.offset = 0 ∧ PartHeader header 0 Word.largest

/-- A header is known to name a range if it is printable and says so. -/
theorem names?_eq_some_true_iff (header : Bytes) (range : ByteRange) :
    names? header range = some true ↔
      printable header ∧ NamesPart header range.offset.toNat range.length.toNat := by
  rw [names?]
  split
  · next plain => simp [plain, namesPart?_eq_some_true_iff]
  · next strange => simp [strange]

/-- The bytes that a header names cannot be counted if it is printable and names all positions. -/
theorem names?_eq_none_iff (header : Bytes) (range : ByteRange) :
    names? header range = none ↔
      printable header ∧ range.offset = 0 ∧ PartHeader header 0 Word.largest := by
  rw [names?]
  split
  · next plain => simp [plain, namesPart?_eq_none_iff]
  · next strange => simp [strange]

/-! ### The verdict -/

/-- A part is judged by its body if its header names the range. Otherwise it is wrong, unless what
it names cannot be counted. -/
theorem judgePart_cases (range : ByteRange) (contentRange body : Option Bytes) :
    (Matching range contentRange ∧ judgePart range contentRange body = judgeBody range body) ∨
      (¬ Matching range contentRange ∧ ∃ header, contentRange = some header ∧
        ((names? header range = some false ∧ judgePart range contentRange body
            = ⟨.returned (.error (otherRange range header)), false⟩) ∨
          (names? header range = none ∧
            judgePart range contentRange body = ⟨.overflowed, false⟩))) := by
  cases contentRange with
  | none => exact .inl ⟨nofun, rfl⟩
  | some header =>
      have matching_iff : Matching range (some header) ↔ names? header range = some true := by
        simp [Matching, names?_eq_some_true_iff]
      rw [matching_iff, judgePart]
      -- What a header says has three outcomes: it cannot be counted, it names another range,
      -- or this one.
      rcases named : names? header range with _ | _ | _
      · exact .inr ⟨nofun, header, rfl, .inr ⟨named, rfl⟩⟩
      · exact .inr ⟨nofun, header, rfl, .inl ⟨named, rfl⟩⟩
      · exact .inl ⟨rfl, rfl⟩

/-- A part that does not send the range is not asked for again, and its bytes are not returned. -/
theorem judgePart_of_not_matching {range : ByteRange} {contentRange : Option Bytes}
    (other : ¬ Matching range contentRange) (body : Option Bytes) :
    (judgePart range contentRange body).again = false ∧
      ∀ data, (judgePart range contentRange body).outcome ≠ .returned (.ok data) := by
  rcases judgePart_cases range contentRange body with ⟨named, -⟩
    | ⟨-, _, -, ⟨-, verdict⟩ | ⟨-, verdict⟩⟩
  · exact absurd named other
  · rw [verdict]
    exact ⟨rfl, nofun⟩
  · rw [verdict]
    exact ⟨rfl, nofun⟩

/-- A body is complete, or it is not, or it breaks off. Whichever it is, the read returns. -/
theorem judgeBody_outcome_ne_overflowed (range : ByteRange) (body : Option Bytes) :
    (judgeBody range body).outcome ≠ .overflowed := by
  cases body with
  | none => nofun
  | some sent =>
      rw [judgeBody]
      split <;> nofun

/-- The statuses of trouble that passes. -/
theorem transient_iff (status : Nat) :
    transient status = true ↔ (500 ≤ status ∧ status < 600) ∨ status = 429 ∨ status = 408 := by
  simp [transient, or_assoc]

/-- A reply is retryable by its status, or as a part that is too short or too long. These
exclude each other, as the status of a part tells of no trouble. -/
theorem retryable_response_iff (status : Nat) (contentRange body : Option Bytes) :
    (Reply.response status contentRange body).Retryable range ↔
      transient status = true ∨
        (status = 206 ∧ Matching range contentRange ∧
          ∃ data, body = some data ∧ data.length ≠ range.length.toNat) := by
  rw [transient_iff]
  -- Three of the replies are told by their status alone. A part is told by its header and its
  -- body.
  constructor
  · intro retryable
    cases retryable with
    | server_error least below => exact .inl (.inl ⟨least, below⟩)
    | too_many_requests => exact .inl (.inr (.inl rfl))
    | request_timeout => exact .inl (.inr (.inr rfl))
    | incomplete named differs => exact .inr ⟨rfl, named, _, rfl, differs⟩
  · rintro ((⟨least, below⟩ | rfl | rfl) | ⟨rfl, named, data, rfl, differs⟩)
    · exact .server_error least below
    · exact .too_many_requests
    · exact .request_timeout
    · exact .incomplete named differs

/-- The verdict asks again exactly for the retryable replies. The two are defined apart, one
by what the reader does and one by what a reply is. -/
theorem judge_again_iff (range : ByteRange) (reply : Reply) :
    (judge range reply).again = true ↔ reply.Retryable range := by
  cases reply with
  | unreachable => exact iff_of_true rfl .unreachable
  | broken => exact iff_of_false nofun nofun
  | response status contentRange body =>
      rw [retryable_response_iff, judge]
      by_cases part : status = 206
      · subst part
        -- A part is not a passing failure, so it is asked again only for its length.
        have settled : transient 206 = false := rfl
        simp only [↓reduceIte, settled, Bool.false_eq_true, false_or, true_and]
        by_cases named : Matching range contentRange
        · rcases judgePart_cases range contentRange body with ⟨-, verdict⟩ | ⟨other, -⟩
          · rw [verdict]
            cases body with
            | none => simp [judgeBody]
            | some data =>
                by_cases complete : data.length = range.length.toNat <;>
                  simp [judgeBody, complete, named]
          · exact absurd named other
        · simp [judgePart_of_not_matching named, named]
      · simp [part]

/-- The verdict is a success exactly for a reply that sends the range. No other status than
that of a part can be a success. -/
theorem judge_outcome_eq_ok_iff (range : ByteRange) (reply : Reply) (data : Bytes) :
    (judge range reply).outcome = .returned (.ok data) ↔ reply.Delivers range data := by
  cases reply with
  | unreachable => exact iff_of_false nofun (by simp [Reply.Delivers])
  | broken => exact iff_of_false nofun (by simp [Reply.Delivers])
  | response status contentRange body =>
      simp only [judge, Reply.Delivers, Reply.response.injEq]
      -- Only a partial reply delivers, where header and number of bytes are both right.
      by_cases part : status = 206
      · subst part
        simp only [↓reduceIte, true_and]
        by_cases named : Matching range contentRange
        · rcases judgePart_cases range contentRange body with ⟨-, verdict⟩ | ⟨other, -⟩
          · rw [verdict]
            cases body with
            | none => simp [judgeBody]
            | some sent =>
                by_cases complete : sent.length = range.length.toNat
                · simp only [judgeBody, complete, ↓reduceIte, Outcome.returned.injEq,
                    Except.ok.injEq, Option.some.injEq]
                  constructor
                  · rintro rfl
                    exact ⟨contentRange, ⟨rfl, rfl⟩, named, complete⟩
                  · rintro ⟨_, ⟨-, same⟩, -, -⟩
                    exact same
                · simp only [judgeBody, if_neg complete, Option.some.injEq]
                  refine iff_of_false nofun ?_
                  rintro ⟨_, ⟨-, rfl⟩, -, whole⟩
                  exact complete whole
          · exact absurd named other
        · refine iff_of_false ((judgePart_of_not_matching named body).2 data) ?_
          rintro ⟨_, ⟨rfl, -⟩, named', -⟩
          exact named named'
      · simp [part]

/-- The verdict has no result exactly for a part whose positions cannot be counted. Its body
does not matter, as it is not looked at. -/
theorem judge_outcome_eq_overflowed_iff (range : ByteRange) (reply : Reply) :
    (judge range reply).outcome = .overflowed ↔ reply.Overflows range := by
  cases reply with
  | unreachable => exact iff_of_false nofun (by simp [Reply.Overflows])
  | broken => exact iff_of_false nofun (by simp [Reply.Overflows])
  | response status contentRange body =>
      simp only [judge, Reply.Overflows, Reply.response.injEq]
      -- Only the header of a partial reply is looked at, and it is looked at before the
      -- bytes.
      by_cases part : status = 206
      · subst part
        have overflows_iff : (∃ header sent, (contentRange = some header ∧ body = sent) ∧
            printable header ∧ range.offset = 0 ∧ PartHeader header 0 Word.largest)
            ↔ ∃ header, contentRange = some header ∧ names? header range = none := by
          simp [names?_eq_none_iff]
        simp only [↓reduceIte, true_and]
        rw [overflows_iff]
        rcases judgePart_cases range contentRange body with ⟨named, verdict⟩
          | ⟨-, header, rfl, ⟨answer, verdict⟩ | ⟨answer, verdict⟩⟩ <;> rw [verdict]
        · refine iff_of_false (judgeBody_outcome_ne_overflowed range body) ?_
          rintro ⟨header, rfl, unanswered⟩
          have answer := (names?_eq_some_true_iff header range).mpr (named header rfl)
          cases unanswered.symm.trans answer
        · simp [answer]
        · simp [answer]
      · simp [part]

/-- No verdict is the error of a read for which no request may be made. That error has a
text of its own, which no reply leads to. -/
theorem judge_outcome_ne_exhausted (range : ByteRange) (reply : Reply) :
    (judge range reply).outcome ≠ .returned (.error (exhausted range)) := by
  have refused (status : Nat) : refusal range status ≠ exhausted range := by
    intro same
    -- The two texts differ in their first letters.
    have detail_eq := Option.some.inj (congrArg IoError.detail same)
    have letter_eq := congrArg (fun text => text.toList.head?) detail_eq
    have range_letter : (toString "Range request for ").toList.head? = some 'R' := rfl
    have attempts_letter :
        (toString "Maximum retry attempts exceeded for ").toList.head? = some 'M' := rfl
    simp [String.toList_append, range_letter, attempts_letter] at letter_eq
  have judged (body : Option Bytes) :
      (judgeBody range body).outcome ≠ .returned (.error (exhausted range)) := by
    cases body with
    | none => nofun
    | some data =>
        rw [judgeBody]
        split <;> nofun
  cases reply with
  | unreachable => nofun
  | broken => nofun
  | response status contentRange body =>
      rw [judge]
      split
      · rcases judgePart_cases range contentRange body with ⟨-, verdict⟩
          | ⟨-, _, -, ⟨-, verdict⟩ | ⟨-, verdict⟩⟩ <;> rw [verdict]
        · exact judged body
        · nofun
        · nofun
      · exact fun same => refused status (Except.error.inj (Outcome.returned.inj same))

/-! ### The loop -/

/-- The last of the requests that may follow after `made` of them, where `again` says which
replies are worth asking again. All before it are passed over, and it is either not worth
asking again or the last that is allowed. -/
structure LastRequest (again : Nat → Prop) (attempts made last : Nat) : Prop where
  after : made ≤ last
  allowed : last < made + attempts
  passing : ∀ i, made ≤ i → i < last → again i
  reason : ¬ again last ∨ last + 1 = made + attempts

/-- The loop makes requests up to the last one and ends with the verdict on its reply. The
induction is on the attempts that are left; as long as one is left the loop makes a request. -/
theorem attempt_lastRequest (range : ByteRange) (replies : Nat → Reply) {attempts : Nat}
    (some_left : 0 < attempts) (made : Nat) :
    ∃ last, LastRequest (fun i => (replies i).Retryable range) attempts made last ∧
      attempt range replies attempts made = (last + 1, (judge range (replies last)).outcome) := by
  induction attempts generalizing made with
  | zero => exact absurd some_left (Nat.lt_irrefl 0)
  | succ attempts ih =>
      rw [attempt]
      -- The loop goes on only if the reply is worth it and a further request is allowed.
      by_cases again : (judge range (replies made)).again = true ∧ 0 < attempts
      · obtain ⟨retryable, more⟩ := again
        rw [if_pos ⟨retryable, more⟩]
        obtain ⟨last, request, result_eq⟩ := ih more (made + 1)
        refine ⟨last, ⟨?_, ?_, ?_, ?_⟩, result_eq⟩
        · exact Nat.le_of_succ_le request.after
        · have allowed := request.allowed
          omega
        · intro i from_made before
          -- The replies passed over are this one and those that the rest of the loop passes
          -- over.
          rcases Nat.eq_or_lt_of_le from_made with rfl | later
          · exact (judge_again_iff range _).mp retryable
          · exact request.passing i later before
        · refine request.reason.imp_right fun used => ?_
          omega
      · rw [if_neg again]
        refine ⟨made, ⟨Nat.le_refl _, by omega, fun i _ _ => by omega, ?_⟩, rfl⟩
        rw [judge_again_iff] at again
        by_cases retryable : (replies made).Retryable range
        · exact .inr (by simp [retryable] at again; omega)
        · exact .inl retryable

/-- The number of the last request is the least number at which the attempts are used up or a
reply is not worth asking again. -/
theorem LastRequest.isLeast {again : Nat → Prop} {attempts last : Nat}
    (request : LastRequest again attempts 0 last) :
    IsLeast (insert attempts {n | ∃ i, n = i + 1 ∧ ¬ again i}) (last + 1) := by
  have allowed := request.allowed
  constructor
  · rcases request.reason with settled | used
    · exact .inr ⟨last, rfl, settled⟩
    · exact .inl (by omega)
  · rintro n (rfl | ⟨i, rfl, settled⟩)
    · omega
    · -- All replies before the last request were worth asking again.
      have late : ¬ i < last := fun before => settled (request.passing i (Nat.zero_le i) before)
      omega

/-- A configuration that makes sense allows a request. -/
theorem maxAttempts_pos {c : HttpConfig} (valid : c.validate = .ok ()) :
    0 < c.maxAttempts.toNat := by
  refine Nat.pos_of_ne_zero fun zero => ?_
  have none_left : c.maxAttempts = 0 := UInt32.toNat_inj.mp zero
  simp [HttpConfig.validate, none_left] at valid

/-- A read of no bytes makes no request. Any other read makes requests until a reply is not
retryable or the allowed number is reached, whichever comes first. The last reply alone decides how
the read ends. It returns bytes exactly if that reply sends the whole range, and these are the
bytes. It has no result exactly if that reply names all positions that a word can have and the range
begins at the first of them; otherwise it returns. It never fails for lack of a request. -/
theorem last_reply_decides {c : HttpConfig} (valid : c.validate = .ok ()) (range : ByteRange)
    (replies : Nat → Reply) :
    (range.length = 0 → read c replies range = (0, .returned (.ok []))) ∧
      (range.length ≠ 0 → ∃ last,
        IsLeast (insert c.maxAttempts.toNat
          {n | ∃ i, n = i + 1 ∧ ¬ (replies i).Retryable range}) (last + 1) ∧
        read c replies range = (last + 1, (judge range (replies last)).outcome) ∧
        (∀ data, (read c replies range).2 = .returned (.ok data)
          ↔ (replies last).Delivers range data) ∧
        ((read c replies range).2 = .overflowed ↔ (replies last).Overflows range) ∧
        (read c replies range).2 ≠ .returned (.error (exhausted range))) := by
  constructor
  · intro empty
    simp [read, ByteRange.isEmpty, empty]
  · intro nonempty
    obtain ⟨last, request, result_eq⟩ :=
      attempt_lastRequest range replies (maxAttempts_pos valid) 0
    have read_eq : read c replies range = (last + 1, (judge range (replies last)).outcome) := by
      -- The range is not empty, so the loop starts, with all its requests still to make.
      rw [read, if_neg (by simpa [ByteRange.isEmpty] using nonempty), result_eq]
    refine ⟨last, request.isLeast, read_eq, ?_⟩
    rw [read_eq]
    exact ⟨judge_outcome_eq_ok_iff range _, judge_outcome_eq_overflowed_iff range _,
      judge_outcome_ne_exhausted range _⟩

/-- A server that is in trouble for two requests and then sends the first four bytes of a file. -/
def recovering (i : Nat) : Reply :=
  if i < 2 then .response 503 none (some [])
  else .response 206 (some "bytes 0-3/4".toUTF8.data.toList) (some [97, 98, 99, 100])

/-- The theorem holds of a server that recovers in time for the last of three requests. Two
replies are passed over, and the third is the result. -/
theorem last_reply_decides_recovering :
    HttpConfig.standard.validate = .ok () ∧
      (⟨0, 4⟩ : ByteRange).length ≠ 0 ∧
      read .standard recovering ⟨0, 4⟩ = (3, .returned (.ok [97, 98, 99, 100])) := by
  have valid : HttpConfig.standard.validate = .ok () := rfl
  have nonempty : (⟨0, 4⟩ : ByteRange).length ≠ 0 := by decide
  obtain ⟨last, least, read_eq, ok_iff, -⟩ :=
    (last_reply_decides valid ⟨0, 4⟩ recovering).2 nonempty
  -- At most three requests are allowed, and the first two replies are failures of the server.
  have third : last = 2 := by
    have at_most : last + 1 ≤ 3 := least.2 (.inl rfl)
    rcases least.1 with used | ⟨i, same, settled⟩
    · exact Nat.succ.inj used
    · have late : ¬ i < 2 := by
        intro early
        rw [recovering, if_pos early] at settled
        exact settled (.server_error (by decide) (by decide))
      omega
  subst third
  have delivered : (recovering 2).Delivers ⟨0, 4⟩ [97, 98, 99, 100] := by
    refine ⟨_, rfl, ?_, rfl⟩
    intro header same
    cases same
    exact (names?_eq_some_true_iff _ ⟨0, 4⟩).mp (by decide +kernel)
  exact ⟨valid, nonempty, Prod.ext (congrArg Prod.fst read_eq) ((ok_iff _).mpr delivered)⟩

/-- A server that is in trouble for one request and then claims to send all positions. -/
def boasting (i : Nat) : Reply :=
  if i < 1 then .response 503 none (some [])
  else .response 206 (some "bytes 0-18446744073709551615/*".toUTF8.data.toList)
    (some [97, 98, 99, 100])

/-- The read of four bytes from this server is over after the second request, without bytes and
without an error. No reply that would be worth asking again is among the two that matter. -/
theorem largest_part_ends_read :
    HttpConfig.standard.validate = .ok () ∧
      ¬ (boasting 1).Retryable ⟨0, 4⟩ ∧
      read .standard boasting ⟨0, 4⟩ = (2, .overflowed) := by
  have valid : HttpConfig.standard.validate = .ok () := rfl
  -- The header names all positions, one more than a word can count.
  have uncounted : names? "bytes 0-18446744073709551615/*".toUTF8.data.toList ⟨0, 4⟩ = none := by
    decide +kernel
  have judged : judge ⟨0, 4⟩ (boasting 1) = ⟨.overflowed, false⟩ := by
    rw [boasting, if_neg (by decide), judge, if_pos rfl, judgePart, uncounted]
  refine ⟨valid, ?_, ?_⟩
  · rw [← judge_again_iff, judged]
    nofun
  · have again : (judge ⟨0, 4⟩ (boasting 0)).again = true := rfl
    show attempt ⟨0, 4⟩ boasting 3 0 = _
    rw [attempt, if_pos ⟨again, by decide⟩, attempt, judged]
    rfl

end TileArchive.Http
