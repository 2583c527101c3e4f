import TileArchive.Directory.Search

/-!
# `TileArchive.Proofs.Directory.Search`: what a search in a directory finds

* `find?_sound` and `le_of_find?`: whatever the order of the rows, a row that is found is a row of
  the directory, it is a pointer or covers the number looked for, and it does not come after it.
* `find?_of_numbered` and `find?_of_unnumbered`: where the numbers of the rows do not fall, a row
  with the number itself is found, or else the last row before the number if it is responsible.
* `find?_eq_scanFor`: where the numbers increase, a search finds what going through the rows one
  by one finds.
* `find?_eq_some_of_split` and `find?_of_covers`: there the last row that does not come after the
  number is found, if it is a pointer or covers the number. If no run reaches the next row, that is
  every row that covers it.

## The two ways a search ends

`Directory.locate` halves a range of rows. It ends at a row with the number itself, or at a gap
between two rows. The inductions are those of `locate` itself: the range is `low` up to `high`, and
in a directory in order the rows in front of it come before the number and those behind it after
(`locate_gap`). So at a gap the number lies between two neighbours.

Without any order nothing can be said of the rows that were not looked at. But the row in front of
the gap was looked at, unless the gap is in front of all rows, and so it does come before the number
(`row_before_gap`). This is all that soundness needs.

Where a number occurs more than once some row with it is found, and which one depends on the
halving. The statements for such directories leave this open.
-/

set_option autoImplicit false

namespace TileArchive

/-- A run covers its own number, and a row that does not is a pointer. -/
theorem Entry.isPointer_or_covers (e : Entry) : e.isPointer = true ∨ e.covers e.tileId = true := by
  by_cases none : e.runLength.toNat = 0
  · left
    rw [isPointer, beq_iff_eq, ← UInt32.toNat_inj]
    exact none
  · right
    simp only [covers, Bool.and_eq_true, decide_eq_true_eq]
    omega

/-- A run covers the numbers from its first up to its last; as natural numbers, so that a
run that reaches beyond the largest word covers the numbers up to there. -/
theorem Entry.covers_iff (e : Entry) (id : UInt64) :
    e.covers id = true ↔ e.tileId.toNat ≤ id.toNat ∧
      id.toNat < e.tileId.toNat + e.runLength.toNat := by
  simp only [covers, Bool.and_eq_true, decide_eq_true_eq]
  omega

/-- Whether the row answers for a number at which no row is. A pointer answers for all
numbers up to the next row, and a run only for its own tiles. -/
def Entry.isResponsible (e : Entry) (id : UInt64) : Bool := e.isPointer || e.covers id

namespace Directory

/-- A row that is found has the number looked for. -/
theorem locate_found {es : List Entry} {id : UInt64} {low high : Nat} {fits : high ≤ es.length}
    {e : Entry} (found : locate es id low high fits = .found e) : e ∈ es ∧ e.tileId = id := by
  fun_induction locate es id low high fits with
  | case1 low high fits inside middle bound e' less ih => exact ih found
  | case2 low high fits inside middle bound e' not_less greater ih => exact ih found
  | case3 low high fits inside middle bound e' not_less not_greater =>
      obtain rfl : es[middle] = e := Place.found.inj found
      exact ⟨List.getElem_mem _,
        UInt64.le_antisymm (UInt64.not_lt.mp not_greater) (UInt64.not_lt.mp not_less)⟩
  | case4 low high fits outside => cases found

/-- The row in front of a gap was met on the way, and its number is below the one looked for.
Nothing is said of the order of the rows, so the rows further in front may be anything. -/
theorem row_before_gap {es : List Entry} {id : UInt64} {low high : Nat} {fits : high ≤ es.length}
    {gap : Nat} (found : locate es id low high fits = .gap gap) (ordered : low ≤ high) :
    low ≤ gap ∧ gap ≤ high ∧ (low < gap → ∃ e, es[gap - 1]? = some e ∧ e.tileId < id) := by
  fun_induction locate es id low high fits with
  | case1 low high fits inside middle bound e less ih =>
      obtain ⟨middle_lt, gap_le, before⟩ := ih found (by omega)
      refine ⟨by omega, gap_le, fun _ => ?_⟩
      -- Unless another row was met later, it is the row in the middle.
      rcases Nat.lt_or_eq_of_le middle_lt with lt | rfl
      · exact before lt
      · exact ⟨e, List.getElem?_eq_getElem bound, less⟩
  | case2 low high fits inside middle bound e not_less greater ih =>
      obtain ⟨low_le, gap_le, before⟩ := ih found (by omega)
      exact ⟨low_le, by omega, before⟩
  | case3 => cases found
  | case4 low high fits outside =>
      cases found
      exact ⟨Nat.le_refl _, ordered, fun lt => absurd lt (Nat.lt_irrefl _)⟩

/-- Where the numbers of the rows do not fall, a gap lies between the rows before the number and
those after it. -/
theorem locate_gap {es : List Entry} (in_order : es.Pairwise fun e e' => e.tileId ≤ e'.tileId)
    {id : UInt64} {low high : Nat} {fits : high ≤ es.length} {gap : Nat}
    (found : locate es id low high fits = .gap gap) (ordered : low ≤ high)
    (before : ∀ (i : Nat) (bound : i < es.length), i < low → es[i].tileId < id)
    (after : ∀ (i : Nat) (bound : i < es.length), high ≤ i → id < es[i].tileId) :
    gap ≤ es.length ∧ (∀ (i : Nat) (bound : i < es.length), i < gap → es[i].tileId < id) ∧
      ∀ (i : Nat) (bound : i < es.length), gap ≤ i → id < es[i].tileId := by
  rw [List.pairwise_iff_getElem] at in_order
  -- The rows below `low` come before the number and those from `high` on come after it.
  fun_induction locate es id low high fits with
  | case1 low high fits inside middle bound e less ih =>
      refine ih found (by omega) ?_ after
      intro i i_lt i_le
      rcases Nat.lt_or_eq_of_le (Nat.le_of_lt_succ i_le) with lt | rfl
      · exact UInt64.lt_of_le_of_lt (in_order i middle i_lt bound lt) less
      · exact less
  | case2 low high fits inside middle bound e not_less greater ih =>
      refine ih found (by omega) before ?_
      intro i i_lt le_i
      rcases Nat.lt_or_eq_of_le le_i with lt | rfl
      · exact UInt64.lt_of_lt_of_le greater (in_order middle i bound i_lt lt)
      · exact greater
  | case3 => cases found
  | case4 low high fits outside =>
      cases found
      exact ⟨by omega, before, fun i i_lt le_i => after i i_lt (by omega)⟩

/-- A gap in all rows, where their numbers do not fall. -/
theorem locate_all_gap {es : List Entry} (in_order : es.Pairwise fun e e' => e.tileId ≤ e'.tileId)
    {id : UInt64} {gap : Nat} (found : locate es id 0 es.length (Nat.le_refl _) = .gap gap) :
    gap ≤ es.length ∧ (∀ (i : Nat) (bound : i < es.length), i < gap → es[i].tileId < id) ∧
      ∀ (i : Nat) (bound : i < es.length), gap ≤ i → id < es[i].tileId :=
  locate_gap in_order found (Nat.zero_le _) (fun _ _ => nofun)
    fun _ i_lt le_i => absurd i_lt (Nat.not_lt.mpr le_i)

/-- A row that is found is a row of the directory that is responsible for the number. -/
theorem find?_sound {d : Directory} {id : UInt64} {e : Entry} (found : d.find? id = some e) :
    e ∈ d.entries ∧ (e.isPointer = true ∨ e.covers id = true) := by
  unfold find? at found
  split at found
  · next e' located =>
    cases found
    obtain ⟨member, rfl⟩ := locate_found located
    exact ⟨member, e.isPointer_or_covers⟩
  · cases found
  · next index located =>
    -- At a gap the row in front of it is taken only if it is responsible.
    obtain ⟨row_eq, responsible⟩ := Option.filter_eq_some_iff.mp found
    rw [Bool.or_eq_true] at responsible
    exact ⟨List.mem_of_getElem? row_eq, responsible⟩

/-- A row that is found does not come after the number. This needs no order of the rows,
since the search compares the row that it ends at. -/
theorem le_of_find? {d : Directory} {id : UInt64} {e : Entry} (found : d.find? id = some e) :
    e.tileId ≤ id := by
  unfold find? at found
  split at found
  · next e' located =>
    cases found
    obtain ⟨-, rfl⟩ := locate_found located
    exact UInt64.le_refl _
  · cases found
  · next index located =>
    obtain ⟨row_eq, -⟩ := Option.filter_eq_some_iff.mp found
    obtain ⟨-, -, before⟩ := row_before_gap located (Nat.zero_le _)
    -- The row in front of the gap was looked at, and came before the number.
    obtain ⟨e', row_eq', less⟩ := before (Nat.succ_pos index)
    obtain rfl : e = e' := Option.some.inj (row_eq.symm.trans row_eq')
    exact UInt64.le_of_lt less

/-! ### Rows in order -/

section

variable {d : Directory} {id : UInt64}

/-- Where the numbers of the rows do not fall, one of the rows with the number is found.
Which one is found where there are several depends on the halving, and is not said. -/
theorem find?_of_numbered (in_order : d.entries.Pairwise fun e e' => e.tileId ≤ e'.tileId)
    (numbered : ∃ e ∈ d.entries, e.tileId = id) :
    ∃ e ∈ d.entries, e.tileId = id ∧ d.find? id = some e := by
  -- A row with the number would lie in front of a gap or behind it, and neither has the
  -- number.
  have no_gap (gap : Nat) : locate d.entries id 0 d.entries.length (Nat.le_refl _) ≠ .gap gap := by
    intro located
    obtain ⟨-, below, above⟩ := locate_all_gap in_order located
    obtain ⟨e, member, same⟩ := numbered
    obtain ⟨i, bound, rfl⟩ := List.mem_iff_getElem.mp member
    rcases Nat.lt_or_ge i gap with lt | ge
    · exact UInt64.ne_of_lt (below i bound lt) same
    · exact UInt64.ne_of_lt (above i bound ge) same.symm
  unfold find?
  split
  · next e located =>
    obtain ⟨member, same⟩ := locate_found located
    exact ⟨e, member, same, rfl⟩
  · next located => exact absurd located (no_gap 0)
  · next index located => exact absurd located (no_gap (index + 1))

/-- The rows before a gap are those before the number. All rows on the one side are below it
and all on the other side above. -/
theorem filter_below_eq_take {es : List Entry} {gap : Nat}
    (below : ∀ (i : Nat) (bound : i < es.length), i < gap → es[i].tileId < id)
    (above : ∀ (i : Nat) (bound : i < es.length), gap ≤ i → id < es[i].tileId) :
    es.filter (fun e => e.tileId < id) = es.take gap := by
  have kept : (es.take gap).filter (fun e => e.tileId < id) = es.take gap := by
    rw [List.filter_eq_self]
    intro e member
    obtain ⟨i, i_lt, rfl⟩ := List.mem_take_iff_getElem.mp member
    exact decide_eq_true (below i (by omega) (by omega))
  have dropped : (es.drop gap).filter (fun e => e.tileId < id) = [] := by
    rw [List.filter_eq_nil_iff]
    intro e member
    obtain ⟨i, i_lt, rfl⟩ := List.mem_drop_iff_getElem.mp member
    simpa using UInt64.le_of_lt (above (gap + i) (by omega) (Nat.le_add_right gap i))
  -- The rows are those in front of the gap and those behind it.
  calc es.filter (fun e => e.tileId < id)
      = (es.take gap ++ es.drop gap).filter (fun e => e.tileId < id) := by
        rw [List.take_append_drop]
    _ = es.take gap := by rw [List.filter_append, kept, dropped, List.append_nil]

/-- Where the numbers of the rows do not fall and none is the number looked for, the last row
before it is found if it is responsible. -/
theorem find?_of_unnumbered (in_order : d.entries.Pairwise fun e e' => e.tileId ≤ e'.tileId)
    (unnumbered : ∀ e ∈ d.entries, e.tileId ≠ id) :
    d.find? id
      = (d.entries.filter fun e => e.tileId < id).getLast?.filter (·.isResponsible id) := by
  unfold find?
  split
  · next e located =>
    obtain ⟨member, same⟩ := locate_found located
    exact absurd same (unnumbered e member)
  · next located =>
    obtain ⟨-, below, above⟩ := locate_all_gap in_order located
    rw [filter_below_eq_take below above]
    rfl
  · next index located =>
    obtain ⟨gap_le, below, above⟩ := locate_all_gap in_order located
    have row_eq := List.getElem?_eq_getElem (show index < d.entries.length from gap_le)
    -- The row in front of the gap is the last of those before the number.
    rw [filter_below_eq_take below above, List.getLast?_take, if_neg (Nat.succ_ne_zero index),
      Nat.succ_sub_one, row_eq]
    rfl

/-! ### Going through the rows -/

/-- Goes through rows one by one. `last` is the row before them; a row with the number ends the
search, and so does a row behind it. -/
def scanFor (id : UInt64) (last : Option Entry) : List Entry → Option Entry
  | [] => last.filter (·.isResponsible id)
  | e :: es =>
    if e.tileId = id then some e
    else if id < e.tileId then last.filter (·.isResponsible id)
    else scanFor id (some e) es

/-- Where the numbers increase, the row with the number is met. -/
theorem scanFor_of_numbered {es : List Entry}
    (increasing : es.Pairwise fun e e' => e.tileId < e'.tileId) {e : Entry} (member : e ∈ es)
    (last : Option Entry) : scanFor e.tileId last es = some e := by
  induction es generalizing last with
  | nil => cases member
  | cons e' es ih =>
      obtain ⟨later, increasing'⟩ := List.pairwise_cons.mp increasing
      rw [scanFor]
      rcases List.mem_cons.mp member with rfl | member'
      · rw [if_pos rfl]
      · -- The row comes later, so this one neither has the number nor lies behind it.
        have less := later e member'
        rw [if_neg (UInt64.ne_of_lt less), if_neg (UInt64.lt_asymm less)]
        exact ih increasing' member' (some e')

/-- Where the numbers do not fall and none is the number looked for, the last row before it is
kept. -/
theorem scanFor_of_unnumbered {es : List Entry}
    (in_order : es.Pairwise fun e e' => e.tileId ≤ e'.tileId)
    (unnumbered : ∀ e ∈ es, e.tileId ≠ id) (last : Option Entry) :
    scanFor id last es
      = ((es.filter fun e => e.tileId < id).getLast?.or last).filter (·.isResponsible id) := by
  induction es generalizing last with
  | nil => rfl
  | cons e es ih =>
      obtain ⟨later, in_order'⟩ := List.pairwise_cons.mp in_order
      obtain ⟨ne, unnumbered'⟩ := List.forall_mem_cons.mp unnumbered
      rw [scanFor, if_neg ne]
      by_cases greater : id < e.tileId
      · -- All later rows come after the number, too.
        have none_below : (e :: es).filter (fun e => e.tileId < id) = [] := by
          rw [List.filter_eq_nil_iff]
          intro e' member
          have greater' : id < e'.tileId := by
            rcases List.mem_cons.mp member with rfl | member'
            · exact greater
            · exact UInt64.lt_of_lt_of_le greater (later e' member')
          simpa using UInt64.le_of_lt greater'
        rw [if_pos greater, none_below]
        rfl
      · have less : e.tileId < id := UInt64.lt_of_le_of_ne (UInt64.not_lt.mp greater) ne
        have kept : (e :: es).filter (fun e => e.tileId < id)
            = e :: es.filter (fun e => e.tileId < id) :=
          List.filter_cons_of_pos (decide_eq_true less)
        rw [if_neg greater, ih in_order' unnumbered', kept, List.getLast?_cons]
        cases (es.filter fun e => e.tileId < id).getLast? <;> rfl

/-- Where the numbers increase, a search finds what going through the rows finds. -/
theorem find?_eq_scanFor (increasing : d.entries.Pairwise fun e e' => e.tileId < e'.tileId) :
    d.find? id = scanFor id none d.entries := by
  have in_order := increasing.imp UInt64.le_of_lt
  by_cases numbered : ∃ e ∈ d.entries, e.tileId = id
  · obtain ⟨e, member, rfl, found⟩ := find?_of_numbered in_order numbered
    rw [found, scanFor_of_numbered increasing member]
  · have unnumbered : ∀ e ∈ d.entries, e.tileId ≠ id :=
      fun e member same => numbered ⟨e, member, same⟩
    rw [find?_of_unnumbered in_order unnumbered, scanFor_of_unnumbered in_order unnumbered,
      Option.or_none]

end

/-- The last row that does not come after the number is found, if it is responsible for it.
It either has the number itself or stands right before the gap. -/
theorem find?_eq_some_of_split {d : Directory} {id : UInt64} {pre post : List Entry} {e : Entry}
    (increasing : d.entries.Pairwise fun e e' => e.tileId < e'.tileId)
    (split : d.entries = pre ++ e :: post) (not_after : e.tileId ≤ id)
    (after : ∀ e' ∈ post, id < e'.tileId) (responsible : e.isPointer = true ∨ e.covers id = true) :
    d.find? id = some e := by
  have in_order := increasing
  rw [split, List.pairwise_append, List.pairwise_cons] at in_order
  obtain ⟨-, -, pre_before⟩ := in_order
  have in_order' : d.entries.Pairwise fun e e' => e.tileId ≤ e'.tileId :=
    increasing.imp UInt64.le_of_lt
  have fits : pre.length < d.entries.length := by simp [split]
  have row_eq : d.entries[pre.length] = e := by simp [split]
  unfold find?
  split
  · -- A row with the number itself can only be the given one.
    next e' located =>
    obtain ⟨member, rfl⟩ := locate_found located
    rw [split, List.mem_append, List.mem_cons] at member
    rcases member with in_pre | rfl | in_post
    · exact absurd (pre_before e' in_pre e List.mem_cons_self) (UInt64.not_lt.mpr not_after)
    · rfl
    · exact absurd (after e' in_post) (UInt64.lt_irrefl _)
  · -- The number does not lie before all rows.
    next located =>
    obtain ⟨-, -, above⟩ := locate_all_gap in_order' located
    have first := above pre.length fits (Nat.zero_le _)
    rw [row_eq] at first
    exact absurd first (UInt64.not_lt.mpr not_after)
  · next index located =>
    obtain ⟨gap_le, below, above⟩ := locate_all_gap in_order' located
    have not_below : pre.length ≤ index := by
      refine Nat.not_lt.mp fun lt => UInt64.not_lt.mpr not_after ?_
      have first := above pre.length fits lt
      rwa [row_eq] at first
    have not_above : index ≤ pre.length := by
      refine Nat.not_lt.mp ?_
      intro lt
      -- Otherwise the row after the given one would come before the number.
      have next_fits : pre.length + 1 < d.entries.length := by omega
      have in_post : d.entries[pre.length + 1] ∈ post := by simp [split]
      exact UInt64.lt_asymm (below _ next_fits (by omega)) (after _ in_post)
    -- So the gap comes right after the row.
    rw [Nat.le_antisymm not_above not_below, List.getElem?_eq_getElem fits, row_eq,
      Option.filter_some, if_pos (by simpa using responsible)]

/-- Where the numbers increase and no run reaches the next row, a row that covers the number is
the one that is found. -/
theorem find?_of_covers {d : Directory} {id : UInt64}
    (increasing : d.entries.Pairwise fun e e' => e.tileId < e'.tileId)
    (apart : ∀ i e e', d.entries[i]? = some e → d.entries[i + 1]? = some e' →
      e.tileId.toNat + e.runLength.toNat ≤ e'.tileId.toNat)
    {e : Entry} (member : e ∈ d.entries) (covered : e.covers id = true) :
    d.find? id = some e := by
  obtain ⟨low_le, lt_high⟩ := (e.covers_iff id).mp covered
  obtain ⟨pre, post, split⟩ := List.append_of_mem member
  refine find?_eq_some_of_split increasing split (UInt64.le_iff_toNat_le.mpr low_le) ?_
    (.inr covered)
  rw [split, List.pairwise_append, List.pairwise_cons] at increasing
  obtain ⟨-, ⟨-, post_increasing⟩, -⟩ := increasing
  cases post with
  | nil => exact nofun
  | cons next post =>
      -- The number lies in the run, so before the next row and all behind it.
      have reach := apart pre.length e next (by simp [split]) (by simp [split])
      have next_after : id < next.tileId := by
        rw [UInt64.lt_iff_toNat_lt]
        omega
      intro e' member'
      rcases List.mem_cons.mp member' with rfl | later
      · exact next_after
      · exact UInt64.lt_trans next_after ((List.pairwise_cons.mp post_increasing).1 e' later)

end Directory

end TileArchive
