import TileArchive.Json.Value
import TileArchive.Proofs.Dictionary
import TileArchive.Proofs.Json.Number
import TileArchive.Proofs.Json.Quoted

/-!
# `TileArchive.Proofs.Json.Value`: a printed value is read back

A value is printed piece by piece, and every piece says by its first characters what it is, so
reading follows printing.

* `Node.Spells` says that a text is read as a tree, in no more steps than it has characters.
  `Node.SpellsItems` and `Node.SpellsMembers` put together what stands between brackets and
  braces, and `SpellsItems.read` and `SpellsMembers.read` read it, by induction on how it was put
  together.
* `reads_chars`: by recursion on a value, its text spells a tree, and the value of the tree is the
  printed one up to the order of the fields of its objects (`settled`).

Doubles are left out: they are printed with the fewest digits that read back, and whether they
do is a question about their arithmetic (`Within` asks for integers). The nesting is bounded as
reading bounds it.

## Steps

Reading is given a number of steps, one for each level of its recursion, and gives up without any.
Every character takes at most one step, so as many steps as there are characters are always enough,
and this is what `Node.parse?` gives. The lemmas ask for enough steps and hold for any larger
number, because the parts of a text are read with what is left over by the whole.

## What follows

A text is read at the front of a longer one. All texts but numbers end by themselves; a number
goes on as long as the characters do. So `Spells` asks that what follows does not carry a number
on (`Numeral.Apart`), and a comma, a bracket and a brace do not.
-/

set_option autoImplicit false

namespace TileArchive.Json

/-- An integer begins with a sign or digit. -/
theorem Number.text_starts {number : Number} (integer : number.IsInteger) :
    ∃ c rest, number.text = c :: rest ∧ (c = '-' ∨ 48 ≤ c.toNat ∧ c.toNat ≤ 57) := by
  cases number with
  | natural w =>
      obtain ⟨c, rest, written⟩ :=
        List.exists_cons_of_ne_nil (Nat.toDigits_ne_nil (n := w.toNat) (b := 10))
      exact ⟨c, rest, written, .inr (Digits.toNat_of_mem (written ▸ List.mem_cons_self))⟩
  | negative w => exact ⟨'-', _, rfl, .inl rfl⟩
  | real bits => exact integer.elim

/-! ### Trees at the front of a text -/

namespace Node

/-- Nothing is skipped in front of a character that is no blank. -/
theorem skipBlanks_cons {c : Char} (ink : isBlank c = false) (cs : List Char) :
    skipBlanks (c :: cs) = c :: cs := by
  rw [skipBlanks, List.dropWhile_cons_of_neg (by simp [ink])]

/-- A sign or digit is another character than one that lies beside them. -/
theorem ne_of_starts {c d : Char} (starts : c = '-' ∨ 48 ≤ c.toNat ∧ c.toNat ≤ 57)
    (apart : d.toNat < 45 ∨ 57 < d.toNat) : c ≠ d := by
  rintro rfl
  rcases starts with rfl | digit
  · exact absurd apart (by decide)
  · omega

/-- What a number starts with is no blank. -/
theorem ink_of_starts {c : Char} (starts : c = '-' ∨ 48 ≤ c.toNat ∧ c.toNat ≤ 57) :
    isBlank c = false := by
  simp [isBlank, ne_of_starts starts (d := ' ') (by decide),
    ne_of_starts starts (d := '\t') (by decide), ne_of_starts starts (d := '\n') (by decide),
    ne_of_starts starts (d := '\x0d') (by decide)]

/-- Where a sign or digit stands, a number is read. -/
theorem read_numeral {c : Char} (starts : c = '-' ∨ 48 ≤ c.toNat ∧ c.toNat ≤ 57) (steps : Nat)
    (cs : List Char) :
    read (steps + 1) (c :: cs)
      = (Numeral.read (c :: cs)).map fun (numeral, rest) => (.number numeral, rest) := by
  unfold read
  rw [skipBlanks_cons (ink_of_starts starts)]
  split
  -- All other values begin with a letter, a quote or a bracket.
  case h_7 => rfl
  all_goals
    next eq => exact absurd (List.cons.inj eq).1 (ne_of_starts starts (by decide))

/-- A text begins with no blank and no closing bracket. The reader looks at this character
to tell whether an array has a first item. -/
def Opens (cs : List Char) : Prop := ∃ c rest, cs = c :: rest ∧ isBlank c = false ∧ c ≠ ']'

/-- What opens a text opens every longer one. -/
theorem Opens.append {cs : List Char} (opens : Opens cs) (more : List Char) :
    Opens (cs ++ more) := by
  obtain ⟨c, rest, rfl, ink, ne⟩ := opens
  exact ⟨c, rest ++ more, rfl, ink, ne⟩

/-- A number opens the text of an item. -/
theorem opens_of_starts {c : Char} (starts : c = '-' ∨ 48 ≤ c.toNat ∧ c.toNat ≤ 57)
    (rest : List Char) : Opens (c :: rest) :=
  ⟨c, rest, rfl, ink_of_starts starts, ne_of_starts starts (by decide)⟩

/-- After an opening bracket the items are read, where there are any. -/
theorem read_array {cs : List Char} (opens : Opens cs) (steps : Nat) :
    read (steps + 1) ('[' :: cs)
      = (readItems steps cs).map fun (items, rest) => (.array items, rest) := by
  obtain ⟨c, rest, rfl, ink, ne⟩ := opens
  rw [read, skipBlanks_cons (by decide)]
  simp only [skipBlanks_cons ink]
  split
  · next eq => exact absurd (List.cons.inj eq).1 ne
  · rfl

/-- After an opening brace the members are read, where there are any. -/
theorem read_object (steps : Nat) (name : String) (cs : List Char) :
    read (steps + 1) ('{' :: (Quoted.encode name ++ cs))
      = (readMembers steps (Quoted.encode name ++ cs)).map fun (members, rest) =>
          (.object members, rest) := by
  rw [Quoted.encode_append, read, skipBlanks_cons (by decide)]
  simp [skipBlanks_cons (c := '"') (by decide)]

/-- A name and a colon. -/
theorem readName_encode (name : String) (rest : List Char) :
    readName (Quoted.encode name ++ ':' :: rest) = some (Quoted.pieces name, rest) := by
  rw [Quoted.encode_append, readName, skipBlanks_cons (by decide)]
  simp [Quoted.read_encodeChars, afterColon, skipBlanks_cons (c := ':') (by decide)]

/-! ### Texts of trees -/

/-- A text is read as a tree, in no more steps than it has characters. This holds in front
of any text that does not carry on a number. -/
def Spells (cs : List Char) (node : Node) : Prop :=
  ∀ steps rest, cs.length ≤ steps → Numeral.Apart rest → read steps (cs ++ rest) = some (node, rest)

/-- Items of an array, with a comma behind each but the last. The bracket that closes the
array is not among the letters. -/
inductive SpellsItems : List Char → List Node → Prop where
  | last {cs : List Char} {node : Node} (spells : Spells cs node) : SpellsItems cs [node]
  | cons {cs more : List Char} {node : Node} {items : List Node} (spells : Spells cs node)
      (others : SpellsItems more items) : SpellsItems (cs ++ ',' :: more) (node :: items)

/-- Members of an object, with a comma behind each but the last. A name is spelled by the
encoding of a text, so it is the name that is read back. -/
inductive SpellsMembers : List Char → List (List Piece × Node) → Prop where
  | last (name : String) {cs : List Char} {node : Node} (spells : Spells cs node) :
      SpellsMembers (Quoted.encode name ++ ':' :: cs) [(Quoted.pieces name, node)]
  | cons (name : String) {cs more : List Char} {node : Node} {members : List (List Piece × Node)}
      (spells : Spells cs node) (others : SpellsMembers more members) :
      SpellsMembers (Quoted.encode name ++ ':' :: (cs ++ ',' :: more))
        ((Quoted.pieces name, node) :: members)

/-- A text that is not empty takes at least one step. -/
theorem spells_of_succ {cs : List Char} {node : Node} (nonempty : cs ≠ [])
    (reads : ∀ steps rest, cs.length ≤ steps + 1 → Numeral.Apart rest →
      read (steps + 1) (cs ++ rest) = some (node, rest)) : Spells cs node := by
  intro steps rest long apart
  cases steps with
  | zero => exact absurd (List.length_eq_zero_iff.mp (Nat.le_zero.mp long)) nonempty
  | succ steps => exact reads steps rest long apart

/-- A printed string is read as its pieces. -/
theorem spells_string (text : String) :
    Spells (Quoted.encode text) (.string (Quoted.pieces text)) := by
  refine spells_of_succ nofun fun steps rest _ _ => ?_
  rw [Quoted.encode_append, read, skipBlanks_cons (by decide)]
  simp [Quoted.read_encodeChars]

/-- A printed integer is read as a numeral that has this integer as its value. -/
theorem spells_number {number : Number} (integer : number.IsInteger) :
    ∃ numeral, numeral.number? = some number ∧ Spells number.text (.number numeral) := by
  obtain ⟨numeral, value_eq, reads⟩ := Numeral.read_text integer
  obtain ⟨c, front, text_eq, starts⟩ := number.text_starts integer
  refine ⟨numeral, value_eq, spells_of_succ (text_eq ▸ nofun) fun steps rest _ apart => ?_⟩
  rw [text_eq, List.cons_append, read_numeral starts, ← List.cons_append, ← text_eq,
    reads rest apart]
  rfl

/-- Items are read up to the closing bracket. What follows it is left, and any number of
steps is enough that the letters do not reach. -/
theorem SpellsItems.read {cs : List Char} {items : List Node} (spelled : SpellsItems cs items) :
    ∀ steps rest, cs.length < steps → readItems steps (cs ++ ']' :: rest) = some (items, rest) := by
  induction spelled with
  | last spells =>
      intro steps rest long
      cases steps with
      | zero => exact absurd long (Nat.not_lt_zero _)
      | succ steps =>
          -- The bracket cannot belong to a number before it, so the item is read up to it.
          rw [readItems, spells steps _ (Nat.le_of_lt_succ long)
            (Numeral.apart_cons (by decide) rest)]
          simp [skipBlanks_cons (c := ']') (by decide)]
  | cons spells others ih =>
      intro steps rest long
      rw [List.length_append, List.length_cons] at long
      cases steps with
      | zero => exact absurd long (Nat.not_lt_zero _)
      | succ steps =>
          rw [List.append_assoc, List.cons_append, readItems,
            spells steps _ (by omega) (Numeral.apart_cons (by decide) _)]
          simp only [Option.bind_eq_bind, Option.bind_some, skipBlanks_cons (c := ',') (by decide)]
          rw [ih steps rest (by omega)]
          rfl

/-- An array with items. -/
theorem SpellsItems.array {cs : List Char} {items : List Node} (spelled : SpellsItems cs items)
    (opens : Opens cs) : Spells ('[' :: (cs ++ [']'])) (.array items) := by
  refine spells_of_succ nofun fun steps rest long _ => ?_
  simp only [List.length_cons, List.length_append] at long
  rw [List.cons_append, List.append_assoc, read_array (opens.append _),
    List.cons_append, List.nil_append, spelled.read steps rest (by omega)]
  rfl

/-- Members are read up to the closing brace, each with its name. The name is an encoded
text and is read back as its pieces. -/
theorem SpellsMembers.read {cs : List Char} {members : List (List Piece × Node)}
    (spelled : SpellsMembers cs members) :
    ∀ steps rest, cs.length < steps →
      readMembers steps (cs ++ '}' :: rest) = some (members, rest) := by
  induction spelled with
  | last name spells =>
      intro steps rest long
      rw [List.length_append, List.length_cons] at long
      cases steps with
      | zero => exact absurd long (Nat.not_lt_zero _)
      | succ steps =>
          -- A name is read first, and then its value as an item of an array is.
          rw [List.append_assoc, List.cons_append, readMembers, readName_encode]
          simp only [Option.bind_eq_bind, Option.bind_some]
          rw [spells steps _ (by omega) (Numeral.apart_cons (by decide) rest)]
          simp [skipBlanks_cons (c := '}') (by decide)]
  | cons name spells others ih =>
      intro steps rest long
      simp only [List.length_append, List.length_cons] at long
      cases steps with
      | zero => exact absurd long (Nat.not_lt_zero _)
      | succ steps =>
          rw [List.append_assoc, List.cons_append, List.append_assoc, List.cons_append,
            readMembers, readName_encode]
          simp only [Option.bind_eq_bind, Option.bind_some]
          rw [spells steps _ (by omega) (Numeral.apart_cons (by decide) _)]
          simp only [Option.bind_some, skipBlanks_cons (c := ',') (by decide)]
          rw [ih steps rest (by omega)]
          rfl

/-- An object with members. -/
theorem SpellsMembers.object {name : String} {cs : List Char}
    {members : List (List Piece × Node)}
    (spelled : SpellsMembers (Quoted.encode name ++ cs) members) :
    Spells ('{' :: (Quoted.encode name ++ (cs ++ ['}']))) (.object members) := by
  refine spells_of_succ nofun fun steps rest long _ => ?_
  simp only [List.length_cons, List.length_append] at long
  have text_eq : Quoted.encode name ++ (cs ++ ['}']) ++ rest
      = Quoted.encode name ++ cs ++ '}' :: rest := by simp
  rw [List.cons_append, List.append_assoc, read_object, ← List.append_assoc, text_eq,
    spelled.read steps rest (by rw [List.length_append]; omega)]
  rfl

end Node

namespace Value

mutual

/-- The value with the fields of every object in the order of their names, where the last
field of a name counts. -/
def settled : Value → Value
  | .array items => .array (settledItems items)
  | .object fields => .object (Fields.ofList (settledFields fields))
  | value => value

/-- All items settled. -/
def settledItems : List Value → List Value
  | [] => []
  | item :: items => settled item :: settledItems items

/-- The values of all fields settled. -/
def settledFields : List (String × Value) → List (String × Value)
  | [] => []
  | (name, value) :: fields => (name, settled value) :: settledFields fields

end

mutual

/-- Arrays and objects are nested at most so deep, and all numbers are integers. Deeper
values are refused when they are read, and other numbers may be read as others than were
written. -/
def Within : Nat → Value → Prop
  | _, .number n => n.IsInteger
  | 0, .array _ => False
  | depth + 1, .array items => ItemsWithin depth items
  | 0, .object _ => False
  | depth + 1, .object fields => FieldsWithin depth fields
  | _, _ => True

/-- All items are such values. -/
def ItemsWithin : Nat → List Value → Prop
  | _, [] => True
  | depth, item :: items => Within depth item ∧ ItemsWithin depth items

/-- The values of all fields are such values. -/
def FieldsWithin : Nat → List (String × Value) → Prop
  | _, [] => True
  | depth, (_, value) :: fields => Within depth value ∧ FieldsWithin depth fields

end

/-- Items are settled one by one. -/
theorem settledItems_eq_map (items : List Value) : settledItems items = items.map settled := by
  induction items with
  | nil => rfl
  | cons item items ih => rw [settledItems, ih, List.map_cons]

/-- Fields are settled one by one and keep their names. -/
theorem settledFields_eq_map (fields : List (String × Value)) :
    settledFields fields = fields.map fun field => (field.1, settled field.2) := by
  induction fields with
  | nil => rfl
  | cons field fields ih => rw [settledFields, ih, List.map_cons]

/-- Two lists of fields are settled each on its own. -/
theorem settledFields_append (front back : List (String × Value)) :
    settledFields (front ++ back) = settledFields front ++ settledFields back := by
  simp [settledFields_eq_map]

/-- Items are within a depth just if each of them is. -/
theorem itemsWithin_iff {depth : Nat} {items : List Value} :
    ItemsWithin depth items ↔ ∀ item ∈ items, Within depth item := by
  induction items with
  | nil => simp [ItemsWithin]
  | cons item items ih => rw [ItemsWithin, ih, List.forall_mem_cons]

/-- Fields are within a depth just if the value of each of them is. -/
theorem fieldsWithin_iff {depth : Nat} {fields : List (String × Value)} :
    FieldsWithin depth fields ↔ ∀ field ∈ fields, Within depth field.2 := by
  induction fields with
  | nil => simp [FieldsWithin]
  | cons field fields ih => rw [FieldsWithin, ih, List.forall_mem_cons]

/-! ### Reading what is printed -/

/-- No printed value starts with a blank or a closing bracket, so an array with an item is
not taken for an empty one. -/
theorem opens_chars : ∀ {depth : Nat} {value : Value}, Within depth value →
    Node.Opens value.chars
  | _, .null, _ => ⟨_, _, rfl, by decide, by decide⟩
  | _, .bool true, _ => ⟨_, _, rfl, by decide, by decide⟩
  | _, .bool false, _ => ⟨_, _, rfl, by decide, by decide⟩
  | depth, .number n, within => by
      have integer : n.IsInteger := by cases depth <;> exact within
      obtain ⟨c, rest, text_eq, starts⟩ := Number.text_starts integer
      rw [chars, text_eq]
      exact Node.opens_of_starts starts rest
  | _, .string _, _ => ⟨_, _, rfl, by decide, by decide⟩
  | _, .array [], _ => ⟨_, _, rfl, by decide, by decide⟩
  | _, .array (_ :: _), _ => ⟨_, _, rfl, by decide, by decide⟩
  | _, .object [], _ => ⟨_, _, rfl, by decide, by decide⟩
  | _, .object ((_, _) :: _), _ => ⟨_, _, rfl, by decide, by decide⟩

mutual

/-- The text of a value spells a tree that has the settled value. The recursion is that of
printing: one case for each kind of value, with items and fields beside it. -/
theorem reads_chars : ∀ (depth : Nat) (value : Value), Within depth value →
    ∃ node, ofNodeWithin? depth node = some value.settled ∧ Node.Spells value.chars node
  | depth, .null, _ => by
      refine ⟨.null, by cases depth <;> rfl, Node.spells_of_succ nofun fun _ _ _ _ => ?_⟩
      simp [chars, Node.read, Node.skipBlanks_cons (c := 'n') (by decide)]
  | depth, .bool true, _ => by
      refine ⟨.bool true, by cases depth <;> rfl, Node.spells_of_succ nofun fun _ _ _ _ => ?_⟩
      simp [chars, Node.read, Node.skipBlanks_cons (c := 't') (by decide)]
  | depth, .bool false, _ => by
      refine ⟨.bool false, by cases depth <;> rfl, Node.spells_of_succ nofun fun _ _ _ _ => ?_⟩
      simp [chars, Node.read, Node.skipBlanks_cons (c := 'f') (by decide)]
  | depth, .number n, within => by
      -- Doubles are excluded, and integers are spelled by their digits.
      have integer : n.IsInteger := by cases depth <;> exact within
      obtain ⟨numeral, value_eq, spells⟩ := Node.spells_number integer
      exact ⟨.number numeral, by rw [ofNodeWithin?, value_eq]; rfl, spells⟩
  | depth, .string s, _ =>
      ⟨.string (Quoted.pieces s), by rw [ofNodeWithin?, Quoted.decode?_pieces]; rfl,
        Node.spells_string s⟩
  | 0, .array _, within => absurd within id
  | depth + 1, .array [], _ => by
      refine ⟨.array [], rfl, Node.spells_of_succ nofun fun _ _ _ _ => ?_⟩
      simp [chars, Node.read, Node.skipBlanks_cons (c := '[') (by decide),
        Node.skipBlanks_cons (c := ']') (by decide)]
  | depth + 1, .array (item :: items), within => by
      obtain ⟨nodes, values_eq, spelled⟩ := reads_items depth item items within.1 within.2
      exact ⟨.array nodes, by rw [ofNodeWithin?, values_eq]; rfl,
        spelled.array ((opens_chars within.1).append (moreItems items))⟩
  | 0, .object _, within => absurd within id
  | depth + 1, .object [], _ => by
      refine ⟨.object [], rfl, Node.spells_of_succ nofun fun _ _ _ _ => ?_⟩
      simp [chars, Node.read, Node.skipBlanks_cons (c := '{') (by decide),
        Node.skipBlanks_cons (c := '}') (by decide)]
  | depth + 1, .object ((name, value) :: fields), within => by
      obtain ⟨members, values_eq, spelled⟩ :=
        reads_fields depth name value fields within.1 within.2
      exact ⟨.object members, by rw [ofNodeWithin?, values_eq]; rfl, spelled.object⟩

/-- The text of items spells trees that have the settled values. -/
theorem reads_items : ∀ (depth : Nat) (item : Value) (items : List Value),
    Within depth item → ItemsWithin depth items →
    ∃ nodes, ofItems? depth nodes = some (settledItems (item :: items)) ∧
      Node.SpellsItems (item.chars ++ moreItems items) nodes
  | depth, item, [], within, _ => by
      obtain ⟨node, value_eq, spells⟩ := reads_chars depth item within
      rw [moreItems, List.append_nil]
      exact ⟨[node], by simp [ofItems?, value_eq, settledItems], .last spells⟩
  | depth, item, next :: items, within, more => by
      obtain ⟨node, value_eq, spells⟩ := reads_chars depth item within
      obtain ⟨nodes, values_eq, others⟩ := reads_items depth next items more.1 more.2
      exact ⟨node :: nodes, by rw [ofItems?, value_eq, values_eq]; rfl, .cons spells others⟩

/-- The text of fields spells members that have the settled values. -/
theorem reads_fields : ∀ (depth : Nat) (name : String) (value : Value)
    (fields : List (String × Value)), Within depth value → FieldsWithin depth fields →
    ∃ members, ofMembers? depth members = some (settledFields ((name, value) :: fields)) ∧
      Node.SpellsMembers (Quoted.encode name ++ ':' :: (value.chars ++ moreFields fields)) members
  | depth, name, value, [], within, _ => by
      obtain ⟨node, value_eq, spells⟩ := reads_chars depth value within
      rw [moreFields, List.append_nil]
      exact ⟨[(Quoted.pieces name, node)],
        by simp [ofMembers?, Quoted.decode?_pieces, value_eq, settledFields],
        .last name spells⟩
  | depth, name, value, (next, more) :: fields, within, withins => by
      obtain ⟨node, value_eq, spells⟩ := reads_chars depth value within
      obtain ⟨members, values_eq, others⟩ :=
        reads_fields depth next more fields withins.1 withins.2
      exact ⟨(Quoted.pieces name, node) :: members,
        by rw [ofMembers?, Quoted.decode?_pieces, value_eq, values_eq]; rfl,
        .cons name spells others⟩

end

/-- A printed value is read back: with the fields of its objects in the order of their names,
where it is not nested too deep and has no doubles. -/
theorem parse?_text {value : Value} (within : Within maxDepth value) :
    parse? value.text = some value.settled := by
  obtain ⟨node, value_eq, reads⟩ := reads_chars maxDepth value within
  have read_eq := reads (Node.stepBound value.chars) [] (by rw [Node.stepBound]; omega)
    (by rintro _ ⟨⟩)
  rw [List.append_nil] at read_eq
  rw [parse?, text, Node.parse?, String.toList_ofList, Node.parseChars?, read_eq]
  exact value_eq

end Value

end TileArchive.Json
