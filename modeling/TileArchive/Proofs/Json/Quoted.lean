import TileArchive.Json.Quoted

/-!
# `TileArchive.Proofs.Json.Quoted`: a written string is read back

`Quoted.encode` writes every character on its own, as itself or as an escape, so reading and
pairing go character by character as well: `piece` is what a written character is read as.
No character that is escaped by a unit needs a partner.

* `read_encodeChars`: what stands between the quotes is read as the pieces of the text, up to
  the closing quote.
* `decode?_pieces`: the pieces of a text stand for the text.

Units of sixteen bits are paired after a string has been read, since a unit of the upper half needs
one of the lower half right behind it. Writing uses units for control characters only. These are far
below both halves, so each stands for itself, and a text that was written has no lonely half.
-/

set_option autoImplicit false

namespace TileArchive.Json.Quoted

/-- What a written character is read as. -/
def piece (c : Char) : Piece :=
  if c.toNat < 32 ∧ c.toNat ∉ [8, 9, 10, 12, 13] then .unit c.toNat else .char c

/-- The pieces that a written text is read as. -/
def pieces (text : String) : List Piece := text.toList.map piece

/-! ### Reading -/

/-- A hexadecimal digit is read as its value. -/
theorem hexValue?_hexDigit {n : Nat} (digit : n < 16) : hexValue? (hexDigit n) = some n := by
  decide +revert

/-- The code of a control character is read back from its four digits. -/
theorem unitOf?_hexDigits {n : Nat} (control : n < 32) :
    unitOf? '0' '0' (hexDigit (n / 16)) (hexDigit (n % 16)) = some n := by
  have zero : hexValue? '0' = some 0 := by decide
  simp only [unitOf?, zero, hexValue?_hexDigit (show n / 16 < 16 by omega),
    hexValue?_hexDigit (show n % 16 < 16 by omega), Option.bind_eq_bind, Option.bind_some,
    Option.pure_def, Option.some.injEq]
  omega

/-- A letter after a backslash is read as the character it stands for. -/
theorem read_escaped {c character : Char} (ne : c ≠ 'u') (stands : escaped? c = some character)
    (rest : List Char) :
    read ('\\' :: c :: rest)
      = (read rest).map fun (pieces, rest) => (.char character :: pieces, rest) := by
  rw [read, stands]
  · cases read rest <;> rfl
  · rintro _ _ _ _ _ rfl
    exact absurd rfl ne

/-- A character that is not escaped is read as itself. -/
theorem read_plain {c : Char} (quote : c ≠ '"') (backslash : c ≠ '\\') (large : ¬ c.toNat < 32)
    (rest : List Char) :
    read (c :: rest) = (read rest).map fun (pieces, rest) => (.char c :: pieces, rest) := by
  rw [read, if_neg (by simp [large, backslash])]
  · cases read rest <;> rfl
  · exact quote
  · exact fun _ _ _ _ _ eq _ => backslash eq
  · exact fun _ _ eq _ => backslash eq

/-- One written character is read as its piece, and reading goes on behind it. The cases are
those of the writer: the quote and the backslash, the control characters with a letter of
their own, the other control characters, and all the rest. -/
theorem read_encodeChar (c : Char) (rest : List Char) :
    read (encodeChar c ++ rest)
      = (read rest).map fun (pieces, rest) => (piece c :: pieces, rest) := by
  rw [encodeChar]
  split
  · next quote =>
    subst quote
    exact read_escaped (by decide) rfl rest
  · next quote =>
    split
    · next backslash =>
      subst backslash
      exact read_escaped (by decide) rfl rest
    · next backslash =>
      split
      · next control =>
        split
        · next code =>
          obtain rfl : c = '\x08' := Char.toNat_inj.1 code
          exact read_escaped (by decide) rfl rest
        · next code =>
          obtain rfl : c = '\t' := Char.toNat_inj.1 code
          exact read_escaped (by decide) rfl rest
        · next code =>
          obtain rfl : c = '\n' := Char.toNat_inj.1 code
          exact read_escaped (by decide) rfl rest
        · next code =>
          obtain rfl : c = '\x0c' := Char.toNat_inj.1 code
          exact read_escaped (by decide) rfl rest
        · next code =>
          obtain rfl : c = '\x0d' := Char.toNat_inj.1 code
          exact read_escaped (by decide) rfl rest
        · next not8 not9 not10 not12 not13 =>
          have by_code : piece c = .unit c.toNat :=
            if_pos ⟨control, by simpa using ⟨not8, not9, not10, not12, not13⟩⟩
          simp only [List.cons_append, List.nil_append]
          rw [read, unitOf?_hexDigits control, by_code]
          cases read rest <;> rfl
      · next large =>
        have itself : piece c = .char c := by simp [piece, large]
        rw [itself]
        exact read_plain quote backslash large rest

/-- The written characters of a text are read as its pieces, up to the closing quote. -/
theorem read_encodeChars (text : String) (rest : List Char) :
    read (text.toList.flatMap encodeChar ++ '"' :: rest) = some (pieces text, rest) := by
  rw [pieces]
  induction text.toList with
  | nil => simp [read]
  | cons c cs ih =>
      rw [List.flatMap_cons, List.append_assoc, read_encodeChar, ih]
      rfl

/-- A written string starts with a quote and ends with one, whatever follows. -/
theorem encode_append (text : String) (rest : List Char) :
    encode text ++ rest = '"' :: (text.toList.flatMap encodeChar ++ '"' :: rest) := by
  simp [encode]

/-! ### Pairing -/

/-- A piece that a character is read as stands for the character, whatever follows. -/
theorem decodeChars?_piece (c : Char) (rest : List Piece) :
    decodeChars? (piece c :: rest) = (decodeChars? rest).map (c :: ·) := by
  rw [piece]
  split
  · next control =>
    have leads_eq : leads c.toNat = false := by simp [leads]; omega
    have follows_eq : follows c.toNat = false := by simp [follows]; omega
    -- Whether another unit follows makes no difference for one that needs no partner.
    cases rest with
    | nil => simp [decodeChars?, leads_eq, follows_eq, Char.ofNat_toNat]
    | cons next rest =>
        cases next <;> simp [decodeChars?, leads_eq, follows_eq, Char.ofNat_toNat]
  · rw [decodeChars?]

/-- The pieces of a text stand for this text. -/
theorem decode?_pieces (text : String) : decode? (pieces text) = some text := by
  have chars : decodeChars? (pieces text) = some text.toList := by
    rw [pieces]
    induction text.toList with
    | nil => rfl
    | cons c cs ih => rw [List.map_cons, decodeChars?_piece, ih, Option.map_some]
  rw [decode?, chars, Option.map_some, String.ofList_toList]

end TileArchive.Json.Quoted
