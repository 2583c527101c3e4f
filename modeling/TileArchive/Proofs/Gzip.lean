import TileArchive.Compression
import TileArchive.Proofs.Header

/-!
# `TileArchive.Proofs.Gzip`: what was packed is unpacked

`Gzip.gzip` stores bytes as they are, in blocks of at most 65535. `gunzip_gzip`: unpacking gives
the bytes back, as long as they are no more than may be unpacked. The induction is on the blocks:
one block is read by `inflateBlocks_storeBlock`, and the rest of the bytes is shorter, so the
bound on the number of blocks is never reached.

`unwrap_wrapWith`: whatever packs gzip members, a part of an archive is unwrapped to what was
wrapped, as long as unpacking undoes its packing.

The two are used apart. What is proved of built archives is proved for any packing function, with
unpacking it as an assumption; the packing function here meets this assumption for all byte strings
that may be unpacked, and so the examples can be made with it.

A stored block starts with three bits and goes on at the next byte, so the bits left over of the
first byte are dropped. The length stands there twice, the second time with every bit turned; the
two add up to 65535, which is how the reader checks it.
-/

set_option autoImplicit false

namespace TileArchive

namespace Gzip

/-- A stored block appends its bytes to the output. After it the reader looks whether it was
the last one and whether the output has grown beyond what may be unpacked. -/
theorem inflateBlocks_storeBlock {bytes : Bytes} (short : bytes.length ≤ storedLimit)
    (last : Bool) (rest : Bytes) (steps : Nat) (out : Output) :
    inflateBlocks (steps + 1) (.ofBytes (storeBlock last bytes ++ rest)) out
      = if last ∨ maxContent < (out ++ bytes.toArray).size then
          some (.ofBytes rest, out ++ bytes.toArray)
        else inflateBlocks steps (.ofBytes rest) (out ++ bytes.toArray) := by
  have fits : bytes.length < 256 ^ 2 := Nat.lt_of_le_of_lt short (by decide)
  have count_eq : Bytes.toWord (Bytes.ofWord 2 bytes.length) = bytes.length :=
    Bytes.toWord_ofWord fits
  have check_eq :
      Bytes.toWord (Bytes.ofWord 2 (storedLimit - bytes.length)) = storedLimit - bytes.length :=
    Bytes.toWord_ofWord (Nat.lt_of_le_of_lt (Nat.sub_le _ _) (by decide))
  have stored_eq (begun : List Bool) :
      inflateStored ⟨begun, Bytes.ofWord 2 bytes.length
        ++ (Bytes.ofWord 2 (storedLimit - bytes.length) ++ (bytes ++ rest))⟩ out
        = some (.ofBytes rest, out ++ bytes.toArray) := by
    show (if Bytes.toWord (Bytes.ofWord 2 bytes.length)
          + Bytes.toWord (Bytes.ofWord 2 (storedLimit - bytes.length)) ≠ 65535 then none
        else if (bytes ++ rest).length < Bytes.toWord (Bytes.ofWord 2 bytes.length) then none
        else some (BitStream.ofBytes ((bytes ++ rest).drop
            (Bytes.toWord (Bytes.ofWord 2 bytes.length))),
          out ++ ((bytes ++ rest).take (Bytes.toWord (Bytes.ofWord 2 bytes.length))).toArray)) = _
    have sum_eq : bytes.length + (storedLimit - bytes.length) = 65535 := Nat.add_sub_of_le short
    have long : ¬(bytes ++ rest).length < bytes.length := by
      rw [List.length_append]
      omega
    rw [count_eq, check_eq, if_neg (not_not_intro sum_eq), if_neg long, List.drop_left,
      List.take_left]
  -- The three bits that start a block are the mark of the last one and the kind, which is 0.
  have next_eq (tail : Bytes) : (BitStream.ofBytes ((if last then 1 else 0) :: tail)).next?
      = some (last, ⟨List.replicate 7 false, tail⟩) := by
    cases last <;> rfl
  have kind_eq (tail : Bytes) : BitStream.number? 2 ⟨List.replicate 7 false, tail⟩
      = some (0, ⟨List.replicate 5 false, tail⟩) := rfl
  rw [storeBlock, List.cons_append, List.append_assoc, List.append_assoc, inflateBlocks]
  simp only [next_eq, kind_eq, inflateBlock, stored_eq, Option.bind_eq_bind, Option.bind_some]
  rfl

/-- All blocks that some bytes are cut into are read, one after another. The induction is on
the bytes still to be read, and every block but the last takes some of them. -/
theorem inflateBlocks_storeBlocks (bytes rest : Bytes) {steps : Nat}
    (enough : bytes.length < steps) {out : Output}
    (small : out.size + bytes.length ≤ maxContent) :
    inflateBlocks steps (.ofBytes (storeBlocks bytes ++ rest)) out
      = some (.ofBytes rest, out ++ bytes.toArray) := by
  obtain ⟨steps, rfl⟩ : ∃ n, steps = n + 1 := ⟨steps - 1, by omega⟩
  fun_induction storeBlocks bytes generalizing steps out with
  | case1 bytes short => rw [inflateBlocks_storeBlock short, if_pos (.inl rfl)]
  | case2 bytes long ih =>
      have first_length : (bytes.take storedLimit).length = storedLimit :=
        List.length_take_of_le (by omega)
      have rest_length : (bytes.drop storedLimit).length = bytes.length - storedLimit :=
        List.length_drop
      have positive : 0 < storedLimit := by decide
      have size_eq : (out ++ (bytes.take storedLimit).toArray).size = out.size + storedLimit := by
        simp only [Array.size_append, List.size_toArray, first_length]
      have go_on : ¬(false = true ∨
          maxContent < (out ++ (bytes.take storedLimit).toArray).size) := by
        rintro (last | large)
        · cases last
        · omega
      obtain ⟨steps, rfl⟩ : ∃ n, steps = n + 1 := ⟨steps - 1, by omega⟩
      rw [List.append_assoc, inflateBlocks_storeBlock (Nat.le_of_eq first_length), if_neg go_on,
        ih (by omega) steps (by omega), Array.append_assoc]
      simp

/-- Storing bytes never makes them fewer, so the number of bytes bounds the number of
blocks. -/
theorem length_le_length_storeBlocks (bytes : Bytes) :
    bytes.length ≤ (storeBlocks bytes).length := by
  fun_induction storeBlocks bytes with
  | case1 bytes short =>
      simp only [storeBlock, List.length_cons, List.length_append]
      omega
  | case2 bytes long ih =>
      have split : (bytes.take storedLimit ++ bytes.drop storedLimit).length = bytes.length := by
        rw [List.take_append_drop]
      simp only [storeBlock, List.length_cons, List.length_append] at ih split ⊢
      omega

/-- Unpacking gives back what was packed, if it is no more than may be unpacked. The members
that are packed here have stored blocks only, so nothing is said of how small a member may
be. -/
theorem gunzip_gzip {content : Bytes} (small : content.length ≤ maxContent) :
    gunzip (gzip content) = .ok content := by
  have header_eq : skipHeader (gzip content) = some (storeBlocks content ++ trailer content) := rfl
  have enough :
      content.length < (BitStream.ofBytes (storeBlocks content ++ trailer content)).size + 1 := by
    have grown := length_le_length_storeBlocks content
    simp only [BitStream.size, BitStream.ofBytes, List.length_append]
    omega
  have inflated : inflate (storeBlocks content ++ trailer content)
      = some (content, trailer content) := by
    have from_nothing : (#[] : Output).size + content.length ≤ maxContent := by simpa using small
    rw [inflate, inflateBlocks_storeBlocks content (trailer content) enough from_nothing]
    simp [BitStream.ofBytes, BitStream.wholeBytes]
  have trailer_length : (trailer content).length = 8 := by
    rw [trailer, List.length_append, Bytes.length_ofWord, Bytes.length_ofWord]
  rw [gunzip, header_eq]
  simp only [inflated]
  rw [if_neg (Nat.not_lt.mpr small), if_neg (by omega), List.take_of_length_le (by omega),
    if_pos rfl]

/-- Nothing is no gzip member. -/
theorem gunzip_nil_ne (content : Bytes) : gunzip [] ≠ .ok content := nofun

end Gzip

namespace Compression

variable {gzip : Bytes → Bytes} {data : Bytes}

/-- Unwrapping undoes wrapping, as long as unpacking undoes the packing. Only one compression packs
at all; the other two leave the data as they are. -/
theorem unwrap_wrapWith {c : Compression}
    (unpacks : c = .gzip → Gzip.gunzip (gzip data) = .ok data) :
    c.unwrap (c.wrapWith gzip data) = .ok data := by
  cases c with
  | unknown => rfl
  | none => rfl
  | gzip => exact unpacks rfl

/-- Something wrapped is something. What is packed is not empty, since nothing is unpacked from
no bytes. -/
theorem wrapWith_ne_nil {c : Compression}
    (unpacks : c = .gzip → Gzip.gunzip (gzip data) = .ok data) (some_data : data ≠ []) :
    c.wrapWith gzip data ≠ [] := by
  cases c with
  | unknown => exact some_data
  | none => exact some_data
  | gzip =>
      intro nothing
      have unpacked := unpacks rfl
      rw [show gzip data = [] from nothing] at unpacked
      exact Gzip.gunzip_nil_ne data unpacked

end Compression

end TileArchive
