import StackGlyph.Proofs.ByteGroups

/-!
# Texts and their encodings

A text survives the passage through UTF-16 units, and units survive the passage through groups of
bytes, so the encoding of a text is read back as that text. What the units of one character can be
is said once, and the statements about readers of units rest on it.
-/
namespace StackGlyph.Text

open Word

namespace Utf16

theorem isHigh_iff (unit : UInt16) :
    isHigh unit = true ↔ 0xD800 ≤ unit.toNat ∧ unit.toNat < 0xDC00 := by
  simp [isHigh, UInt16.le_iff_toNat_le, UInt16.lt_iff_toNat_lt]

theorem isLow_iff (unit : UInt16) :
    isLow unit = true ↔ 0xDC00 ≤ unit.toNat ∧ unit.toNat < 0xE000 := by
  simp [isLow, UInt16.le_iff_toNat_le, UInt16.lt_iff_toNat_lt]

/-- The units of a character: one that is no surrogate, or two that pair up. -/
theorem unitsOfChar_cases (c : Char) :
    (∃ unit, unitsOfChar c = [unit] ∧ isHigh unit = false ∧ isLow unit = false ∧
      Char.ofNat unit.toNat = c) ∨
    ∃ high low, unitsOfChar c = [high, low] ∧ isHigh high = true ∧ isLow low = true ∧
      pairChar high low = c := by
  have hv : c.toNat < 0xD800 ∨ 0xDFFF < c.toNat ∧ c.toNat < 0x110000 := c.valid
  unfold unitsOfChar
  dsimp only
  split
  · next hn =>
    have ht : c.toNat.toUInt16.toNat = c.toNat := toNat_toUInt16 hn
    refine .inl ⟨_, rfl, ?_, ?_, ?_⟩
    · rw [← Bool.not_eq_true, isHigh_iff, ht]
      omega
    · rw [← Bool.not_eq_true, isLow_iff, ht]
      omega
    · rw [ht, Char.ofNat_toNat]
  · next hn =>
    -- The offset beyond the first plane splits into ten high and ten low bits.
    have hhigh := toNat_toUInt16 (n := 0xD800 + (c.toNat - 0x10000) / 0x400) (by omega)
    have hlow := toNat_toUInt16 (n := 0xDC00 + (c.toNat - 0x10000) % 0x400) (by omega)
    refine .inr ⟨_, _, rfl, ?_, ?_, ?_⟩
    · rw [isHigh_iff, hhigh]
      omega
    · rw [isLow_iff, hlow]
      omega
    · have hsum : 0x10000 + (0xD800 + (c.toNat - 0x10000) / 0x400 - 0xD800) * 0x400 +
          (0xDC00 + (c.toNat - 0x10000) % 0x400 - 0xDC00) = c.toNat := by omega
      rw [pairChar, hhigh, hlow, hsum, Char.ofNat_toNat]

/-- The units of one character are one piece, whatever pieces follow. -/
theorem prepend_unitsOfChar (c : Char) (rest : List Piece) :
    (unitsOfChar c).foldr prepend rest = .scalar c :: rest := by
  rcases unitsOfChar_cases c with ⟨unit, h, hhigh, hlow, hc⟩ | ⟨high, low, h, hhigh, hlow, hc⟩
  · simp [h, prepend, hhigh, hlow, hc]
  · have hother : isHigh low = false := by
      rw [isLow_iff] at hlow
      rw [← Bool.not_eq_true, isHigh_iff]
      omega
    simp [h, prepend, hhigh, hother, hlow, hc]

theorem pieces_units (text : String) : pieces (units text) = text.toList.map .scalar := by
  unfold pieces units
  induction text.toList with
  | nil => rfl
  | cons c rest ih =>
    rw [List.flatMap_cons, List.foldr_append, ih, prepend_unitsOfChar, List.map_cons]

/-- Pieces are all characters if and only if none is a lone surrogate. -/
theorem mapM_char?_eq_some {pieces : List Piece} {chars : List Char} :
    pieces.mapM Piece.char? = some chars ↔ pieces = chars.map .scalar := by
  induction pieces generalizing chars with
  | nil => cases chars <;> simp
  | cons piece rest ih =>
    cases piece with
    | lone surrogate => cases chars <;> simp [Piece.char?]
    | scalar c =>
      simp only [List.mapM_cons, Piece.char?, Option.bind_eq_bind, Option.bind_some,
        Option.bind_eq_some_iff, ih]
      constructor
      · rintro ⟨_, rfl, hchars⟩
        cases hchars
        rfl
      · intro h
        cases chars with
        | nil => cases h
        | cons d more =>
          cases h
          exact ⟨more, rfl, rfl⟩

/-- Every text is what its units are read as. -/
theorem decode?_units (text : String) : decode? (units text) = some text := by
  rw [decode?, pieces_units, mapM_char?_eq_some.mpr rfl, Option.map_some, String.ofList_toList]

end Utf16

namespace ModifiedUtf8

theorem length_group (unit : UInt16) : (group unit).length = groupSize unit := by
  unfold group groupSize
  dsimp only
  split
  · rfl
  · split <;> rfl

/-- The length that is computed is the length of the encoding. -/
theorem length_encode (text : String) : (encode text).length = encodedLength text := by
  simp only [encode, encodedLength, List.length_flatMap, length_group]
  rw [List.sum_eq_foldr, List.foldr_map]

theorem decode_groups {groups : List ByteGroup} {text : String}
    (h : groups.map ByteGroup.unit = Utf16.units text) :
    decode (groups.flatMap ByteGroup.bytes) = .ok text := by
  simp only [decode, readGroups_groups, h, bind, Except.bind, List.nil_append,
    Utf16.decode?_units]

/-- Reading the encoding of a text gives the text. -/
theorem decode_encode (text : String) : decode (encode text) = .ok text := by
  obtain ⟨groups, hunits, hbytes⟩ := exists_groups (Utf16.units text)
  rw [encode, ← hbytes]
  exact decode_groups hunits

end ModifiedUtf8

end StackGlyph.Text
