import StackGlyph.Proofs.Texts

/-!
# The language of encoded texts

A byte sequence is a text exactly if it is cut into groups whose units are well-formed UTF-16, and
then the text is the one with these units. Groups may be longer than needed. So writing a text that
was read never takes more bytes than were read, and takes the same bytes exactly if every group was
the shortest of its unit. The texts that are written are read back, and their bytes are neither zero
nor above `0xEF`.
-/
namespace StackGlyph.Text

namespace Utf16

/-- Every surrogate is paired: a high one is followed by a low one, and each low one follows so. -/
inductive WellFormed : List UInt16 → Prop where
  | nil : WellFormed []
  | single {unit : UInt16} {rest : List UInt16} (hhigh : isHigh unit = false)
      (hlow : isLow unit = false) (hrest : WellFormed rest) : WellFormed (unit :: rest)
  | pair {high low : UInt16} {rest : List UInt16} (hhigh : isHigh high = true)
      (hlow : isLow low = true) (hrest : WellFormed rest) : WellFormed (high :: low :: rest)

theorem toNat_charOfNat {n : Nat} (h : n < 0xD800 ∨ 0xDFFF < n ∧ n < 0x110000) :
    (Char.ofNat n).toNat = n := by
  have hvalid : n.isValidChar := h
  rw [Char.ofNat, dif_pos hvalid]
  rfl

theorem unitsOfChar_single {unit : UInt16} (hhigh : isHigh unit = false)
    (hlow : isLow unit = false) : unitsOfChar (Char.ofNat unit.toNat) = [unit] := by
  have hu : unit.toNat < 0x10000 := unit.toNat_lt
  rw [← Bool.not_eq_true, isHigh_iff] at hhigh
  rw [← Bool.not_eq_true, isLow_iff] at hlow
  rw [unitsOfChar, toNat_charOfNat (by omega), if_pos hu, Nat.toUInt16_eq, UInt16.ofNat_toNat]

theorem unitsOfChar_pair {high low : UInt16} (hhigh : isHigh high = true)
    (hlow : isLow low = true) : unitsOfChar (pairChar high low) = [high, low] := by
  rw [isHigh_iff] at hhigh
  rw [isLow_iff] at hlow
  have hfirst : 0xD800 + (0x10000 + (high.toNat - 0xD800) * 0x400 + (low.toNat - 0xDC00) - 0x10000)
      / 0x400 = high.toNat := by omega
  have hsecond : 0xDC00 + (0x10000 + (high.toNat - 0xD800) * 0x400 + (low.toNat - 0xDC00) - 0x10000)
      % 0x400 = low.toNat := by omega
  rw [unitsOfChar, pairChar, toNat_charOfNat (by omega), if_neg (by omega), hfirst, hsecond,
    Nat.toUInt16_eq, Nat.toUInt16_eq, UInt16.ofNat_toNat, UInt16.ofNat_toNat]

def Piece.units : Piece → List UInt16
  | .scalar c => unitsOfChar c
  | .lone surrogate => [surrogate]

/-- A unit that joins the one behind it is not lost: the pair has both. -/
theorem units_prepend (unit : UInt16) (rest : List Piece) :
    (prepend unit rest).flatMap Piece.units = unit :: rest.flatMap Piece.units := by
  unfold prepend
  split
  · next hhigh =>
    split
    · next low rest =>
      split
      · next hlow =>
        simp only [List.flatMap_cons, Piece.units, unitsOfChar_pair hhigh hlow, List.cons_append,
          List.nil_append]
      · rfl
    · rfl
  · next hhigh =>
    split
    · rfl
    · next hlow =>
      simp only [Bool.not_eq_true] at hhigh hlow
      simp only [List.flatMap_cons, Piece.units, unitsOfChar_single hhigh hlow, List.cons_append,
        List.nil_append]

/-- Cutting units into pieces loses none. -/
theorem units_pieces (units : List UInt16) : (pieces units).flatMap Piece.units = units := by
  induction units with
  | nil => rfl
  | cons unit rest ih =>
    rw [pieces, List.foldr_cons, units_prepend]
    rw [pieces] at ih
    rw [ih]

/-- Units are read as the text that has these units. -/
theorem decode?_eq_some {us : List UInt16} {text : String} :
    decode? us = some text ↔ units text = us := by
  constructor
  · intro h
    obtain ⟨chars, hchars, rfl⟩ := Option.map_eq_some_iff.mp h
    rw [units, String.toList_ofList, ← units_pieces us, mapM_char?_eq_some.mp hchars,
      List.flatMap_map]
    rfl
  · rintro rfl
    exact decode?_units text

theorem wellFormed_unitsOfChar (c : Char) {rest : List UInt16} (h : WellFormed rest) :
    WellFormed (unitsOfChar c ++ rest) := by
  rcases unitsOfChar_cases c with ⟨unit, hc, hhigh, hlow, -⟩ | ⟨high, low, hc, hhigh, hlow, -⟩
  · rw [hc]
    exact .single hhigh hlow h
  · rw [hc]
    exact .pair hhigh hlow h

/-- Well-formed units are the units of a text. -/
theorem wellFormed_iff {us : List UInt16} : WellFormed us ↔ ∃ text, units text = us := by
  constructor
  · intro h
    induction h with
    | nil => exact ⟨"", rfl⟩
    | @single unit rest hhigh hlow _ ih =>
      obtain ⟨text, htext⟩ := ih
      refine ⟨String.ofList (Char.ofNat unit.toNat :: text.toList), ?_⟩
      rw [units, String.toList_ofList, List.flatMap_cons, unitsOfChar_single hhigh hlow, ← htext]
      rfl
    | @pair high low rest hhigh hlow _ ih =>
      obtain ⟨text, htext⟩ := ih
      refine ⟨String.ofList (pairChar high low :: text.toList), ?_⟩
      rw [units, String.toList_ofList, List.flatMap_cons, unitsOfChar_pair hhigh hlow, ← htext]
      rfl
  · rintro ⟨text, rfl⟩
    unfold units
    induction text.toList with
    | nil => exact .nil
    | cons c rest ih => exact wellFormed_unitsOfChar c ih

end Utf16

namespace ModifiedUtf8

namespace ByteGroup

/-- No group of the same unit has fewer bytes. The zero unit has no group of one byte. -/
def Shortest (g : ByteGroup) : Prop :=
  ∀ g' : ByteGroup, g'.unit = g.unit → g.bytes.length ≤ g'.bytes.length

/-- A unit has at most one group of each size. -/
theorem eq_of_unit {g g' : ByteGroup} (hunit : g.unit = g'.unit)
    (hlength : g.bytes.length = g'.bytes.length) : g = g' := by
  have hnat : g.unit.toNat = g'.unit.toNat := congrArg UInt16.toNat hunit
  -- The size gives the form of the group, and its bits are the digits of the unit.
  cases g with
  | one x _ =>
    cases g' with
    | one x' _ =>
      rw [toNat_unit_one, toNat_unit_one] at hnat
      cases BitVec.eq_of_toNat_eq hnat
      rfl
    | two => cases hlength
    | three => cases hlength
  | two x y =>
    cases g' with
    | one => cases hlength
    | two x' y' =>
      rw [toNat_unit_two, toNat_unit_two] at hnat
      have hy := y.isLt
      have hy' := y'.isLt
      rw [BitVec.eq_of_toNat_eq (x := x) (y := x') (by omega),
        BitVec.eq_of_toNat_eq (x := y) (y := y') (by omega)]
    | three => cases hlength
  | three x y z =>
    cases g' with
    | one => cases hlength
    | two => cases hlength
    | three x' y' z' =>
      rw [toNat_unit_three, toNat_unit_three] at hnat
      have hy := y.isLt
      have hy' := y'.isLt
      have hz := z.isLt
      have hz' := z'.isLt
      rw [BitVec.eq_of_toNat_eq (x := x) (y := x') (by omega),
        BitVec.eq_of_toNat_eq (x := y) (y := y') (by omega),
        BitVec.eq_of_toNat_eq (x := z) (y := z') (by omega)]

/-- No group of a unit is shorter than the encoding of the unit. -/
theorem groupSize_unit_le (g : ByteGroup) : groupSize g.unit ≤ g.bytes.length := by
  unfold groupSize
  cases g with
  | one x nonzero =>
    have hx := x.isLt
    have hpos := toNat_ne_zero nonzero
    rw [toNat_unit_one, if_pos (by omega)]
    exact Nat.le_refl 1
  | two x y =>
    have hx := x.isLt
    have hy := y.isLt
    rw [toNat_unit_two]
    dsimp only [bytes, List.length_cons, List.length_nil]
    split
    · omega
    · split <;> omega
  | three x y z =>
    dsimp only [bytes, List.length_cons, List.length_nil]
    split
    · omega
    · split <;> omega

/-- A group is the shortest if and only if it is the one that encoding gives for its unit. -/
theorem shortest_iff (g : ByteGroup) : g.Shortest ↔ g.bytes = group g.unit := by
  constructor
  · intro h
    obtain ⟨g', hunit, hbytes⟩ := exists_group g.unit
    have hle := h g' hunit
    have hge := groupSize_unit_le g
    rw [← length_group, ← hbytes] at hge
    obtain rfl : g = g' := eq_of_unit hunit.symm (Nat.le_antisymm hle hge)
    exact hbytes
  · intro h g' hunit
    rw [h, length_group, ← hunit]
    exact groupSize_unit_le g'

/-- No group has a zero byte, or one above those that begin a group of three. -/
theorem mem_bytes {g : ByteGroup} {byte : UInt8} (h : byte ∈ g.bytes) :
    0 < byte.toNat ∧ byte.toNat ≤ 0xEF := by
  cases g with
  | one x nonzero =>
    have hx := x.isLt
    have hpos := toNat_ne_zero nonzero
    obtain rfl := List.mem_singleton.mp h
    rw [toNat_leadOne]
    omega
  | two x y =>
    have hx := x.isLt
    have hy := y.isLt
    simp only [bytes, List.mem_cons, List.not_mem_nil, or_false] at h
    rcases h with rfl | rfl
    · rw [toNat_leadTwo]
      omega
    · rw [toNat_tail]
      omega
  | three x y z =>
    have hx := x.isLt
    have hy := y.isLt
    have hz := z.isLt
    simp only [bytes, List.mem_cons, List.not_mem_nil, or_false] at h
    rcases h with rfl | rfl | rfl
    · rw [toNat_leadThree]
      omega
    · rw [toNat_tail]
      omega
    · rw [toNat_tail]
      omega

end ByteGroup

/-- What the reader takes is a concatenation of groups, and it gives their units. -/
theorem groups_of_readGroups {offset : Nat} {found : Array UInt16} {bytes : List UInt8}
    {units : List UInt16} (h : readGroups offset found bytes = .ok units) :
    ∃ groups : List ByteGroup, bytes = groups.flatMap ByteGroup.bytes ∧
      units = found.toList ++ groups.map ByteGroup.unit := by
  -- A success of the reader behind the group `g` extends by `g`.
  have hcons {found : Array UInt16} (g : ByteGroup) {rest : List UInt8}
      (hrest : ∃ groups : List ByteGroup, rest = groups.flatMap ByteGroup.bytes ∧
        units = (found.push g.unit).toList ++ groups.map ByteGroup.unit) :
      ∃ groups : List ByteGroup, g.bytes ++ rest = groups.flatMap ByteGroup.bytes ∧
        units = found.toList ++ groups.map ByteGroup.unit := by
    obtain ⟨groups, rfl, rfl⟩ := hrest
    exact ⟨g :: groups, rfl, by simp⟩
  fun_induction readGroups offset found bytes with
  | case1 offset found =>
    cases h
    exact ⟨[], rfl, by simp⟩
  | case2 offset found a rest hlead ih =>
    obtain ⟨x, nonzero, rfl⟩ := (leadsOne_iff a).mp hlead
    have hrest := ih h
    rw [toUInt16_one x nonzero] at hrest
    exact hcons (.one x nonzero) hrest
  | case3 offset found a _ hlead b rest hb ih =>
    obtain ⟨x, rfl⟩ := (leadsTwo_iff a).mp hlead
    obtain ⟨y, rfl⟩ := (isContinuation_iff b).mp hb
    have hrest := ih h
    rw [value2_bits] at hrest
    exact hcons (.two x y) hrest
  | case6 offset found a _ _ hlead b c rest hbc ih =>
    obtain ⟨hb, hc⟩ := Bool.and_eq_true_iff.mp hbc
    obtain ⟨x, rfl⟩ := (leadsThree_iff a).mp hlead
    obtain ⟨y, rfl⟩ := (isContinuation_iff b).mp hb
    obtain ⟨z, rfl⟩ := (isContinuation_iff c).mp hc
    have hrest := ih h
    rw [value3_bits] at hrest
    exact hcons (.three x y z) hrest
  | case4 | case5 | case7 | case8 | case9 => cases h

/-- A byte sequence is read as a text exactly if it is a concatenation of groups for the units of
the text. -/
theorem decode_eq_ok {bytes : List UInt8} {text : String} :
    decode bytes = .ok text ↔ ∃ groups : List ByteGroup,
      bytes = groups.flatMap ByteGroup.bytes ∧ Utf16.units text = groups.map ByteGroup.unit := by
  constructor
  · intro h
    unfold decode at h
    cases hread : readGroups 0 #[] bytes with
    | error e =>
      rw [hread] at h
      cases h
    | ok units =>
      obtain ⟨groups, hbytes, hunits⟩ := groups_of_readGroups hread
      refine ⟨groups, hbytes, ?_⟩
      rw [hread] at h
      simp only [bind, Except.bind] at h
      split at h
      · next found hfound =>
        cases h
        rw [Utf16.decode?_eq_some.mp hfound, hunits]
        rfl
      · cases h
  · rintro ⟨groups, rfl, hunits⟩
    exact decode_groups hunits.symm

/-- The groups of a byte sequence have the same units, however it is cut. -/
theorem units_of_bytes {groups groups' : List ByteGroup}
    (h : groups.flatMap ByteGroup.bytes = groups'.flatMap ByteGroup.bytes) :
    groups.map ByteGroup.unit = groups'.map ByteGroup.unit := by
  have hread := readGroups_groups groups 0 #[]
  rw [h, readGroups_groups] at hread
  simpa using hread.symm

/-- Writing the units of groups takes no more bytes than the groups. -/
theorem length_flatMap_group_le (groups : List ByteGroup) :
    ((groups.map ByteGroup.unit).flatMap group).length ≤
      (groups.flatMap ByteGroup.bytes).length := by
  induction groups with
  | nil => exact Nat.le_refl 0
  | cons g rest ih =>
    have hg := g.groupSize_unit_le
    rw [List.map_cons, List.flatMap_cons, List.flatMap_cons, List.length_append,
      List.length_append, length_group]
    omega

/-- Writing a text that was read takes no more bytes than were read. -/
theorem length_of_decode {bytes : List UInt8} {text : String} (h : decode bytes = .ok text) :
    (encode text).length ≤ bytes.length := by
  obtain ⟨groups, hbytes, hunits⟩ := decode_eq_ok.mp h
  rw [encode, hunits, hbytes]
  exact length_flatMap_group_le groups

/-- Encoding the units again gives back the bytes if and only if every group was the shortest: no
encoded unit is longer than its group, so that a shorter one is missing from the whole length. -/
theorem flatMap_group_eq_iff (groups : List ByteGroup) :
    (groups.map ByteGroup.unit).flatMap group = groups.flatMap ByteGroup.bytes ↔
      ∀ g ∈ groups, g.Shortest := by
  induction groups with
  | nil => simp
  | cons g rest ih =>
    rw [List.forall_mem_cons, ← ih, g.shortest_iff, List.map_cons, List.flatMap_cons,
      List.flatMap_cons]
    constructor
    · intro h
      -- Neither part can be longer on the left, so both have the same length.
      have hlength := congrArg List.length h
      have hg := g.groupSize_unit_le
      have hrest := length_flatMap_group_le rest
      rw [List.length_append, List.length_append, length_group] at hlength
      obtain ⟨hhead, htail⟩ := List.append_inj h (by rw [length_group]; omega)
      exact ⟨hhead.symm, htail⟩
    · rintro ⟨hhead, htail⟩
      rw [hhead, htail]

/-- Every text is read back from its encoding, which has neither zero bytes nor bytes above `0xEF`
and is as long as was computed without building it. So no two texts have the same encoding. -/
theorem encoding_faithful :
    (∀ text, decode (encode text) = .ok text ∧
      (∀ byte ∈ encode text, byte ≠ 0 ∧ byte ≤ 0xEF) ∧
      (encode text).length = encodedLength text) ∧
    Function.Injective encode := by
  constructor
  · intro text
    refine ⟨decode_encode text, ?_, length_encode text⟩
    intro byte hbyte
    obtain ⟨groups, -, hbytes⟩ := exists_groups (Utf16.units text)
    rw [encode, ← hbytes] at hbyte
    obtain ⟨g, -, hmem⟩ := List.mem_flatMap.mp hbyte
    obtain ⟨hpos, hle⟩ := ByteGroup.mem_bytes hmem
    refine ⟨?_, UInt8.le_iff_toNat_le.mpr hle⟩
    rintro rfl
    exact absurd hpos (by decide)
  · intro text text' h
    have hread := decode_encode text
    rw [h, decode_encode text'] at hread
    cases hread
    rfl

/-- A letter, the zero character, an accented letter and a character of two units. -/
theorem encoding_faithful_mixed :
    decode [0x61, 0xC0, 0x80, 0xC3, 0xA9, 0xED, 0xA0, 0xBD, 0xED, 0xB8, 0x80] = .ok "a\x00é😀" ∧
    ((0xED : UInt8) ≠ 0 ∧ (0xED : UInt8) ≤ 0xEF) ∧ 11 = encodedLength "a\x00é😀" := by
  have hencode : encode "a\x00é😀" =
      [0x61, 0xC0, 0x80, 0xC3, 0xA9, 0xED, 0xA0, 0xBD, 0xED, 0xB8, 0x80] := by decide
  obtain ⟨hread, hbytes, hlength⟩ := encoding_faithful.1 "a\x00é😀"
  rw [hencode] at hread hbytes hlength
  exact ⟨hread, hbytes 0xED (by decide), hlength⟩

/-- The bytes that are read as a text are the concatenations of groups whose units are well-formed.
The text is then the one with these units; its encoding is no longer than the bytes, and equal to
them exactly if every group is the shortest of its unit. -/
theorem decode_language (bytes : List UInt8) :
    ((∃ text, decode bytes = .ok text) ↔ ∃ groups : List ByteGroup,
      bytes = groups.flatMap ByteGroup.bytes ∧
        Utf16.WellFormed (groups.map ByteGroup.unit)) ∧
    ∀ text, decode bytes = .ok text →
      (encode text).length ≤ bytes.length ∧
      ∀ groups : List ByteGroup, bytes = groups.flatMap ByteGroup.bytes →
        Utf16.units text = groups.map ByteGroup.unit ∧
        (encode text = bytes ↔ ∀ g ∈ groups, g.Shortest) := by
  constructor
  · constructor
    · rintro ⟨text, h⟩
      obtain ⟨groups, hbytes, hunits⟩ := decode_eq_ok.mp h
      exact ⟨groups, hbytes, Utf16.wellFormed_iff.mpr ⟨text, hunits⟩⟩
    · rintro ⟨groups, hbytes, hunits⟩
      obtain ⟨text, htext⟩ := Utf16.wellFormed_iff.mp hunits
      exact ⟨text, decode_eq_ok.mpr ⟨groups, hbytes, htext⟩⟩
  · intro text h
    refine ⟨length_of_decode h, ?_⟩
    intro groups hbytes
    obtain ⟨groups', hbytes', hunits⟩ := decode_eq_ok.mp h
    rw [units_of_bytes (hbytes'.symm.trans hbytes)] at hunits
    refine ⟨hunits, ?_⟩
    rw [encode, hunits, hbytes]
    exact flatMap_group_eq_iff groups

/-- A group that is too long, and a pair of surrogates: the text is shorter when it is written. -/
theorem decode_language_overlong :
    decode [0xC1, 0x81, 0xED, 0xA0, 0xBD, 0xED, 0xB8, 0x80] = .ok "A😀" ∧
    Utf16.units "A😀" = [0x41, 0xD83D, 0xDE00] ∧ (encode "A😀").length ≤ 8 ∧
    encode "A😀" ≠ [0xC1, 0x81, 0xED, 0xA0, 0xBD, 0xED, 0xB8, 0x80] := by
  have hdecode : decode [0xC1, 0x81, 0xED, 0xA0, 0xBD, 0xED, 0xB8, 0x80] = .ok "A😀" := by rfl
  obtain ⟨hlength, hgroups⟩ := (decode_language _).2 _ hdecode
  obtain ⟨hunits, hshortest⟩ := hgroups [.two 1 1, .three 13 32 61, .three 13 56 0] rfl
  refine ⟨hdecode, hunits, hlength, fun h => ?_⟩
  have hletter := hshortest.mp h (.two 1 1) List.mem_cons_self (.one 0x41 (by decide)) rfl
  exact absurd hletter (by decide)

end ModifiedUtf8

end StackGlyph.Text
