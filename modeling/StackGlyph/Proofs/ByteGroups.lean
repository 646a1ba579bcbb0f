import StackGlyph.Proofs.Words
import StackGlyph.Text.ModifiedUtf8

/-!
# Groups of bytes

The encoding computes with numbers. Here a group is given by the bits that it leaves free, so that
its marks and its value can be read off. The reader takes each group as the unit of its bits and
picks up behind it, whatever follows, and the encoding of a unit is one of its groups.
-/
namespace StackGlyph.Text.ModifiedUtf8

open Word

/-- A group of bytes: `0xxxxxxx` with a bit that is set, `110xxxxx 10xxxxxx`, or
`1110xxxx 10xxxxxx 10xxxxxx`. -/
inductive ByteGroup where
  | one (x : BitVec 7) (nonzero : x ≠ 0)
  | two (x : BitVec 5) (y : BitVec 6)
  | three (x : BitVec 4) (y z : BitVec 6)

namespace ByteGroup

def bytes : ByteGroup → List UInt8
  | one x _ => [⟨0b0#1 ++ x⟩]
  | two x y => [⟨0b110#3 ++ x⟩, ⟨0b10#2 ++ y⟩]
  | three x y z => [⟨0b1110#4 ++ x⟩, ⟨0b10#2 ++ y⟩, ⟨0b10#2 ++ z⟩]

/-- The unit that a group stands for: its free bits in order. -/
def unit : ByteGroup → UInt16
  | one x _ => ⟨0#9 ++ x⟩
  | two x y => ⟨0#5 ++ x ++ y⟩
  | three x y z => ⟨x ++ y ++ z⟩

end ByteGroup

theorem toNat_bits {m n : Nat} (x : BitVec m) (y : BitVec n) :
    (x ++ y).toNat = x.toNat <<< n + y.toNat := by
  rw [BitVec.toNat_append, Nat.shiftLeft_add_eq_or_of_lt y.isLt]

theorem toNat_ne_zero {n : Nat} {x : BitVec n} (h : x ≠ 0) : x.toNat ≠ 0 :=
  fun hx => h (BitVec.eq_of_toNat_eq (by simpa using hx))

/-- The words that start with a mark are an interval. -/
theorem exists_bits_iff {m n : Nat} (mark : BitVec m) (w : BitVec (m + n)) :
    (∃ x : BitVec n, w = mark ++ x) ↔
      mark.toNat <<< n ≤ w.toNat ∧ w.toNat < (mark.toNat + 1) <<< n := by
  simp only [Nat.shiftLeft_eq, Nat.add_mul, Nat.one_mul]
  constructor
  · rintro ⟨x, rfl⟩
    have hx := x.isLt
    rw [toNat_bits, Nat.shiftLeft_eq]
    omega
  · rintro ⟨hlow, hhigh⟩
    refine ⟨BitVec.ofNat n (w.toNat - mark.toNat * 2 ^ n), ?_⟩
    apply BitVec.eq_of_toNat_eq
    rw [toNat_bits, Nat.shiftLeft_eq, BitVec.toNat_ofNat, Nat.mod_eq_of_lt (by omega)]
    omega

theorem isContinuation_iff (b : UInt8) :
    isContinuation b = true ↔ ∃ y : BitVec 6, b = ⟨0b10#2 ++ y⟩ := by
  have hbits := exists_bits_iff (n := 6) 0b10#2 b.toBitVec
  simp only [isContinuation, Bool.and_eq_true, decide_eq_true_eq, ← UInt8.toBitVec_inj]
  exact hbits.symm

theorem leadsTwo_iff (a : UInt8) :
    (0xC0 ≤ a && a < 0xE0) = true ↔ ∃ x : BitVec 5, a = ⟨0b110#3 ++ x⟩ := by
  have hbits := exists_bits_iff (n := 5) 0b110#3 a.toBitVec
  simp only [Bool.and_eq_true, decide_eq_true_eq, ← UInt8.toBitVec_inj]
  exact hbits.symm

theorem leadsThree_iff (a : UInt8) :
    (0xE0 ≤ a && a < 0xF0) = true ↔ ∃ x : BitVec 4, a = ⟨0b1110#4 ++ x⟩ := by
  have hbits := exists_bits_iff (n := 4) 0b1110#4 a.toBitVec
  simp only [Bool.and_eq_true, decide_eq_true_eq, ← UInt8.toBitVec_inj]
  exact hbits.symm

/-- The test for a byte that is a group by itself, as a statement on its bits. -/
theorem leadsOne_iff (a : UInt8) :
    (0x01 ≤ a && a < 0x80) = true ↔ ∃ x : BitVec 7, x ≠ 0 ∧ a = ⟨0b0#1 ++ x⟩ := by
  have hbits := exists_bits_iff (n := 7) 0b0#1 a.toBitVec
  simp only [Bool.and_eq_true, decide_eq_true_eq]
  constructor
  · rintro ⟨hlow, hhigh⟩
    obtain ⟨x, hx⟩ := hbits.mpr ⟨Nat.zero_le _, hhigh⟩
    refine ⟨x, ?_, UInt8.toBitVec_inj.mp hx⟩
    rintro rfl
    rw [← UInt8.toBitVec_inj.mp hx.symm] at hlow
    exact absurd hlow (by decide)
  · rintro ⟨x, hx, rfl⟩
    refine ⟨?_, (hbits.mp ⟨x, rfl⟩).2⟩
    show 1 ≤ (0b0#1 ++ x).toNat
    have hpos := toNat_ne_zero hx
    rw [toNat_bits]
    omega

theorem toNat_tail (y : BitVec 6) : (⟨0b10#2 ++ y⟩ : UInt8).toNat = 0x80 + y.toNat :=
  toNat_bits 0b10#2 y

theorem toNat_leadOne (x : BitVec 7) : (⟨0b0#1 ++ x⟩ : UInt8).toNat = x.toNat :=
  (toNat_bits 0b0#1 x).trans (Nat.zero_add _)

theorem toNat_leadTwo (x : BitVec 5) : (⟨0b110#3 ++ x⟩ : UInt8).toNat = 0xC0 + x.toNat :=
  toNat_bits 0b110#3 x

theorem toNat_leadThree (x : BitVec 4) : (⟨0b1110#4 ++ x⟩ : UInt8).toNat = 0xE0 + x.toNat :=
  toNat_bits 0b1110#4 x

namespace ByteGroup

theorem toNat_unit_one (x : BitVec 7) (nonzero : x ≠ 0) :
    (one x nonzero).unit.toNat = x.toNat := by
  show (0#9 ++ x).toNat = _
  rw [toNat_bits]
  exact Nat.zero_add _

theorem toNat_unit_two (x : BitVec 5) (y : BitVec 6) :
    (two x y).unit.toNat = x.toNat * 0x40 + y.toNat := by
  show (0#5 ++ x ++ y).toNat = _
  rw [toNat_bits, toNat_bits, Nat.shiftLeft_eq]
  simp

theorem toNat_unit_three (x : BitVec 4) (y z : BitVec 6) :
    (three x y z).unit.toNat = x.toNat * 0x1000 + y.toNat * 0x40 + z.toNat := by
  show (x ++ y ++ z).toNat = _
  rw [toNat_bits, toNat_bits, Nat.shiftLeft_eq, Nat.shiftLeft_eq]
  omega

end ByteGroup

theorem toUInt16_one (x : BitVec 7) (nonzero : x ≠ 0) :
    (⟨0b0#1 ++ x⟩ : UInt8).toUInt16 = (ByteGroup.one x nonzero).unit := by
  apply UInt16.toNat_inj.mp
  rw [UInt8.toNat_toUInt16, toNat_leadOne, ByteGroup.toNat_unit_one]

theorem value2_bits (x : BitVec 5) (y : BitVec 6) :
    value2 ⟨0b110#3 ++ x⟩ ⟨0b10#2 ++ y⟩ = (ByteGroup.two x y).unit := by
  have hx := x.isLt
  have hy := y.isLt
  apply UInt16.toNat_inj.mp
  rw [value2, toNat_leadTwo, toNat_tail, toNat_toUInt16 (by omega), ByteGroup.toNat_unit_two]
  omega

theorem value3_bits (x : BitVec 4) (y z : BitVec 6) :
    value3 ⟨0b1110#4 ++ x⟩ ⟨0b10#2 ++ y⟩ ⟨0b10#2 ++ z⟩ = (ByteGroup.three x y z).unit := by
  have hx := x.isLt
  have hy := y.isLt
  have hz := z.isLt
  apply UInt16.toNat_inj.mp
  rw [value3, toNat_leadThree, toNat_tail, toNat_tail, toNat_toUInt16 (by omega),
    ByteGroup.toNat_unit_three]
  omega

theorem low_le_of_within {low high a : UInt8} (h : (low ≤ a && a < high) = true) : low ≤ a :=
  of_decide_eq_true (Bool.and_eq_true_iff.mp h).1

theorem not_within {low high a : UInt8} (h : high ≤ a) : ¬ (low ≤ a && a < high) = true := by
  simp [UInt8.not_lt.mpr h]

/-- The reader takes one group and goes on behind it. -/
theorem readGroups_bytes (g : ByteGroup) (offset : Nat) (found : Array UInt16)
    (rest : List UInt8) :
    readGroups offset found (g.bytes ++ rest) =
      readGroups (offset + g.bytes.length) (found.push g.unit) rest := by
  cases g with
  | one x nonzero =>
    show readGroups offset found (⟨0b0#1 ++ x⟩ :: rest) = _
    rw [readGroups.eq_def]
    dsimp only
    rw [if_pos ((leadsOne_iff _).mpr ⟨x, nonzero, rfl⟩), toUInt16_one x nonzero]
    rfl
  | two x y =>
    have hlead := (leadsTwo_iff _).mpr ⟨x, rfl⟩
    have hlow := low_le_of_within hlead
    show readGroups offset found (⟨0b110#3 ++ x⟩ :: ⟨0b10#2 ++ y⟩ :: rest) = _
    rw [readGroups, if_neg (not_within (UInt8.le_trans (by decide) hlow)), if_pos hlead,
      if_pos ((isContinuation_iff _).mpr ⟨y, rfl⟩), value2_bits]
    rfl
  | three x y z =>
    have hlead := (leadsThree_iff _).mpr ⟨x, rfl⟩
    have hlow := low_le_of_within hlead
    have hsecond := (isContinuation_iff _).mpr ⟨y, rfl⟩
    have hthird := (isContinuation_iff _).mpr ⟨z, rfl⟩
    show readGroups offset found
      (⟨0b1110#4 ++ x⟩ :: ⟨0b10#2 ++ y⟩ :: ⟨0b10#2 ++ z⟩ :: rest) = _
    rw [readGroups, if_neg (not_within (UInt8.le_trans (by decide) hlow)), if_neg (not_within hlow),
      if_pos hlead]
    dsimp only
    rw [if_pos (Bool.and_eq_true_iff.mpr ⟨hsecond, hthird⟩), value3_bits]
    rfl

theorem eq_toUInt8 {a : UInt8} {n : Nat} (h : a.toNat = n) : a = n.toUInt8 := by
  subst h
  exact UInt8.ofNat_toNat.symm

/-- The encoding of a unit is a group of it. -/
theorem exists_group (unit : UInt16) : ∃ g : ByteGroup, g.unit = unit ∧ g.bytes = group unit := by
  have hu : unit.toNat < 0x10000 := unit.toNat_lt
  unfold group
  dsimp only
  split
  · next h =>
    obtain ⟨x, hx⟩ : ∃ x : BitVec 7, x.toNat = unit.toNat :=
      ⟨.ofNatLT unit.toNat (by omega), rfl⟩
    have hnonzero : x ≠ 0 := by
      rintro rfl
      simp at hx
      omega
    refine ⟨.one x hnonzero, UInt16.toNat_inj.mp ?_, ?_⟩
    · rw [ByteGroup.toNat_unit_one, hx]
    · rw [ByteGroup.bytes, eq_toUInt8 (toNat_leadOne x), hx]
  · split
    · next h1 h2 =>
      obtain ⟨x, hx⟩ : ∃ x : BitVec 5, x.toNat = unit.toNat / 0x40 := ⟨.ofNatLT _ (by omega), rfl⟩
      obtain ⟨y, hy⟩ : ∃ y : BitVec 6, y.toNat = unit.toNat % 0x40 := ⟨.ofNatLT _ (by omega), rfl⟩
      refine ⟨.two x y, UInt16.toNat_inj.mp ?_, ?_⟩
      · rw [ByteGroup.toNat_unit_two, hx, hy]
        omega
      · rw [ByteGroup.bytes, eq_toUInt8 (toNat_leadTwo x), eq_toUInt8 (toNat_tail y), hx, hy]
    · obtain ⟨x, hx⟩ : ∃ x : BitVec 4, x.toNat = unit.toNat / 0x1000 :=
        ⟨.ofNatLT _ (by omega), rfl⟩
      obtain ⟨y, hy⟩ : ∃ y : BitVec 6, y.toNat = unit.toNat / 0x40 % 0x40 :=
        ⟨.ofNatLT _ (by omega), rfl⟩
      obtain ⟨z, hz⟩ : ∃ z : BitVec 6, z.toNat = unit.toNat % 0x40 := ⟨.ofNatLT _ (by omega), rfl⟩
      refine ⟨.three x y z, UInt16.toNat_inj.mp ?_, ?_⟩
      · rw [ByteGroup.toNat_unit_three, hx, hy, hz]
        omega
      · rw [ByteGroup.bytes, eq_toUInt8 (toNat_leadThree x), eq_toUInt8 (toNat_tail y),
          eq_toUInt8 (toNat_tail z), hx, hy, hz]

/-- The reader takes a concatenation of groups as the units of these groups. -/
theorem readGroups_groups (groups : List ByteGroup) (offset : Nat) (found : Array UInt16) :
    readGroups offset found (groups.flatMap ByteGroup.bytes) =
      .ok (found.toList ++ groups.map ByteGroup.unit) := by
  induction groups generalizing offset found with
  | nil => simp [readGroups]
  | cons g rest ih =>
    rw [List.flatMap_cons, readGroups_bytes, ih]
    simp

theorem exists_groups (units : List UInt16) :
    ∃ groups : List ByteGroup, groups.map ByteGroup.unit = units ∧
      groups.flatMap ByteGroup.bytes = units.flatMap group := by
  induction units with
  | nil => exact ⟨[], rfl, rfl⟩
  | cons unit rest ih =>
    obtain ⟨g, hunit, hbytes⟩ := exists_group unit
    obtain ⟨groups, hunits, hrest⟩ := ih
    refine ⟨g :: groups, ?_, ?_⟩
    · rw [List.map_cons, hunit, hunits]
    · rw [List.flatMap_cons, List.flatMap_cons, hbytes, hrest]

end StackGlyph.Text.ModifiedUtf8
