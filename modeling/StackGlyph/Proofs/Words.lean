import StackGlyph.Word

/-!
# Words and their bytes

Splitting a word into bytes loses nothing: joining the bytes gives the word back. The statements
name the bytes instead of matching on them, so that readers of words can be rewritten with them.
-/
namespace StackGlyph.Word

@[simp] theorem length_bytes16 (w : UInt16) : (bytes16 w).length = 2 := rfl

@[simp] theorem length_bytes32 (w : UInt32) : (bytes32 w).length = 4 := rfl

/-- A number below 256 survives the passage through a byte. -/
theorem toNat_toUInt8 {n : Nat} (h : n < 0x100) : n.toUInt8.toNat = n := by
  simpa using Nat.mod_eq_of_lt h

theorem toNat_toUInt16 {n : Nat} (h : n < 0x10000) : n.toUInt16.toNat = n := by
  simpa using Nat.mod_eq_of_lt h

theorem toNat_toUInt32 {n : Nat} (h : n < 0x100000000) : n.toUInt32.toNat = n := by
  simpa using Nat.mod_eq_of_lt h

/-- The two bytes of a word, and the word they join to. -/
theorem bytes16_join (w : UInt16) : ∃ a b, bytes16 w = [a, b] ∧ join16 a b = w := by
  have hw : w.toNat < 0x10000 := w.toNat_lt
  refine ⟨_, _, rfl, ?_⟩
  apply UInt16.toNat_inj.mp
  rw [join16, toNat_toUInt8 (by omega), toNat_toUInt8 (by omega), toNat_toUInt16 (by omega)]
  omega

/-- The four bytes of a double word, and the double word they join to. -/
theorem bytes32_join (w : UInt32) :
    ∃ a b c d, bytes32 w = [a, b, c, d] ∧ join32 a b c d = w := by
  have hw : w.toNat < 0x100000000 := w.toNat_lt
  refine ⟨_, _, _, _, rfl, ?_⟩
  apply UInt32.toNat_inj.mp
  rw [join32, toNat_toUInt8 (by omega), toNat_toUInt8 (by omega), toNat_toUInt8 (by omega),
    toNat_toUInt8 (by omega), toNat_toUInt32 (by omega)]
  omega

end StackGlyph.Word
