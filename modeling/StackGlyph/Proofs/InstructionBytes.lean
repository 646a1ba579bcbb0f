import StackGlyph.Proofs.Emission

/-!
# Reading instructions back

The bytes of one instruction are read as that instruction, and reading goes on behind them. So a
sequence of instructions that stand one behind the other is read back as a whole, unless a branch
leads out of the code; then it is refused.
-/
namespace StackGlyph.Instruction

theorem ofByte?_byte (op : Opcode) : Opcode.ofByte? op.byte = some op := by
  cases op <;> rfl

/-- Numbers of a byte survive the passage through it. -/
theorem signedByte_ofInt {v : Int} (hlow : -128 ≤ v) (hhigh : v ≤ 127) :
    signedByte (v % 0x100).toNat.toUInt8 = v := by
  have hbyte := Word.toNat_toUInt8 (n := (v % 0x100).toNat) (by omega)
  unfold signedByte
  rw [hbyte]
  split <;> omega

/-- Numbers of a word survive the passage through its two bytes. -/
theorem signedWord_ofInt {v : Int} (hlow : -32768 ≤ v) (hhigh : v ≤ 32767) :
    ∃ a b, Word.bytes16 (v % 0x10000).toNat.toUInt16 = [a, b] ∧ signedWord a b = v := by
  obtain ⟨a, b, hbytes, hjoin⟩ := Word.bytes16_join (v % 0x10000).toNat.toUInt16
  refine ⟨a, b, hbytes, ?_⟩
  have hword := Word.toNat_toUInt16 (n := (v % 0x10000).toNat) (by omega)
  unfold signedWord
  dsimp only
  rw [hjoin, hword]
  split <;> omega

def InReach (i : Instruction) : Prop :=
  ∀ t, i.operand = .target t → -32768 ≤ (t : Int) - i.offset ∧ (t : Int) - i.offset ≤ 32767

/-- A branch leads into code of a given size. -/
def Inside (size : Nat) (i : Instruction) : Prop :=
  ∀ t, i.operand = .target t → t < size

/-- The size of an instruction is a matter of its opcode. -/
theorem length_encode {i : Instruction} (h : i.operand.Suits i.op.layout) :
    i.encode.length = 1 + i.op.operandSize := by
  obtain ⟨offset, op, operand⟩ := i
  dsimp only at h ⊢
  unfold encode Opcode.operandSize
  generalize hlayout : op.layout = layout at h ⊢
  cases operand <;> cases layout <;> first | exact h.elim | simp [Opcode.Layout.size]

/-- One instruction is read and the rest stays to be read. -/
theorem readAll_encode {size : Nat} {i : Instruction} (found : Array Instruction)
    (rest : List UInt8) (hsuits : i.operand.Suits i.op.layout) (hreach : i.InReach)
    (hinside : i.Inside size) :
    readAll size i.offset found (i.encode ++ rest) =
      readAll size (i.offset + i.encode.length) (found.push i) rest := by
  rw [length_encode hsuits]
  obtain ⟨offset, op, operand⟩ := i
  dsimp only at hsuits ⊢
  unfold encode Opcode.operandSize
  dsimp only
  -- Only a layout and an operand that suit each other survive the two splits.
  cases hlayout : op.layout with
  | bare =>
    cases operand <;> rw [hlayout] at hsuits <;> try exact hsuits.elim
    simp only [List.cons_append, readAll, ofByte?_byte, hlayout]
    rfl
  | byteValue =>
    cases operand <;> rw [hlayout] at hsuits <;> try exact hsuits.elim
    next v =>
    have hv := signedByte_ofInt hsuits.1 hsuits.2
    simp only [List.cons_append, readAll, ofByte?_byte, hlayout, if_pos, hv]
    rfl
  | wordValue =>
    cases operand <;> rw [hlayout] at hsuits <;> try exact hsuits.elim
    next v =>
    obtain ⟨a, b, hbytes, hv⟩ := signedWord_ofInt hsuits.1 hsuits.2
    simp only [reduceCtorEq, if_false, hbytes, List.cons_append, readAll, ofByte?_byte, hlayout, hv]
    rfl
  | slot =>
    cases operand <;> rw [hlayout] at hsuits <;> try exact hsuits.elim
    simp only [List.cons_append, readAll, ofByte?_byte, hlayout]
    rfl
  | byteIndex =>
    cases operand <;> rw [hlayout] at hsuits <;> try exact hsuits.elim
    next k =>
    have hk : k.toUInt8.toUInt16 = k := by
      have hle : k.toNat ≤ 255 := hsuits
      apply UInt16.toNat_inj.mp
      rw [UInt8.toNat_toUInt16, UInt16.toNat_toUInt8, Nat.mod_eq_of_lt (by omega)]
    simp only [List.cons_append, readAll, ofByte?_byte, hlayout, if_pos, hk]
    rfl
  | wordIndex =>
    cases operand <;> rw [hlayout] at hsuits <;> try exact hsuits.elim
    next k =>
    obtain ⟨a, b, hbytes, hk⟩ := Word.bytes16_join k
    simp only [reduceCtorEq, if_false, hbytes, List.cons_append, readAll, ofByte?_byte, hlayout, hk]
    rfl
  | branch =>
    cases operand <;> rw [hlayout] at hsuits <;> try exact hsuits.elim
    next t =>
    obtain ⟨hlow, hhigh⟩ := hreach t rfl
    have hlt : t < size := hinside t rfl
    obtain ⟨a, b, hbytes, hv⟩ := signedWord_ofInt hlow hhigh
    dsimp only at hbytes hv
    have hsum : (offset : Int) + ((t : Int) - offset) = t := by omega
    simp only [hbytes, List.cons_append, readAll, ofByte?_byte, hlayout, hv, hsum]
    rw [if_pos ⟨by omega, by omega⟩]
    rfl
  | interface =>
    cases operand <;> rw [hlayout] at hsuits <;> try exact hsuits.elim
    next k count =>
    obtain ⟨a, b, hbytes, hk⟩ := Word.bytes16_join k
    simp only [hbytes, List.cons_append, List.nil_append, readAll, ofByte?_byte, hlayout, hk]
    rfl

/-- A branch that leads out of the code is refused where it stands. -/
theorem readAll_encode_outside {size t : Nat} {i : Instruction} (found : Array Instruction)
    (rest : List UInt8) (hsuits : i.operand.Suits i.op.layout) (hreach : i.InReach)
    (htarget : i.operand = .target t) (hout : size ≤ t) :
    ∃ e, readAll size i.offset found (i.encode ++ rest) = .error e := by
  obtain ⟨offset, op, operand⟩ := i
  obtain ⟨hlow, hhigh⟩ := hreach t htarget
  dsimp only at hsuits htarget hlow hhigh ⊢
  subst htarget
  have hlayout : op.layout = .branch := by
    cases hl : op.layout <;> rw [hl] at hsuits <;> first | rfl | exact hsuits.elim
  obtain ⟨a, b, hbytes, hv⟩ := signedWord_ofInt hlow hhigh
  have hsum : (offset : Int) + ((t : Int) - offset) = t := by omega
  simp only [encode, hbytes, List.cons_append, readAll, ofByte?_byte, hlayout, hv, hsum]
  rw [if_neg (by omega)]
  exact ⟨_, rfl⟩

/-- Instructions that stand one behind the other from an offset on, each with an operand that can be
written. -/
inductive Tiled : Nat → List Instruction → Prop
  | nil (offset : Nat) : Tiled offset []
  | cons {i : Instruction} {rest : List Instruction} (hsuits : i.operand.Suits i.op.layout)
      (hreach : i.InReach) (htail : Tiled (i.offset + i.encode.length) rest) :
      Tiled i.offset (i :: rest)

theorem Tiled.offset_lt {offset : Nat} {is : List Instruction} (h : Tiled offset is)
    {i : Instruction} (hi : i ∈ is) : i.offset < offset + (is.flatMap encode).length := by
  induction h with
  | nil offset => cases hi
  | @cons j rest hsuits hreach htail ih =>
    have hpositive : 0 < j.encode.length := by simp [encode]
    rw [List.flatMap_cons, List.length_append]
    rcases List.mem_cons.mp hi with rfl | hi
    · omega
    · have hlt := ih hi
      omega

theorem readAll_tiled {size offset : Nat} {is : List Instruction} (h : Tiled offset is)
    (hinside : ∀ i ∈ is, i.Inside size) (found : Array Instruction) :
    readAll size offset found (is.flatMap encode) = .ok (found ++ is) := by
  induction h generalizing found with
  | nil offset => simp [readAll]
  | @cons i rest hsuits hreach htail ih =>
    rw [List.flatMap_cons, readAll_encode found _ hsuits hreach (hinside i (by simp)),
      ih (fun j hj => hinside j (by simp [hj]))]
    simp

/-- A branch that leads out of the code is found when it is read, however many instructions were
read before. -/
theorem readAll_tiled_outside {size offset : Nat} {is : List Instruction} (h : Tiled offset is)
    (hout : ∃ i ∈ is, ¬ i.Inside size) (found : Array Instruction) :
    ∃ e, readAll size offset found (is.flatMap encode) = .error e := by
  induction h generalizing found with
  | nil offset => simp at hout
  | @cons i rest hsuits hreach htail ih =>
    rw [List.flatMap_cons]
    by_cases hi : i.Inside size
    · rw [readAll_encode found _ hsuits hreach hi]
      apply ih
      simpa [hi] using hout
    · simp only [Inside, Classical.not_forall, Nat.not_lt] at hi
      obtain ⟨t, htarget, hle⟩ := hi
      exact readAll_encode_outside found _ hsuits hreach htarget hle

/-- Code made of instructions is read as these, exactly if no branch leads out of it. -/
theorem decode_tiled {is : List Instruction} (h : Tiled 0 is) :
    (∀ i ∈ is, i.Inside (is.flatMap encode).length) ∧ decode (is.flatMap encode) = .ok is.toArray ∨
    (¬ ∀ i ∈ is, i.Inside (is.flatMap encode).length) ∧
      ∃ e, decode (is.flatMap encode) = .error e := by
  by_cases hall : ∀ i ∈ is, i.Inside (is.flatMap encode).length
  · refine .inl ⟨hall, ?_⟩
    rw [decode, readAll_tiled h hall]
    simp
  · refine .inr ⟨hall, ?_⟩
    have hsome : ∃ i ∈ is, ¬ i.Inside (is.flatMap encode).length := by
      simpa using hall
    exact readAll_tiled_outside h hsome #[]

end StackGlyph.Instruction
