import StackGlyph.Machine.Step
import StackGlyph.Proofs.Flow

/-!
# What bytes of any kind decode to

A code array need not come from the assembler. Whenever it can be decoded, its instructions stand
one behind the other and fill it, and writing them back gives the same bytes, but for the last byte
of an interface call, which has no meaning. Branches lead into the code, though perhaps not to where
an instruction starts; the machine takes a branch exactly if one starts there.
-/
namespace StackGlyph

theorem Opcode.byte_of_ofByte? {b : UInt8} {op : Opcode} (h : Opcode.ofByte? b = some op) :
    op.byte = b := by
  simpa using List.find?_some h

/-- Joining two bytes and splitting the word gives them back. -/
theorem Word.bytes16_join16 (a b : UInt8) : bytes16 (join16 a b) = [a, b] := by
  have ha : a.toNat < 0x100 := a.toNat_lt
  have hb : b.toNat < 0x100 := b.toNat_lt
  have hword : (join16 a b).toNat = a.toNat * 0x100 + b.toNat := toNat_toUInt16 (by omega)
  have hhigh : (a.toNat * 0x100 + b.toNat) / 0x100 = a.toNat := by omega
  have hlow : (a.toNat * 0x100 + b.toNat) % 0x100 = b.toNat := by omega
  simp [bytes16, hword, hhigh, hlow]

namespace Instruction

/-- A byte holds a number from -128 to 127, and this number is written as that byte. -/
theorem signedByte_back (a : UInt8) :
    (-128 ≤ signedByte a ∧ signedByte a ≤ 127) ∧ (signedByte a % 0x100).toNat.toUInt8 = a := by
  have ha : a.toNat < 0x100 := a.toNat_lt
  have hsame : (signedByte a % 0x100).toNat = a.toNat := by
    unfold signedByte
    split <;> omega
  refine ⟨?_, by simp [hsame]⟩
  unfold signedByte
  split <;> omega

/-- Two bytes hold a number of a signed word, and this number is written as these bytes. -/
theorem signedWord_back (a b : UInt8) :
    (-32768 ≤ signedWord a b ∧ signedWord a b ≤ 32767) ∧
      Word.bytes16 (signedWord a b % 0x10000).toNat.toUInt16 = [a, b] := by
  have hlt : (Word.join16 a b).toNat < 0x10000 := (Word.join16 a b).toNat_lt
  have hsame : (signedWord a b % 0x10000).toNat = (Word.join16 a b).toNat := by
    unfold signedWord
    dsimp only
    split <;> omega
  refine ⟨?_, by simp [hsame, ← Word.bytes16_join16]⟩
  unfold signedWord
  dsimp only
  split <;> omega

/-- An instruction was read from these bytes, in code of this size: they are the bytes that it is
written as, except that the last byte of an interface call may be any. -/
structure ReadFrom (size : Nat) (bytes : List UInt8) (i : Instruction) : Prop where
  suits : i.operand.Suits i.op.layout
  inside : i.Inside size
  length : bytes.length = 1 + i.op.operandSize
  same : ∀ k, (i.op = .invokeinterface → k ≠ 4) → i.encode[k]? = bytes[k]?

theorem readFrom_encode {size : Nat} {bytes : List UInt8} {i : Instruction}
    (hbytes : i.encode = bytes) (hsuits : i.operand.Suits i.op.layout) (hinside : i.Inside size) :
    ReadFrom size bytes i where
  suits := hsuits
  inside := hinside
  length := by rw [← hbytes, length_encode hsuits]
  same k _ := by rw [hbytes]

section Steps

variable {size offset : Nat} {found is : Array Instruction} {op : Opcode}

theorem readFrom_plain {operand : Operand} {layout : Opcode.Layout} {bytes : List UInt8}
    (hlayout : op.layout = layout) (hsuits : operand.Suits layout)
    (hplain : ∀ t, operand ≠ .target t) (hbytes : encode ⟨offset, op, operand⟩ = bytes) :
    ReadFrom size bytes ⟨offset, op, operand⟩ :=
  readFrom_encode hbytes (by rwa [hlayout]) fun t ht => absurd ht (hplain t)

theorem readFrom_branch {a b : UInt8} (hlayout : op.layout = .branch)
    (hinside : 0 ≤ offset + signedWord a b ∧ offset + signedWord a b < size) :
    ReadFrom size [op.byte, a, b] ⟨offset, op, .target (offset + signedWord a b).toNat⟩ := by
  refine readFrom_encode ?_ (by rw [hlayout]; trivial) ?_
  · have hdistance : ((offset + signedWord a b).toNat : Int) - offset = signedWord a b := by omega
    simp only [encode, hdistance, (signedWord_back a b).2]
  · intro t ht
    cases ht
    omega

/-- The last of the five bytes is no part of the operand, and is the only one that need not be
written back as it was. -/
theorem readFrom_interface (hlayout : op.layout = .interface) (a b count unused : UInt8) :
    ReadFrom size [op.byte, a, b, count, unused]
      ⟨offset, op, .interface (Word.join16 a b) count⟩ where
  suits := by
    rw [hlayout]
    trivial
  inside := by
    intro t ht
    cases ht
  length := by simp [Opcode.operandSize, hlayout, Opcode.Layout.size]
  same := by
    have hop : op = .invokeinterface := by
      cases op <;> first | rfl | cases hlayout
    intro k hk
    have hwritten : encode ⟨offset, op, .interface (Word.join16 a b) count⟩ =
        [op.byte, a, b, count, 0] := by
      simp [encode, Word.bytes16_join16]
    rw [hwritten]
    rcases k with _ | _ | _ | _ | _ | k
    case succ.succ.succ.succ.zero => exact absurd rfl (hk hop)
    all_goals rfl

/-- Reading takes the bytes of one instruction and goes on behind it. -/
structure Takes (size : Nat) (found is : Array Instruction) (code : List UInt8) (i : Instruction)
    (bytes rest : List UInt8) : Prop where
  code : code = bytes ++ rest
  read : ReadFrom size bytes i
  next : readAll size i.behind (found.push i) rest = .ok is

theorem takes_of_read {operand : Operand} {rest : List UInt8} {n : Nat} (bytes : List UInt8)
    (h : readAll size (offset + n) (found.push ⟨offset, op, operand⟩) rest = .ok is)
    (hn : bytes.length = n) (hread : ReadFrom size bytes ⟨offset, op, operand⟩) :
    ∃ i bytes' rest', i.offset = offset ∧ Takes size found is (bytes ++ rest) i bytes' rest' := by
  refine ⟨_, bytes, rest, rfl, rfl, hread, ?_⟩
  rw [behind, Nat.add_assoc, ← hread.length, hn]
  exact h

/-- All that reading does with the next byte: a case for each layout. -/
theorem readAll_cons {byte : UInt8} {code : List UInt8}
    (h : readAll size offset found (byte :: code) = .ok is) :
    ∃ i bytes rest, i.offset = offset ∧ Takes size found is (byte :: code) i bytes rest := by
  rw [readAll] at h
  split at h
  · cases h
  · next op hop =>
    obtain rfl := Opcode.byte_of_ofByte? hop
    split at h
    · next hlayout =>
      exact takes_of_read [op.byte] h rfl
        (readFrom_plain hlayout trivial (by simp) rfl)
    · next a rest hlayout =>
      exact takes_of_read [op.byte, a] h rfl
        (readFrom_plain hlayout (signedByte_back a).1 (by simp)
          (by simp only [encode, hlayout, if_pos, (signedByte_back a).2]))
    · next a rest hlayout =>
      exact takes_of_read [op.byte, a] h rfl
        (readFrom_plain hlayout trivial (by simp) rfl)
    · next a rest hlayout =>
      have hle : a.toUInt16 ≤ 255 := by
        have ha := a.toNat_lt
        rw [UInt16.le_iff_toNat_le, UInt8.toNat_toUInt16]
        exact Nat.le_of_lt_succ ha
      exact takes_of_read [op.byte, a] h rfl
        (readFrom_plain hlayout hle (by simp) (by simp [encode, hlayout]))
    · next a b rest hlayout =>
      exact takes_of_read [op.byte, a, b] h rfl
        (readFrom_plain hlayout (signedWord_back a b).1 (by simp)
          (by simp [encode, hlayout, (signedWord_back a b).2]))
    · next a b rest hlayout =>
      exact takes_of_read [op.byte, a, b] h rfl
        (readFrom_plain hlayout trivial (by simp)
          (by simp [encode, hlayout, Word.bytes16_join16]))
    · next a b rest hlayout =>
      dsimp only at h
      split at h
      · next hinside =>
        exact takes_of_read [op.byte, a, b] h rfl (readFrom_branch hlayout hinside)
      · cases h
    · next a b count unused rest hlayout =>
      exact takes_of_read [op.byte, a, b, count, unused] h rfl
        (readFrom_interface hlayout a b count unused)
    · cases h

end Steps

/-- Instructions were read from the bytes of a code array, one behind the other from an offset. -/
inductive Fill (size : Nat) : Nat → List Instruction → List UInt8 → Prop
  | nil (offset : Nat) : Fill size offset [] []
  | cons {i : Instruction} {rest : List Instruction} {bytes code : List UInt8}
      (hread : ReadFrom size bytes i) (htail : Fill size i.behind rest code) :
      Fill size i.offset (i :: rest) (bytes ++ code)

/-- Reading to the end of the code fills it with what was read. -/
theorem fill_of_readAll {size offset : Nat} {found is : Array Instruction} {code : List UInt8}
    (h : readAll size offset found code = .ok is) :
    ∃ read, is.toList = found.toList ++ read ∧ Fill size offset read code := by
  induction hlength : code.length using Nat.strongRecOn generalizing offset found code with
  | ind n ih =>
    cases code with
    | nil =>
      cases h
      exact ⟨[], by simp, .nil offset⟩
    | cons byte code =>
      obtain ⟨i, bytes, rest, rfl, htakes⟩ := readAll_cons h
      have hshorter : rest.length < n := by
        have hsplit := congrArg List.length htakes.code
        rw [hlength, List.length_append, htakes.read.length] at hsplit
        omega
      obtain ⟨read, hread, hfill⟩ := ih rest.length hshorter htakes.next rfl
      refine ⟨i :: read, by simp [hread], ?_⟩
      rw [htakes.code]
      exact .cons htakes.read hfill

/-- Instructions stand one behind the other, the first at one offset, the last up to another. -/
def Spans : Nat → List Instruction → Nat → Prop
  | first, [], last => first = last
  | first, i :: rest, last => i.offset = first ∧ Spans i.behind rest last

/-- No instruction is empty, so that each starts behind the one before. -/
theorem Spans.ascending {first last : Nat} {is : List Instruction} (h : Spans first is last) :
    Ascending is ∧ ∀ i ∈ is, first ≤ i.offset := by
  induction is generalizing first with
  | nil => exact ⟨.nil, by simp⟩
  | cons i rest ih =>
    obtain ⟨rfl, htail⟩ := h
    obtain ⟨hascending, hbehind⟩ := ih htail
    have hlater (j : Instruction) (hj : j ∈ rest) : i.offset < j.offset := by
      have hle := hbehind j hj
      rw [behind] at hle
      omega
    refine ⟨.cons hlater hascending, ?_⟩
    intro j hj
    rcases List.mem_cons.mp hj with rfl | hj
    · exact Nat.le_refl _
    · exact Nat.le_of_lt (hlater j hj)

section Filled

variable {size offset : Nat} {is : List Instruction} {code : List UInt8}

theorem Fill.spans (h : Fill size offset is code) : Spans offset is (offset + code.length) := by
  induction h with
  | nil offset => rfl
  | @cons i rest bytes code hread htail ih =>
    refine ⟨rfl, ?_⟩
    rwa [List.length_append, hread.length, ← Nat.add_assoc, ← Nat.add_assoc]

theorem Fill.read (h : Fill size offset is code) :
    ∀ i ∈ is, ∃ bytes, ReadFrom size bytes i := by
  induction h with
  | nil offset => simp
  | @cons i rest bytes code hread htail ih =>
    intro j hj
    rcases List.mem_cons.mp hj with rfl | hj
    · exact ⟨bytes, hread⟩
    · exact ih j hj

/-- Written back, the instructions have as many bytes as the code. -/
theorem Fill.length_encode (h : Fill size offset is code) :
    (is.flatMap encode).length = code.length := by
  induction h with
  | nil offset => rfl
  | @cons i rest bytes code hread htail ih =>
    rw [List.flatMap_cons, List.length_append, List.length_append, ih,
      Instruction.length_encode hread.suits, hread.length]

/-- Written back, instructions have the bytes of the code, but for the last of interface calls. -/
theorem Fill.encode_eq (h : Fill size offset is code) (k : Nat)
    (hk : ∀ i ∈ is, i.op = .invokeinterface → offset + k ≠ i.offset + 4) :
    (is.flatMap encode)[k]? = code[k]? := by
  induction h generalizing k with
  | nil offset => rfl
  | @cons i rest bytes code hread htail ih =>
    have hlength : i.encode.length = bytes.length := by
      rw [Instruction.length_encode hread.suits, hread.length]
    rw [List.flatMap_cons]
    by_cases hin : k < bytes.length
    · rw [List.getElem?_append_left (by omega), List.getElem?_append_left hin]
      refine hread.same k fun hop => ?_
      have hne := hk i (by simp) hop
      omega
    · rw [List.getElem?_append_right (by omega), List.getElem?_append_right (by omega), hlength]
      refine ih _ fun j hj hop => ?_
      have hne := hk j (by simp [hj]) hop
      have hbehind : i.behind = i.offset + bytes.length := by
        rw [behind, Nat.add_assoc, hread.length]
      omega

end Filled

end Instruction

namespace Machine

/-- A branch with this test is taken, and leaves this of the operand stack. -/
def Test.Taken : Test → List Value → List Value → Prop
  | .always, stack, rest => rest = stack
  | .zero, stack, rest => stack = .int 0 :: rest
  | .nonzero, stack, rest => ∃ v, v ≠ 0 ∧ stack = .int v :: rest

/-- A taken branch goes on at the place that it was linked to, and fails if there is none. -/
theorem execute_taken {test : Test} {f : Frame} {rest : List Value}
    (h : test.Taken f.stack rest) (offset target : Nat) (place : Option Nat) (s : Store) :
    execute offset (.branch test target place) f s =
      place.elim (.error (.typeMismatch ⟨f.method.name, offset⟩ (.insideInstruction target)) s)
        fun next => .ok (.proceed { f with next, stack := rest }) s := by
  obtain ⟨method, here, locals, stack, depth⟩ := f
  cases test with
  | always =>
    obtain rfl : rest = stack := h
    cases place <;> rfl
  | zero =>
    obtain rfl : stack = .int 0 :: rest := h
    cases place <;> rfl
  | nonzero =>
    obtain ⟨v, hv, rfl⟩ : ∃ v, v ≠ 0 ∧ stack = .int v :: rest := h
    have htaken : (v != 0) = true := bne_iff_ne.mpr hv
    simp only [execute, popInt, pure_bind, htaken, if_true]
    cases place <;> rfl

end Machine

open Machine Instruction

/-- Decoding is faithful on every code array that it accepts. The instructions fill the array one
behind the other, so that they stand by ascending offset; branches lead into it; and written back,
they give its bytes, but for the last byte of each interface call. The search for an offset
therefore finds an instruction exactly if one starts there: a branch that is taken goes on at the
instruction which starts at its target, and fails if none does. -/
theorem decode_faithful {code : List UInt8} {is : Array Instruction}
    (h : Instruction.decode code = .ok is) :
    Spans 0 is.toList code.length ∧
    (∀ i ∈ is, ∀ t, i.operand = .target t → t < code.length) ∧
    (is.toList.flatMap encode).length = code.length ∧
    (∀ k, (∀ i ∈ is, i.op = .invokeinterface → k ≠ i.offset + 4) →
      (is.toList.flatMap encode)[k]? = code[k]?) ∧
    Ascending is.toList ∧
    (∀ t k, place? is t = some k ↔ ∃ j, is[k]? = some j ∧ j.offset = t) ∧
    ∀ (c : ClassFile) (f : Frame) (s : Store) (rest : List Value), ∀ i ∈ is, ∀ t,
      i.operand = .target t → (Request.testOf i.op).Taken f.stack rest →
      (∀ k j, is[k]? = some j → j.offset = t →
        execute i.offset (Program.linkInstruction c is i) f s =
          .ok (.proceed { f with next := k, stack := rest }) s) ∧
      ((∀ j ∈ is, j.offset ≠ t) →
        execute i.offset (Program.linkInstruction c is i) f s =
          .error (.typeMismatch ⟨f.method.name, i.offset⟩ (.insideInstruction t)) s) := by
  obtain ⟨read, hread, hfill⟩ := fill_of_readAll h
  obtain rfl : is.toList = read := by simpa using hread
  have hspans := hfill.spans
  rw [Nat.zero_add] at hspans
  have hascending := hspans.ascending.1
  refine ⟨hspans, ?_, hfill.length_encode, ?_, hascending, fun t k => place?_eq_some hascending, ?_⟩
  · intro i hi t ht
    obtain ⟨bytes, hi⟩ := hfill.read i (Array.mem_toList_iff.mpr hi)
    exact hi.inside t ht
  · intro k hk
    refine hfill.encode_eq k fun i hi hop => ?_
    rw [Nat.zero_add]
    exact hk i (Array.mem_toList_iff.mp hi) hop
  · intro c f s rest i hi t ht htaken
    obtain ⟨bytes, hfrom⟩ := hfill.read i (Array.mem_toList_iff.mpr hi)
    obtain ⟨offset, op, operand⟩ := i
    obtain rfl : operand = .target t := ht
    rw [Request.link_jump offset t hfrom.suits, execute_taken htaken]
    constructor
    · intro k j hj hoffset
      rw [(place?_eq_some hascending).mpr ⟨j, hj, hoffset⟩]
      rfl
    · intro hnone
      cases hplace : place? is t with
      | none => rfl
      | some k =>
        obtain ⟨j, hj, hoffset⟩ := (place?_eq_some hascending).mp hplace
        exact absurd hoffset (hnone j (Array.mem_of_getElem? hj))

/-- A branch into the middle of an instruction, an interface call whose last byte is not zero, and a
branch back to the start. -/
theorem decode_faithful_stray :
    let code : List UInt8 := [0x10, 0xff, 0x99, 0xff, 0xff, 0xb9, 0, 3, 1, 7, 0xa7, 0xff, 0xf6]
    ∃ is, Instruction.decode code = .ok is ∧ (is.toList.flatMap encode).length = 13 ∧
      (∀ k, k ≠ 9 → (is.toList.flatMap encode)[k]? = code[k]?) ∧
      (∀ (c : ClassFile) (f : Frame) (s : Store) (rest : List Value), f.stack = .int 0 :: rest →
        execute 2 (Program.linkInstruction c is ⟨2, .ifeq, .target 1⟩) f s =
          .error (.typeMismatch ⟨f.method.name, 2⟩ (.insideInstruction 1)) s) ∧
      ∀ (c : ClassFile) (f : Frame) (s : Store),
        execute 10 (Program.linkInstruction c is ⟨10, .goto, .target 0⟩) f s =
          .ok (.proceed { f with next := 0 }) s := by
  intro code
  have hdecode : Instruction.decode code = .ok #[⟨0, .bipush, .value (-1)⟩, ⟨2, .ifeq, .target 1⟩,
      ⟨5, .invokeinterface, .interface 3 1⟩, ⟨10, .goto, .target 0⟩] := by decide +kernel
  obtain ⟨-, -, hlength, hsame, -, -, hbranch⟩ := decode_faithful hdecode
  refine ⟨_, hdecode, hlength, fun k hk => hsame k (by simpa using hk), ?_, ?_⟩
  · intro c f s rest hstack
    exact (hbranch c f s rest ⟨2, .ifeq, .target 1⟩ (by simp) 1 rfl hstack).2 (by simp)
  · intro c f s
    exact (hbranch c f s f.stack ⟨10, .goto, .target 0⟩ (by simp) 0 rfl rfl).1 0 _ rfl rfl

end StackGlyph
