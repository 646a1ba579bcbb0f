import StackGlyph.Machine.Step
import StackGlyph.Proofs.Completion
import StackGlyph.Proofs.Linking
import StackGlyph.Proofs.PoolHistories

/-!
# Numbers that are pushed

A number is pushed by an opcode of its own, by a byte or a word behind the opcode, or from the
constant pool. Whichever form the assembler chooses, it is one instruction, and executing it pushes
the number, in the pool that the request left behind and in every later one. The number alone
decides the size of the form, up to the index of a constant.
-/
namespace StackGlyph

open Request Assembler Machine PoolCall

namespace Instruction

variable {op : Opcode} {operand : Operand}

/-- Only branches are written with regard to where they stand. -/
theorem encode_anywhere (hplain : ∀ t, operand ≠ .target t) (m n : Nat) :
    encode ⟨m, op, operand⟩ = encode ⟨n, op, operand⟩ := by
  cases operand with
  | target t => exact absurd rfl (hplain t)
  | _ => rfl

/-- The bytes of an instruction other than a branch are code by themselves. -/
theorem decode_single (hsuits : operand.Suits op.layout) (hplain : ∀ t, operand ≠ .target t) :
    decode (encode ⟨0, op, operand⟩) = .ok #[⟨0, op, operand⟩] := by
  have htiled : Tiled 0 [⟨0, op, operand⟩] :=
    .cons (i := ⟨0, op, operand⟩) hsuits (fun t ht => absurd ht (hplain t)) (.nil _)
  have hcode : [(⟨0, op, operand⟩ : Instruction)].flatMap encode = encode ⟨0, op, operand⟩ := by
    simp
  rcases decode_tiled htiled with ⟨-, hok⟩ | ⟨houtside, -⟩
  · rwa [hcode] at hok
  · refine absurd ?_ houtside
    intro i hi t ht
    rw [List.mem_singleton.mp hi] at ht
    exact absurd ht (hplain t)

end Instruction

namespace Request

variable {a b : Assembler} {r : Request}

/-- The bytes that a request appends are code by themselves, with its instruction alone, unless it
is a jump. -/
theorem decode_appended {form : Opcode × Operand} (h : Performed r a b)
    (hform : r.form? (fun _ => a.code.size) a = some form)
    (hjump : ∀ op label, r ≠ .jump op label) :
    b.code.toList = a.code.toList ++ Instruction.encode ⟨0, form.1, form.2⟩ ∧
      Instruction.decode (Instruction.encode ⟨0, form.1, form.2⟩) =
        .ok #[⟨0, form.1, form.2⟩] := by
  obtain ⟨op, operand⟩ := form
  have hplain (t : Nat) : operand ≠ .target t := by
    rintro rfl
    obtain ⟨label, hr, -⟩ := form?_target hform
    exact hjump op label hr
  refine ⟨?_, Instruction.decode_single (h.suits _ op operand hform) hplain⟩
  rw [h.code, instruction?, hform]
  exact congrArg (a.code.toList ++ ·) (Instruction.encode_anywhere hplain a.code.size 0)

theorem length_indexedPush (offset : Nat) (k : UInt16) :
    (Instruction.encode ⟨offset, (indexedPush k).1, (indexedPush k).2⟩).length =
      if k ≤ 255 then 2 else 3 := by
  rcases indexedPush_bytes offset k with ⟨hk, hbytes⟩ | ⟨hk, hbytes⟩
  · rw [hbytes, if_pos hk]
    rfl
  · rw [hbytes, if_neg hk]
    rfl

/-- The size of the shortest push. -/
theorem length_shortestPush (offset : Nat) (v : Int) (k : UInt16) :
    (Instruction.encode ⟨offset, (shortestPush v k).1, (shortestPush v k).2⟩).length =
      if -1 ≤ v ∧ v ≤ 5 then 1
      else if -128 ≤ v ∧ v ≤ 127 then 2
      else if -32768 ≤ v ∧ v ≤ 32767 then 3
      else if k ≤ 255 then 2 else 3 := by
  rcases smallConstant?_cases v k with ⟨op, -, hform, hv⟩ | ⟨-, hv⟩
  · rw [hform, if_pos hv]
    rfl
  · rw [shortestPush_wide hv, if_neg hv]
    split
    · rfl
    · split
      · rfl
      · exact length_indexedPush offset k

end Request

/-- A number is pushed as it was given. In whatever state an assembler serves such a request, it
appends bytes that are one instruction, and executing this instruction pushes the number, with the
pool that the request leaves behind and with every later one. A number that is not asked for as a
constant takes one byte from -1 to 5, else two in the range of a byte, else three in the range of a
word, and the pool stays as it is; all others come from the pool, in two bytes if their index fits
one byte and in three if not. -/
theorem pushed_as_given {p : Pool} {calls : List PoolCall} {a b : Assembler} {r : Request}
    {v : Int32} (hp : p.Initial) (hpool : a.pool = afterAll p calls)
    (hr : r = .pushInt v ∨ r = .loadConstant v) (h : r.perform a = .ok () b) :
    ∃ bytes i, b.code.toList = a.code.toList ++ bytes ∧ Instruction.decode bytes = .ok #[i] ∧
      (∀ (more : List PoolCall) (c : ClassFile) (all : Array Instruction) (f : Frame) (s : Store),
        c.pool = afterAll b.pool more →
          execute i.offset (Program.linkInstruction c all i) f s =
            .ok (.proceed { f with stack := .int v :: f.stack }) s) ∧
      (r = .pushInt v → -32768 ≤ v.toInt → v.toInt ≤ 32767 → b.pool = a.pool ∧
        bytes.length = if -1 ≤ v.toInt ∧ v.toInt ≤ 5 then 1
          else if -128 ≤ v.toInt ∧ v.toInt ≤ 127 then 2 else 3) ∧
      (r = .loadConstant v ∨ ¬ (-32768 ≤ v.toInt ∧ v.toInt ≤ 32767) →
        ∃ k, Pool.addInteger v a.pool = .ok k b.pool ∧
          bytes.length = if k ≤ 255 then 2 else 3) := by
  have hsound : a.pool.Sound := hpool ▸ (afterAll_grows p calls).sound hp.sound
  have hperformed := performed h
  have hlater (more : List PoolCall) : b.pool.Extends (afterAll b.pool more) :=
    (afterAll_grows b.pool more).earlier
  have hadded := hperformed.pool
  rcases hr with rfl | rfl
  · obtain ⟨hcode, hdecode⟩ := decode_appended hperformed rfl (by simp)
    refine ⟨_, _, hcode, hdecode, ?_, ?_, ?_⟩
    · intro more c all f s hc
      rw [link_shortestPush]
      · rfl
      · intro hwide
        rw [constant?, if_neg hwide] at hadded
        rw [hc]
        exact Pool.get?_of_addInteger hsound hadded (hlater more)
    · intro _ hlow hhigh
      rw [constant?, if_pos ⟨hlow, hhigh⟩] at hadded
      refine ⟨hadded, ?_⟩
      rw [length_shortestPush, if_pos (c := -32768 ≤ v.toInt ∧ v.toInt ≤ 32767) ⟨hlow, hhigh⟩]
    · rintro (hother | hwide)
      · cases hother
      · rw [constant?, if_neg hwide] at hadded
        refine ⟨_, hadded, ?_⟩
        rw [length_shortestPush, if_neg (by omega), if_neg (by omega), if_neg hwide]
  · obtain ⟨hcode, hdecode⟩ := decode_appended hperformed rfl (by simp)
    refine ⟨_, _, hcode, hdecode, ?_, ?_, ?_⟩
    · intro more c all f s hc
      rw [link_indexedPush _ (hc ▸ Pool.get?_of_addInteger hsound hadded (hlater more))]
      rfl
    · intro hother
      cases hother
    · intro _
      exact ⟨_, hadded, length_indexedPush _ _⟩

/-- The first number above the range of a word, in a pool that holds a text and goes on to grow. -/
theorem pushed_as_given_above_words :
    let p := afterAll .empty [.refer (.text "A")]
    ∃ b i, (Request.pushInt 32768).perform (start p 1) = .ok () b ∧
      Instruction.decode b.code.toList = .ok #[i] ∧ b.code.size = 2 ∧
      ∀ (c : ClassFile) (f : Frame) (s : Store),
        c.pool = afterAll b.pool [.refer (.integer 7), .refer (.type "B")] →
          execute i.offset (Program.linkInstruction c #[] i) f s =
            .ok (.proceed { f with stack := .int 32768 :: f.stack }) s := by
  intro p
  have hsize : p.size ≤ 1 := by
    obtain ⟨_, q, hq, hsize⟩ := Pool.addText_succeeds (s := "A") (by decide) .empty (by decide)
    have hp : p = q := congrArg leftBy hq
    rw [hp]
    exact hsize
  have hroom : p.size + 6 ≤ Pool.capacity := Nat.le_trans (Nat.add_le_add_right hsize 6) (by decide)
  obtain ⟨b, hb, -, hsize'⟩ := perform_succeeds (r := .pushInt 32768) (a := start p 1)
    (by simp [Short, texts]) hroom rfl
  obtain ⟨bytes, i, hcode, hdecode, hexecute, -, hwide⟩ :=
    pushed_as_given (.inl rfl) rfl (.inl rfl) hb
  obtain ⟨k, hk, hlength⟩ := hwide (.inr (by decide))
  obtain rfl : b.code.toList = bytes := hcode
  refine ⟨b, i, hb, hdecode, ?_, fun c f s hc => hexecute _ c #[] f s hc⟩
  have hsmall : k ≤ 255 := by
    have hget := Pool.get?_of_add ((afterAll_grows _ _).sound Pool.sound_empty) hk
    rw [Pool.get?] at hget
    split at hget
    · cases hget
    · obtain ⟨hlt, -⟩ := Array.getElem?_eq_some_iff.mp hget
      have hbound : k.toNat - 1 < b.pool.size := hlt
      have hstart : (start p 1).pool.size ≤ 1 := hsize
      rw [UInt16.le_iff_toNat_le]
      show k.toNat ≤ 255
      omega
  rw [← Array.length_toList, hlength, if_pos hsmall]

end StackGlyph
