import StackGlyph.Proofs.Requests

/-!
# What a successful request does

A request that succeeds and asks for an instruction appends exactly the bytes of that instruction.
The bytes of a jump are those of a jump to itself, since its distance is still open, and the jump is
noted. Labels are touched by `bind` alone, as far as offsets go.
-/
namespace StackGlyph

/-- An operand is what its opcode's layout holds. Where a branch leads is a matter of the offset. -/
def Operand.Suits : Operand → Opcode.Layout → Prop
  | .none, .bare => True
  | .value v, .byteValue => -128 ≤ v ∧ v ≤ 127
  | .value v, .wordValue => -32768 ≤ v ∧ v ≤ 32767
  | .slot _, .slot => True
  | .index i, .byteIndex => i ≤ 255
  | .index _, .wordIndex => True
  | .target _, .branch => True
  | .interface _ _, .interface => True
  | _, _ => False

namespace Assembler

/-- `b` is `a` with more code, up to depths and bounds. -/
structure Appends (bytes : List UInt8) (a b : Assembler) : Prop where
  code : b.code.toList = a.code.toList ++ bytes
  pool : b.pool = a.pool
  labels : b.labels = a.labels
  jumps : b.jumps = a.jumps

theorem Appends.trans {x y : List UInt8} {a b c : Assembler} (h : Appends x a b)
    (h' : Appends y b c) : Appends (x ++ y) a c where
  code := by rw [h'.code, h.code, List.append_assoc]
  pool := h'.pool.trans h.pool
  labels := h'.labels.trans h.labels
  jumps := h'.jumps.trans h.jumps

theorem Appends.cons {x : UInt8} {y : List UInt8} {a b c : Assembler} (h : Appends [x] a b)
    (h' : Appends y b c) : Appends (x :: y) a c :=
  h.trans h'

/-- A step that appends nothing may follow. -/
theorem Appends.and_then {x : List UInt8} {a b c : Assembler} (h : Appends x a b)
    (h' : Appends [] b c) : Appends x a c := by
  simpa using h.trans h'

def labelOffset (a : Assembler) (label : Nat) : Option Nat :=
  (a.labels.getD label {}).offset

theorem getD_setIfInBounds {α : Type} (xs : Array α) (k l : Nat) (x fallback : α) :
    (xs.setIfInBounds k x).getD l fallback =
      if k = l ∧ l < xs.size then x else xs.getD l fallback := by
  simp only [Array.getD_eq_getD_getElem?, Array.getElem?_setIfInBounds]
  by_cases hl : k = l
  · by_cases hsize : l < xs.size
    · simp [hl, hsize]
    · simp [hl, hsize]
  · simp [hl]

section Primitives

variable {a b : Assembler}

theorem appends_of_append {bytes : List UInt8} (h : append bytes a = .ok () b) :
    Appends bytes a b := by
  cases h
  exact ⟨by simp, rfl, rfl, rfl⟩

/-- All that changing the depth does. -/
theorem adjust_cases (delta : Int) (offset : Nat) (a : Assembler) :
    (∃ e, adjust delta offset a = .error e a) ∨
    adjust delta offset a = .ok () a ∨
    ∃ n, n ≤ maxDepth ∧ adjust delta offset a =
      .ok () { a with depth := some n, maxStack := max a.maxStack n } := by
  unfold adjust
  cases a.depth with
  | none => exact .inr (.inl rfl)
  | some d =>
    dsimp only
    by_cases hlow : (d : Int) + delta < 0
    · exact .inl ⟨_, if_pos hlow⟩
    · by_cases hhigh : (maxDepth : Int) < d + delta
      · exact .inl ⟨_, (if_neg hlow).trans (if_pos hhigh)⟩
      · exact .inr (.inr ⟨(d + delta).toNat, by omega, (if_neg hlow).trans (if_neg hhigh)⟩)

theorem appends_of_adjust {delta : Int} {offset : Nat} (h : adjust delta offset a = .ok () b) :
    Appends [] a b := by
  rcases adjust_cases delta offset a with ⟨e, hadjust⟩ | hadjust | ⟨n, -, hadjust⟩
  · rw [hadjust] at h
    cases h
  · rw [hadjust] at h
    cases h
    exact ⟨by simp, rfl, rfl, rfl⟩
  · rw [hadjust] at h
    cases h
    exact ⟨by simp, rfl, rfl, rfl⟩

theorem appends_of_emit {op : Opcode} {delta : Int} (h : emit op delta a = .ok () b) :
    Appends [op.byte] a b := by
  obtain ⟨_, m, happend, h⟩ := bind_eq_ok.mp h
  obtain ⟨_, _, hget, h⟩ := bind_eq_ok.mp h
  cases hget
  exact (appends_of_append happend).and_then (appends_of_adjust h)

theorem appends_of_close {op : Opcode} (h : close op a = .ok () b) : Appends [] a b := by
  unfold close at h
  split at h
  · cases h
    exact ⟨by simp, rfl, rfl, rfl⟩
  · cases h
    exact ⟨by simp, rfl, rfl, rfl⟩

theorem appends_of_useLocal {slot : UInt8} (h : useLocal slot a = .ok () b) :
    Appends [] a b := by
  cases h
  exact ⟨by simp, rfl, rfl, rfl⟩

/-- An opcode with operand bytes behind it. -/
theorem appends_of_emit_append {op : Opcode} {delta : Int} {bytes : List UInt8}
    (h : (do emit op delta; append bytes : Asm Unit) a = .ok () b) :
    Appends (op.byte :: bytes) a b := by
  obtain ⟨_, m, hemit, h⟩ := bind_eq_ok.mp h
  exact (appends_of_emit hemit).cons (appends_of_append h)

theorem onPool_eq_ok {α : Type} {x : PoolM α} {v : α} (h : onPool x a = .ok v b) :
    x a.pool = .ok v b.pool ∧ b = { a with pool := b.pool } := by
  unfold onPool at h
  dsimp only at h
  split at h
  · next w q hx =>
    cases h
    exact ⟨hx, rfl⟩
  · cases h

theorem onPool_of_ok {α : Type} {x : PoolM α} {v : α} {q : Pool} (h : x a.pool = .ok v q) :
    onPool x a = .ok v { a with pool := q } := by
  simp only [onPool, h]

/-- All that merging a depth into a label does. -/
theorem mergeDepth_cases (label : Nat) (depth : Option Nat) (a : Assembler) :
    (∃ e, mergeDepth label depth a = .error e a) ∨
    mergeDepth label depth a = .ok (a.labels.getD label {}).depth a ∨
    ∃ d, depth = some d ∧ mergeDepth label depth a = .ok (some d)
      { a with labels :=
          a.labels.setIfInBounds label { a.labels.getD label {} with depth := some d } } := by
  unfold mergeDepth
  dsimp only
  cases hlabel : (a.labels.getD label {}).depth with
  | none =>
    cases depth with
    | none => exact .inr (.inl rfl)
    | some d => exact .inr (.inr ⟨d, rfl, rfl⟩)
  | some e =>
    cases depth with
    | none => exact .inr (.inl rfl)
    | some d =>
      by_cases heq : e = d
      · exact .inr (.inl (if_pos heq))
      · exact .inl ⟨_, if_neg heq⟩

end Primitives

end Assembler

namespace Request

open Assembler

variable {a b : Assembler}

/-- What a request has done that succeeded: its instruction is in the code, and its constant, if it
has one, in the pool. -/
structure Emitted (target : Nat → Nat) (r : Request) (a b : Assembler) : Prop where
  code : b.code.toList = a.code.toList ++
    ((instruction? target (r, a)).map Instruction.encode).getD []
  labels : b.labels = a.labels
  jumps : b.jumps = a.jumps
  pool : match r.constant? with
    | none => b.pool = a.pool
    | some add => add a.pool = .ok (r.index a) b.pool

/-- A request without constant that appends the bytes of its instruction. -/
theorem Emitted.of_appends {target : Nat → Nat} {r : Request} {op : Opcode} {operand : Operand}
    {bytes : List UInt8} (hform : r.form? target a = some (op, operand))
    (hbytes : Instruction.encode ⟨a.code.size, op, operand⟩ = bytes)
    (hconstant : r.constant? = none) (h : Appends bytes a b) : Emitted target r a b where
  code := by
    rw [h.code, ← hbytes]
    simp [instruction?, hform]
  labels := h.labels
  jumps := h.jumps
  pool := by
    rw [hconstant]
    exact h.pool

/-- A request that first puts its constant into the pool. -/
theorem Emitted.of_constant {target : Nat → Nat} {r : Request} {op : Opcode} {operand : Operand}
    {bytes : List UInt8} {add : PoolM UInt16} {i : UInt16} {m : Assembler}
    (hform : r.form? target a = some (op, operand))
    (hbytes : Instruction.encode ⟨a.code.size, op, operand⟩ = bytes)
    (hconstant : r.constant? = some add) (hadd : onPool add a = .ok i m)
    (h : Appends bytes m b) : Emitted target r a b where
  code := by
    rw [h.code, (onPool_eq_ok hadd).2, ← hbytes]
    simp [instruction?, hform]
  labels := by rw [h.labels, (onPool_eq_ok hadd).2]
  jumps := by rw [h.jumps, (onPool_eq_ok hadd).2]
  pool := by
    have hpool := (onPool_eq_ok hadd).1
    have hi : r.index a = i := by simp [index, hconstant, hpool]
    rw [hconstant, hi, h.pool]
    exact hpool

theorem index_of_onPool {r : Request} {add : PoolM UInt16} {i : UInt16} {m : Assembler}
    (hconstant : r.constant? = some add) (hadd : onPool add a = .ok i m) : r.index a = i := by
  simp [index, hconstant, (onPool_eq_ok hadd).1]

/-- A plain request is either refused or emits its opcode alone. -/
theorem plain_cases (op : Opcode) :
    (∃ delta, op.layout = .bare ∧ op.stackDelta = some delta ∧
      Assembler.plain op = (do emit op delta; close op)) ∨
    Assembler.plain op = throw (.misused op .needsOperand) := by
  unfold Assembler.plain
  split
  · next delta hlayout hdelta => exact .inl ⟨delta, hlayout, hdelta, rfl⟩
  · exact .inr rfl

theorem emitted_plain {target : Nat → Nat} {op : Opcode} (h : perform (.plain op) a = .ok () b) :
    Emitted target (.plain op) a b ∧ op.layout = .bare := by
  rw [perform] at h
  rcases plain_cases op with ⟨delta, hlayout, -, hplain⟩ | hplain
  · rw [hplain] at h
    obtain ⟨_, m, hemit, h⟩ := bind_eq_ok.mp h
    exact ⟨.of_appends rfl rfl rfl ((appends_of_emit hemit).and_then (appends_of_close h)), hlayout⟩
  · rw [hplain] at h
    cases h

/-- Loads and stores alike: the opcode of its own that a slot has, or the long form. -/
theorem appends_of_access {short : List Opcode} {long : Opcode} {delta : Int} {slot : UInt8}
    (h : (do
      match short[slot.toNat]? with
      | some op => emit op delta
      | none => do
        emit long delta
        append [slot]
      useLocal slot : Asm Unit) a = .ok () b) :
    Appends (Instruction.encode ⟨a.code.size, (slotForm short long slot).1,
      (slotForm short long slot).2⟩) a b := by
  cases hs : short[slot.toNat]? with
  | some op =>
    rw [hs] at h
    obtain ⟨_, m, hemit, h⟩ := bind_eq_ok.mp h
    simp only [slotForm, hs]
    exact (appends_of_emit hemit).and_then (appends_of_useLocal h)
  | none =>
    rw [hs] at h
    obtain ⟨_, m, hemit, h⟩ := bind_eq_ok.mp h
    obtain ⟨_, n, happend, h⟩ := bind_eq_ok.mp h
    simp only [slotForm, hs]
    exact ((appends_of_emit hemit).cons (appends_of_append happend)).and_then
      (appends_of_useLocal h)

theorem emitted_load {target : Nat → Nat} {slot : UInt8} (h : perform (.load slot) a = .ok () b) :
    Emitted target (.load slot) a b :=
  .of_appends rfl rfl rfl (appends_of_access h)

theorem emitted_store {target : Nat → Nat} {slot : UInt8}
    (h : perform (.store slot) a = .ok () b) : Emitted target (.store slot) a b :=
  .of_appends rfl rfl rfl (appends_of_access h)

theorem indexedPush_bytes (offset : Nat) (i : UInt16) :
    (i ≤ 255 ∧ Instruction.encode ⟨offset, (indexedPush i).1, (indexedPush i).2⟩ =
      [Opcode.ldc.byte, i.toUInt8]) ∨
    (¬ i ≤ 255 ∧ Instruction.encode ⟨offset, (indexedPush i).1, (indexedPush i).2⟩ =
      Opcode.ldcW.byte :: Word.bytes16 i) := by
  unfold indexedPush
  by_cases hi : i ≤ 255
  · rw [if_pos hi]
    exact .inl ⟨hi, rfl⟩
  · rw [if_neg hi]
    exact .inr ⟨hi, rfl⟩

/-- The push of a constant, as `loadConstant` and `pushInt` make it. -/
theorem emitted_constant {target : Nat → Nat} {r : Request} {v : Int32}
    (hconstant : r.constant? = some (Pool.addInteger v))
    (hform : r.form? target a = some (indexedPush (r.index a)))
    (h : Assembler.loadConstant v a = .ok () b) : Emitted target r a b := by
  obtain ⟨i, m, hadd, h⟩ := bind_eq_ok.mp h
  rw [index_of_onPool hconstant hadd] at hform
  rcases indexedPush_bytes a.code.size i with ⟨hi, hbytes⟩ | ⟨hi, hbytes⟩
  · rw [if_pos hi] at h
    exact .of_constant hform hbytes hconstant hadd (appends_of_emit_append h)
  · rw [if_neg hi] at h
    exact .of_constant hform hbytes hconstant hadd (appends_of_emit_append h)

theorem emitted_loadConstant {target : Nat → Nat} {v : Int32}
    (h : perform (.loadConstant v) a = .ok () b) : Emitted target (.loadConstant v) a b :=
  emitted_constant rfl rfl h

/-- The numbers with opcodes of their own are those from -1 to 5. -/
theorem smallConstant?_cases (v : Int) (i : UInt16) :
    (∃ op, smallConstant? v = some op ∧ shortestPush v i = (op, .none) ∧ -1 ≤ v ∧ v ≤ 5) ∨
    (smallConstant? v = none ∧ ¬ (-1 ≤ v ∧ v ≤ 5)) := by
  unfold smallConstant? shortestPush
  by_cases hv : -1 ≤ v ∧ v ≤ 5
  · left
    have hcases : v = -1 ∨ v = 0 ∨ v = 1 ∨ v = 2 ∨ v = 3 ∨ v = 4 ∨ v = 5 := by omega
    rcases hcases with rfl | rfl | rfl | rfl | rfl | rfl | rfl
    all_goals exact ⟨_, rfl, rfl, by decide⟩
  · right
    refine ⟨?_, hv⟩
    split
    · next hlow => simp; omega
    · rfl

/-- Beyond the small numbers, the width decides. -/
theorem shortestPush_wide {v : Int} {i : UInt16} (hv : ¬ (-1 ≤ v ∧ v ≤ 5)) :
    shortestPush v i =
      if -128 ≤ v ∧ v ≤ 127 then (.bipush, .value v)
      else if -32768 ≤ v ∧ v ≤ 32767 then (.sipush, .value v)
      else indexedPush i := by
  unfold shortestPush
  rw [if_neg (by omega), if_neg (by omega), if_neg (by omega), if_neg (by omega),
    if_neg (by omega), if_neg (by omega), if_neg (by omega)]

/-- A number takes one of five forms; the cases are those of the ranges in which it lies. -/
theorem emitted_pushInt {target : Nat → Nat} {v : Int32}
    (h : perform (.pushInt v) a = .ok () b) : Emitted target (.pushInt v) a b := by
  rw [perform, Assembler.pushInt] at h
  rcases smallConstant?_cases v.toInt (index a (.pushInt v)) with
    ⟨op, hop, hform, hlow, hhigh⟩ | ⟨hop, hv⟩
  · rw [hop] at h
    have hnone : constant? (.pushInt v) = none := if_pos ⟨by omega, by omega⟩
    exact .of_appends (congrArg some hform) rfl hnone (appends_of_emit h)
  · rw [hop] at h
    dsimp only at h
    by_cases hbyte : -128 ≤ v.toInt ∧ v.toInt ≤ 127
    · rw [if_pos hbyte] at h
      have hnone : constant? (.pushInt v) = none := if_pos ⟨by omega, by omega⟩
      have hform : form? target a (.pushInt v) = some (.bipush, .value v.toInt) := by
        rw [form?, shortestPush_wide hv, if_pos hbyte]
      exact .of_appends hform rfl hnone (appends_of_emit_append h)
    · rw [if_neg hbyte] at h
      by_cases hword : -32768 ≤ v.toInt ∧ v.toInt ≤ 32767
      · rw [if_pos hword] at h
        have hform : form? target a (.pushInt v) = some (.sipush, .value v.toInt) := by
          rw [form?, shortestPush_wide hv, if_neg hbyte, if_pos hword]
        exact .of_appends hform rfl (if_pos hword) (appends_of_emit_append h)
      · rw [if_neg hword] at h
        have hform : form? target a (.pushInt v) = some (indexedPush (index a (.pushInt v))) := by
          rw [form?, shortestPush_wide hv, if_neg hbyte, if_neg hword]
        exact emitted_constant (if_neg hword) hform h

/-- `new` and `checkcast` are the only opcodes that take a class here. -/
theorem onType_cases (op : Opcode) (className : String) :
    ((op = .new ∨ op = .checkcast) ∧ Assembler.onType op className = (do
      let i ← onPool (Pool.addClass className)
      emit op (op.stackDelta.getD 0)
      append (Word.bytes16 i))) ∨
    (¬ (op = .new ∨ op = .checkcast) ∧
      Assembler.onType op className = throw (.misused op .notOnTypes)) := by
  unfold Assembler.onType
  split
  · exact .inl ⟨.inl rfl, rfl⟩
  · exact .inl ⟨.inr rfl, rfl⟩
  · next hnew hcast => exact .inr ⟨fun hop => hop.elim hnew hcast, rfl⟩

/-- A request on a class has appended its opcode and the index of the class. -/
theorem emitted_onType {target : Nat → Nat} {op : Opcode} {className : String}
    (h : perform (.onType op className) a = .ok () b) :
    Emitted target (.onType op className) a b ∧ (op = .new ∨ op = .checkcast) := by
  rw [perform] at h
  rcases onType_cases op className with ⟨hop, heq⟩ | ⟨-, heq⟩
  · rw [heq] at h
    have hlayout : op.layout = .wordIndex := by rcases hop with rfl | rfl <;> rfl
    obtain ⟨i, m, hadd, h⟩ := bind_eq_ok.mp h
    have hi : index a (.onType op className) = i := index_of_onPool rfl hadd
    have hbytes : Instruction.encode ⟨a.code.size, op, .index i⟩ = op.byte :: Word.bytes16 i := by
      simp [Instruction.encode, hlayout]
    exact ⟨.of_constant (by rw [form?, hi]) hbytes rfl hadd (appends_of_emit_append h), hop⟩
  · rw [heq] at h
    cases h

theorem emitted_getStatic {target : Nat → Nat} {owner name descriptor : String}
    (h : perform (.getStatic owner name descriptor) a = .ok () b) :
    Emitted target (.getStatic owner name descriptor) a b := by
  obtain ⟨t, m, hparse, h⟩ := bind_eq_ok.mp h
  obtain ⟨-, rfl⟩ := ofExcept_eq_ok.mp hparse
  obtain ⟨i, m, hadd, h⟩ := bind_eq_ok.mp h
  have hi : index a (.getStatic owner name descriptor) = i := index_of_onPool rfl hadd
  exact .of_constant (by rw [form?, hi]) rfl rfl hadd (appends_of_emit_append h)

/-- A call that succeeded, with its descriptor read and the interface's count written. -/
theorem emitted_call {target : Nat → Nat} {kind : CallKind} {owner name descriptor : String}
    (h : perform (.call kind owner name descriptor) a = .ok () b) :
    Emitted target (.call kind owner name descriptor) a b ∧ ∃ m,
      MethodType.parse descriptor = .ok m ∧
        (kind = .interface → m.ownSlots + kind.receiverSlots ≤ 255) := by
  obtain ⟨t, m, hparse, h⟩ := bind_eq_ok.mp h
  obtain ⟨hread, rfl⟩ := ofExcept_eq_ok.mp hparse
  obtain ⟨slots, m, hslots, h⟩ := bind_eq_ok.mp h
  obtain ⟨hcounted, rfl⟩ := ofExcept_eq_ok.mp hslots
  obtain ⟨rfl, -⟩ := MethodType.paramSlots_eq_ok.mp hcounted
  obtain ⟨i, m, hadd, h⟩ := bind_eq_ok.mp h
  obtain ⟨_, _, hget, h⟩ := bind_eq_ok.mp h
  cases hget
  have hi : index a (.call kind owner name descriptor) = i := index_of_onPool rfl hadd
  split at h
  · cases h
  · obtain ⟨_, n, hemit, h⟩ := bind_eq_ok.mp h
    obtain ⟨_, o, happend, h⟩ := bind_eq_ok.mp h
    have hcode := (appends_of_emit hemit).cons (appends_of_append happend)
    by_cases hkind : kind = .interface
    · rw [if_pos hkind] at h
      dsimp only at h
      split at h
      · cases h
      · next hfits =>
        refine ⟨?_, t, hread, fun _ => by omega⟩
        have hcount : consumed kind descriptor = t.ownSlots + kind.receiverSlots := by
          simp [consumed, hread]
        have hbytes : Instruction.encode ⟨a.code.size, kind.opcode,
            .interface i (t.ownSlots + kind.receiverSlots).toUInt8⟩ =
            kind.opcode.byte :: Word.bytes16 i ++
              [(t.ownSlots + kind.receiverSlots).toUInt8, 0] := rfl
        exact .of_constant (by rw [form?, if_pos hkind, hi, hcount]) hbytes rfl hadd
          (hcode.trans (appends_of_append h))
    · rw [if_neg hkind] at h
      cases h
      refine ⟨?_, t, hread, fun hi => absurd hi hkind⟩
      have hlayout : kind.opcode.layout = .wordIndex := by
        cases kind with
        | interface => exact absurd rfl hkind
        | _ => rfl
      have hbytes : Instruction.encode ⟨a.code.size, kind.opcode, .index i⟩ =
          kind.opcode.byte :: Word.bytes16 i := by
        simp [Instruction.encode, hlayout]
      exact .of_constant (by rw [form?, if_neg hkind, hi]) hbytes rfl hadd hcode

/-- Merging a depth into a label changes no offset of a label. -/
theorem mergeDepth_offsets {label : Nat} {depth merged : Option Nat}
    (h : mergeDepth label depth a = .ok merged b) :
    b.code = a.code ∧ b.pool = a.pool ∧ b.jumps = a.jumps ∧ b.labels.size = a.labels.size ∧
      ∀ l, labelOffset b l = labelOffset a l := by
  rcases mergeDepth_cases label depth a with ⟨e, hmerge⟩ | hmerge | ⟨d, -, hmerge⟩
  · rw [hmerge] at h
    cases h
  · rw [hmerge] at h
    cases h
    exact ⟨rfl, rfl, rfl, rfl, fun _ => rfl⟩
  · rw [hmerge] at h
    cases h
    refine ⟨rfl, rfl, rfl, by simp, ?_⟩
    intro l
    simp only [labelOffset, getD_setIfInBounds]
    split
    · next hl => rw [hl.1]
    · rfl

def jump? (s : Served) : Option Jump :=
  match s.1 with
  | .jump _ label => some ⟨s.2.code.size, s.2.code.size + 1, label⟩
  | _ => none

/-- A jump appends its opcode and two bytes that stay open, and notes where its distance belongs.
What it learns of depths leaves offsets alone. -/
theorem performed_jump {op : Opcode} {label : Nat} (h : perform (.jump op label) a = .ok () b) :
    op.layout = .branch ∧ b.code.toList = a.code.toList ++ [op.byte, 0, 0] ∧ b.pool = a.pool ∧
      b.jumps = a.jumps.push ⟨a.code.size, a.code.size + 1, label⟩ ∧
      b.labels.size = a.labels.size ∧ ∀ l, labelOffset b l = labelOffset a l := by
  rw [perform, Assembler.jump] at h
  split at h
  · cases h
  · next hbranch =>
    obtain ⟨_, _, hget, h⟩ := bind_eq_ok.mp h
    cases hget
    obtain ⟨_, m, hemit, h⟩ := bind_eq_ok.mp h
    obtain ⟨_, _, hget, h⟩ := bind_eq_ok.mp h
    cases hget
    obtain ⟨_, n, hmerge, h⟩ := bind_eq_ok.mp h
    obtain ⟨_, _, hget, h⟩ := bind_eq_ok.mp h
    cases hget
    obtain ⟨_, o, happend, h⟩ := bind_eq_ok.mp h
    obtain ⟨_, q, hnote, h⟩ := bind_eq_ok.mp h
    cases hnote
    have hem := appends_of_emit hemit
    obtain ⟨hcode, hpool, hjumps, hsize, hoffsets⟩ := mergeDepth_offsets hmerge
    have hap := appends_of_append happend
    have hcl := appends_of_close h
    have hbytes : o.code.toList = a.code.toList ++ [op.byte, 0, 0] := by
      rw [hap.code, hcode, hem.code]
      simp
    have hpatch : n.code.size = a.code.size + 1 := by
      have hlength := congrArg List.length hem.code
      rwa [Array.length_toList, List.length_append, Array.length_toList, ← hcode] at hlength
    refine ⟨by simpa [Opcode.isBranch] using hbranch, ?_, ?_, ?_, ?_, ?_⟩
    · rw [hcl.code, hbytes, List.append_nil]
    · rw [hcl.pool]
      dsimp only
      rw [hap.pool, hpool, hem.pool]
    · rw [hcl.jumps]
      dsimp only
      rw [hap.jumps, hjumps, hem.jumps, hpatch]
    · rw [hcl.labels]
      dsimp only
      rw [hap.labels, hsize, hem.labels]
    · intro l
      have hl := hoffsets l
      simp only [labelOffset] at hl ⊢
      rw [hcl.labels]
      dsimp only
      rw [hap.labels, hl, hem.labels]

/-- A label that is handed out has no offset, so that none changes. -/
theorem performed_newLabel (h : perform .newLabel a = .ok () b) :
    b.code = a.code ∧ b.pool = a.pool ∧ b.jumps = a.jumps ∧
      ∀ l, labelOffset b l = labelOffset a l := by
  cases h
  refine ⟨rfl, rfl, rfl, ?_⟩
  intro l
  simp only [labelOffset, Array.getD_eq_getD_getElem?, Array.getElem?_push]
  split
  · next hl =>
    subst hl
    simp
  · rfl

/-- A label is bound once, at the place where the code ends at that time. -/
theorem performed_bind {label : Nat} (h : perform (.bind label) a = .ok () b) :
    b.code = a.code ∧ b.pool = a.pool ∧ b.jumps = a.jumps ∧ labelOffset a label = none ∧
      ∀ l, labelOffset b l =
        if label = l ∧ l < a.labels.size then some a.code.size else labelOffset a l := by
  obtain ⟨_, _, hget, h⟩ := bind_eq_ok.mp h
  cases hget
  dsimp only at h
  split at h
  · cases h
  · next hfree =>
    obtain ⟨_, m, hset, h⟩ := bind_eq_ok.mp h
    cases hset
    obtain ⟨_, _, hget, h⟩ := bind_eq_ok.mp h
    cases hget
    obtain ⟨_, n, hmerge, h⟩ := bind_eq_ok.mp h
    cases h
    obtain ⟨hcode, hpool, hjumps, -, hoffsets⟩ := mergeDepth_offsets hmerge
    refine ⟨hcode, hpool, hjumps, by simpa [labelOffset] using hfree, ?_⟩
    intro l
    refine (hoffsets l).trans ?_
    simp only [labelOffset, getD_setIfInBounds]
    split <;> rfl

/-- Everything that a request has done once it succeeded, depths and bounds aside. -/
structure Performed (r : Request) (a b : Assembler) : Prop where
  /-- A jump whose distance is open is written as a jump to itself. -/
  code : b.code.toList = a.code.toList ++
    ((instruction? (fun _ => a.code.size) (r, a)).map Instruction.encode).getD []
  jumps : b.jumps.toList = a.jumps.toList ++ (jump? (r, a)).toList
  offsets : ∀ l, labelOffset b l =
    if r = .bind l ∧ l < a.labels.size then some a.code.size else labelOffset a l
  free : ∀ l, r = .bind l → labelOffset a l = none
  pool : match r.constant? with
    | none => b.pool = a.pool
    | some add => add a.pool = .ok (r.index a) b.pool
  suits : ∀ target op operand, r.form? target a = some (op, operand) → operand.Suits op.layout
  /-- The arguments of an interface call can be counted in a byte. -/
  counted : ∀ owner name descriptor, r = .call .interface owner name descriptor →
    ∃ m, MethodType.parse descriptor = .ok m ∧ m.ownSlots + 1 ≤ 255
  types : ∀ op className, r = .onType op className → op = .new ∨ op = .checkcast

/-- A request that neither jumps nor binds leaves no jump open and no label bound. -/
theorem Emitted.performed {r : Request} (h : Emitted (fun _ => a.code.size) r a b)
    (hjump : jump? (r, a) = none) (hbind : ∀ l, r ≠ .bind l)
    (hcounted : ∀ owner name descriptor, r = .call .interface owner name descriptor →
      ∃ m, MethodType.parse descriptor = .ok m ∧ m.ownSlots + 1 ≤ 255)
    (htypes : ∀ op className, r = .onType op className → op = .new ∨ op = .checkcast)
    (hsuits : ∀ target op operand, r.form? target a = some (op, operand) →
      operand.Suits op.layout) : Performed r a b where
  code := h.code
  jumps := by simp [h.jumps, hjump]
  offsets l := by simp [hbind l, labelOffset, h.labels]
  free l hl := absurd hl (hbind l)
  pool := h.pool
  suits := hsuits
  counted := hcounted
  types := htypes

/-- Both forms of an access to a slot have the operand that their opcode wants. -/
theorem slotForm_suits {short : List Opcode} {long op : Opcode} {slot : UInt8} {operand : Operand}
    (hshort : ∀ o ∈ short, o.layout = .bare) (hlong : long.layout = .slot)
    (h : slotForm short long slot = (op, operand)) : operand.Suits op.layout := by
  unfold slotForm at h
  split at h
  · next o ho =>
    cases h
    rw [hshort _ (List.mem_of_getElem? ho)]
    trivial
  · cases h
    rw [hlong]
    trivial

theorem indexedPush_suits {i : UInt16} {op : Opcode} {operand : Operand}
    (h : indexedPush i = (op, operand)) : operand.Suits op.layout := by
  unfold indexedPush at h
  split at h
  · next hi =>
    cases h
    exact hi
  · cases h
    trivial

/-- Each of the five forms has the operand that its opcode wants. -/
theorem shortestPush_suits {v : Int} {i : UInt16} {op : Opcode} {operand : Operand}
    (h : shortestPush v i = (op, operand)) : operand.Suits op.layout := by
  rcases smallConstant?_cases v i with ⟨o, ho, hform, hv⟩ | ⟨-, hv⟩
  · rw [hform] at h
    cases h
    have hbare : op.layout = .bare := by
      unfold smallConstant? at ho
      rw [if_pos hv.1] at ho
      have hmem := List.mem_of_getElem? ho
      simp only [List.mem_cons, List.not_mem_nil, or_false] at hmem
      rcases hmem with rfl | rfl | rfl | rfl | rfl | rfl | rfl <;> rfl
    rw [hbare]
    trivial
  · rw [shortestPush_wide hv] at h
    split at h
    · next hbyte =>
      cases h
      exact hbyte
    · split at h
      · next hword =>
        cases h
        exact hword
      · exact indexedPush_suits h

/-- The specification of requests: a case for each. -/
theorem performed {r : Request} (h : r.perform a = .ok () b) : Performed r a b := by
  cases r with
  | plain op =>
    obtain ⟨hemitted, hlayout⟩ := emitted_plain h
    refine hemitted.performed rfl (by simp) (by simp) (by simp) fun target o operand hform => ?_
    cases hform
    rw [hlayout]
    trivial
  | load slot =>
    refine (emitted_load h).performed rfl (by simp) (by simp) (by simp) ?_
    intro target o operand hform
    exact slotForm_suits (by decide) rfl (Option.some.inj hform)
  | store slot =>
    refine (emitted_store h).performed rfl (by simp) (by simp) (by simp) ?_
    intro target o operand hform
    exact slotForm_suits (by decide) rfl (Option.some.inj hform)
  | pushInt v =>
    refine (emitted_pushInt h).performed rfl (by simp) (by simp) (by simp) ?_
    intro target o operand hform
    exact shortestPush_suits (Option.some.inj hform)
  | loadConstant v =>
    refine (emitted_loadConstant h).performed rfl (by simp) (by simp) (by simp) ?_
    intro target o operand hform
    exact indexedPush_suits (Option.some.inj hform)
  | onType op className =>
    obtain ⟨hemitted, hop⟩ := emitted_onType h
    refine hemitted.performed rfl (by simp) (by simp) ?_ fun target o operand hform => ?_
    · intro o c hr
      cases hr
      exact hop
    · cases hform
      rcases hop with rfl | rfl <;> trivial
  | getStatic owner name descriptor =>
    refine (emitted_getStatic h).performed rfl (by simp) (by simp) (by simp) ?_
    intro target o operand hform
    cases hform
    trivial
  | call kind owner name descriptor =>
    obtain ⟨hemitted, m, hread, hcount⟩ := emitted_call h
    refine hemitted.performed rfl (by simp) ?_ (by simp) fun target o operand hform => ?_
    · intro owner name descriptor hr
      cases hr
      exact ⟨m, hread, hcount rfl⟩
    · cases kind <;> cases hform <;> trivial
  | newLabel =>
    obtain ⟨hcode, hpool, hjumps, hoffsets⟩ := performed_newLabel h
    refine ⟨?_, ?_, ?_, by simp, hpool, ?_, by simp, by simp⟩
    · simp [hcode, instruction?, form?]
    · simp [hjumps, jump?]
    · simpa using hoffsets
    · intro target op operand hform
      cases hform
  | jump op label =>
    obtain ⟨hlayout, hcode, hpool, hjumps, -, hoffsets⟩ := performed_jump h
    refine ⟨?_, ?_, ?_, by simp, hpool, ?_, by simp, by simp⟩
    · rw [hcode]
      simp [instruction?, form?, Instruction.encode, Word.bytes16]
    · simp [hjumps, jump?]
    · simpa using hoffsets
    · intro target o operand hform
      cases hform
      rw [hlayout]
      trivial
  | bind label =>
    obtain ⟨hcode, hpool, hjumps, hfree, hoffsets⟩ := performed_bind h
    refine ⟨?_, ?_, ?_, ?_, hpool, ?_, by simp, by simp⟩
    · simp [hcode, instruction?, form?]
    · simp [hjumps, jump?]
    · simpa using hoffsets
    · intro l hl
      cases hl
      exact hfree
    · intro target op operand hform
      cases hform

end Request

end StackGlyph
