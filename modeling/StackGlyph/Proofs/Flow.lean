import Mathlib
import StackGlyph.Proofs.Depths

/-!
# Depths along the paths of assembled code

Control passes from an instruction to the one behind it, unless the instruction ends its block, and
from a branch to its target. The assembler sees the code once, in order, while control may take any
path through it, with joins and loops. Still, on every path the depth at an instruction is the one
that the assembler had there; and every depth that the assembler had is met on some path, so that
code where control never arrives does not count for the greatest depth.
-/
namespace StackGlyph

def Pool.descriptorAt? (pool : Pool) (k : UInt16) : Option String :=
  match pool.memberAt k with
  | .ok m => some m.descriptor
  | .error _ => none

namespace Instruction

def fieldEffect? (pool : Pool) (k : UInt16) : Option Int := do
  let t ← (FieldType.parse (← pool.descriptorAt? k)).toOption
  return t.width

def callEffect? (pool : Pool) (receiverSlots : Nat) (k : UInt16) : Option Int := do
  let m ← (MethodType.parse (← pool.descriptorAt? k)).toOption
  return (m.result.map FieldType.width).getD 0 - (m.ownSlots + receiverSlots : Nat)

/-- The change of depth that an instruction makes: that of its opcode, or that of the descriptor
which it refers to in a pool. -/
def effect? (pool : Pool) (i : Instruction) : Option Int :=
  match i.op.stackDelta with
  | some delta => some delta
  | none =>
    match i.op, i.operand with
    | .getstatic, .index k => fieldEffect? pool k
    | .invokestatic, .index k => callEffect? pool 0 k
    | .invokevirtual, .index k | .invokespecial, .index k => callEffect? pool 1 k
    | .invokeinterface, .interface k _ => callEffect? pool 1 k
    | _, _ => none

/-- The offset behind an instruction. -/
def behind (i : Instruction) : Nat :=
  i.offset + 1 + i.op.operandSize

end Instruction

/-- Control may pass from one instruction of a method to another. -/
inductive Passes (is : List Instruction) : Instruction → Instruction → Prop
  | follow {i j : Instruction} (hi : i ∈ is) (hj : j ∈ is) (hbehind : j.offset = i.behind)
      (hopen : i.op.endsBlock = false) : Passes is i j
  | branch {i j : Instruction} (hi : i ∈ is) (hj : j ∈ is)
      (htarget : i.operand = .target j.offset) : Passes is i j

/-- A path from the first instruction arrives at an instruction, with a depth. -/
inductive Arrives (pool : Pool) (is : List Instruction) : Instruction → Int → Prop
  | first {i : Instruction} (hi : i ∈ is) (hoffset : i.offset = 0) : Arrives pool is i 0
  | pass {i j : Instruction} {d delta : Int} (h : Arrives pool is i d)
      (heffect : i.effect? pool = some delta) (hpass : Passes is i j) :
      Arrives pool is j (d + delta)

/-- The depths behind the instructions at which paths arrive. -/
def depthsBehind (pool : Pool) (is : List Instruction) : Set Int :=
  { n | ∃ i d delta, Arrives pool is i d ∧ i.effect? pool = some delta ∧ n = d + delta }

theorem Arrives.mem {pool : Pool} {is : List Instruction} {i : Instruction} {d : Int}
    (h : Arrives pool is i d) : i ∈ is := by
  cases h with
  | first hi _ => exact hi
  | pass _ _ hpass =>
    cases hpass with
    | follow _ hj _ _ => exact hj
    | branch _ hj _ => exact hj

namespace Request

open Assembler

variable {a b m : Assembler} {r : Request} {rs : List Request} {target : Nat → Nat}
  {i : Instruction}

/-! ## The instruction of a request -/

theorem effect?_of_stackDelta {pool : Pool} {delta : Int} (h : i.op.stackDelta = some delta) :
    i.effect? pool = some delta := by
  simp [Instruction.effect?, h]

theorem stackDelta_slotForm {short : List Opcode} {long : Opcode} {delta : Int} (slot : UInt8)
    (hshort : ∀ op ∈ short, op.stackDelta = some delta) (hlong : long.stackDelta = some delta) :
    (slotForm short long slot).1.stackDelta = some delta := by
  unfold slotForm
  split
  · next op hop => exact hshort op (List.mem_of_getElem? hop)
  · exact hlong

theorem stackDelta_load (slot : UInt8) :
    (slotForm [.aload0, .aload1, .aload2, .aload3] .aload slot).1.stackDelta = some 1 :=
  stackDelta_slotForm slot (by decide) rfl

theorem stackDelta_store (slot : UInt8) :
    (slotForm [.astore0, .astore1, .astore2, .astore3] .astore slot).1.stackDelta = some (-1) :=
  stackDelta_slotForm slot (by decide) rfl

theorem stackDelta_indexedPush (k : UInt16) : (indexedPush k).1.stackDelta = some 1 := by
  unfold indexedPush
  split <;> rfl

theorem stackDelta_shortestPush (v : Int) (k : UInt16) :
    (shortestPush v k).1.stackDelta = some 1 := by
  unfold shortestPush
  repeat' split
  all_goals first | rfl | exact stackDelta_indexedPush k

/-- An instruction changes the depth as its request says, in every later pool. -/
theorem effect?_of_performed {later : Pool} (h : Performed r a b) (hsound : a.pool.Sound)
    (hlater : b.pool.Extends later) (hi : instruction? target (r, a) = some i) :
    i.effect? later = r.delta? := by
  obtain ⟨form, hform, rfl⟩ := Option.map_eq_some_iff.mp hi
  have hpool := h.pool
  show Instruction.effect? later ⟨a.code.size, form.1, form.2⟩ = _
  cases r with
  | plain op =>
    obtain rfl := Option.some.inj hform
    cases op <;> rfl
  | load slot =>
    obtain rfl := Option.some.inj hform
    exact effect?_of_stackDelta (stackDelta_load slot)
  | store slot =>
    obtain rfl := Option.some.inj hform
    exact effect?_of_stackDelta (stackDelta_store slot)
  | pushInt v =>
    obtain rfl := Option.some.inj hform
    exact effect?_of_stackDelta (stackDelta_shortestPush _ _)
  | loadConstant v =>
    obtain rfl := Option.some.inj hform
    exact effect?_of_stackDelta (stackDelta_indexedPush _)
  | onType op className =>
    obtain rfl := Option.some.inj hform
    rcases h.types op className rfl with rfl | rfl <;> rfl
  | getStatic owner name descriptor =>
    obtain rfl := Option.some.inj hform
    have hmember := Pool.memberAt_of_addMember hsound hpool hlater
    simp only [Instruction.effect?, Opcode.stackDelta, Instruction.fieldEffect?,
      Pool.descriptorAt?, hmember, Option.bind_eq_bind, Option.bind_some, delta?,
      FieldType.slots_eq_width]
    cases FieldType.parse descriptor with
    | error cause => rfl
    | ok t => rfl
  | call kind owner name descriptor =>
    have hmember := Pool.memberAt_of_addMember hsound hpool hlater
    cases kind
    all_goals
      obtain rfl := Option.some.inj hform
      simp only [Instruction.effect?, Opcode.stackDelta, CallKind.opcode, Instruction.callEffect?,
        Pool.descriptorAt?, hmember, Option.bind_eq_bind, Option.bind_some, delta?,
        MethodType.resultSlots_eq]
      cases MethodType.parse descriptor with
      | error cause => rfl
      | ok t => rfl
  | jump op label =>
    obtain rfl := Option.some.inj hform
    cases op <;> rfl
  | newLabel => cases hform
  | bind label => cases hform

/-- An opcode that changes the depth passes control on. -/
theorem endsBlock_of_shift {op : Opcode} {delta : Int} (h : op.stackDelta = some delta)
    (hne : delta ≠ 0) : op.endsBlock = false := by
  cases op <;> first | rfl | exact absurd (Option.some.inj h).symm hne

/-- Only an opcode that is asked for as such, or a jump, ends a block. -/
theorem endsBlock_of_performed (h : Performed r a b) (hi : instruction? target (r, a) = some i) :
    i.op.endsBlock = r.endsBlock := by
  obtain ⟨form, hform, rfl⟩ := Option.map_eq_some_iff.mp hi
  show form.1.endsBlock = _
  cases r with
  | plain op =>
    obtain rfl := Option.some.inj hform
    rfl
  | load slot =>
    obtain rfl := Option.some.inj hform
    exact endsBlock_of_shift (stackDelta_load slot) (by decide)
  | store slot =>
    obtain rfl := Option.some.inj hform
    exact endsBlock_of_shift (stackDelta_store slot) (by decide)
  | pushInt v =>
    obtain rfl := Option.some.inj hform
    exact endsBlock_of_shift (stackDelta_shortestPush _ _) (by decide)
  | loadConstant v =>
    obtain rfl := Option.some.inj hform
    exact endsBlock_of_shift (stackDelta_indexedPush _) (by decide)
  | onType op className =>
    obtain rfl := Option.some.inj hform
    rcases h.types op className rfl with rfl | rfl <;> rfl
  | getStatic owner name descriptor =>
    obtain rfl := Option.some.inj hform
    rfl
  | call kind owner name descriptor =>
    cases kind <;> obtain rfl := Option.some.inj hform <;> rfl
  | jump op label =>
    obtain rfl := Option.some.inj hform
    rfl
  | newLabel => cases hform
  | bind label => cases hform

theorem emits_of_instruction {s : Served} (h : instruction? target s = some i) :
    s.1.emits = true := by
  have hsome := instruction?_isSome target s
  rw [h] at hsome
  exact hsome.symm

/-- The assembler moves on to the place behind the instruction. -/
theorem size_of_emitted (h : Performed r a b) (hi : instruction? target (r, a) = some i) :
    b.code.size = i.behind := by
  obtain ⟨hoffset, hform⟩ := instruction?_eq_some hi
  have hsuits := h.suits target i.op i.operand hform
  have hsize := size_of_performed h
  rcases served_cases target (r, a) with ⟨-, hnone, -⟩ | ⟨-, j, hj, hopen, -⟩ | ⟨op, label, hjump⟩
  · rw [hi] at hnone
    cases hnone
  · obtain rfl := Option.some.inj (hi.symm.trans hj)
    rw [hsize, hopen, Instruction.length_encode hsuits, Instruction.behind, hoffset]
    exact (Nat.add_assoc _ _ _).symm
  · obtain rfl : r = .jump op label := hjump
    obtain ⟨form, hform', rfl⟩ := Option.map_eq_some_iff.mp hi
    obtain rfl := Option.some.inj hform'
    have hbranch : op.operandSize = 2 := by
      cases op <;> first | rfl | exact hsuits.elim
    have hopen : (openBytes (.jump op label, a)).length = 3 := by
      simp [openBytes, instruction?, form?, Instruction.encode, Word.bytes16]
    rw [hsize, hopen, Instruction.behind, hbranch]

/-! ## Steps and runs -/

/-- What a request does to depths, seen on assemblers. -/
theorem shifts_of_perform (h : r.perform a = .ok () b) :
    ∃ behind, Shifts r behind a.gauge b.gauge :=
  shifts (gauge_of_perform h)

/-- Where the depth is known, so is the depth behind an instruction. -/
theorem behind_of_depth {behind : Option Nat} {d : Nat} (h : Shifts r behind a.gauge b.gauge)
    (hemits : r.emits = true) (hdepth : a.depth = some d) :
    ∃ delta n, r.delta? = some delta ∧ behind = some n ∧ (n : Int) = d + delta ∧
      b.maxStack = max a.maxStack n := by
  obtain ⟨delta, hdelta, hbehind, hmax⟩ := h.emitted hemits
  have hknown : a.gauge.depth = some d := hdepth
  rw [hknown] at hbehind
  obtain ⟨n, rfl, hn⟩ := Option.map_eq_some_iff.mp hbehind
  exact ⟨delta, n, hdelta, rfl, hn, hmax⟩

/-- A label that is named where a depth is known expects that depth. -/
theorem labelDepth_of_behind {behind : Option Nat} {label n : Nat}
    (h : Shifts r behind a.gauge b.gauge) (hlabel : r.label? = some label)
    (howned : label < a.labels.size) (hbehind : behind = some n) :
    b.gauge.labelDepth label = some n := by
  have hsize : label < a.gauge.labels.size := by simpa [Assembler.gauge] using howned
  rw [h.labels, if_pos ⟨hlabel, hsize⟩, hbehind]
  cases he : a.gauge.labelDepth label with
  | none => rfl
  | some e => simp [h.agree label hlabel e he n hbehind]

/-- What is settled stays so: the greatest depth can only grow, and a label that has an offset or a
depth keeps it. -/
structure Settles (a b : Assembler) : Prop where
  maxStack : a.maxStack ≤ b.maxStack
  offsets : ∀ label t, labelOffset a label = some t → labelOffset b label = some t
  depths : ∀ label n, a.gauge.labelDepth label = some n → b.gauge.labelDepth label = some n

/-- The step over requests: the greatest depth grows, and what a label knows stays. -/
theorem settles_of_perform (h : r.perform a = .ok () b) : Settles a b := by
  obtain ⟨behind, hshifts⟩ := shifts_of_perform h
  have hperformed := performed h
  constructor
  · cases hemits : r.emits with
    | true =>
      obtain ⟨_, _, _, hmax⟩ := hshifts.emitted hemits
      exact Nat.le_trans (Nat.le_max_left _ _) (Nat.le_of_eq hmax.symm)
    | false => exact Nat.le_of_eq (hshifts.silent hemits).1.symm
  · intro label t ht
    rw [hperformed.offsets]
    split
    · next hbind =>
      rw [hperformed.free label hbind.1] at ht
      cases ht
    · exact ht
  · intro label n hn
    rw [hshifts.labels]
    split
    · rw [hn]
      rfl
    · exact hn

/-- The run, by induction on its requests. -/
theorem settles_of_performAll (h : performAll rs a = .ok () b) : Settles a b := by
  induction rs generalizing a with
  | nil =>
    cases h
    exact ⟨Nat.le_refl _, fun _ _ ht => ht, fun _ _ hn => hn⟩
  | cons r rs ih =>
    obtain ⟨m, hr, hrs⟩ := performAll_cons.mp h
    have hfirst := settles_of_perform hr
    have hrest := ih hrs
    exact ⟨Nat.le_trans hfirst.maxStack hrest.maxStack,
      fun label t ht => hrest.offsets label t (hfirst.offsets label t ht),
      fun label n hn => hrest.depths label n (hfirst.depths label n hn)⟩

/-- Requests are served behind what was there before the run. -/
theorem size_le_of_mem {s : Served} (h : performAll rs a = .ok () b) (hs : s ∈ history a rs) :
    a.code.size ≤ s.2.code.size := by
  induction rs generalizing a with
  | nil => cases hs
  | cons r rs ih =>
    obtain ⟨m, hr, hrs⟩ := performAll_cons.mp h
    rw [history_cons hr] at hs
    rcases List.mem_cons.mp hs with rfl | hs
    · exact Nat.le_refl _
    · have hsize := size_of_performed (performed hr)
      have hrest := ih hrs hs
      omega

/-- A run goes on from each of its requests. What is emitted at the same place or behind it is
emitted by this request or later. -/
theorem later_of_mem {s : Served} (h : performAll rs a = .ok () b) (hs : s ∈ history a rs) :
    ∃ m rest, s.1.perform s.2 = .ok () m ∧ performAll rest m = .ok () b ∧
      ∀ s' ∈ history a rs, s'.1.emits = true → s.2.code.size ≤ s'.2.code.size →
        s' = s ∨ s' ∈ history m rest := by
  induction rs generalizing a with
  | nil => cases hs
  | cons r rs ih =>
    obtain ⟨n, hr, hrs⟩ := performAll_cons.mp h
    rw [history_cons hr] at hs ⊢
    rcases List.mem_cons.mp hs with rfl | hs
    · exact ⟨n, rs, hr, hrs, fun s' hs' _ _ => List.mem_cons.mp hs'⟩
    · obtain ⟨m, rest, hm, hrest, hlater⟩ := ih hrs hs
      refine ⟨m, rest, hm, hrest, ?_⟩
      intro s' hs' hemits hsize
      rcases List.mem_cons.mp hs' with rfl | hs'
      · -- The first request has moved on before this one came.
        have hbefore := size_le_of_mem hrs hs
        rcases emits_cases (fun _ => 0) (performed hr) with ⟨hnot, -, -⟩ | ⟨-, hgrown, -⟩
        · rw [hnot] at hemits
          cases hemits
        · dsimp only at hsize
          omega
      · exact hlater s' hs' hemits hsize

/-- Requests that emit nothing keep a known depth. -/
theorem depth_of_silent {d : Nat} (h : r.perform a = .ok () b) (hsilent : r.emits = false)
    (hd : a.depth = some d) : b.depth = some d := by
  obtain ⟨behind, hshifts⟩ := shifts_of_perform h
  have hopen : r.endsBlock = false := by
    cases r <;> first | rfl | cases hsilent
  have hknown : a.gauge.depth = some d := hd
  have hdepth := hshifts.depth
  rw [hopen, (hshifts.silent hsilent).2, hknown] at hdepth
  exact hdepth

/-- Binding labels keeps a known depth, so the next instruction finds it. -/
theorem depth_of_start {d : Nat} {s : Served} (h : performAll rs a = .ok () b)
    (hdepth : a.depth = some d) (hs : s ∈ history a rs) (hemits : s.1.emits = true)
    (hsize : s.2.code.size = a.code.size) : s.2.depth = some d := by
  induction rs generalizing a with
  | nil => cases hs
  | cons r rs ih =>
    obtain ⟨m, hr, hrs⟩ := performAll_cons.mp h
    rw [history_cons hr] at hs
    rcases List.mem_cons.mp hs with rfl | hs
    · exact hdepth
    · have hbefore := size_le_of_mem hrs hs
      rcases emits_cases (fun _ => 0) (performed hr) with ⟨hsilent, -, hsame⟩ | ⟨-, hgrown, -⟩
      · exact ih hrs (depth_of_silent hr hsilent hdepth) hs (hsize.trans hsame.symm)
      · omega

theorem bind_of_boundAt {served : List Served} {label t : Nat} (h : boundAt served label = some t) :
    ∃ s ∈ served, s.1 = .bind label ∧ s.2.code.size = t := by
  obtain ⟨s, hs, ht⟩ := List.exists_of_findSome?_eq_some h
  refine ⟨s, List.mem_reverse.mp hs, ?_⟩
  dsimp only at ht
  split at ht
  · next hbind => exact ⟨hbind, Option.some.inj ht⟩
  · cases ht

theorem jump_of_label {label : Nat} (hemits : r.emits = true) (h : r.label? = some label) :
    ∃ op, r = .jump op label := by
  cases r with
  | jump op l =>
    cases h
    exact ⟨op, rfl⟩
  | bind l => cases hemits
  | _ => cases h

def isBind : Request → Bool
  | .bind _ => true
  | _ => false

end Request

open Request Assembler

/-- A history in which labels are handed out before they are named, and every label is bound where
the depth is known or becomes known. -/
structure Orderly (calls : List Served) : Prop where
  owned : ∀ s ∈ calls, ∀ label ∈ s.1.label?, label < s.2.labels.size
  known : ∀ s ∈ calls, s.1.isBind = true → (leftBy (s.1.perform s.2)).depth.isSome = true

/-- A history in which labels are handed out before they are named, and where a jump is made at a
known depth, its label is bound where the depth is known or becomes known. -/
structure Followed (calls : List Served) : Prop where
  owned : ∀ s ∈ calls, ∀ label ∈ s.1.label?, label < s.2.labels.size
  known : ∀ s ∈ calls, ∀ op label, s.1 = .jump op label → s.2.depth.isSome = true →
    ∀ w ∈ calls, w.1 = .bind label → (leftBy (w.1.perform w.2)).depth.isSome = true

theorem Orderly.followed {calls : List Served} (h : Orderly calls) : Followed calls where
  owned := h.owned
  known := by
    intro s _ op label _ _ w hw hbind
    exact h.known w hw (by rw [hbind]; rfl)

section Paths

variable {pool later : Pool} {slots : Nat} {rs : List Request} {a : Assembler}

/-- The request behind an instruction, in its run: what it does to depths is what the instruction
does, and what comes at its place or behind it comes later. -/
theorem emitted_of_mem {s : Served} {i : Instruction} (hpool : pool.Sound)
    (hrun : performAll rs (start pool slots) = .ok () a) (hlater : a.pool.Extends later)
    (hs : s ∈ history (start pool slots) rs)
    (hi : instruction? (targetOf (history (start pool slots) rs)) s = some i) :
    s.1.emits = true ∧ i.effect? later = s.1.delta? ∧
      ∃ m rest behind, Performed s.1 s.2 m ∧ Shifts s.1 behind s.2.gauge m.gauge ∧
        performAll rest m = .ok () a ∧
        ∀ s' ∈ history (start pool slots) rs, s'.1.emits = true → s.2.code.size ≤ s'.2.code.size →
          s' = s ∨ s' ∈ history m rest := by
  obtain ⟨m, rest, hm, hrest, hafter⟩ := later_of_mem hrun hs
  obtain ⟨_, -, hsound, -⟩ := served_of_mem hpool hrun hs
  have hgrown := ((performAll_reaches rest).of_ok hrest).evolves.pool.earlier.trans hlater
  obtain ⟨behind, hshifts⟩ := shifts_of_perform hm
  refine ⟨emits_of_instruction hi, effect?_of_performed (performed hm) hsound hgrown hi,
    m, rest, behind, performed hm, hshifts, hrest, hafter⟩

/-- A label that was handed out stands where it was bound. -/
theorem boundAt_of_bind {s : Served} {label : Nat}
    (hrun : performAll rs (start pool slots) = .ok () a)
    (hs : s ∈ history (start pool slots) rs) (hbind : s.1 = .bind label)
    (howned : label < s.2.labels.size) :
    boundAt (history (start pool slots) rs) label = some s.2.code.size := by
  obtain ⟨m, rest, hm, hrest, -⟩ := later_of_mem hrun hs
  have hnow : labelOffset m label = some s.2.code.size := by
    rw [(performed hm).offsets, if_pos ⟨hbind, howned⟩]
  have hfinal := (settles_of_performAll hrest).offsets label _ hnow
  rcases boundAt_of_labelOffset hrun hfinal with ⟨hbefore, -⟩ | hin
  · cases hbefore
  · exact hin

/-- The next instruction at the place where a label is bound finds the depth of the label. -/
theorem depth_at_label {s : Served} {label n t : Nat}
    (hrun : performAll rs (start pool slots) = .ok () a)
    (howned : ∀ w ∈ history (start pool slots) rs, ∀ label ∈ w.1.label?, label < w.2.labels.size)
    (hknown : ∀ w ∈ history (start pool slots) rs, w.1 = .bind label →
      (leftBy (w.1.perform w.2)).depth.isSome = true)
    (hbound : boundAt (history (start pool slots) rs) label = some t)
    (hlabel : a.gauge.labelDepth label = some n) (hs : s ∈ history (start pool slots) rs)
    (hemits : s.1.emits = true) (hsize : s.2.code.size = t) : s.2.depth = some n := by
  obtain ⟨w, hw, hbind, rfl⟩ := bind_of_boundAt hbound
  obtain ⟨m, rest, hm, hrest, hlater⟩ := later_of_mem hrun hw
  have hnames : w.1.label? = some label := by rw [hbind]; rfl
  have hsilent : w.1.emits = false := by rw [hbind]; rfl
  -- The depth is known behind the binding, and the label has it.
  have hknown := hknown w hw hbind
  rw [hm, leftBy_ok] at hknown
  obtain ⟨k, hk⟩ := Option.isSome_iff_exists.mp hknown
  obtain ⟨behind, hshifts⟩ := shifts_of_perform hm
  have hbehind : behind = some k := by
    have hdepth := hshifts.depth
    rw [show w.1.endsBlock = false by rw [hbind]; rfl] at hdepth
    exact hdepth.symm.trans hk
  have hsame := (settles_of_performAll hrest).depths label k
    (labelDepth_of_behind hshifts hnames (howned w hw label hnames) hbehind)
  obtain rfl : n = k := Option.some.inj (hlabel.symm.trans hsame)
  rcases hlater s hs hemits (Nat.le_of_eq hsize.symm) with rfl | hin
  · rw [hsilent] at hemits
    cases hemits
  · refine depth_of_start hrest hk hin hemits ?_
    rcases emits_cases (fun _ => 0) (performed hm) with ⟨-, -, hstays⟩ | ⟨hnot, -⟩
    · exact hsize.trans hstays.symm
    · rw [hsilent] at hnot
      cases hnot

/-- On every path, the depth at an instruction is the one that the assembler had there. -/
theorem depth_on_path {i : Instruction} {d : Int} (hpool : pool.Sound)
    (hrun : performAll rs (start pool slots) = .ok () a)
    (hfollowed : Followed (history (start pool slots) rs)) (hlater : a.pool.Extends later)
    (hbound : ∀ op label, .jump op label ∈ rs →
      ∃ t, boundAt (history (start pool slots) rs) label = some t)
    (h : Arrives later (asked (history (start pool slots) rs)) i d) :
    ∀ s ∈ history (start pool slots) rs,
      instruction? (targetOf (history (start pool slots) rs)) s = some i →
        ∃ n : Nat, s.2.depth = some n ∧ d = n := by
  induction h with
  | first _ hoffset =>
    intro s hs hi
    have hsize : s.2.code.size = 0 := (instruction?_eq_some hi).1.symm.trans hoffset
    exact ⟨0, depth_of_start hrun rfl hs (emits_of_instruction hi) hsize, rfl⟩
  | @pass i j d delta hpath heffect hpass ih =>
    intro s hs hj
    have hemits := emits_of_instruction hj
    have hoffset := (instruction?_eq_some hj).1
    -- The request behind the instruction that control comes from, and the depth behind it.
    obtain ⟨w, hw, hwi⟩ := List.mem_filterMap.mp hpath.mem
    obtain ⟨k, hk, rfl⟩ := ih w hw hwi
    obtain ⟨hwemits, hdelta, m, rest, behind, hm, hshifts, hrest, hafter⟩ :=
      emitted_of_mem hpool hrun hlater hw hwi
    obtain ⟨delta', n, hdelta', hbehind, hn, -⟩ := behind_of_depth hshifts hwemits hk
    obtain rfl : delta' = delta := Option.some.inj (hdelta'.symm.trans (hdelta.symm.trans heffect))
    refine ⟨n, ?_, hn.symm⟩
    cases hpass with
    | follow _ _ hnext hopen =>
      have hsize := size_of_emitted hm hwi
      have hmdepth : m.depth = some n := by
        rw [endsBlock_of_performed hm hwi] at hopen
        have hdepth := hshifts.depth
        rw [hopen, hbehind] at hdepth
        exact hdepth
      have hplace : s.2.code.size = m.code.size := by
        rw [← hoffset, hnext, hsize]
      have hgrows : w.2.code.size < m.code.size := by
        rw [hsize, Instruction.behind, (instruction?_eq_some hwi).1]
        omega
      rcases hafter s hs hemits (by omega) with rfl | hin
      · omega
      · exact depth_of_start hrest hmdepth hin hemits hplace
    | branch _ _ htarget =>
      have hform := (instruction?_eq_some hwi).2
      rw [htarget] at hform
      obtain ⟨label, hjump, hto⟩ := form?_target hform
      have hnames : w.1.label? = some label := by rw [hjump]; rfl
      obtain ⟨t, ht⟩ := hbound i.op label (hjump ▸ mem_of_mem_history hw)
      have hlabel := (settles_of_performAll hrest).depths label n
        (labelDepth_of_behind hshifts hnames (hfollowed.owned w hw label hnames) hbehind)
      have hknown := hfollowed.known w hw i.op label hjump (by rw [hk]; rfl)
      refine depth_at_label hrun hfollowed.owned hknown ht hlabel hs hemits ?_
      rw [← hoffset, hto, targetOf, ht, Option.getD_some]

theorem depth_of_arrives {i : Instruction} {d : Int} (hpool : pool.Sound)
    (hrun : performAll rs (start pool slots) = .ok () a)
    (horderly : Orderly (history (start pool slots) rs)) (hlater : a.pool.Extends later)
    (hbound : ∀ op label, .jump op label ∈ rs →
      ∃ t, boundAt (history (start pool slots) rs) label = some t)
    (h : Arrives later (asked (history (start pool slots) rs)) i d) :
    ∀ s ∈ history (start pool slots) rs,
      instruction? (targetOf (history (start pool slots) rs)) s = some i →
        ∃ n : Nat, s.2.depth = some n ∧ d = n :=
  depth_on_path hpool hrun horderly.followed hlater hbound h

/-- What the paths meet by the time an assembler has come this far: the depth where it stands, the
depths of its labels where they are bound, and the greatest depth. -/
structure Explored (later : Pool) (calls : List Served) (a : Assembler) : Prop where
  here : ∀ d, a.depth = some d →
    ∀ j ∈ asked calls, j.offset = a.code.size → Arrives later (asked calls) j d
  labels : ∀ label n, a.gauge.labelDepth label = some n →
    ∀ j ∈ asked calls, boundAt calls label = some j.offset → Arrives later (asked calls) j n
  deepest : a.maxStack = 0 ∨ (a.maxStack : Int) ∈ depthsBehind later (asked calls)

theorem explored_start (later : Pool) (calls : List Served) :
    Explored later calls (start pool slots) where
  here := by
    intro d hd j hj hoffset
    cases hd
    exact .first hj hoffset
  labels := by
    intro label n hlabel
    rw [gauge_start] at hlabel
    cases hlabel
  deepest := .inl rfl

/-- A request that emits an instruction explores what is behind it, if control arrives there. -/
theorem Explored.emit {calls : List Served} {m b : Assembler} {r : Request} {i : Instruction}
    (h : Explored later calls m) (hsound : m.pool.Sound) (hperform : r.perform m = .ok () b)
    (hlater : b.pool.Extends later) (hmem : (r, m) ∈ calls)
    (hi : instruction? (targetOf calls) (r, m) = some i) : Explored later calls b := by
  have hasked : i ∈ asked calls := List.mem_filterMap.mpr ⟨_, hmem, hi⟩
  have hemits : r.emits = true := emits_of_instruction hi
  obtain ⟨behind, hshifts⟩ := shifts_of_perform hperform
  cases hdepth : m.depth with
  | none =>
    -- No depth is known here, and nothing is learnt.
    obtain ⟨delta, -, hbehind, hmax⟩ := hshifts.emitted hemits
    have hunknown : m.gauge.depth = none := hdepth
    rw [hunknown, Option.map_none, Option.map_eq_none_iff] at hbehind
    subst hbehind
    refine ⟨?_, ?_, ?_⟩
    · intro d hd
      have hnone := hshifts.depth
      rw [ite_self] at hnone
      cases hnone.symm.trans hd
    · intro label n hlabel
      rw [hshifts.labels] at hlabel
      refine h.labels label n ?_
      split at hlabel
      · rwa [Option.or_none] at hlabel
      · exact hlabel
    · have hsame : b.maxStack = m.maxStack := hmax.trans (Nat.max_zero _)
      rw [hsame]
      exact h.deepest
  | some d =>
    have harrives : Arrives later (asked calls) i d :=
      h.here d hdepth i hasked (instruction?_eq_some hi).1
    obtain ⟨delta, n, hdelta, rfl, hn, hmax⟩ := behind_of_depth hshifts hemits hdepth
    have heffect : i.effect? later = some delta :=
      (effect?_of_performed (performed hperform) hsound hlater hi).trans hdelta
    refine ⟨?_, ?_, ?_⟩
    · intro k hk j hj hoffset
      have hbdepth : b.depth = if r.endsBlock then none else some n := hshifts.depth
      rw [hk] at hbdepth
      split at hbdepth
      · cases hbdepth
      · next hopen =>
        obtain rfl := Option.some.inj hbdepth
        rw [hn]
        refine harrives.pass heffect (.follow hasked hj ?_ ?_)
        · rw [hoffset, size_of_emitted (performed hperform) hi]
        · rw [endsBlock_of_performed (performed hperform) hi]
          exact Bool.eq_false_iff.mpr hopen
    · intro label k hlabel j hj hbound
      rw [hshifts.labels] at hlabel
      split at hlabel
      · next hnames =>
        rcases Option.or_eq_some_iff.mp hlabel with hbefore | ⟨-, hnow⟩
        · exact h.labels label k hbefore j hj hbound
        · obtain rfl := Option.some.inj hnow
          rw [hn]
          refine harrives.pass heffect (.branch hasked hj ?_)
          obtain ⟨op, rfl⟩ := jump_of_label hemits hnames.1
          obtain rfl := Option.some.inj hi
          rw [targetOf, hbound, Option.getD_some]
      · exact h.labels label k hlabel j hj hbound
    · rw [hmax]
      rcases Nat.le_total n m.maxStack with hle | hle
      · rw [Nat.max_eq_left hle]
        exact h.deepest
      · rw [Nat.max_eq_right hle]
        exact .inr ⟨i, d, delta, harrives, heffect, hn⟩

/-- A label is bound where control arrives, or control arrives by the jumps to it. -/
theorem Explored.mark {m b : Assembler} {r : Request}
    (hrun : performAll rs (start pool slots) = .ok () a)
    (horderly : Orderly (history (start pool slots) rs))
    (h : Explored later (history (start pool slots) rs) m) (hperform : r.perform m = .ok () b)
    (hmem : (r, m) ∈ history (start pool slots) rs) (hsilent : r.emits = false) :
    Explored later (history (start pool slots) rs) b := by
  obtain ⟨behind, hshifts⟩ := shifts_of_perform hperform
  obtain ⟨hmax, hbehind⟩ := hshifts.silent hsilent
  have hopen : r.endsBlock = false := by
    cases r <;> first | rfl | cases hsilent
  have hbdepth : b.depth = behind := by
    have hdepth := hshifts.depth
    rwa [hopen] at hdepth
  have hsize : b.code.size = m.code.size := by
    rcases emits_cases (fun _ => 0) (performed hperform) with ⟨-, -, hsame⟩ | ⟨hnot, -⟩
    · exact hsame
    · rw [hsilent] at hnot
      cases hnot
  have hplace : ∀ label, r.label? = some label →
      boundAt (history (start pool slots) rs) label = some m.code.size := by
    intro label hnames
    refine boundAt_of_bind hrun hmem ?_ (horderly.owned _ hmem label hnames)
    cases r with
    | bind l =>
      cases hnames
      rfl
    | jump op l => cases hsilent
    | _ => cases hnames
  refine ⟨?_, ?_, ?_⟩
  · intro d hd j hj hoffset
    rw [hbdepth, hbehind] at hd
    rcases Option.or_eq_some_iff.mp hd with hhere | ⟨-, hjumped⟩
    · exact h.here d hhere j hj (hoffset.trans hsize)
    · obtain ⟨label, hnames, hlabel⟩ := Option.bind_eq_some_iff.mp hjumped
      exact h.labels label d hlabel j hj (by rw [hplace label hnames, hoffset, hsize])
  · intro label n hlabel j hj hbound
    rw [hshifts.labels] at hlabel
    split at hlabel
    · next hnames =>
      rcases Option.or_eq_some_iff.mp hlabel with hbefore | ⟨hnone, hnow⟩
      · exact h.labels label n hbefore j hj hbound
      · rw [hbehind, hnames.1, Option.bind_some, hnone, Option.or_none] at hnow
        rw [hplace label hnames.1] at hbound
        exact h.here n hnow j hj (Option.some.inj hbound).symm
    · exact h.labels label n hlabel j hj hbound
  · have hsame : b.maxStack = m.maxStack := hmax
    rw [hsame]
    exact h.deepest

/-- A run explores all that it emits. -/
theorem Explored.run {m : Assembler} {rest : List Request}
    (hrun : performAll rs (start pool slots) = .ok () a)
    (horderly : Orderly (history (start pool slots) rs)) (hlater : a.pool.Extends later)
    (h : Explored later (history (start pool slots) rs) m) (hsound : m.pool.Sound)
    (hrest : performAll rest m = .ok () a)
    (hpart : ∀ s ∈ history m rest, s ∈ history (start pool slots) rs) :
    Explored later (history (start pool slots) rs) a := by
  induction rest generalizing m with
  | nil =>
    cases hrest
    exact h
  | cons r rest ih =>
    obtain ⟨b, hr, hrest⟩ := performAll_cons.mp hrest
    rw [history_cons hr] at hpart
    have hmem := hpart _ List.mem_cons_self
    have hgrown := ((performAll_reaches rest).of_ok hrest).evolves.pool.earlier.trans hlater
    have hnext : Explored later (history (start pool slots) rs) b := by
      rcases emits_cases (targetOf (history (start pool slots) rs)) (performed hr) with
        ⟨hsilent, -⟩ | ⟨-, -, i, hi, -⟩
      · exact h.mark hrun horderly hr hmem hsilent
      · exact h.emit hsound hr hgrown hmem hi
    exact ih hnext (((perform_evolves r).of_ok hr).pool.sound hsound) hrest
      fun s hs => hpart s (List.mem_cons_of_mem _ hs)

/-- The depth behind an instruction where control arrives. -/
theorem le_maxStack_of_behind {n : Int} (hpool : pool.Sound)
    (hrun : performAll rs (start pool slots) = .ok () a)
    (horderly : Orderly (history (start pool slots) rs)) (hlater : a.pool.Extends later)
    (hbound : ∀ op label, .jump op label ∈ rs →
      ∃ t, boundAt (history (start pool slots) rs) label = some t)
    (h : n ∈ depthsBehind later (asked (history (start pool slots) rs))) :
    0 ≤ n ∧ n ≤ a.maxStack := by
  obtain ⟨i, d, delta, harrives, heffect, rfl⟩ := h
  obtain ⟨s, hs, hi⟩ := List.mem_filterMap.mp harrives.mem
  obtain ⟨k, hk, rfl⟩ := depth_of_arrives hpool hrun horderly hlater hbound harrives s hs hi
  obtain ⟨hemits, hdelta, m, rest, behind, -, hshifts, hrest, -⟩ :=
    emitted_of_mem hpool hrun hlater hs hi
  obtain ⟨delta', n, hdelta', -, hn, hmax⟩ := behind_of_depth hshifts hemits hk
  obtain rfl : delta' = delta := Option.some.inj (hdelta'.symm.trans (hdelta.symm.trans heffect))
  have hgrows := (settles_of_performAll hrest).maxStack
  omega

/-- The greatest depth is the greatest that a path meets. -/
theorem greatest_of_paths (hpool : pool.Sound)
    (hrun : performAll rs (start pool slots) = .ok () a)
    (horderly : Orderly (history (start pool slots) rs)) (hlater : a.pool.Extends later)
    (hbound : ∀ op label, .jump op label ∈ rs →
      ∃ t, boundAt (history (start pool slots) rs) label = some t) :
    let met := depthsBehind later (asked (history (start pool slots) rs))
    (met = ∅ → a.maxStack = 0) ∧ (met.Nonempty → IsGreatest met (a.maxStack : Int)) := by
  intro met
  have hdeepest : a.maxStack = 0 ∨ (a.maxStack : Int) ∈ met :=
    ((explored_start later _).run hrun horderly hlater hpool hrun fun s hs => hs).deepest
  have hupper : ∀ n ∈ met, 0 ≤ n ∧ n ≤ a.maxStack :=
    fun n hn => le_maxStack_of_behind hpool hrun horderly hlater hbound hn
  constructor
  · intro hnone
    rcases hdeepest with hzero | hmem
    · exact hzero
    · rw [hnone] at hmem
      exact hmem.elim
  · rintro ⟨n, hn⟩
    refine ⟨?_, fun k hk => (hupper k hk).2⟩
    rcases hdeepest with hzero | hmem
    · obtain ⟨hlow, hhigh⟩ := hupper n hn
      obtain rfl : n = a.maxStack := by omega
      exact hn
    · exact hmem

end Paths

/-- What the assembler says of depths is so on every path. For requests that all succeed, followed
by a successful `finish`, where labels are handed out before they are named, each is bound where the
depth is known and no jump leads to the end: a path that starts at the first instruction with an
empty stack arrives at each instruction with the depth that the assembler had when it was asked for.
So the depth is never negative and does not depend on the path. The greatest depth of the code is
the greatest depth behind any instruction where a path arrives, and zero if there is none. -/
theorem depths_on_paths {pool later : Pool} {slots : Nat} {rs : List Request} {a : Assembler}
    {code : Code} (hpool : pool.Sound) (hrun : performAll rs (start pool slots) = .ok () a)
    (hfinish : a.finish = .ok code) (hlater : a.pool.Extends later)
    (horderly : Orderly (history (start pool slots) rs))
    (hinside : ∀ op label, .jump op label ∈ rs →
      boundAt (history (start pool slots) rs) label ≠ some code.bytes.length) :
    let calls := history (start pool slots) rs
    ∃ is, Instruction.decode code.bytes = .ok is ∧
      is.toList = calls.filterMap (instruction? (targetOf calls)) ∧
      (∀ i ∈ is, (i.effect? later).isSome = true) ∧
      (∀ s ∈ calls, ∀ i, instruction? (targetOf calls) s = some i →
        ∀ d, Arrives later is.toList i d → ∃ n : Nat, s.2.depth = some n ∧ d = n) ∧
      (∀ i d d', Arrives later is.toList i d → Arrives later is.toList i d' → d = d') ∧
      (depthsBehind later is.toList = ∅ → code.maxStack = 0) ∧
      ((depthsBehind later is.toList).Nonempty →
        IsGreatest (depthsBehind later is.toList) (code.maxStack : Int)) := by
  intro calls
  have hassembled : Assembled rs calls code.bytes := assembled hrun hfinish
  have hdecode : Instruction.decode code.bytes = .ok (asked calls).toArray := by
    rcases decode_cases hrun hfinish with ⟨-, hok⟩ | ⟨houtside, -⟩
    · exact hok
    · exact absurd hinside houtside
  have hmax : code.maxStack = a.maxStack := by
    obtain ⟨bytes, -, -, rfl⟩ := finish_eq_ok hfinish
    rfl
  have hdepth : ∀ i d, Arrives later (asked calls) i d → ∀ s ∈ calls,
      instruction? (targetOf calls) s = some i → ∃ n : Nat, s.2.depth = some n ∧ d = n :=
    fun i d h => depth_of_arrives hpool hrun horderly hlater hassembled.bound h
  obtain ⟨hnone, hgreatest⟩ := greatest_of_paths hpool hrun horderly hlater hassembled.bound
  rw [← hmax] at hnone hgreatest
  refine ⟨_, hdecode, rfl, ?_, ?_, ?_, hnone, hgreatest⟩
  · intro i hi
    obtain ⟨s, hs, hsi⟩ := List.mem_filterMap.mp (List.mem_toArray.mp hi)
    obtain ⟨hemits, heffect, m, rest, behind, -, hshifts, -⟩ :=
      emitted_of_mem hpool hrun hlater hs hsi
    obtain ⟨delta, hdelta, -⟩ := hshifts.emitted hemits
    rw [heffect, hdelta, Option.isSome_some]
  · intro s hs i hi d harrives
    exact hdepth i d harrives s hs hi
  · intro i d d' h h'
    obtain ⟨s, hs, hi⟩ := List.mem_filterMap.mp h.mem
    obtain ⟨n, hn, rfl⟩ := hdepth i d h s hs hi
    obtain ⟨n', hn', rfl⟩ := hdepth i d' h' s hs hi
    rw [Option.some.inj (hn.symm.trans hn')]

/-- The loop hands out its labels before it names them, and binds both where the depth is known. -/
theorem polling_orderly (p q : Pool) (i j : UInt16) : Orderly (polledCalls p q i j) where
  owned := by
    have hall : (polledCalls p q i j).all
        (fun s => s.1.label?.all (· < s.2.labels.size)) = true := by cbv
    intro s hs label hlabel
    have howned := List.all_eq_true.mp hall s hs
    rw [Option.mem_def.mp hlabel] at howned
    exact of_decide_eq_true howned
  known := by
    have hall : ((polledCalls p q i j).filter (·.1.isBind)).all
        (fun s => (leftBy (s.1.perform s.2)).depth.isSome) = true := by cbv
    intro s hs hbind
    exact List.all_eq_true.mp hall s (List.mem_filter.mpr ⟨hs, hbind⟩)

/-- In the loop around a call, the receiver and the long lie in front of the call, and its answer
behind it. The code that control never reaches pushes four values, but the greatest depth is
three. -/
theorem depths_on_paths_loop :
    ∃ a code j is, performAll polling (start .empty 1) = .ok () a ∧ a.finish = .ok code ∧
      Instruction.decode code.bytes = .ok is ∧
      Arrives a.pool is.toList ⟨4, .invokeinterface, .interface j 3⟩ 3 ∧
      Arrives a.pool is.toList ⟨9, .ifeq, .target 19⟩ 1 ∧
      IsGreatest (depthsBehind a.pool is.toList) 3 := by
  obtain ⟨p, q, i, j, a, code, hrun, hfinish, hmax, hserved, hinside, hasked⟩ := polling_served
  have horderly : Orderly (history (start .empty 1) polling) := hserved ▸ polling_orderly p q i j
  obtain ⟨is, hdecode, his, heffects, hdepths, -, -, hgreatest⟩ :=
    depths_on_paths Pool.sound_empty hrun hfinish (.refl a.pool) horderly hinside
  -- Where a path arrives, the depth is that of the requests which found as many bytes.
  have hdepth : ∀ k d n, Arrives a.pool is.toList k d →
      (polledCalls p q i j).all (fun s => s.2.code.size != k.offset || s.2.depth == some n) = true →
      d = n := by
    intro k d n harrives hall
    have hk := harrives.mem
    rw [his] at hk
    obtain ⟨s, hs, hsk⟩ := List.mem_filterMap.mp hk
    obtain ⟨m, hm, rfl⟩ := hdepths s hs k hsk d harrives
    obtain ⟨form, -, hform⟩ := Option.map_eq_some_iff.mp hsk
    have hoffset : s.2.code.size = k.offset := congrArg Instruction.offset hform
    rw [hserved] at hs
    simpa [hoffset, hm] using List.all_eq_true.mp hall s hs
  rw [hasked] at his
  have hload : Arrives a.pool is.toList ⟨0, .aload0, .none⟩ 0 := .first (by simp [his]) rfl
  have hpush : Arrives a.pool is.toList ⟨1, .getstatic, .index i⟩ (0 + 1) :=
    hload.pass rfl (.follow hload.mem (by simp [his]) rfl rfl)
  obtain ⟨pushed, hpushed⟩ :=
    Option.isSome_iff_exists.mp (heffects _ (Array.mem_toList_iff.mp hpush.mem))
  have hcall : Arrives a.pool is.toList ⟨4, .invokeinterface, .interface j 3⟩ (0 + 1 + pushed) :=
    hpush.pass hpushed (.follow hpush.mem (by simp [his]) rfl rfl)
  obtain ⟨changed, hchanged⟩ :=
    Option.isSome_iff_exists.mp (heffects _ (Array.mem_toList_iff.mp hcall.mem))
  have htest : Arrives a.pool is.toList ⟨9, .ifeq, .target 19⟩ (0 + 1 + pushed + changed) :=
    hcall.pass hchanged (.follow hcall.mem (by simp [his]) rfl rfl)
  rw [hdepth _ _ 3 hcall (by cbv)] at hcall
  rw [hdepth _ _ 1 htest (by cbv)] at htest
  rw [hmax] at hgreatest
  exact ⟨a, code, j, is, hrun, hfinish, hdecode, hcall, htest,
    hgreatest ⟨_, _, _, _, hload, rfl, rfl⟩⟩

end StackGlyph
