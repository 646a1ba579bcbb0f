import StackGlyph.Bytecode.Assembler
import StackGlyph.Proofs.PoolGrowth

/-!
# Histories of requests to an assembler

The requests that an assembler serves, as data, so that statements can range over any sequence of
them. A history pairs each request with the assembler that it found. For each request there is the
one instruction that it asks for, said from the request and the constants' indices alone.
-/
namespace StackGlyph

/-- The slots of a value: two for a long or a double, one for all else, arrays of these included. -/
def FieldType.width (t : FieldType) : Nat :=
  if t.dims = 0 ∧ (t.element = .long ∨ t.element = .double) then 2 else 1

theorem FieldType.slots_eq_width (t : FieldType) : t.slots = t.width := by
  obtain ⟨dims, element⟩ := t
  cases dims with
  | zero => cases element <;> rfl
  | succ dims => rfl

namespace MethodType

/-- The slots of the parameters, each with its own, however many they are. -/
def ownSlots (m : MethodType) : Nat :=
  m.params.foldr (fun t n => t.width + n) 0

theorem resultSlots_eq (m : MethodType) :
    m.resultSlots = (m.result.map FieldType.width).getD 0 := by
  rw [resultSlots, funext FieldType.slots_eq_width]

theorem addSlots_eq_ok {counted slots n : Nat} (h : addSlots counted slots = .ok n) :
    counted + slots = n ∧ n ≤ 65535 := by
  unfold addSlots at h
  split at h
  · next hfits =>
    cases h
    exact ⟨rfl, hfits⟩
  · cases h

/-- Counting from `counted` on. Slots only add up, so a sum that fits has fitted all the way. -/
theorem foldlM_addSlots {params : List FieldType} {counted : Nat} (h : counted ≤ 65535) :
    params.foldlM (fun counted t => addSlots counted t.slots) counted =
      if counted + params.foldr (fun t n => t.width + n) 0 ≤ 65535 then
        .ok (counted + params.foldr (fun t n => t.width + n) 0)
      else .error .slotOverflow := by
  induction params generalizing counted with
  | nil =>
    rw [List.foldr_nil, Nat.add_zero, if_pos h]
    rfl
  | cons t params ih =>
    rw [List.foldlM_cons, List.foldr_cons, ← Nat.add_assoc, addSlots, t.slots_eq_width]
    by_cases hnext : counted + t.width ≤ 65535
    · rw [if_pos hnext]
      exact ih hnext
    · rw [if_neg hnext, if_neg (by omega)]
      rfl

/-- The count is the sum of the parameters' own slots as long as 16 bits hold it. -/
theorem paramSlots_eq (m : MethodType) :
    m.paramSlots = if m.ownSlots ≤ 65535 then .ok m.ownSlots else .error .slotOverflow := by
  rw [paramSlots, foldlM_addSlots (Nat.zero_le _), Nat.zero_add, ownSlots]

/-- Parameters are counted if and only if they fit 16 bits; the count is then their own. -/
theorem paramSlots_eq_ok {m : MethodType} {n : Nat} :
    m.paramSlots = .ok n ↔ m.ownSlots = n ∧ n ≤ 65535 := by
  rw [paramSlots_eq]
  split
  · next hfits =>
    constructor
    · rintro ⟨⟩
      exact ⟨rfl, hfits⟩
    · rintro ⟨rfl, -⟩
      rfl
  · next hover =>
    constructor
    · rintro ⟨⟩
    · rintro ⟨rfl, hfits⟩
      exact absurd hfits hover

end MethodType

/-- A request to an assembler. -/
inductive Request where
  | plain (op : Opcode)
  | load (slot : UInt8)
  | store (slot : UInt8)
  | pushInt (v : Int32)
  | loadConstant (v : Int32)
  | onType (op : Opcode) (className : String)
  | getStatic (owner name descriptor : String)
  | call (kind : CallKind) (owner name descriptor : String)
  | newLabel
  | jump (op : Opcode) (label : Nat)
  | bind (label : Nat)
  deriving DecidableEq, Repr

/-- A request with the assembler that it found. -/
abbrev Served := Request × Assembler

namespace Request

def perform : Request → Asm Unit
  | .plain op => Assembler.plain op
  | .load slot => Assembler.load slot
  | .store slot => Assembler.store slot
  | .pushInt v => Assembler.pushInt v
  | .loadConstant v => Assembler.loadConstant v
  | .onType op className => Assembler.onType op className
  | .getStatic owner name descriptor => Assembler.getStatic owner name descriptor
  | .call kind owner name descriptor => Assembler.call kind owner name descriptor
  | .newLabel => discard Assembler.newLabel
  | .jump op label => Assembler.jump op label
  | .bind label => Assembler.bind label

/-- Performs requests in order and stops at the first that fails. -/
def performAll : List Request → Asm Unit
  | [] => pure ()
  | r :: rest => do
    r.perform
    performAll rest

/-- The requests of a sequence, each with the assembler that it found. -/
def history (a : Assembler) : List Request → List Served
  | [] => []
  | r :: rest => (r, a) :: history (leftBy (r.perform a)) rest

/-- The constant that a request refers to, as the operation that puts it into the pool. -/
def constant? : Request → Option (PoolM UInt16)
  | .pushInt v => if -32768 ≤ v.toInt ∧ v.toInt ≤ 32767 then none else some (Pool.addInteger v)
  | .loadConstant v => some (Pool.addInteger v)
  | .onType _ className => some (Pool.addClass className)
  | .getStatic owner name descriptor => some (Pool.addMember .field owner name descriptor)
  | .call kind owner name descriptor =>
    some (Pool.addMember kind.memberKind owner name descriptor)
  | _ => none

def index (a : Assembler) (r : Request) : UInt16 :=
  match r.constant? with
  | none => 0
  | some add =>
    match add a.pool with
    | .ok i _ => i
    | .error _ _ => 0

/-- The slots that a call consumes, the receiver's included. -/
def consumed (kind : CallKind) (descriptor : String) : Nat :=
  match MethodType.parse descriptor with
  | .ok m => m.ownSlots + kind.receiverSlots
  | .error _ => 0

/-- The push of the constant at an index, given in one byte if it fits. -/
def indexedPush (i : UInt16) : Opcode × Operand :=
  if i ≤ 255 then (.ldc, .index i) else (.ldcW, .index i)

/-- The shortest push of a number; `i` is its index, if it has to come from the pool. -/
def shortestPush (v : Int) (i : UInt16) : Opcode × Operand :=
  if v = -1 then (.iconstM1, .none)
  else if v = 0 then (.iconst0, .none)
  else if v = 1 then (.iconst1, .none)
  else if v = 2 then (.iconst2, .none)
  else if v = 3 then (.iconst3, .none)
  else if v = 4 then (.iconst4, .none)
  else if v = 5 then (.iconst5, .none)
  else if -128 ≤ v ∧ v ≤ 127 then (.bipush, .value v)
  else if -32768 ≤ v ∧ v ≤ 32767 then (.sipush, .value v)
  else indexedPush i

/-- The access to a local slot: by the opcode of its own that it has in `short`, or with the slot as
operand. -/
def slotForm (short : List Opcode) (long : Opcode) (slot : UInt8) : Opcode × Operand :=
  match short[slot.toNat]? with
  | some op => (op, .none)
  | none => (long, .slot slot)

/-- The opcode and operand that a request asks for; labels ask for none. `target` tells where each
label stands. -/
def form? (target : Nat → Nat) (a : Assembler) (r : Request) : Option (Opcode × Operand) :=
  match r with
  | .plain op => some (op, .none)
  | .load slot => some (slotForm [.aload0, .aload1, .aload2, .aload3] .aload slot)
  | .store slot => some (slotForm [.astore0, .astore1, .astore2, .astore3] .astore slot)
  | .pushInt v => some (shortestPush v.toInt (r.index a))
  | .loadConstant _ => some (indexedPush (r.index a))
  | .onType op _ => some (op, .index (r.index a))
  | .getStatic _ _ _ => some (.getstatic, .index (r.index a))
  | .call kind _ _ descriptor =>
    if kind = .interface then
      some (kind.opcode, .interface (r.index a) (consumed kind descriptor).toUInt8)
    else some (kind.opcode, .index (r.index a))
  | .jump op label => some (op, .target (target label))
  | .newLabel | .bind _ => none

def instruction? (target : Nat → Nat) (s : Served) : Option Instruction :=
  (s.1.form? target s.2).map fun (op, operand) => ⟨s.2.code.size, op, operand⟩

end Request

/-- Where a history binds a label. -/
def boundAt (served : List Served) (label : Nat) : Option Nat :=
  served.reverse.findSome? fun (r, a) => if r = .bind label then some a.code.size else none

end StackGlyph
