import StackGlyph.Bytecode.Instruction
import StackGlyph.Descriptor
import StackGlyph.Pool.Basic

/-!
# Assembling the code of a method

Instructions are appended one by one, while the assembler keeps the depth of the operand stack, the
greatest depth reached, the local slots in use, and the labels with the jumps to them. After a
`goto` or a `return` the depth is unknown until a label with a known depth is bound. `finish`
resolves the jumps.

A request that fails keeps what it did before it failed: constants added, an opcode byte appended, a
label bound. Every operation therefore returns the assembler it leaves behind.

Source pin: Kemuri specification §3.4 (code builder); the bound on the length of code is that of
JVMS §4.7.3. The slots of parameters are counted in 16 bits, and a count beyond them fails the
request.
-/
namespace StackGlyph

/-- The code of a method as its class file holds it. -/
structure Code where
  maxStack : Nat
  maxLocals : Nat
  bytes : List UInt8
  deriving DecidableEq, Repr

/-- Where a label is bound and which depth it expects, as far as known. -/
structure LabelState where
  offset : Option Nat := none
  depth : Option Nat := none
  deriving DecidableEq, Repr

/-- A jump whose distance is still open: the offset of its opcode, the offset at which its distance
is written, and the label it leads to. -/
structure Jump where
  origin : Nat
  patch : Nat
  label : Nat
  deriving DecidableEq, Repr

structure Assembler where
  pool : Pool
  code : Array UInt8 := #[]
  /-- The depth of the operand stack; nothing where control does not arrive. -/
  depth : Option Nat := some 0
  maxStack : Nat := 0
  maxLocals : Nat := 0
  labels : Array LabelState := #[]
  jumps : Array Jump := #[]

abbrev Asm := EStateM Fault Assembler

inductive CallKind where
  | static | virtual | special | interface
  deriving DecidableEq, Repr

namespace CallKind

def opcode : CallKind → Opcode
  | .static => .invokestatic
  | .virtual => .invokevirtual
  | .special => .invokespecial
  | .interface => .invokeinterface

def memberKind : CallKind → MemberKind
  | .interface => .interfaceMethod
  | _ => .method

def receiverSlots : CallKind → Nat
  | .static => 0
  | _ => 1

end CallKind

namespace Assembler

def maxCodeLength : Nat := 65535

def maxDepth : Nat := 65535

/-- An assembler for a method whose parameters, with the receiver if it has one, take `slots`. -/
def start (pool : Pool) (slots : Nat) : Assembler :=
  { pool, maxLocals := slots }

def onPool {α : Type} (x : PoolM α) : Asm α := fun a =>
  let pool := a.pool
  let a := { a with pool := Pool.empty }
  match x pool with
  | .ok v pool => .ok v { a with pool }
  | .error e pool => .error e { a with pool }

def append (bytes : List UInt8) : Asm Unit :=
  modify fun a => { a with code := a.code ++ bytes }

/-- Changes a known depth by `delta`; `offset` is where the change happens. -/
def adjust (delta : Int) (offset : Nat) : Asm Unit := fun a =>
  match a.depth with
  | none => .ok () a
  | some d =>
    let next := d + delta
    if next < 0 then .error (.stackUnderflow offset) a
    else if maxDepth < next then .error (.stackOverflow offset) a
    else .ok () { a with depth := some next.toNat, maxStack := max a.maxStack next.toNat }

/-- Appends an opcode byte, then changes the depth; the change happens at that byte. -/
def emit (op : Opcode) (delta : Int) : Asm Unit := do
  append [op.byte]
  adjust delta ((← get).code.size - 1)

/-- Forgets the depth after an opcode that passes control nowhere. -/
def close (op : Opcode) : Asm Unit :=
  if op.endsBlock then modify fun a => { a with depth := none } else pure ()

def useLocal (slot : UInt8) : Asm Unit :=
  modify fun a => { a with maxLocals := max a.maxLocals (slot.toNat + 1) }

/-- An instruction that is an opcode alone. -/
def plain (op : Opcode) : Asm Unit :=
  match op.layout, op.stackDelta with
  | .bare, some delta => do
    emit op delta
    close op
  | _, _ => throw (.misused op .needsOperand)

/-- Pushes the reference in a local slot; slots 0 to 3 have opcodes of their own. -/
def load (slot : UInt8) : Asm Unit := do
  match [Opcode.aload0, .aload1, .aload2, .aload3][slot.toNat]? with
  | some op => emit op 1
  | none => do
    emit .aload 1
    append [slot]
  useLocal slot

/-- Pops a reference into a local slot; slots 0 to 3 have opcodes of their own. -/
def store (slot : UInt8) : Asm Unit := do
  match [Opcode.astore0, .astore1, .astore2, .astore3][slot.toNat]? with
  | some op => emit op (-1)
  | none => do
    emit .astore (-1)
    append [slot]
  useLocal slot

/-- Pushes a number from the constant pool. -/
def loadConstant (v : Int32) : Asm Unit := do
  let i ← onPool (Pool.addInteger v)
  if i ≤ 255 then
    emit .ldc 1
    append [i.toUInt8]
  else
    emit .ldcW 1
    append (Word.bytes16 i)

/-- The opcode that pushes a number from -1 to 5. -/
def smallConstant? (v : Int) : Option Opcode :=
  if -1 ≤ v then
    [Opcode.iconstM1, .iconst0, .iconst1, .iconst2, .iconst3, .iconst4, .iconst5][(v + 1).toNat]?
  else none

/-- Pushes a number in its shortest form. -/
def pushInt (v : Int32) : Asm Unit :=
  match smallConstant? v.toInt with
  | some op => emit op 1
  | none =>
    if -128 ≤ v.toInt ∧ v.toInt ≤ 127 then do
      emit .bipush 1
      append [(v.toInt % 0x100).toNat.toUInt8]
    else if -32768 ≤ v.toInt ∧ v.toInt ≤ 32767 then do
      emit .sipush 1
      append (Word.bytes16 (v.toInt % 0x10000).toNat.toUInt16)
    else loadConstant v

/-- `new` or `checkcast` of a class, by its internal name. -/
def onType (op : Opcode) (className : String) : Asm Unit :=
  match op with
  | .new | .checkcast => do
    let i ← onPool (Pool.addClass className)
    emit op (op.stackDelta.getD 0)
    append (Word.bytes16 i)
  | _ => throw (.misused op .notOnTypes)

/-- Pushes a static field. -/
def getStatic (owner name descriptor : String) : Asm Unit := do
  let t ← ofExcept (FieldType.parse descriptor)
  let i ← onPool (Pool.addMember .field owner name descriptor)
  emit .getstatic t.slots
  append (Word.bytes16 i)

/-- Calls a method. Its arguments, and its receiver if it has one, must be on the stack. -/
def call (kind : CallKind) (owner name descriptor : String) : Asm Unit := do
  let m ← ofExcept (MethodType.parse descriptor)
  let slots ← ofExcept m.paramSlots
  let consumed := slots + kind.receiverSlots
  let i ← onPool (Pool.addMember kind.memberKind owner name descriptor)
  let a ← get
  if a.depth.any (· < consumed) then throw (.stackUnderflow a.code.size)
  emit kind.opcode (m.resultSlots - consumed)
  append (Word.bytes16 i)
  if kind = .interface then
    if 255 < consumed then throw (.misused kind.opcode .tooManyArguments)
    append [consumed.toUInt8, 0]

def newLabel : Asm Nat :=
  modifyGet fun a => (a.labels.size, { a with labels := a.labels.push {} })

/-- Checks a depth against what a label expects, and notes it if nothing was expected so far. Gives
the depth that holds at the label. -/
def mergeDepth (label : Nat) (depth : Option Nat) : Asm (Option Nat) := fun a =>
  let state := a.labels.getD label {}
  match state.depth, depth with
  | some expected, some found =>
    if expected = found then .ok (some expected) a
    else .error (.labelDepth label expected found) a
  | some expected, none => .ok (some expected) a
  | none, some found =>
    .ok (some found)
      { a with labels := a.labels.setIfInBounds label { state with depth := some found } }
  | none, none => .ok none a

/-- A branch to a label. Its distance stays open until all labels are known. -/
def jump (op : Opcode) (label : Nat) : Asm Unit := do
  if !op.isBranch then throw (.misused op .notABranch)
  let origin := (← get).code.size
  emit op (op.stackDelta.getD 0)
  let _ ← mergeDepth label (← get).depth
  let patch := (← get).code.size
  append [0, 0]
  modify fun a => { a with jumps := a.jumps.push ⟨origin, patch, label⟩ }
  close op

/-- Binds a label to the current offset. -/
def bind (label : Nat) : Asm Unit := do
  let state := (← get).labels.getD label {}
  if state.offset.isSome then throw (.labelRebound label)
  modify fun a =>
    { a with labels := a.labels.setIfInBounds label { state with offset := some a.code.size } }
  let depth ← mergeDepth label (← get).depth
  modify fun a => { a with depth }

/-- Writes the distance of one jump into the code. -/
def resolve (labels : Array LabelState) (code : Array UInt8) (j : Jump) :
    Except Fault (Array UInt8) :=
  match (labels.getD j.label {}).offset with
  | none => .error (.labelUnbound j.label)
  | some target =>
    let distance := (target : Int) - j.origin
    if -32768 ≤ distance ∧ distance ≤ 32767 then
      let w := (distance % 0x10000).toNat
      .ok ((code.setIfInBounds j.patch (w / 0x100).toUInt8).setIfInBounds (j.patch + 1)
        (w % 0x100).toUInt8)
    else .error (.branchOutOfRange distance)

/-- Resolves the jumps in the order in which they were made and gives the code. -/
def finish (a : Assembler) : Except Fault Code := do
  let code ← a.jumps.toList.foldlM (resolve a.labels) a.code
  if maxCodeLength < code.size then throw (.codeTooLarge code.size)
  return ⟨a.maxStack, a.maxLocals, code.toList⟩

end Assembler

end StackGlyph
