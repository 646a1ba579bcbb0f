import StackGlyph.ClassFile.Access
import StackGlyph.ClassFile.Basic

/-!
# Drafting a class

A class under construction: its constant pool, its methods, and the name of its source file. A
method that fails leaves its constants in the pool and declares nothing. `bytes` is the class file
of a draft at any time.

Source pin: Kemuri specification §3.5 (class writer); the order of the parts is that of JVMS §4.1.
-/
namespace StackGlyph

structure DraftMethod where
  access : UInt16
  /-- Indices of the texts of name and descriptor. -/
  name : UInt16
  descriptor : UInt16
  code : Code

structure ClassDraft where
  pool : Pool
  access : UInt16
  thisClass : UInt16
  superClass : UInt16
  methods : Array DraftMethod := #[]
  /-- The index of the text `Code`, once a method was declared. -/
  codeName : UInt16 := 0
  /-- The indices of the text `SourceFile` and of the name of the source file. -/
  sourceFile : Option (UInt16 × UInt16) := none

abbrev DraftM := EStateM Fault ClassDraft

namespace ClassDraft

def maxMethods : Nat := 65535

/-- A class without methods, by the internal names of itself and of its superclass. -/
def create (name superName : String) (access : UInt16) : Except Fault ClassDraft :=
  let declare : PoolM (UInt16 × UInt16) := do
    let thisClass ← Pool.addClass name
    let superClass ← Pool.addClass superName
    return (thisClass, superClass)
  match declare Pool.empty with
  | .ok (thisClass, superClass) pool => .ok { pool, access, thisClass, superClass }
  | .error e _ => .error e

def onPool {α : Type} (x : PoolM α) : DraftM α := fun d =>
  let pool := d.pool
  let d := { d with pool := Pool.empty }
  match x pool with
  | .ok v pool => .ok v { d with pool }
  | .error e pool => .error e { d with pool }

def setSourceFile (name : String) : DraftM Unit := do
  let attr ← onPool (Pool.addText "SourceFile")
  let text ← onPool (Pool.addText name)
  modify fun d => { d with sourceFile := some (attr, text) }

/-- Runs a body on a fresh assembler over the pool and finishes its code. -/
def assemble {α : Type} (slots : Nat) (body : Asm α) : PoolM (α × Code) := fun pool =>
  match body (Assembler.start pool slots) with
  | .error e a => .error e a.pool
  | .ok v a =>
    match a.finish with
    | .error e => .error e a.pool
    | .ok code => .ok (v, code) a.pool

/-- The slots of a method's parameters, with the receiver's if it has one. -/
def parameterSlots (access : UInt16) (m : MethodType) : Except Fault Nat := do
  MethodType.addSlots (← m.paramSlots) (if Access.has access Access.isStatic then 0 else 1)

/-- Declares a method with code that is at hand. -/
def declare (access : UInt16) (name descriptor : String) (code : Code) : DraftM Unit := do
  let codeName ← onPool (Pool.addText "Code")
  modify fun d => { d with codeName }
  let name ← onPool (Pool.addText name)
  let descriptor ← onPool (Pool.addText descriptor)
  let declared := (← get).methods.size
  if maxMethods ≤ declared then throw (.tooManyMethods (declared + 1))
  modify fun d => { d with methods := d.methods.push { access, name, descriptor, code } }

/-- Declares a method with the code that `body` assembles, and gives what `body` gives. -/
def method {α : Type} (access : UInt16) (name descriptor : String) (body : Asm α) : DraftM α := do
  let m ← ofExcept (MethodType.parse descriptor)
  let slots ← ofExcept (parameterSlots access m)
  let (v, code) ← onPool (assemble slots body)
  declare access name descriptor code
  return v

/-- The bytes of a method, whose only attribute is its code. -/
def methodBytes (codeName : UInt16) (m : DraftMethod) : List UInt8 :=
  let size := m.code.bytes.length
  Word.bytes16 m.access ++ Word.bytes16 m.name ++ Word.bytes16 m.descriptor ++ Word.bytes16 1
    ++ Word.bytes16 codeName ++ Word.bytes32 (12 + size).toUInt32
    ++ Word.bytes16 m.code.maxStack.toUInt16 ++ Word.bytes16 m.code.maxLocals.toUInt16
    ++ Word.bytes32 size.toUInt32 ++ m.code.bytes ++ Word.bytes16 0 ++ Word.bytes16 0

def attributeBytes : Option (UInt16 × UInt16) → List UInt8
  | some (attr, text) =>
    Word.bytes16 1 ++ Word.bytes16 attr ++ Word.bytes32 2 ++ Word.bytes16 text
  | none => Word.bytes16 0

def bytes (d : ClassDraft) : List UInt8 :=
  Word.bytes32 ClassFile.magic ++ Word.bytes16 ClassFile.writtenMinor
    ++ Word.bytes16 ClassFile.writtenMajor ++ d.pool.bytes
    ++ Word.bytes16 d.access ++ Word.bytes16 d.thisClass ++ Word.bytes16 d.superClass
    ++ Word.bytes16 0 ++ Word.bytes16 0
    ++ Word.bytes16 d.methods.size.toUInt16 ++ d.methods.toList.flatMap (methodBytes d.codeName)
    ++ attributeBytes d.sourceFile

end ClassDraft

end StackGlyph
