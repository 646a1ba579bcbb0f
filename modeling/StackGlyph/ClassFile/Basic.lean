import StackGlyph.Bytecode.Assembler

/-!
# Class files

A class as read from its bytes. Fields, interfaces and attributes other than the code of methods and
the name of the source file are not kept.

Source pin: Kemuri specification §3.6 (class reader), the model of a class that is read.
-/
namespace StackGlyph

structure Method where
  access : UInt16
  name : String
  descriptor : String
  code : Option Code
  deriving DecidableEq, Repr

structure ClassFile where
  minorVersion : UInt16
  majorVersion : UInt16
  pool : Pool
  access : UInt16
  /-- The index of this class. -/
  thisClass : UInt16
  /-- The index of its superclass. -/
  superClass : UInt16
  methods : List Method
  sourceFile : Option String

namespace ClassFile

/-- The first four bytes of every class file. -/
def magic : UInt32 := 0xCAFEBABE

/-- The version that is written: 49.0. -/
def writtenMinor : UInt16 := 0

def writtenMajor : UInt16 := 49

def name (c : ClassFile) : Except Fault String :=
  c.pool.classNameAt c.thisClass

def superName (c : ClassFile) : Except Fault String :=
  c.pool.classNameAt c.superClass

/-- The first method with this name and descriptor. -/
def method? (c : ClassFile) (name descriptor : String) : Option Method :=
  c.methods.find? fun m => m.name = name ∧ m.descriptor = descriptor

end ClassFile

end StackGlyph
