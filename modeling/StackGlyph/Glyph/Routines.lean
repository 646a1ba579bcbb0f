import StackGlyph.ClassFile.Draft
import StackGlyph.Glyph.Semantics

/-!
# Routines

The code of the six commands, as static methods on a queue whose front is the top of the stack. A
cell is a boxed character. Every compiled class declares a constructor and these routines.

Source pin: Kemuri specification §4 (runtime primitive library).
-/
namespace StackGlyph.Routines

open Assembler

def dequeClass : String := "java/util/Deque"
def characterClass : String := "java/lang/Character"
def objectClass : String := "java/lang/Object"

/-- The descriptor of a routine: it takes the stack of cells and gives nothing. -/
def descriptor : String := "(Ljava/util/Deque;)V"

/-- Calls the queue's `pop`: a queue becomes its former front. -/
def popCell : Asm Unit :=
  call .interface dequeClass "pop" "()Ljava/lang/Object;"

/-- Calls the queue's `push`: a queue and a cell disappear. -/
def pushCell : Asm Unit :=
  call .interface dequeClass "push" "(Ljava/lang/Object;)V"

/-- A queue becomes the number in its former front. -/
def popUnit : Asm Unit := do
  popCell
  onType .checkcast characterClass
  call .virtual characterClass "charValue" "()C"

/-- A queue and a number disappear; the number is boxed and pushed. -/
def pushUnit : Asm Unit := do
  call .static characterClass "valueOf" "(C)Ljava/lang/Character;"
  pushCell

def dup : Asm Unit := do
  load 0
  plain .dup
  popCell
  plain .dup2
  pushCell
  pushCell
  plain .ret

/-- Pushes the greeting from its last unit to its first, so that the first ends on top. -/
def hello : Asm Unit := do
  load 0
  (Text.Utf16.units greeting).reverse.forM fun unit => do
    plain .dup
    pushInt (Int32.ofNat unit.toNat)
    pushUnit
  plain .pop
  plain .ret

/-- Replaces a cell by its difference from 255, reduced to 16 bits. -/
def not : Asm Unit := do
  load 0
  plain .dup
  popUnit
  plain .ineg
  pushInt 255
  plain .iadd
  plain .i2c
  pushUnit
  plain .ret

/-- Moves the three top cells into slots 1 to 3, top first, and pushes them back: the former top
lowest, the former second on top. -/
def rot : Asm Unit := do
  load 0
  [1, 2, 3].forM fun slot => do
    plain .dup
    popCell
    store slot
  [1, 3, 2].forM fun slot => do
    plain .dup
    load slot
    pushCell
  plain .pop
  plain .ret

def xor : Asm Unit := do
  load 0
  plain .dup
  plain .dup
  popUnit
  plain .swap
  popUnit
  plain .ixor
  pushUnit
  plain .ret

/-- Pops and prints cells until the queue is empty. -/
def print : Asm Unit := do
  let top ← newLabel
  let done ← newLabel
  Assembler.bind top
  load 0
  call .interface dequeClass "isEmpty" "()Z"
  jump .ifne done
  getStatic "java/lang/System" "out" "Ljava/io/PrintStream;"
  load 0
  popUnit
  call .virtual "java/io/PrintStream" "print" "(C)V"
  jump .goto top
  Assembler.bind done
  plain .ret

def body : Command → Asm Unit
  | .dup => dup
  | .print => print
  | .hello => hello
  | .not => not
  | .rot => rot
  | .xor => xor

def constructor : Asm Unit := do
  load 0
  call .special objectClass "<init>" "()V"
  plain .ret

def declare : DraftM Unit := do
  ClassDraft.method Access.isPublic "<init>" "()V" constructor
  Command.all.forM fun c =>
    ClassDraft.method (Access.isPrivate ||| Access.isStatic) c.name descriptor (body c)

end StackGlyph.Routines
