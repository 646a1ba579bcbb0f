import StackGlyph.ClassFile.Basic

/-!
# Reading class files

A cursor over the input holds what is still to be read and the offset of its first byte. A field
that does not fit in what is left is a truncation at its own offset. Bytes after the class are
ignored.

Source pin: Kemuri specification §3.6 (class reader).
-/
namespace StackGlyph

structure Cursor where
  rest : List UInt8
  offset : Nat

/-- A reader consumes a part of the input or finds a fault. -/
abbrev Reader (α : Type) := StateT Cursor (Except Fault) α

namespace Reader

def take (n : Nat) : Reader (List UInt8) := fun c =>
  let (taken, rest) := c.rest.splitAt n
  if taken.length = n then .ok (taken, ⟨rest, c.offset + n⟩) else .error (.truncated c.offset)

def byte : Reader UInt8 := fun c =>
  match c.rest with
  | a :: rest => .ok (a, ⟨rest, c.offset + 1⟩)
  | _ => .error (.truncated c.offset)

def word : Reader UInt16 := fun c =>
  match c.rest with
  | a :: b :: rest => .ok (Word.join16 a b, ⟨rest, c.offset + 2⟩)
  | _ => .error (.truncated c.offset)

def doubleWord : Reader UInt32 := fun c =>
  match c.rest with
  | a :: b :: d :: e :: rest => .ok (Word.join32 a b d e, ⟨rest, c.offset + 4⟩)
  | _ => .error (.truncated c.offset)

/-- Runs a reader `n` times, given the number of the turn, and collects what it gives. -/
def collect {α : Type} (item : Nat → Reader α) (turn : Nat) (found : Array α) :
    Nat → Reader (List α)
  | 0 => pure found.toList
  | n + 1 => do
    let v ← item turn
    collect item (turn + 1) (found.push v) n

def many {α : Type} (n : Nat) (item : Reader α) : Reader (List α) :=
  collect (fun _ => item) 0 #[] n

/-- The content of a constant with a given tag; `index` is the place of the constant in the pool. -/
def constant (index : Nat) : Reader Constant := do
  let tag ← byte
  if tag = 1 then
    let encoded ← take (← word).toNat
    match Text.ModifiedUtf8.decode encoded with
    | .ok s => return .text s
    | .error cause => throw (.badText cause)
  else if tag = 3 then return .integer (← doubleWord).toInt32
  else if tag = 7 then return .type (← word)
  else if tag = 8 then return .string (← word)
  else if tag = 9 then return .member .field (← word) (← word)
  else if tag = 10 then return .member .method (← word) (← word)
  else if tag = 11 then return .member .interfaceMethod (← word) (← word)
  else if tag = 12 then return .signature (← word) (← word)
  else throw (.unsupportedConstant tag index)

/-- A constant pool: a count that includes the unused index 0, then the entries. -/
def pool : Reader Pool := do
  let count ← word
  let entries ← collect constant 1 #[] (count.toNat - 1)
  ofExcept (Pool.ofEntries entries.toArray)

/-- An attribute's name and its content, with the offset of the content. -/
def attr {α : Type} (name : UInt16 → Except Fault α) : Reader (α × Cursor) := do
  let name ← ofExcept (name (← word))
  let size ← doubleWord
  let start := (← get).offset
  let content ← take size.toNat
  return (name, ⟨content, start⟩)

/-- Passes over a list of attributes, whatever they are. -/
def skipAttributes : Reader Unit := do
  let count ← word
  discard <| many count.toNat (attr fun _ => .ok ())

/-- The content of a code attribute: limits, code, handlers, attributes. Bytes after them are
ignored. -/
def code : Reader Code := do
  let maxStack ← word
  let maxLocals ← word
  let size ← doubleWord
  let bytes ← take size.toNat
  let handlers ← word
  discard <| take (handlers.toNat * 8)
  skipAttributes
  return ⟨maxStack.toNat, maxLocals.toNat, bytes⟩

/-- A field, which is not kept. -/
def field : Reader Unit := do
  discard <| take 6
  skipAttributes

/-- The code among the attributes of a method; of several, the last. -/
def methodAttributes (pool : Pool) (found : Option Code) : Nat → Reader (Option Code)
  | 0 => pure found
  | n + 1 => do
    let (name, content) ← attr pool.textAt
    if name = "Code" then
      let (code, _) ← ofExcept (code content)
      methodAttributes pool (some code) n
    else methodAttributes pool found n

def method (pool : Pool) : Reader Method := do
  let access ← word
  let name ← ofExcept (pool.textAt (← word))
  let descriptor ← ofExcept (pool.textAt (← word))
  let count ← word
  let code ← methodAttributes pool none count.toNat
  return { access, name, descriptor, code }

/-- The name of the source file among the attributes of a class; of several, the last. An attribute
that does not hold exactly one index says nothing. -/
def classAttributes (pool : Pool) (found : Option String) : Nat → Reader (Option String)
  | 0 => pure found
  | n + 1 => do
    let (name, content) ← attr pool.textAt
    match name, content.rest with
    | "SourceFile", [a, b] =>
      let source ← ofExcept (pool.textAt (Word.join16 a b))
      classAttributes pool (some source) n
    | _, _ => classAttributes pool found n

def classFile : Reader ClassFile := do
  let magic ← doubleWord
  if magic ≠ ClassFile.magic then throw (.badMagic magic)
  let minorVersion ← word
  let majorVersion ← word
  let pool ← pool
  let access ← word
  let thisClass ← word
  let superClass ← word
  let interfaces ← word
  discard <| take (interfaces.toNat * 2)
  let fields ← word
  discard <| many fields.toNat field
  let methodCount ← word
  let methods ← many methodCount.toNat (method pool)
  let attributes ← word
  let sourceFile ← classAttributes pool none attributes.toNat
  return { minorVersion, majorVersion, pool, access, thisClass, superClass, methods, sourceFile }

end Reader

/-- Reads the class at the head of a byte sequence. -/
def ClassFile.parse (bytes : List UInt8) : Except Fault ClassFile := do
  let (c, _) ← Reader.classFile ⟨bytes, 0⟩
  return c

end StackGlyph
