import StackGlyph.ClassFile.Access
import StackGlyph.ClassFile.Reader

/-!
# Listings

The text form of a class for human readers: a header, then each method with its instructions, one a
line. References to constants are looked up and shown as a comment.

Source pin: Kemuri specification §3.7 (disassembler).
-/
namespace StackGlyph.Listing

def commentColumn : Nat := 28

def invalid : String := "<invalid>"

/-- The comment on the constant at an index. -/
def describe (pool : Pool) (i : UInt16) : String :=
  match pool.get? i with
  | some (.integer v) => s!"int {v}"
  | some (.string value) =>
    match pool.textAt value with
    | .ok s => "String " ++ Text.quoted s
    | .error _ => invalid
  | some (.type _) =>
    match pool.classNameAt i with
    | .ok name => "class " ++ name
    | .error _ => invalid
  | some (.member kind _ _) =>
    match pool.memberAt i with
    | .ok m =>
      let word := match kind with
        | .field => "Field"
        | .method => "Method"
        | .interfaceMethod => "InterfaceMethod"
      word ++ " " ++ m.owner ++ "." ++ m.name ++ ":" ++ m.descriptor
    | .error _ => invalid
  | some c => c.describe
  | none => invalid

/-- An instruction: its offset, its mnemonic, its operand, and a comment if it names a constant. -/
def instruction (pool : Pool) (i : Instruction) : String :=
  let head := Text.alignRight 4 (toString i.offset) ++ ": " ++ i.op.mnemonic
  let remark (line : String) (k : UInt16) : String :=
    Text.alignLeft commentColumn line ++ " // " ++ describe pool k
  match i.operand with
  | .none => head
  | .value v => s!"{head} {v}"
  | .slot n => s!"{head} {n}"
  | .target t => s!"{head} {t}"
  | .index k => remark s!"{head} #{k}" k
  | .interface k count => remark s!"{head} #{k}, {count}" k

/-- The lines of a method, each ended by a line feed. -/
def method (pool : Pool) (m : Method) : Except Fault (List String) := do
  let flags := Access.describe m.access
  let title := (if flags.isEmpty then "" else flags ++ " ") ++ m.name ++ m.descriptor ++ "\n"
  match m.code with
  | none => return ["\n", title]
  | some code =>
    let instructions ← Instruction.decode code.bytes
    let limits := s!"  Code: stack={code.maxStack}, locals={code.maxLocals}\n"
    return "\n" :: title :: limits ::
      instructions.toList.map fun i => "    " ++ instruction pool i ++ "\n"

def render (c : ClassFile) : Except Fault String := do
  let name ← c.name
  let superName ← c.superName
  let title := s!"class {name} extends {superName}\n"
  let counts := s!"  version: {c.majorVersion}.{c.minorVersion}   constants: {c.pool.size}" ++
    s!"   methods: {c.methods.length}\n"
  let source := match c.sourceFile with
    | some file => [s!"  source: {file}\n"]
    | none => []
  let methods ← c.methods.mapM (method c.pool)
  return String.join (title :: counts :: source ++ methods.flatten)

end StackGlyph.Listing
