import StackGlyph.Compile.ClassName
import StackGlyph.Compile.Settings
import StackGlyph.FileTree
import StackGlyph.Glyph.MainMethod

/-!
# Compilation

A program text becomes a class: a constructor, the routines of the six commands, and a main method.
The class is complete before anything is written, so a compilation that fails leaves no file.

Source pin: Kemuri specification §6 (artifact assembler and entry points), with the order of its
checks from §6.1 (preconditions).
-/
namespace StackGlyph

inductive CompileError where
  | invalidName (name : String) (reason : NameFault)
  | notADirectory (path : String)
  | tooManyCommands (limit : Nat)
  /-- The configuration is not sound, for this reason. -/
  | configuration (reason : String)
  | fault (cause : Fault)
  | file (cause : FileFault)
  deriving DecidableEq, Repr

def CompileError.message : CompileError → String
  | .invalidName name reason =>
    "nom de classe invalide " ++ Text.quoted name ++ ": " ++ reason.message
  | .notADirectory path => "pas un répertoire: " ++ path
  | .tooManyCommands limit => s!"plus de {limit} commandes"
  | .configuration reason => "configuration invalide: " ++ reason
  | .fault cause => cause.message
  | .file cause => "E/S: " ++ cause.message

/-- The messages of an error and of what caused it, outermost first. -/
def CompileError.chain : CompileError → List String
  | .file cause => [CompileError.message (.file cause), cause.message]
  | e => [e.message]

structure CompiledClass where
  name : ClassName
  bytes : List UInt8
  diagnostics : List Diagnostic
  deriving DecidableEq, Repr

namespace Compile

/-- A class name, or the error that a compilation reports instead. -/
def nameOf (text : String) : Except CompileError ClassName :=
  match ClassName.parse text with
  | .ok name => .ok name
  | .error reason => .error (.invalidName text reason)

/-- A class with its constructor and routines, still without main method. -/
def scaffold (name : ClassName) : Except CompileError ClassDraft :=
  let access := Access.isPublic ||| Access.isSuper
  match ClassDraft.create name.internal Routines.objectClass access with
  | .error cause => .error (.fault cause)
  | .ok draft =>
    match Routines.declare draft with
    | .error cause _ => .error (.fault cause)
    | .ok () draft => .ok draft

/-- Adds the main method. A limit on commands that is exceeded counts only if the method, cut short
there, could be added. -/
def addMain (settings : Settings) (name : ClassName) (source : List Char) (draft : ClassDraft) :
    Except CompileError (MainMethod.Tally × ClassDraft) :=
  match ClassDraft.method (Access.isPublic ||| Access.isStatic) "main" MainMethod.descriptor
      (MainMethod.body name.internal settings.maxCommands source) draft with
  | .error cause _ => .error (.fault cause)
  | .ok (.error limit) _ => .error (.tooManyCommands limit)
  | .ok (.ok tally) draft => .ok (tally, draft)

/-- Records the source file, if one is set. -/
def addSourceFile (settings : Settings) (draft : ClassDraft) : Except CompileError ClassDraft :=
  match settings.sourceFile with
  | none => .ok draft
  | some file =>
    match ClassDraft.setSourceFile file draft with
    | .error cause _ => .error (.fault cause)
    | .ok () draft => .ok draft

/-- Everything that a program becomes, short of its bytes. -/
structure Result where
  name : ClassName
  tally : MainMethod.Tally
  draft : ClassDraft

/-- Builds the class of a program under a dotted name. -/
def build (settings : Settings) (source : List Char) (name : String) :
    Except CompileError Result := do
  let name ← nameOf name
  let draft ← scaffold name
  let (tally, draft) ← addMain settings name source draft
  let draft ← addSourceFile settings draft
  return { name, tally, draft }

def Result.compiled (r : Result) : CompiledClass :=
  ⟨r.name, r.draft.bytes, r.tally.diagnostics⟩

def compile (settings : Settings) (source : List Char) (name : String) :
    Except CompileError CompiledClass := do
  return (← build settings source name).compiled

/-- Compiles a program given as bytes. The name is checked before the bytes are read as text. -/
def compileBytes (settings : Settings) (source : List UInt8) (name : String) :
    Except CompileError CompiledClass := do
  discard <| nameOf name
  match FileTree.textOf source with
  | .error cause => throw (.file cause)
  | .ok text => compile settings text.toList name

/-- Compiles a program into a directory, which must exist, and gives the path of the class file and
the class. The file is the last thing that is done, and is written in the given way. -/
def compileVia (write : FileTree.Writer) (settings : Settings) (source : List Char)
    (name directory : String) : EStateM CompileError FileTree (String × CompiledClass) := fun t =>
  if !t.isDirectory directory then .error (.notADirectory directory) t
  else match compile settings source name with
    | .error e => .error e t
    | .ok c =>
      let path := FileTree.join directory c.name.fileName
      match write path c.bytes t with
      | .error cause t => .error (.file cause) t
      | .ok () t => .ok (path, c) t

/-- Compiles a program into a directory of a tree: gives the path of the class file, the class, and
the tree with the file in it. -/
def compileTo (settings : Settings) (source : List Char) (name directory : String) (t : FileTree) :
    Except CompileError (String × CompiledClass × FileTree) :=
  match compileVia FileTree.write settings source name directory t with
  | .error e _ => .error e
  | .ok (path, c) t => .ok (path, c, t)

end Compile

end StackGlyph
