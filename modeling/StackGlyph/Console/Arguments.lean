import StackGlyph.Text.Number

/-!
# Command-line arguments

The program is called with one of three requests and its options. Options are long, with a value
after an equals sign or in the next argument, or short, several of them after one dash. After `--`
every argument is a value.

Source pin: Kemuri specification §7.4 (command line). The texts of help and usage are left out.
-/
namespace StackGlyph.Console

structure BuildOptions where
  /-- The program text's file; nothing or `-` for the standard input. -/
  input : Option String := none
  name : Option String := none
  directory : String := "."
  config : Option String := none
  sourceFile : Option String := none
  allowUnknown : Bool := false
  maxCommands : Option Nat := none
  quiet : Bool := false
  deriving DecidableEq, Repr

inductive Request where
  | build (options : BuildOptions)
  | list (file : String)
  | run (file : String) (maxSteps : Nat)
  deriving DecidableEq, Repr

structure Invocation where
  /-- How much of the journal is shown. -/
  verbosity : Nat
  request : Request
  deriving DecidableEq, Repr

inductive Refusal where
  /-- They are not understood. -/
  | usage
  /-- They ask for the version. -/
  | version
  /-- They ask for help. -/
  | help
  deriving DecidableEq, Repr

/-- The options that are understood in one place. -/
structure Grammar where
  /-- Flags by long name, with their letters. -/
  flags : List (String × Option Char)
  /-- Options with a value. -/
  options : List String
  /-- Options whose value is a size. -/
  sizes : List String
  /-- The largest number of plain arguments. -/
  maxPlain : Nat

/-- What was found among arguments. -/
structure Found where
  flags : List String := []
  values : List (String × String) := []
  plain : List String := []

def Found.count (f : Found) (flag : String) : Nat :=
  f.flags.count flag

namespace Grammar

/-- Adds a flag. Only `verbose` may be repeated. -/
def addFlag (f : Found) (flag : String) : Except Refusal Found :=
  if flag = "help" then .error .help
  else if flag = "version" then .error .version
  else if flag ≠ "verbose" ∧ f.flags.contains flag then .error .usage
  else .ok { f with flags := flag :: f.flags }

/-- Adds the value of an option, which may be given once. -/
def addValue (g : Grammar) (f : Found) (option value : String) : Except Refusal Found :=
  if (f.values.lookup option).isSome then .error .usage
  else if g.sizes.contains option ∧ (Text.readSize? value.toList).isNone then .error .usage
  else .ok { f with values := (option, value) :: f.values }

def addPlain (g : Grammar) (f : Found) (value : String) : Except Refusal Found :=
  if f.plain.length < g.maxPlain then .ok { f with plain := f.plain ++ [value] } else .error .usage

/-- Adds the flags of a group of letters. -/
def addLetters (g : Grammar) (f : Found) (letters : List Char) : Except Refusal Found :=
  letters.foldlM (fun f c =>
    match g.flags.find? fun flag => flag.2 = some c with
    | some (flag, _) => addFlag f flag
    | none => .error .usage) f

/-- Whether an argument can be the value of the option before it. -/
def isValue (arg : String) : Bool :=
  arg = "-" || arg.toList.head? ≠ some '-'

/-- Reads arguments. `stop` may take over at a plain argument, with those after it. -/
def scan {α : Type} (g : Grammar) (stop : Found → String → List String → Except Refusal (Option α))
    (finish : Found → Except Refusal α) (f : Found) : List String → Except Refusal α
  | [] => finish f
  | arg :: rest =>
    match arg.toList with
    | ['-', '-'] => do finish (← rest.foldlM g.addPlain f)
    | '-' :: '-' :: body => do
      let option := String.ofList (body.takeWhile (· != '='))
      let attached := (body.dropWhile (· != '=')).tail?.map String.ofList
      if (g.flags.lookup option).isSome then
        if attached.isSome then throw .usage
        scan g stop finish (← addFlag f option) rest
      else if g.options.contains option then
        match attached, rest with
        | some value, rest => scan g stop finish (← g.addValue f option value) rest
        | none, value :: rest =>
          if isValue value then scan g stop finish (← g.addValue f option value) rest
          else throw .usage
        | none, [] => throw .usage
      else throw .usage
    | '-' :: c :: letters => do scan g stop finish (← g.addLetters f (c :: letters)) rest
    | _ => do
      match ← stop f arg rest with
      | some result => return result
      | none => scan g stop finish (← g.addPlain f arg) rest

end Grammar

/-- Options of every place: how much is reported, and help. -/
def commonFlags : List (String × Option Char) :=
  [("verbose", some 'v'), ("help", some 'h')]

def buildGrammar : Grammar where
  flags := commonFlags ++ [("quiet", some 'q'), ("allow-unknown", none)]
  options := ["name", "out-dir", "config", "source-file", "max-commands"]
  sizes := ["max-commands"]
  maxPlain := 1

def listGrammar : Grammar where
  flags := commonFlags
  options := []
  sizes := []
  maxPlain := 1

def runGrammar : Grammar where
  flags := commonFlags
  options := ["max-steps"]
  sizes := ["max-steps"]
  maxPlain := 1

/-- What stands before the request. -/
def topGrammar : Grammar where
  flags := commonFlags ++ [("version", some 'V')]
  options := []
  sizes := []
  maxPlain := 0

/-- The number of instructions that a run may take unless it is told otherwise. -/
def defaultMaxSteps : Nat := 10000000

def Found.size? (f : Found) (option : String) : Option Nat := do
  Text.readSize? (← f.values.lookup option).toList

def buildRequest (f : Found) : Request :=
  .build {
    input := f.plain.head?
    name := f.values.lookup "name"
    directory := (f.values.lookup "out-dir").getD "."
    config := f.values.lookup "config"
    sourceFile := f.values.lookup "source-file"
    allowUnknown := f.count "allow-unknown" > 0
    maxCommands := f.size? "max-commands"
    quiet := f.count "quiet" > 0 }

/-- The only plain argument, if it is there. -/
def Found.file (f : Found) : Except Refusal String :=
  match f.plain with
  | [file] => .ok file
  | _ => .error .usage

/-- The words that name a request. Help is given on each of them. -/
def requestWords : List String := ["build", "disasm", "run", "help"]

/-- Reads the arguments after the word that names the request. `before` counts the flags for
verbosity that stood before it; they hold only if none follow. -/
def readRequest (before : Nat) (word : String) (args : List String) : Except Refusal Invocation :=
  let go (g : Grammar) (request : Found → Except Refusal Request) : Except Refusal Invocation :=
    g.scan (fun _ _ _ => .ok none) (fun f => do
      let after := f.count "verbose"
      return ⟨if after = 0 then before else after, ← request f⟩) {} args
  if word = "build" then go buildGrammar fun f => .ok (buildRequest f)
  else if word = "disasm" then go listGrammar fun f => return .list (← f.file)
  else if word = "run" then
    go runGrammar fun f => return .run (← f.file) ((f.size? "max-steps").getD defaultMaxSteps)
  else if word = "help" then
    .error (if args.isEmpty ∨ requestWords.any ([·] = args) then .help else .usage)
  else .error .usage

def readArguments (args : List String) : Except Refusal Invocation :=
  topGrammar.scan (fun f word rest => (readRequest (f.count "verbose") word rest).map some)
    (fun _ => .error .usage) {} args

end StackGlyph.Console
