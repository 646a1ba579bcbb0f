import StackGlyph.ClassFile.Listing
import StackGlyph.Console.Arguments
import StackGlyph.Console.Journal
import StackGlyph.Machine.Run
import StackGlyph.Version

/-!
# Requests carried out

What each request does to a file tree and what it writes. A request that fails writes one line with
the causes of the failure, from the outermost to the innermost.

Source pin: Kemuri specification §7.4 (command line), with the chains of causes of §7.1 (error
handling).
-/
namespace StackGlyph.Console

/-- The variables of the environment that are looked at. -/
def variableNames : List String :=
  ["KEMURI_WARN", "KEMURI_SOURCE_FILE", "KEMURI_MAX_COMMANDS", "KEMURI_CONFIG"]

structure Surroundings where
  /-- The value of a variable of the environment, if it is set. -/
  setting? : String → Option String
  input : List UInt8 := []
  tree : FileTree

structure Report where
  exitCode : Nat
  output : String := ""
  errors : String := ""
  tree : FileTree

/-- What a request gives: its output, its events, and the tree after it. On failure, the causes and
the events up to it. -/
structure Done where
  output : String := ""
  events : List Event := []
  tree : FileTree

structure Failed where
  causes : List String
  events : List Event := []

abbrev Result := Except Failed Done

def fail {α : Type} (causes : List String) : Except Failed α :=
  .error { causes }

/-- The class name that an input suggests. -/
def defaultName (alphabet : Text.Alphabet) (input : Option String) : String :=
  ClassName.ofStem alphabet (((input.bind FileTree.fileName?).map FileTree.stem).getD [])

/-- The input of a build that is a file. -/
def BuildOptions.inputFile (o : BuildOptions) : Option String :=
  o.input.filter (· ≠ "-")

/-- The name of the input of a build that is a file. -/
def BuildOptions.inputName (o : BuildOptions) : Option String :=
  (o.inputFile.bind FileTree.fileName?).map String.ofList

/-- The class name of a build. -/
def BuildOptions.className (o : BuildOptions) : String :=
  o.name.getD (defaultName .unicode o.inputFile)

/-- The configuration file of a build: named among the options, or else in the environment. -/
def BuildOptions.configFile (o : BuildOptions) (setting? : String → Option String) :
    Option String :=
  o.config <|> setting? "KEMURI_CONFIG"

/-- The paths that a request may look at or write to. -/
def Request.paths (setting? : String → Option String) : Request → List String
  | .build o =>
    (o.configFile setting?).toList ++ o.inputFile.toList ++
      [o.directory, FileTree.join o.directory (o.className ++ ".class")]
  | .list file | .run file _ => [file]

/-- Lays the configuration file of a build, if there is one, over settings. -/
def configure (dialect : Dialect) (s : Surroundings) (o : BuildOptions) (base : Settings) :
    Except Failed Settings :=
  match o.configFile s.setting? with
  | none => .ok base
  | some path =>
    match s.tree.readText path with
    | .error cause => fail (("lecture " ++ path) :: (CompileError.file cause).chain)
    | .ok text =>
      match Source.apply dialect (.document text) base with
      | .ok () configured => .ok configured
      | .error reason _ =>
        let e := CompileError.configuration (path ++ ": " ++ reason)
        fail (("lecture " ++ path) :: e.chain)

/-- What the command line says. The input's own name serves as source file where neither the options
nor the settings so far name one. -/
def BuildOptions.layer (o : BuildOptions) (configured : Settings) : Layer where
  warnings := if o.allowUnknown then some .allow else none
  sourceFile := o.sourceFile <|> if configured.sourceFile.isSome then none else o.inputName
  maxCommands := o.maxCommands

/-- The settings of a build: the environment, then the configuration file, then the command line. -/
def settingsVia (dialect : Dialect) (s : Surroundings) (o : BuildOptions) :
    Except Failed Settings := do
  let base := Settings.under {} (Layer.ofEnvironment s.setting?)
  let configured ← configure dialect s o base
  return configured.under (o.layer configured)

def settingsOf (s : Surroundings) (o : BuildOptions) : Except Failed Settings :=
  settingsVia Layer.toml s o

def readSource (s : Surroundings) : Option String → Except Failed String
  | some path =>
    match s.tree.readText path with
    | .ok text => .ok text
    | .error cause => fail ["lecture " ++ path, cause.message]
  | none =>
    match FileTree.textOf s.input with
    | .ok text => .ok text
    | .error cause => fail ["lecture stdin", cause.message]

def build (s : Surroundings) (o : BuildOptions) : Result := do
  let input := o.inputFile
  let settings ← settingsOf s o
  let name := o.className
  let source := (← readSource s input).toList
  if !s.tree.isDirectory o.directory then
    fail (("compilation de " ++ name) :: (CompileError.notADirectory o.directory).chain)
  let events := compileEvents settings source name
  match Compile.compileTo settings source name o.directory s.tree with
  | .error e => .error { causes := ("compilation de " ++ name) :: e.chain, events }
  | .ok (path, compiled, tree) =>
    let origin := input.getD "<stdin>"
    let unknown := compiled.diagnostics.length
    let written : Event := { level := .debug, text := "écrit " ++ path }
    let summary : Event :=
      { level := .info, text := origin ++ " → " ++ path ++ s!" ({unknown} diagnostics)" }
    return {
      output := if o.quiet then "" else path ++ "\n"
      events := events ++ [written, summary]
      tree }

def readClass (s : Surroundings) (file : String) : Except Failed ClassFile := do
  if !s.tree.isFile file then fail ["fichier introuvable: " ++ file]
  match s.tree.read file with
  | .error cause => fail ["lecture " ++ file, cause.message]
  | .ok bytes =>
    match ClassFile.parse bytes with
    | .error cause => fail ["classe invalide: " ++ file, cause.message]
    | .ok c => return c

def list (s : Surroundings) (file : String) : Result := do
  match Listing.render (← readClass s file) with
  | .error cause => fail ["désassemblage", cause.message]
  | .ok listing => return { output := listing, tree := s.tree }

def run (s : Surroundings) (file : String) (maxSteps : Nat) : Result := do
  match Machine.runMain (← readClass s file) { maxSteps := some maxSteps } with
  | .trapped t => fail ["exécution de " ++ file, t.message]
  | .unfinished => fail ["exécution de " ++ file]
  | .done r =>
    let steps := r.steps
    return {
      output := r.text
      events := [{ level := .info, text := s!"{steps} instructions" }]
      tree := s.tree }

def perform (s : Surroundings) : Request → Result
  | .build o => build s o
  | .list file => list s file
  | .run file maxSteps => run s file maxSteps

/-- A whole invocation: exit code 0 on success, 1 on failure, 2 for arguments that are not
understood. -/
def invoke (s : Surroundings) (args : List String) : Report :=
  match readArguments args with
  | .error .usage => { exitCode := 2, tree := s.tree }
  | .error .version => { exitCode := 0, output := Version.program ++ "\n", tree := s.tree }
  | .error .help => { exitCode := 0, tree := s.tree }
  | .ok ⟨verbosity, request⟩ =>
    match perform s request with
    | .ok d =>
      { exitCode := 0, output := d.output, errors := shown verbosity d.events, tree := d.tree }
    | .error f =>
      let line := "error: " ++ ": ".intercalate f.causes ++ "\n"
      { exitCode := 1, errors := shown verbosity f.events ++ line, tree := s.tree }

end StackGlyph.Console
