import StackGlyph.Text.Blank
import StackGlyph.Text.Number
import StackGlyph.Toml.Document

/-!
# Settings

How a program is compiled. Settings are laid over the defaults in layers: the environment, a
configuration file, the command line. A layer speaks about some of the settings; the last layer that
speaks about a setting decides it.

Source pin: Kemuri specification §7.3 (configuration).
-/
namespace StackGlyph

/-- How loudly a character that is no command is reported. -/
inductive WarningPolicy where
  | allow | warn
  deriving DecidableEq, Repr

structure Settings where
  warnings : WarningPolicy := .warn
  /-- The name of the source file that the class records. -/
  sourceFile : Option String := none
  /-- The largest number of commands of a program. -/
  maxCommands : Option Nat := none
  deriving DecidableEq, Repr

structure Layer where
  warnings : Option WarningPolicy := none
  sourceFile : Option String := none
  maxCommands : Option Nat := none
  deriving DecidableEq, Repr

def Settings.under (s : Settings) (layer : Layer) : Settings where
  warnings := layer.warnings.getD s.warnings
  sourceFile := layer.sourceFile <|> s.sourceFile
  maxCommands := layer.maxCommands <|> s.maxCommands

def WarningPolicy.ofWord? (word : String) : Option WarningPolicy :=
  if word = "allow" then some .allow else if word = "warn" then some .warn else none

/-- How configuration files are written: what a text says, or why it is no sound configuration. -/
abbrev Dialect := String → Except String Layer

inductive Source where
  /-- The environment, by the values of its variables. -/
  | environment (lookup : String → Option String)
  /-- The text of a configuration file. -/
  | document (text : String)
  | options (layer : Layer)

namespace Layer

/-- What the environment says. A value that cannot be read says nothing. -/
def ofEnvironment (lookup : String → Option String) : Layer where
  warnings := do
    let value ← lookup "KEMURI_WARN"
    WarningPolicy.ofWord? (String.ofList ((Text.trim value.toList).map Char.toLower))
  sourceFile := do
    let value ← lookup "KEMURI_SOURCE_FILE"
    let name := Text.trim value.toList
    if name.isEmpty then none else some (String.ofList name)
  maxCommands := do
    let value ← lookup "KEMURI_MAX_COMMANDS"
    Text.readSize? (Text.trim value.toList)

/-- Whether a node of a document holds nothing. -/
def isHollow : Toml.Node → Bool
  | .array items | .tables items => items.isEmpty
  | .table _ entries => entries.isEmpty
  | _ => false

/-- A policy, as a word or as a table that holds only the hollow node of that name. -/
def policy? : Toml.Node → Option WarningPolicy
  | .string word => WarningPolicy.ofWord? word
  | .table _ [(word, node)] => if isHollow node then WarningPolicy.ofWord? word else none
  | _ => none

def count? : Toml.Node → Option Nat
  | .integer v => if 0 ≤ v then some v.toNat else none
  | _ => none

/-- The limits, by name in a table or by place in an array: nothing for a node that is neither, else
the number of commands if it is given. -/
def limits? : Toml.Node → Option (Option Nat)
  | .table _ [] | .array [] => some none
  | .table _ [("max_commands", node)] => (count? node).map some
  | .array (node :: _) | .tables (node :: _) => (count? node).map some
  | _ => none

/-- What one entry of a configuration file adds to a layer. -/
def withEntry (layer : Layer) : String × Toml.Node → Option Layer
  | ("warnings", node) => do return { layer with warnings := some (← policy? node) }
  | ("source_file", .string name) => some { layer with sourceFile := some name }
  | ("limits", node) => do return { layer with maxCommands := ← limits? node }
  | _ => none

/-- What a configuration file says; nothing if it is no sound configuration. -/
def ofToml? (text : String) : Option Layer := do
  let entries ← Toml.parse? text
  entries.foldlM withEntry {}

def toml : Dialect := fun text =>
  match ofToml? text with
  | some layer => .ok layer
  | none => .error "TOML parse error"

end Layer

/-- Lays what a source says over the settings. A document that cannot be read is a failure, which
leaves them as they are. -/
def Source.apply (dialect : Dialect) : Source → EStateM String Settings Unit
  | .environment lookup => modify (·.under (Layer.ofEnvironment lookup))
  | .document text => do
    match dialect text with
    | .error reason => throw reason
    | .ok layer => modify (·.under layer)
  | .options layer => modify (·.under layer)

end StackGlyph
