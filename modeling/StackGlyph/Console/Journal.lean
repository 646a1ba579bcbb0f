import StackGlyph.Compile.Basic
import StackGlyph.Text.Plain

/-!
# The journal

What is reported while a program is compiled or run, from warnings to the trace of every command.
How much of it is shown is chosen on the command line.

Source pin: Kemuri specification §7.2 (logging).
-/
namespace StackGlyph.Console

/-- How important an event is, the most important first. -/
inductive Level where
  | warn | info | debug | trace
  deriving DecidableEq, Repr

namespace Level

def rank : Level → Nat
  | .warn => 0
  | .info => 1
  | .debug => 2
  | .trace => 3

/-- The name of a level, five columns wide. -/
def label : Level → String
  | .warn => "WARN "
  | .info => "INFO "
  | .debug => "DEBUG"
  | .trace => "TRACE"

end Level

structure Event where
  level : Level
  /-- The part of the program that reports. -/
  origin : String := "kemuri"
  text : String
  deriving DecidableEq, Repr

/-- A text with its lines after the first indented. -/
def indented (text : String) : String :=
  String.ofList (text.toList.flatMap fun c =>
    if c = '\n' then '\n' :: List.replicate 4 ' ' else [c])

/-- The line of an event. A text of several lines goes on under the first, indented. -/
def Event.line (e : Event) : String :=
  Text.plain ("[" ++ e.level.label ++ " " ++ e.origin ++ "] " ++ indented e.text ++ "\n")

/-- The lines of the events that are shown at a degree of verbosity. -/
def shown (verbosity : Nat) (events : List Event) : String :=
  String.join ((events.filter (·.level.rank ≤ verbosity)).map Event.line)

/-- The event of a character that is no command. -/
def unknownEvent (policy : WarningPolicy) (d : Diagnostic) : Event where
  level := match policy with
    | .warn => .warn
    | .allow => .debug
  text := d.line

def commandEvent (position : Nat) (c : Command) : Event where
  level := .trace
  text := s!"{position}: " ++ String.singleton c.glyph ++ " → " ++ c.name

/-- The events of a program text, up to the command that exceeds the limit. -/
def sourceEvents (settings : Settings) (position commands : Nat) (found : Array Event) :
    List Char → List Event
  | [] => found.toList
  | c :: rest =>
    match Command.ofGlyph? c with
    | none =>
      let event := unknownEvent settings.warnings ⟨c, position⟩
      sourceEvents settings (position + 1) commands (found.push event) rest
    | some command =>
      if (MainMethod.exceeded? settings.maxCommands commands).isSome then found.toList
      else
        sourceEvents settings (position + 1) (commands + 1)
          (found.push (commandEvent position command)) rest

/-- The events of a compilation. A text is looked at once the name of its class is accepted; the
counts are reported once the class is complete. -/
def compileEvents (settings : Settings) (source : List Char) (name : String) : List Event :=
  match Compile.nameOf name >>= Compile.scaffold with
  | .error _ => []
  | .ok _ =>
    let seen := sourceEvents settings 0 0 #[] source
    match Compile.build settings source name with
    | .error _ => seen
    | .ok r =>
      let size := r.draft.bytes.length
      let methods := r.draft.methods.size
      let constants := r.draft.pool.size
      let unknown := r.tally.diagnostics.length
      let commands := r.tally.commands
      seen ++
        [{ level := .debug
           origin := "kemuri-core"
           text := "classe " ++ r.name.internal ++
             s!" : {methods} méthodes, {constants} constantes, {size} octets" },
         { level := .info
           text := r.name.dotted ++
             s!": {commands} commandes, {unknown} diagnostics, {size} octets" }]

end StackGlyph.Console
