import Mathlib
import StackGlyph.Console.Session
import StackGlyph.Proofs.Effects

/-!
# Layers of settings

Settings are laid over the defaults source by source. Every source speaks about each setting in its
own way or not at all; what it says is described here by the words it may use, without the functions
that read them. The last source that says anything about a setting decides it, whatever the sources
say about the others. In a build the name of the input is laid over last of all, and yet it serves
only where no source names a file.
-/
namespace StackGlyph

/-! ## Words -/

namespace Text

variable {text core lead digits : List Char} {n : Nat}

/-- Decimal digits, one at least, of a number below 2^64. -/
structure IsDigits (digits : List Char) (n : Nat) : Prop where
  ne_nil : digits ≠ []
  isDigit : ∀ c ∈ digits, c.isDigit = true
  value : n = Nat.ofDigits 10 (digits.reverse.map fun c => c.toNat - 48)
  bounded : n < 2 ^ 64

def IsNumeral (text : List Char) (n : Nat) : Prop :=
  IsDigits text n ∨ ∃ digits, text = '+' :: digits ∧ IsDigits digits n

end Text

/-! ## What sources say -/

def WarningPolicy.word : WarningPolicy → String
  | .allow => "allow"
  | .warn => "warn"

/-- One of the settings: the variable that gives it, how a value is spelled there, what a layer says
about it, and what settings hold when a value, or none, was the last that was said. -/
structure Aspect (α β : Type) where
  name : String
  Spells : List Char → α → Prop
  said : Layer → Option α
  held : Settings → β
  settled : Option α → β

namespace Aspect

def warnings : Aspect WarningPolicy WarningPolicy where
  name := "KEMURI_WARN"
  Spells word policy := word.map Char.toLower = policy.word.toList
  said := Layer.warnings
  held := Settings.warnings
  settled said := said.getD .warn

def sourceFile : Aspect String (Option String) where
  name := "KEMURI_SOURCE_FILE"
  Spells word file := word ≠ [] ∧ word = file.toList
  said := Layer.sourceFile
  held := Settings.sourceFile
  settled := id

def maxCommands : Aspect Nat (Option Nat) where
  name := "KEMURI_MAX_COMMANDS"
  Spells := Text.IsNumeral
  said := Layer.maxCommands
  held := Settings.maxCommands
  settled := id

variable {α β : Type}

end Aspect

/-! ## The last that speaks -/

section LastSaid

variable {α β : Type} {Says : β → α → Prop} {members : List β} {b : β}

end LastSaid

namespace Source

/-- What a source says: nothing at all if it is a document that cannot be read. -/
def layer (dialect : Dialect) : Source → Layer
  | .environment lookup => .ofEnvironment lookup
  | .document text => (dialect text).toOption.getD {}
  | .options layer => layer

end Source

namespace Aspect

variable {α β : Type} {a : Aspect α β}

end Aspect

/-! ## The settings of a build -/

namespace Console

variable {dialect : Dialect} {s : Surroundings} {o : BuildOptions} {settings base : Settings}

end Console

open Console

end StackGlyph
