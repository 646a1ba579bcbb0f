import StackGlyph.Machine.Value
import StackGlyph.Pool.Basic

/-!
# Traps

Why a run ends before its main method returns. A program that takes more cells than there are ends
with `noSuchElement`.

Source pin: Kemuri specification §3.8 (evaluator) and §3.9 (errors).
-/
namespace StackGlyph.Machine

/-- The exceptions that library calls and casts raise. -/
inductive Exception where
  | nullPointer | noSuchElement | classCast
  deriving DecidableEq, Repr

def Exception.className : Exception → String
  | .nullPointer => "java.lang.NullPointerException"
  | .noSuchElement => "java.util.NoSuchElementException"
  | .classCast => "java.lang.ClassCastException"

structure Site where
  method : String
  offset : Nat
  deriving DecidableEq, Repr

/-- A value or place that is not of the kind an instruction needs. -/
inductive Mismatch where
  | slotOutsideFrame (slot : Nat)
  | notInt (found : Value)
  /-- A taken branch leads between two instruction starts. -/
  | insideInstruction (target : Nat)
  | intReceiver
  | notDeque
  | notChar (found : Value)
  | notCharacter
  | notPrintable
  deriving DecidableEq, Repr

def Mismatch.message : Mismatch → String
  | .slotOutsideFrame slot => s!"local {slot} hors cadre"
  | .notInt found => "int attendu, trouvé " ++ found.describe
  | .insideInstruction target => s!"saut au milieu d’une instruction ({target})"
  | .intReceiver => "receveur int"
  | .notDeque => "Deque attendu"
  | .notChar found => "char attendu, reçu " ++ found.describe
  | .notCharacter => "Character attendu"
  | .notPrintable => "PrintStream.print(char)"

/-- What lies outside the language that the machine runs. -/
inductive Unsupported where
  | constant (found : Option Constant)
  | field (owner name : String)
  | call (member : Member)
  /-- Control runs past the last instruction of a method. -/
  | leavesCode (name descriptor : String)
  /-- What a routine was called on is no queue any more. -/
  | stackReplaced
  /-- A cell that should be a character is another object. -/
  | foreignCell (found : Object)
  /-- A cell that should be a reference is not one. -/
  | bareCell (found : Value)
  deriving DecidableEq, Repr

def Unsupported.message : Unsupported → String
  | .constant none => "ldc None"
  | .constant (some c) => "ldc Some(" ++ c.describe ++ ")"
  | .field owner name => "getstatic " ++ owner ++ "." ++ name
  | .call m => m.owner ++ "." ++ m.name ++ m.descriptor
  | .leavesCode name descriptor => name ++ descriptor ++ " sort de son code"
  | .stackReplaced => "pile remplacée"
  | .foreignCell found => "cellule non Character: " ++ found.describe
  | .bareCell found => "cellule non référence: " ++ found.describe

inductive Trap where
  | fault (cause : Fault)
  | noSuchMethod (name descriptor : String)
  /-- The method is declared without code. -/
  | noCode (name descriptor : String)
  | unsupported (what : Unsupported)
  | raised (exception : Exception) (site : Site)
  | operandUnderflow (site : Site)
  | typeMismatch (site : Site) (detail : Mismatch)
  | stepLimit (limit : Nat)
  | callDepth (depth : Nat)
  deriving DecidableEq, Repr

def Trap.message : Trap → String
  | .fault cause => cause.message
  | .noSuchMethod name descriptor => "méthode introuvable: " ++ name ++ descriptor
  | .noCode name descriptor => "méthode introuvable: " ++ name ++ descriptor ++ " (sans Code)"
  | .unsupported what => "non supporté: " ++ what.message
  | .raised exception site =>
    exception.className ++ " levée dans " ++ site.method ++ s!" à l’offset {site.offset}"
  | .operandUnderflow site =>
    "pile d’opérandes vide dans " ++ site.method ++ s!" à l’offset {site.offset}"
  | .typeMismatch site detail =>
    "type inattendu dans " ++ site.method ++ s!" à l’offset {site.offset}: " ++ detail.message
  | .stepLimit limit => s!"limite d’instructions atteinte ({limit})"
  | .callDepth depth => s!"profondeur d’appel maximale atteinte ({depth})"

end StackGlyph.Machine
