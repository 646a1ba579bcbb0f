/-!
# Values and objects

What a running program holds: values on operand stacks and in local slots, and objects in a heap
that only grows. A reference is the place of its object in the heap.

Source pin: Kemuri specification §3.8 (evaluator), its values and heap objects.
-/
namespace StackGlyph.Machine

inductive Value where
  | null
  | int (v : Int32)
  | ref (place : Nat)
  deriving DecidableEq, Repr

inductive Object where
  /-- A double-ended queue, front first; the front is the top of a stack of cells. -/
  | deque (cells : List Value)
  /-- A boxed character. -/
  | char (unit : UInt16)
  /-- The standard output. -/
  | printStream
  /-- The argument array of the main method, which is never read. -/
  | arguments
  /-- An instance of any other class. -/
  | plain
  deriving DecidableEq, Repr

def Value.describe : Value → String
  | .null => "Null"
  | .int v => s!"Int({v})"
  | .ref place => s!"Ref({place})"

def Object.describe : Object → String
  | .deque cells => "Deque([" ++ ", ".intercalate (cells.map Value.describe) ++ "])"
  | .char unit => s!"Char({unit})"
  | .printStream => "PrintStream"
  | .arguments => "Args"
  | .plain => "Plain"

end StackGlyph.Machine
