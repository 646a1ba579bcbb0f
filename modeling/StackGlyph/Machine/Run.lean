import StackGlyph.Machine.Step
import StackGlyph.Text.Utf16

/-!
# Runs

Whole calls: the main method of a class, or one of its routines on a prepared stack of cells. The
store persists from one call to the next. A run goes on until it returns or traps; one that does
neither has no result.

Source pin: Kemuri specification §3.8 (evaluator), its calls from outside.
-/
namespace StackGlyph.Machine

/-- How a call ends: with a value, with a trap, or not at all. -/
inductive Outcome (α : Type) where
  | done (value : α)
  | trapped (t : Trap)
  | unfinished
  deriving DecidableEq, Repr

/-- Executes instructions until the first method returns or a trap arises; nothing if neither ever
happens. -/
def Program.run (p : Program) (limits : Limits) (s : State) : Option (Outcome Unit × Store) :=
  match step p limits s with
  | .running s => p |>.run limits s
  | .returned store => some (.done (), store)
  | .trapped store t => some (.trapped t, store)
partial_fixpoint

/-- Calls a method of the class from outside. -/
def call (p : Program) (limits : Limits) (name descriptor : String) (arguments : List Value)
    (store : Store) : Outcome Unit × Store :=
  match enter p limits 0 name descriptor arguments with
  | .error t => (.trapped t, store)
  | .ok frame => (p.run limits ⟨store, frame, []⟩).getD (.unfinished, store)

def mainDescriptor : String := "([Ljava/lang/String;)V"

def routineDescriptor : String := "(Ljava/util/Deque;)V"

/-- Runs the main method with an empty argument array. -/
def callMain (p : Program) (limits : Limits) (store : Store) : Outcome Unit × Store :=
  let place := store.heap.size
  let store := { store with heap := store.heap.push .arguments }
  call p limits "main" mainDescriptor [.ref place] store

def cellUnit (heap : Array Object) : Value → Except Trap UInt16
  | .ref place =>
    match heap[place]? with
    | some (.char unit) => .ok unit
    | some found => .error (.unsupported (.foreignCell found))
    | none => .error (.unsupported (.bareCell (.ref place)))
  | found => .error (.unsupported (.bareCell found))

/-- The units in the cells of a queue, from the back to the front. -/
def unitsOfDeque (heap : Array Object) (place : Nat) : Except Trap (List UInt16) :=
  match heap[place]? with
  | some (.deque cells) => cells.reverse.mapM (cellUnit heap)
  | _ => .error (.unsupported .stackReplaced)

/-- Calls a routine on a stack of cells, given from the bottom to the top, and gives the stack it
leaves. -/
def callRoutine (p : Program) (limits : Limits) (name : String) (units : List UInt16)
    (store : Store) : Outcome (List UInt16) × Store :=
  let base := store.heap.size
  let cells := (List.range units.length).map fun i => Value.ref (base + i)
  let place := base + units.length
  let heap := (store.heap ++ units.map Object.char).push (.deque cells.reverse)
  match call p limits name routineDescriptor [.ref place] { store with heap } with
  | (.done (), store) =>
    match unitsOfDeque store.heap place with
    | .ok units => (.done units, store)
    | .error t => (.trapped t, store)
  | (.trapped t, store) => (.trapped t, store)
  | (.unfinished, store) => (.unfinished, store)

/-- What a run of the main method printed and how many instructions it took. -/
structure Report where
  units : List UInt16
  steps : Nat
  deriving DecidableEq, Repr

def Report.text (r : Report) : String :=
  Text.Utf16.decodeLossy r.units

def runMain (c : ClassFile) (limits : Limits) : Outcome Report :=
  match callMain (Program.link c) limits {} with
  | (.done (), store) => .done ⟨store.printed.toList, store.steps⟩
  | (.trapped t, _) => .trapped t
  | (.unfinished, _) => .unfinished

end StackGlyph.Machine
