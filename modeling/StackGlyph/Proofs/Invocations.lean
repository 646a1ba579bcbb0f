import StackGlyph.Proofs.Execution

/-!
# Calls from outside

A machine is asked, any number of times, to run the main method or to call a routine on a stack of
cells. Both kinds of call have one form: some objects are put into the heap, a method is entered
with a reference to the last of them, and what it left there is read back if it returns. A run that
comes to an end does so after finitely many instructions, which is what all inductions over runs
rest on.
-/
namespace StackGlyph.Machine

variable {p : Program} {limits : Limits}

/-! ## Runs that come to an end -/

/-- A run ends in this way and leaves this store behind. -/
inductive Ends (p : Program) (limits : Limits) : State → Outcome Unit → Store → Prop
  | returned {s : State} {t : Store} (h : step p limits s = .returned t) : Ends p limits s (.done ()) t
  | trapped {s : State} {t : Store} {e : Trap} (h : step p limits s = .trapped t e) :
      Ends p limits s (.trapped e) t
  | running {s s' : State} {o : Outcome Unit} {t : Store} (h : step p limits s = .running s')
      (rest : Ends p limits s' o t) : Ends p limits s o t

theorem Ends.run_eq {s : State} {o : Outcome Unit} {t : Store} (h : Ends p limits s o t) :
    p.run limits s = some (o, t) := by
  induction h with
  | returned h => rw [Program.run, h]
  | trapped h => rw [Program.run, h]
  | running h _ ih =>
    rw [Program.run, h]
    exact ih

/-- A run has a result only if it ends. -/
theorem ends_of_run {s : State} {r : Outcome Unit × Store} (h : p.run limits s = some r) :
    Ends p limits s r.1 r.2 := by
  apply Program.run.partial_correctness p limits (fun s r => Ends p limits s r.1 r.2) _ s r h
  intro run ih s r hr
  cases hstep : step p limits s with
  | running s' =>
    rw [hstep] at hr
    exact .running hstep (ih s' r hr)
  | returned t =>
    rw [hstep] at hr
    cases hr
    exact .returned hstep
  | trapped t e =>
    rw [hstep] at hr
    cases hr
    exact .trapped hstep

/-! ## Invocations -/

inductive Invocation where
  /-- To run the main method. -/
  | main
  /-- To call a routine on a stack of cells, given from the bottom to the top. -/
  | routine (name : String) (units : List UInt16)
  deriving DecidableEq, Repr

namespace Invocation

def name : Invocation → String
  | .main => "main"
  | .routine name _ => name

def descriptor : Invocation → String
  | .main => mainDescriptor
  | .routine _ _ => routineDescriptor

/-- The place of the argument in a heap that had this size. -/
def argument (size : Nat) : Invocation → Nat
  | .main => size
  | .routine _ units => size + units.length

/-- The objects that are put into a heap of this size, the argument last. -/
def objects (size : Nat) : Invocation → List Object
  | .main => [.arguments]
  | .routine _ units => units.map Object.char ++
      [.deque ((List.range units.length).map fun i => Value.ref (size + i)).reverse]

/-- The store in which the method of an invocation is entered. -/
def prepare (i : Invocation) (s : Store) : Store :=
  { s with heap := s.heap ++ i.objects s.heap.size }

def enter (p : Program) (limits : Limits) (i : Invocation) (s : Store) : Except Trap Frame :=
  Machine.enter p limits 0 i.name i.descriptor [.ref (i.argument s.heap.size)]

/-- What a routine left at the place of its argument; the main method leaves nothing to be read. -/
def readBack (heap : Array Object) (place : Nat) : Invocation → Except Trap (List UInt16)
  | .main => .ok []
  | .routine _ _ => unitsOfDeque heap place

/-- Answers an invocation with the stack that is left, which is empty for the main method. -/
def perform (p : Program) (limits : Limits) : Invocation → Store → Outcome (List UInt16) × Store
  | .main, s =>
    match callMain p limits s with
    | (.done (), t) => (.done [], t)
    | (.trapped e, t) => (.trapped e, t)
    | (.unfinished, t) => (.unfinished, t)
  | .routine name units, s => callRoutine p limits name units s

/-- The answer to an invocation whose argument is at a place, once its method has ended. -/
def conclude (i : Invocation) (place : Nat) : Outcome Unit → Store → Outcome (List UInt16)
  | .done (), t =>
    match i.readBack t.heap place with
    | .ok units => .done units
    | .error e => .trapped e
  | .trapped e, _ => .trapped e
  | .unfinished, _ => .unfinished

/-- How the method of an invocation ends. -/
def call (p : Program) (limits : Limits) (i : Invocation) (s : Store) : Outcome Unit × Store :=
  Machine.call p limits i.name i.descriptor [.ref (i.argument s.heap.size)] (i.prepare s)

theorem prepare_main (s : Store) :
    Invocation.main.prepare s = { s with heap := s.heap.push .arguments } := by
  simp [prepare, objects]

theorem prepare_routine (name : String) (units : List UInt16) (s : Store) :
    (routine name units).prepare s = { s with
      heap := (s.heap ++ units.map Object.char).push
        (.deque ((List.range units.length).map fun i => Value.ref (s.heap.size + i)).reverse) } := by
  simp only [prepare, objects]
  congr 1
  apply Array.ext'
  simp

/-- Both kinds of invocation call a method and read back what it left. -/
theorem perform_eq (p : Program) (limits : Limits) (i : Invocation) (s : Store) :
    i.perform p limits s =
      (i.conclude (i.argument s.heap.size) (i.call p limits s).1 (i.call p limits s).2,
        (i.call p limits s).2) := by
  cases i with
  | main =>
    have hcall : callMain p limits s = Invocation.main.call p limits s := by
      rw [Invocation.call, prepare_main]
      rfl
    rw [perform, hcall]
    rcases Invocation.main.call p limits s with ⟨_ | _ | _, t⟩ <;> rfl
  | routine name units =>
    have hcall : callRoutine p limits name units s =
        match (routine name units).call p limits s with
        | (.done (), t) =>
          match unitsOfDeque t.heap (s.heap.size + units.length) with
          | .ok units => (.done units, t)
          | .error e => (.trapped e, t)
        | (.trapped e, t) => (.trapped e, t)
        | (.unfinished, t) => (.unfinished, t) := by
      rw [Invocation.call, prepare_routine]
      rfl
    rw [perform, hcall]
    rcases (routine name units).call p limits s with ⟨_ | _ | _, t⟩
    · simp only [conclude, readBack, argument]
      cases unitsOfDeque t.heap (s.heap.size + units.length) <;> rfl
    · rfl
    · rfl

theorem call_of_refused {i : Invocation} {s : Store} {e : Trap} (h : i.enter p limits s = .error e) :
    i.call p limits s = (.trapped e, i.prepare s) := by
  rw [Invocation.enter] at h
  rw [Invocation.call, Machine.call, h]

theorem call_of_entered {i : Invocation} {s : Store} {f : Frame} (h : i.enter p limits s = .ok f) :
    i.call p limits s = (p.run limits ⟨i.prepare s, f, []⟩).getD (.unfinished, i.prepare s) := by
  rw [Invocation.enter] at h
  rw [Invocation.call, Machine.call, h]

/-- An invocation that is over did not get into its method, or the method ended. -/
theorem call_eq_iff {i : Invocation} {s t : Store} {o : Outcome Unit} (ho : o ≠ .unfinished) :
    i.call p limits s = (o, t) ↔
      (∃ e, i.enter p limits s = .error e ∧ o = .trapped e ∧ t = i.prepare s) ∨
      ∃ f, i.enter p limits s = .ok f ∧ Ends p limits ⟨i.prepare s, f, []⟩ o t := by
  cases henter : i.enter p limits s with
  | error e =>
    rw [call_of_refused henter]
    simp only [Prod.mk.injEq, Except.error.injEq, reduceCtorEq, false_and, exists_false, or_false,
      exists_eq_left', eq_comm]
  | ok f =>
    rw [call_of_entered henter]
    simp only [reduceCtorEq, false_and, exists_false, false_or, Except.ok.injEq, exists_eq_left']
    constructor
    · intro h
      cases hrun : p.run limits ⟨i.prepare s, f, []⟩ with
      | none =>
        rw [hrun] at h
        cases h
        exact absurd rfl ho
      | some r =>
        rw [hrun] at h
        cases h
        exact ends_of_run hrun
    · intro h
      rw [h.run_eq]
      rfl

end Invocation

end StackGlyph.Machine
