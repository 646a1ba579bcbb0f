import StackGlyph.Machine.Link

/-!
# Execution, one instruction at a time

The state of a run is the store that outlives calls (heap, output, count of instructions) and a
stack of frames, one for each method under way. `step` executes the next instruction of the top
frame.

Source pin: Kemuri specification §3.8 (evaluator), its loop over instructions and its library stubs.
-/
namespace StackGlyph.Machine

structure Limits where
  /-- The number of instructions that may be executed, if it is bounded. -/
  maxSteps : Option Nat := some 10000000
  /-- The number of own methods that may be under way at once. -/
  maxCallDepth : Nat := 256
  deriving DecidableEq, Repr

/-- What outlives a call. -/
structure Store where
  heap : Array Object := #[]
  /-- The place of the standard output, once it was asked for. -/
  output? : Option Nat := none
  /-- The UTF-16 units printed so far. -/
  printed : Array UInt16 := #[]
  /-- The number of instructions executed so far. -/
  steps : Nat := 0

structure Frame where
  method : LinkedMethod
  /-- The place of the next instruction. -/
  next : Nat
  locals : Array Value
  /-- The operand stack, top first. -/
  stack : List Value
  /-- The number of frames below this one. -/
  depth : Nat

/-- A part of a run that changes the store or traps. -/
abbrev Exec := EStateM Trap Store

def allocate (object : Object) : Exec Nat :=
  modifyGet fun s => (s.heap.size, { s with heap := s.heap.push object })

/-- The object that a receiver refers to; static calls have none. -/
def receiver (site : Site) : Option Value → Exec (Option Nat)
  | none => pure none
  | some (.ref place) => pure (some place)
  | some .null => throw (.raised .nullPointer site)
  | some (.int _) => throw (.typeMismatch site .intReceiver)

def objectOf (place : Option Nat) : Exec (Option Object) := do
  let s ← get
  return place.bind fun place => s.heap[place]?

/-- The cells of a receiver that is a queue. -/
def cellsOf (site : Site) (place : Option Nat) : Exec (List Value) := do
  match ← objectOf place with
  | some (.deque cells) => return cells
  | _ => throw (.typeMismatch site .notDeque)

def setCells (place : Option Nat) (cells : List Value) : Exec Unit :=
  modify fun s =>
    match place with
    | some place => { s with heap := s.heap.setIfInBounds place (.deque cells) }
    | none => s

/-- A library call on a receiver that passed the checks above, with its arguments in order. Gives
the result, if the routine has one. -/
def runRoutine (site : Site) (place : Option Nat) (arguments : List Value) :
    Routine → Exec (Option Value)
  | .construct => pure none
  | .constructPlain m => do
    match ← objectOf place with
    | some .plain => return none
    | _ => throw (.unsupported (.call m))
  | .push => do
    let v := arguments.headD .null
    if v = .null then throw (.raised .nullPointer site)
    let cells ← cellsOf site place
    setCells place (v :: cells)
    return none
  | .pop => do
    match ← cellsOf site place with
    | [] => throw (.raised .noSuchElement site)
    | v :: cells =>
      setCells place cells
      return some v
  | .isEmpty => do
    let cells ← cellsOf site place
    return some (.int (if cells.isEmpty then 1 else 0))
  | .box => do
    let v := arguments.headD .null
    match v with
    | .int n =>
      if 0 ≤ n.toInt ∧ n.toInt ≤ 65535 then
        return some (.ref (← allocate (.char n.toInt.toNat.toUInt16)))
      else throw (.typeMismatch site (.notChar v))
    | _ => throw (.typeMismatch site (.notChar v))
  | .unbox => do
    match ← objectOf place with
    | some (.char unit) => return some (.int (Int32.ofNat unit.toNat))
    | _ => throw (.typeMismatch site .notCharacter)
  | .print => do
    match ← objectOf place, arguments.headD .null with
    | some .printStream, .int n =>
      modify fun s => { s with printed := s.printed.push n.toUInt32.toUInt16 }
      return none
    | _, _ => throw (.typeMismatch site .notPrintable)
  | .unknown m => throw (.unsupported (.call m))

def popInt (site : Site) : List Value → Exec (Int32 × List Value)
  | .int v :: rest => pure (v, rest)
  | v :: _ => throw (.typeMismatch site (.notInt v))
  | [] => throw (.operandUnderflow site)

/-- The arguments of a call in order, and the operand stack below them. -/
def popArguments (site : Site) (count : Nat) (stack : List Value) :
    Exec (List Value × List Value) :=
  let (taken, rest) := stack.splitAt count
  if taken.length < count then throw (.operandUnderflow site) else pure (taken.reverse, rest)

/-- The receiver of a call that is not static, and the operand stack below it. -/
def popReceiver (site : Site) (static : Bool) (stack : List Value) :
    Exec (Option Value × List Value) :=
  if static then pure (none, stack)
  else match stack with
    | v :: rest => pure (some v, rest)
    | [] => throw (.operandUnderflow site)

/-- Whether an object passes a cast. -/
def CastTarget.accepts : CastTarget → Option Object → Bool
  | .character, some (.char _) => true
  | .deque, some (.deque _) => true
  | .any, _ => true
  | _, _ => false

/-- What an action asks of the frames. -/
inductive Effect where
  /-- To go on in the same method. -/
  | proceed (frame : Frame)
  /-- To call a method of the class; `frame` is the caller without the arguments. -/
  | enter (frame : Frame) (name descriptor : String) (arguments : List Value)
  /-- To return to the caller. -/
  | leave

/-- Executes an action in a frame whose `next` is already past it. -/
def execute (offset : Nat) (action : Action) (f : Frame) : Exec Effect :=
  let site : Site := ⟨f.method.name, offset⟩
  let underflow : Exec Effect := throw (.operandUnderflow site)
  match action with
  | .push v => return .proceed { f with stack := .int v :: f.stack }
  | .load slot =>
    match f.locals[slot]? with
    | some v => return .proceed { f with stack := v :: f.stack }
    | none => throw (.typeMismatch site (.slotOutsideFrame slot))
  | .store slot =>
    match f.stack with
    | [] => underflow
    | v :: rest =>
      if slot < f.locals.size then
        return .proceed { f with locals := f.locals.setIfInBounds slot v, stack := rest }
      else throw (.typeMismatch site (.slotOutsideFrame slot))
  | .pop =>
    match f.stack with
    | _ :: rest => return .proceed { f with stack := rest }
    | [] => underflow
  | .dup =>
    match f.stack with
    | a :: rest => return .proceed { f with stack := a :: a :: rest }
    | [] => underflow
  | .dup2 =>
    match f.stack with
    | a :: b :: rest => return .proceed { f with stack := a :: b :: a :: b :: rest }
    | _ => underflow
  | .swap =>
    match f.stack with
    | a :: b :: rest => return .proceed { f with stack := b :: a :: rest }
    | _ => underflow
  | .add => do
    let (b, rest) ← popInt site f.stack
    let (a, rest) ← popInt site rest
    return .proceed { f with stack := .int (a + b) :: rest }
  | .xor => do
    let (b, rest) ← popInt site f.stack
    let (a, rest) ← popInt site rest
    return .proceed { f with stack := .int (a ^^^ b) :: rest }
  | .negate => do
    let (a, rest) ← popInt site f.stack
    return .proceed { f with stack := .int (-a) :: rest }
  | .narrow => do
    let (a, rest) ← popInt site f.stack
    return .proceed { f with stack := .int (Int32.ofNat a.toUInt32.toUInt16.toNat) :: rest }
  | .branch test target place => do
    let (taken, rest) ← match test with
      | .always => pure (true, f.stack)
      | .zero => do
        let (a, rest) ← popInt site f.stack
        pure (a == 0, rest)
      | .nonzero => do
        let (a, rest) ← popInt site f.stack
        pure (a != 0, rest)
    if taken then
      match place with
      | some next => return .proceed { f with next, stack := rest }
      | none => throw (.typeMismatch site (.insideInstruction target))
    else return .proceed { f with stack := rest }
  | .leave => return .leave
  | .output => do
    let place ← match (← get).output? with
      | some place => pure place
      | none => do
        let place ← allocate .printStream
        modify fun s => { s with output? := some place }
        pure place
    return .proceed { f with stack := .ref place :: f.stack }
  | .create object => do
    let place ← allocate object
    return .proceed { f with stack := .ref place :: f.stack }
  | .cast target =>
    match f.stack with
    | [] => underflow
    | .ref place :: _ => do
      if target.accepts (← objectOf (some place)) then return .proceed f
      else throw (.raised .classCast site)
    | _ => return .proceed f
  | .call count static callee => do
    let (arguments, rest) ← popArguments site count f.stack
    let (target, rest) ← popReceiver site static rest
    match callee with
    | .error cause => throw (.fault cause)
    | .ok (.own name descriptor) =>
      return .enter { f with stack := rest } name descriptor arguments
    | .ok (.library routine) =>
      let place ← receiver site target
      let result ← runRoutine site place arguments routine
      return .proceed { f with stack := result.toList ++ rest }
  | .trap t => throw t

/-- A run between two instructions: the frame of the method under way and those that wait for it. -/
structure State where
  store : Store
  frame : Frame
  callers : List Frame

inductive Progress where
  | running (state : State)
  /-- The first method returned. -/
  | returned (store : Store)
  | trapped (store : Store) (t : Trap)

/-- The frame of a method that is called at a given depth. Slots that no argument fills start as
null. -/
def enter (p : Program) (limits : Limits) (depth : Nat) (name descriptor : String)
    (arguments : List Value) : Except Trap Frame :=
  if limits.maxCallDepth ≤ depth then .error (.callDepth depth)
  else (p.method name descriptor).map fun method => {
    method
    next := 0
    locals := (arguments ++ List.replicate (method.maxLocals - arguments.length) Value.null).toArray
    stack := []
    depth }

/-- Executes the next instruction. It counts even if it exceeds the limit and is not executed. -/
def step (p : Program) (limits : Limits) : State → Progress
  | ⟨store, f, callers⟩ =>
    match f.method.instructions[f.next]? with
    | none => .trapped store (.unsupported (.leavesCode f.method.name f.method.descriptor))
    | some i =>
      let store := { store with steps := store.steps + 1 }
      match limits.maxSteps.filter (· < store.steps) with
      | some limit => .trapped store (.stepLimit limit)
      | none =>
        match execute i.offset i.action { f with next := f.next + 1 } store with
        | .error t store => .trapped store t
        | .ok (.proceed frame) store => .running ⟨store, frame, callers⟩
        | .ok (.enter caller name descriptor arguments) store =>
          match enter p limits (caller.depth + 1) name descriptor arguments with
          | .error t => .trapped store t
          | .ok frame => .running ⟨store, frame, caller :: callers⟩
        | .ok .leave store =>
          match callers with
          | [] => .returned store
          | frame :: callers => .running ⟨store, frame, callers⟩

end StackGlyph.Machine
