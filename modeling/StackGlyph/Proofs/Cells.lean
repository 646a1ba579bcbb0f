import Mathlib.Data.List.Forall2
import StackGlyph.Proofs.Execution

/-!
# Stacks of cells in the heap

A queue in the heap holds a stack of 16-bit cells if its entries refer to boxed characters with
these units, front first. Boxes never change, so whatever happens to the queue itself, a cell that
was taken from it stays good. The library calls on queues, boxes and the output are moves between
such worlds.
-/
namespace StackGlyph.Machine

def World.setCells (w : World) (queue : Nat) (cells : List Value) : World :=
  { w with heap := w.heap.setIfInBounds queue (.deque cells) }

/-- The world with one more boxed character, whose place is the former size of the heap. -/
def World.box (w : World) (unit : UInt16) : World :=
  { w with heap := w.heap.push (.char unit) }

def World.print (w : World) (unit : UInt16) : World :=
  { w with printed := w.printed.push unit }

/-- The place of the standard output, once it was asked for. -/
def World.outputPlace (w : World) : Nat :=
  w.output?.getD w.heap.size

/-- The world after the standard output was asked for. -/
def World.withOutput (w : World) : World :=
  match w.output? with
  | some _ => w
  | none => { w with heap := w.heap.push .printStream, output? := some w.heap.size }

/-- The number that stands for a unit on operand stacks. -/
def unitValue (unit : UInt16) : Value :=
  .int (Int32.ofNat unit.toNat)

def World.HasCells (w : World) (queue : Nat) (cells : List Value) : Prop :=
  w.heap[queue]? = some (.deque cells)

def World.Boxed (w : World) (v : Value) (unit : UInt16) : Prop :=
  ∃ place, v = .ref place ∧ w.heap[place]? = some (.char unit)

/-- The output, if it was asked for, is where it was put. -/
def World.Tidy (w : World) : Prop :=
  ∀ place, w.output? = some place → w.heap[place]? = some .printStream

/-- All but the queues stays where it is. -/
def World.Keeps (w w' : World) : Prop :=
  ∀ (place : Nat) (object : Object), w.heap[place]? = some object →
    (∀ cells, object ≠ .deque cells) → w'.heap[place]? = some object

/-- The queue at a place holds a stack of cells, top first. -/
structure World.Holds (w : World) (queue : Nat) (units : List UInt16) : Prop where
  cells : ∃ cells, w.HasCells queue cells ∧ List.Forall₂ w.Boxed cells units
  tidy : w.Tidy

namespace World

variable {w w' : World} {queue : Nat} {cells cells' : List Value} {units : List UInt16} {v : Value}
  {unit : UInt16}

theorem HasCells.lt (h : w.HasCells queue cells) : queue < w.heap.size :=
  (Array.getElem?_eq_some_iff.mp h).1

theorem get_push {heap : Array Object} {place : Nat} {object : Object}
    (h : heap[place]? = some object) (new : Object) : (heap.push new)[place]? = some object := by
  have hlt := (Array.getElem?_eq_some_iff.mp h).1
  rw [Array.getElem?_push, if_neg (Nat.ne_of_lt hlt), h]

theorem keeps_setCells (hcells : w.HasCells queue cells) (cells' : List Value) :
    w.Keeps (w.setCells queue cells') := by
  intro place object h hobject
  have hne : queue ≠ place := by
    rintro rfl
    rw [HasCells, h] at hcells
    exact hobject cells (Option.some.inj hcells)
  simp [setCells, hne, h]

theorem keeps_box (w : World) (unit : UInt16) : w.Keeps (w.box unit) :=
  fun _ _ h _ => get_push h _

theorem keeps_withOutput (w : World) : w.Keeps w.withOutput := by
  intro place object h _
  unfold withOutput
  split
  · exact h
  · exact get_push h _

theorem HasCells.set (h : w.HasCells queue cells) (cells' : List Value) :
    (w.setCells queue cells').HasCells queue cells' := by
  have hlt := h.lt
  simp [HasCells, setCells, hlt]

theorem HasCells.box (h : w.HasCells queue cells) (unit : UInt16) :
    (w.box unit).HasCells queue cells :=
  get_push h _

theorem HasCells.withOutput (h : w.HasCells queue cells) :
    w.withOutput.HasCells queue cells := by
  unfold World.withOutput
  split
  · exact h
  · exact get_push h _

theorem Boxed.keeps (h : w.Boxed v unit) (hkeeps : w.Keeps w') : w'.Boxed v unit := by
  obtain ⟨place, rfl, hplace⟩ := h
  exact ⟨place, rfl, hkeeps place _ hplace (by simp)⟩

theorem boxed_new (w : World) (unit : UInt16) : (w.box unit).Boxed (.ref w.heap.size) unit :=
  ⟨_, rfl, by simp [World.box]⟩

theorem Boxed.ne_null (h : w.Boxed v unit) : v ≠ .null := by
  obtain ⟨place, rfl, -⟩ := h
  simp

theorem Tidy.keeps (h : w.Tidy) (hkeeps : w.Keeps w') (houtput : w'.output? = w.output?) :
    w'.Tidy := by
  intro place hplace
  exact hkeeps place _ (h place (houtput ▸ hplace)) (by simp)

/-- The standard output stands where it is looked for. -/
theorem Tidy.outputPlace (h : w.Tidy) : w.withOutput.heap[w.outputPlace]? = some .printStream := by
  unfold World.withOutput World.outputPlace
  split
  · next place hplace =>
    rw [hplace]
    exact h place hplace
  · next hnone => simp [hnone]

/-- The output is put at the end of the heap the first time it is asked for, and found there
afterwards. -/
theorem Tidy.withOutput (h : w.Tidy) : w.withOutput.Tidy := by
  intro place hplace
  have hout : w.outputPlace = place := by
    unfold World.withOutput at hplace
    unfold World.outputPlace
    split at hplace
    · rw [hplace]
      rfl
    · next hnone =>
      rw [hnone]
      exact Option.some.inj hplace
  exact hout ▸ h.outputPlace

/-- A queue with other cells in it holds their units. -/
theorem Tidy.holds_set (h : w.Tidy) (hcells : w.HasCells queue cells)
    (hboxed : List.Forall₂ w.Boxed cells' units) : (w.setCells queue cells').Holds queue units where
  cells := ⟨cells', hcells.set cells',
    hboxed.imp fun _ _ hv => hv.keeps (keeps_setCells hcells cells')⟩
  tidy := h.keeps (keeps_setCells hcells cells') rfl

@[simp] theorem printed_setCells (w : World) (queue : Nat) (cells : List Value) :
    (w.setCells queue cells).printed = w.printed := rfl

@[simp] theorem printed_box (w : World) (unit : UInt16) : (w.box unit).printed = w.printed := rfl

@[simp] theorem printed_withOutput (w : World) : w.withOutput.printed = w.printed := by
  unfold withOutput
  split <;> rfl

@[simp] theorem setCells_setCells (w : World) (queue : Nat) (cells cells' : List Value) :
    (w.setCells queue cells).setCells queue cells' = w.setCells queue cells' := by
  simp [setCells]

end World

/-! ## Library calls -/

variable {p : Program} {limits : Limits} {c : Activation} {ahead : List Action}
  {locals : Array Value} {stack : List Value} {w : World} {queue : Nat} {cells : List Value}
  {v : Value} {unit : UInt16}

/-- A library call takes its arguments and its receiver, if it has one, from the operand stack and
puts its result there. -/
theorem execute_library (place : Option Nat) (arguments : List Value) {m : LinkedMethod}
    {offset next depth : Nat} {routine : Routine} {s : Store} :
    execute offset (.call arguments.length place.isNone (.ok (.library routine)))
      ⟨m, next, locals, arguments.reverse ++ ((place.map Value.ref).toList ++ stack), depth⟩ s =
    match runRoutine ⟨m.name, offset⟩ place arguments routine s with
    | .ok result s' => .ok (.proceed ⟨m, next, locals, result.toList ++ stack, depth⟩) s'
    | .error e s' => .error e s' := by
  unfold execute
  dsimp only
  rw [popArguments_eq]
  have hrest : (runRoutine ⟨m.name, offset⟩ place arguments routine >>= fun result =>
      pure (Effect.proceed ⟨m, next, locals, result.toList ++ stack, depth⟩)) s =
      match runRoutine ⟨m.name, offset⟩ place arguments routine s with
      | .ok result s' => .ok (.proceed ⟨m, next, locals, result.toList ++ stack, depth⟩) s'
      | .error e s' => .error e s' := by
    cases h : runRoutine ⟨m.name, offset⟩ place arguments routine s with
    | ok result s' =>
      rw [bind_of_ok h]
      rfl
    | error e s' => rw [bind_of_error h]
  cases place with
  | none => exact hrest
  | some place => exact hrest

theorem Moves.library (place : Option Nat) (arguments : List Value) (result : Option Value)
    {routine : Routine} {w' : World} (h : ∀ site steps,
      runRoutine site place arguments routine (w.after steps) = .ok result (w'.after steps)) :
    Moves p limits c 1
      ⟨.call arguments.length place.isNone (.ok (.library routine)) :: ahead, locals,
        arguments.reverse ++ ((place.map Value.ref).toList ++ stack), w⟩
      ⟨ahead, locals, result.toList ++ stack, w'⟩ := by
  refine .one fun offset next steps => ?_
  rw [execute_library, h]

/-- The action of a call to a library routine on a receiver. -/
def libraryCall (arguments : Nat) (routine : Routine) : Action :=
  .call arguments false (.ok (.library routine))

theorem cellsOf_eq {site : Site} {steps : Nat} (h : w.HasCells queue cells) :
    cellsOf site (some queue) (w.after steps) = .ok cells (w.after steps) := by
  have hobject : objectOf (some queue) (w.after steps) =
      .ok (some (.deque cells)) (w.after steps) :=
    congrArg (EStateM.Result.ok · (w.after steps)) h
  exact (bind_of_ok hobject).trans rfl

theorem moves_popCell (h : w.HasCells queue (v :: cells)) :
    Moves p limits c 1 ⟨libraryCall 0 .pop :: ahead, locals, .ref queue :: stack, w⟩
      ⟨ahead, locals, v :: stack, w.setCells queue cells⟩ := by
  refine .library (some queue) [] (some v) fun site steps => ?_
  rw [runRoutine, bind_of_ok (cellsOf_eq h)]
  rfl

/-- Taking a cell from an empty queue raises an exception. -/
theorem raises_popCell (h : w.HasCells queue []) :
    Raises p limits c 1 ⟨libraryCall 0 .pop :: ahead, locals, .ref queue :: stack, w⟩
      (.raised .noSuchElement (c.method.siteBefore ahead.length)) w := by
  refine .one fun offset next steps => ?_
  have hrun : runRoutine ⟨c.method.name, offset⟩ (some queue) [] .pop (w.after steps) =
      .error (.raised .noSuchElement ⟨c.method.name, offset⟩) (w.after steps) := by
    rw [runRoutine, bind_of_ok (cellsOf_eq h)]
    rfl
  refine (execute_library (some queue) []).trans ?_
  rw [hrun]

theorem moves_pushCell (h : w.HasCells queue cells) (hv : v ≠ .null) :
    Moves p limits c 1 ⟨libraryCall 1 .push :: ahead, locals, v :: .ref queue :: stack, w⟩
      ⟨ahead, locals, stack, w.setCells queue (v :: cells)⟩ := by
  refine .library (some queue) [v] none fun site steps => ?_
  rw [runRoutine, if_neg (show [v].headD .null ≠ .null from hv)]
  exact (bind_of_ok (cellsOf_eq h)).trans rfl

theorem moves_isEmpty (h : w.HasCells queue cells) :
    Moves p limits c 1 ⟨libraryCall 0 .isEmpty :: ahead, locals, .ref queue :: stack, w⟩
      ⟨ahead, locals, .int (if cells.isEmpty then 1 else 0) :: stack, w⟩ := by
  refine .library (some queue) [] (some _) fun site steps => ?_
  rw [runRoutine, bind_of_ok (cellsOf_eq h)]
  rfl

/-- The number of a unit lies in the range of characters. -/
theorem toInt_unit (unit : UInt16) : (Int32.ofNat unit.toNat).toInt = unit.toNat := by
  have hlt : unit.toNat < 65536 := unit.toNat_lt
  exact Int32.toInt_ofNat_of_lt (by omega)

/-- The call that boxes a character, which has no receiver. -/
def boxCall : Action :=
  .call 1 true (.ok (.library .box))

/-- A box is a new object, so its place is the size that the heap had. -/
theorem moves_box (unit : UInt16) :
    Moves p limits c 1 ⟨boxCall :: ahead, locals, unitValue unit :: stack, w⟩
      ⟨ahead, locals, .ref w.heap.size :: stack, w.box unit⟩ := by
  refine .library none [unitValue unit] (some (.ref w.heap.size)) fun site steps => ?_
  have hlt : unit.toNat < 65536 := unit.toNat_lt
  have hunit : (Int32.ofNat unit.toNat).toInt.toNat.toUInt16 = unit := by
    rw [toInt_unit, Int.toNat_natCast]
    simp
  show (if 0 ≤ (Int32.ofNat unit.toNat).toInt ∧ (Int32.ofNat unit.toNat).toInt ≤ 65535 then do
      return some (.ref (← allocate (.char (Int32.ofNat unit.toNat).toInt.toNat.toUInt16)))
    else throw (.typeMismatch site (.notChar (unitValue unit))) : Exec (Option Value))
      (w.after steps) = _
  rw [if_pos (by rw [toInt_unit]; omega), hunit]
  rfl

theorem moves_unbox (h : w.Boxed v unit) :
    Moves p limits c 1 ⟨libraryCall 0 .unbox :: ahead, locals, v :: stack, w⟩
      ⟨ahead, locals, unitValue unit :: stack, w⟩ := by
  obtain ⟨place, rfl, hplace⟩ := h
  refine .library (some place) [] (some (unitValue unit)) fun site steps => ?_
  have hobject : objectOf (some place) (w.after steps) = .ok (some (.char unit)) (w.after steps) :=
    congrArg (EStateM.Result.ok · (w.after steps)) hplace
  rw [runRoutine, bind_of_ok hobject]
  rfl

/-- A boxed character passes the cast to its class. -/
theorem moves_cast (h : w.Boxed v unit) :
    Moves p limits c 1 ⟨.cast .character :: ahead, locals, v :: stack, w⟩
      ⟨ahead, locals, v :: stack, w⟩ := by
  obtain ⟨place, rfl, hplace⟩ := h
  refine .one fun offset next steps => ?_
  have hobject : objectOf (some place) (w.after steps) = .ok (some (.char unit)) (w.after steps) :=
    congrArg (EStateM.Result.ok · (w.after steps)) hplace
  exact (bind_of_ok hobject).trans rfl

theorem moves_construct :
    Moves p limits c 1 ⟨libraryCall 0 .construct :: ahead, locals, .ref queue :: stack, w⟩
      ⟨ahead, locals, stack, w⟩ :=
  .library (some queue) [] none fun _ _ => rfl

theorem moves_create (object : Object) :
    Moves p limits c 1 ⟨.create object :: ahead, locals, stack, w⟩
      ⟨ahead, locals, .ref w.heap.size :: stack, { w with heap := w.heap.push object }⟩ :=
  .one fun _ _ _ => rfl

/-- The standard output is put into the heap when it is asked for first. -/
theorem moves_output :
    Moves p limits c 1 ⟨.output :: ahead, locals, stack, w⟩
      ⟨ahead, locals, .ref w.outputPlace :: stack, w.withOutput⟩ := by
  obtain ⟨heap, output?, printed⟩ := w
  cases output? with
  | none => exact .one fun _ _ _ => rfl
  | some place => exact .one fun _ _ _ => rfl

/-- Printing takes the unit and the stream, and touches no object. -/
theorem moves_print (h : w.heap[queue]? = some .printStream) :
    Moves p limits c 1
      ⟨libraryCall 1 .print :: ahead, locals, unitValue unit :: .ref queue :: stack, w⟩
      ⟨ahead, locals, stack, w.print unit⟩ := by
  refine .library (some queue) [unitValue unit] none fun site steps => ?_
  have hobject : objectOf (some queue) (w.after steps) = .ok (some .printStream) (w.after steps) :=
    congrArg (EStateM.Result.ok · (w.after steps)) h
  have hunit : (Int32.ofNat unit.toNat).toUInt32.toUInt16 = unit := by
    apply UInt16.toBitVec_inj.mp
    simp
  rw [runRoutine, bind_of_ok hobject]
  show EStateM.Result.ok none
    { w.after steps with
      printed := w.printed.push (Int32.ofNat unit.toNat).toUInt32.toUInt16 } = _
  rw [hunit]
  rfl

end StackGlyph.Machine
