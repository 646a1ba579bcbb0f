import StackGlyph.Proofs.Execution

/-!
# What one instruction can do

An action reads the heap and changes it in one of a few ways: it puts an object there, or takes a
cell from a queue or gives one to it, and it may print a unit. An action that traps has changed
nothing. The values that a frame holds afterwards are those it held before, numbers, and what the
heap gave; a slot is found to be outside the frame only if the action names it. Whatever holds along
all runs is derived from this.
-/
namespace StackGlyph.Machine

variable {p : Program} {limits : Limits}

/-! ## The next instruction -/

def Progress.store : Progress → Store
  | .running s => s.store
  | .returned t => t
  | .trapped t _ => t

def State.next? (s : State) : Option LinkedInstruction :=
  s.frame.method.instructions[s.frame.next]?

/-- The store in which the next instruction is executed. -/
def State.counted (s : State) : Store :=
  { s.store with steps := s.store.steps + 1 }

/-- What the effect of an action leads to, above the frames that wait. -/
def follow (p : Program) (limits : Limits) (callers : List Frame) :
    EStateM.Result Trap Store Effect → Progress
  | .error t store => .trapped store t
  | .ok (.proceed frame) store => .running ⟨store, frame, callers⟩
  | .ok (.enter caller name descriptor arguments) store =>
    match enter p limits (caller.depth + 1) name descriptor arguments with
    | .error t => .trapped store t
    | .ok frame => .running ⟨store, frame, caller :: callers⟩
  | .ok .leave store =>
    match callers with
    | [] => .returned store
    | frame :: callers => .running ⟨store, frame, callers⟩

theorem store_follow (callers : List Frame) (r : EStateM.Result Trap Store Effect) :
    (follow p limits callers r).store = leftBy r := by
  rcases r with ⟨_ | ⟨caller, name, descriptor, arguments⟩ | _, store⟩ | ⟨t, store⟩
  · rfl
  · simp only [follow]
    split <;> rfl
  · simp only [follow]
    split <;> rfl
  · rfl

/-- A method that is left without a return ends the run, and counts nothing. -/
theorem step_of_next_none {s : State} (h : s.next? = none) :
    step p limits s = .trapped s.store
      (.unsupported (.leavesCode s.frame.method.name s.frame.method.descriptor)) := by
  unfold State.next? at h
  unfold step
  simp only [h]

/-- An instruction within the limit is executed. -/
theorem step_of_allows {s : State} {i : LinkedInstruction} (h : s.next? = some i)
    (hallow : limits.Allows (s.store.steps + 1)) :
    step p limits s = follow p limits s.callers
      (execute i.offset i.action { s.frame with next := s.frame.next + 1 } s.counted) :=
  step_execute (c := ⟨s.frame.method, s.frame.depth, s.callers⟩)
    (x := ⟨[], s.frame.locals, s.frame.stack, ⟨s.store.heap, s.store.output?, s.store.printed⟩⟩)
    h hallow

/-- An instruction beyond the limit is counted, but not executed. -/
theorem step_of_exceeds {s : State} {i : LinkedInstruction} {limit : Nat} (h : s.next? = some i)
    (hlimit : limits.maxSteps = some limit) (hexceeds : limit < s.store.steps + 1) :
    step p limits s = .trapped s.counted (.stepLimit limit) := by
  unfold State.next? at h
  unfold step
  simp only [h, hlimit, Option.filter_some, decide_eq_true hexceeds, if_true]
  rfl

/-- A method that can be entered begins at its first instruction, with its arguments in its
slots. -/
theorem enter_eq_ok {depth : Nat} {name descriptor : String} {arguments : List Value} {f : Frame}
    (h : enter p limits depth name descriptor arguments = .ok f) :
    ∃ method, p.method name descriptor = .ok method ∧ f = {
      method
      next := 0
      locals := (arguments ++ List.replicate (method.maxLocals - arguments.length) Value.null).toArray
      stack := []
      depth } := by
  unfold enter at h
  split at h
  · cases h
  · cases hmethod : p.method name descriptor with
    | error e =>
      rw [hmethod] at h
      cases h
    | ok method =>
      rw [hmethod] at h
      cases h
      exact ⟨method, rfl, rfl⟩

/-- A method cannot be entered because of the limit on depth, or because there is none to enter. -/
theorem enter_eq_error {depth : Nat} {name descriptor : String} {arguments : List Value} {e : Trap}
    (h : enter p limits depth name descriptor arguments = .error e) :
    e = .callDepth depth ∨ p.method name descriptor = .error e := by
  unfold enter at h
  split at h
  · cases h
    exact .inl rfl
  · cases hmethod : p.method name descriptor with
    | error e =>
      rw [hmethod] at h
      cases h
      exact .inr rfl
    | ok method =>
      rw [hmethod] at h
      cases h

theorem allows_or_exceeds (limits : Limits) (steps : Nat) :
    limits.Allows steps ∨ ∃ limit, limits.maxSteps = some limit ∧ limit < steps := by
  unfold Limits.Allows
  cases limits.maxSteps with
  | none => exact .inl (by simp)
  | some limit =>
    rcases Nat.lt_or_ge limit steps with hlt | hge
    · exact .inr ⟨limit, rfl, hlt⟩
    · exact .inl (by simpa using hge)

/-- Why an instruction traps: there is none, it exceeds the limit, its action traps, or the method
that it calls cannot be entered. -/
theorem trapped_cases {s : State} {t : Store} {e : Trap} (h : step p limits s = .trapped t e) :
    e = .unsupported (.leavesCode s.frame.method.name s.frame.method.descriptor) ∨
    (∃ limit, e = .stepLimit limit) ∨
    (∃ i, s.next? = some i ∧
      execute i.offset i.action { s.frame with next := s.frame.next + 1 } s.counted = .error e t) ∨
    ∃ depth name descriptor arguments,
      enter p limits depth name descriptor arguments = .error e := by
  cases hnext : s.next? with
  | none =>
    rw [step_of_next_none hnext] at h
    cases h
    exact .inl rfl
  | some i =>
    rcases allows_or_exceeds limits (s.store.steps + 1) with hallow | ⟨limit, hlimit, hlt⟩
    · rw [step_of_allows hnext hallow] at h
      rcases hexecute : execute i.offset i.action { s.frame with next := s.frame.next + 1 } s.counted
        with ⟨_ | ⟨caller, name, descriptor, arguments⟩ | _, t'⟩ | ⟨e', t'⟩ <;> rw [hexecute] at h
      · cases h
      · simp only [follow] at h
        split at h
        · next henter =>
          cases h
          exact .inr (.inr (.inr ⟨_, _, _, _, henter⟩))
        · cases h
      · simp only [follow] at h
        split at h <;> cases h
      · cases h
        exact .inr (.inr (.inl ⟨i, rfl, hexecute⟩))
    · rw [step_of_exceeds hnext hlimit hlt] at h
      cases h
      exact .inr (.inl ⟨limit, rfl⟩)

/-! ## Actions -/

def Frame.Has (f : Frame) (v : Value) : Prop :=
  v ∈ f.stack ∨ v ∈ f.locals

/-- What an action of a frame does to the store, and the values that it brings to the frame. -/
inductive Touches (action : Action) (f : Frame) : Store → List Value → Store → Prop
  /-- Nothing, or it computes. -/
  | nothing {s : Store} {new : List Value} (h : ∀ v ∈ new, ∃ n, v = .int n) :
      Touches action f s new s
  /-- It puts an object into the heap that is asked for, or a boxed character. -/
  | makes {s : Store} {object : Object} (h : action = .create object ∨ ∃ unit, object = .char unit) :
      Touches action f s [.ref s.heap.size] { s with heap := s.heap.push object }
  /-- It puts the standard output into the heap. -/
  | opens {s : Store} (h : s.output? = none) :
      Touches action f s [.ref s.heap.size]
        { s with heap := s.heap.push .printStream, output? := some s.heap.size }
  | recalls {s : Store} {place : Nat} (h : s.output? = some place) : Touches action f s [.ref place] s
  /-- It takes the front of a queue. -/
  | takes {s : Store} {place : Nat} {v : Value} {cells : List Value}
      (h : s.heap[place]? = some (.deque (v :: cells))) :
      Touches action f s [v] { s with heap := s.heap.setIfInBounds place (.deque cells) }
  /-- It gives a queue a new front. -/
  | gives {s : Store} {place : Nat} {v : Value} {cells : List Value}
      (h : s.heap[place]? = some (.deque cells)) (hv : f.Has v) :
      Touches action f s [] { s with heap := s.heap.setIfInBounds place (.deque (v :: cells)) }
  | prints {s : Store} (unit : UInt16) :
      Touches action f s [] { s with printed := s.printed.push unit }

/-- A frame goes on with what it had and what an action brought to it. -/
structure Frame.Follows (f' f : Frame) (new : List Value) : Prop where
  method : f'.method = f.method
  depth : f'.depth = f.depth
  slots : f'.locals.size = f.locals.size
  values : ∀ v, f'.Has v → f.Has v ∨ v ∈ new

theorem Frame.follows_stack {f : Frame} {new stack : List Value} (next : Nat)
    (h : stack ⊆ new ++ f.stack) : { f with next, stack }.Follows f new where
  method := rfl
  depth := rfl
  slots := rfl
  values v hv := by
    rcases hv with hv | hv
    · exact (List.mem_append.mp (h hv)).symm.imp_left .inl
    · exact .inl (.inr hv)

/-- Traps that arise in the execution of a method, as opposed to those of a call from outside. -/
def Trap.Arises : Trap → Prop
  | .unsupported (.stackReplaced) | .unsupported (.foreignCell _) | .unsupported (.bareCell _)
  | .stepLimit _ | .callDepth _ => False
  | _ => True

def Action.slot? : Action → Option Nat
  | .load slot | .store slot => some slot
  | _ => none

/-- Traps that arise when an action of a frame is executed. A slot outside the frame is one that the
action reads or writes. -/
def Trap.ArisesAt (action : Action) (f : Frame) : Trap → Prop
  | .typeMismatch _ (.slotOutsideFrame slot) => action.slot? = some slot ∧ f.locals.size ≤ slot
  | e => e.Arises

def Does (action : Action) (f : Frame) (s : Store) : EStateM.Result Trap Store Effect → Prop
  | .error e t => t = s ∧ (e.ArisesAt action f ∨ action = .trap e)
  | .ok (.proceed f') t => ∃ new, Touches action f s new t ∧ f'.Follows f new
  | .ok (.enter caller _ _ arguments) t =>
    t = s ∧ caller.Follows f [] ∧ arguments ⊆ f.stack
  | .ok .leave t => t = s

variable {action : Action} {f : Frame} {s : Store}

theorem Trap.ArisesAt.arises {e : Trap} (h : e.ArisesAt action f) : e.Arises := by
  unfold ArisesAt at h
  split at h
  · trivial
  · exact h

/-! ## Library calls -/

def RoutineDoes (action : Action) (f : Frame) (s : Store) :
    EStateM.Result Trap Store (Option Value) → Prop
  | .error e t => t = s ∧ e.ArisesAt action f
  | .ok result t => Touches action f s result.toList t

theorem objectOf_bind {α : Type} (place : Option Nat) (g : Option Object → Exec α) (s : Store) :
    (objectOf place >>= g) s = g (place.bind fun place => s.heap[place]?) s := rfl

/-- A receiver is a queue of the heap, or there is a trap. -/
theorem cellsOf_cases (site : Site) (place : Option Nat) (s : Store) :
    cellsOf site place s = .error (.typeMismatch site .notDeque) s ∨
    ∃ queue cells, place = some queue ∧ s.heap[queue]? = some (.deque cells) ∧
      cellsOf site place s = .ok cells s := by
  rw [cellsOf, objectOf_bind]
  cases hobject : place.bind fun place => s.heap[place]? with
  | none => exact .inl rfl
  | some object =>
    cases object with
    | deque cells =>
      obtain ⟨queue, rfl, hqueue⟩ := Option.bind_eq_some_iff.mp hobject
      exact .inr ⟨queue, cells, rfl, hqueue, rfl⟩
    | _ => exact .inl rfl

/-- The one routine that stores a value: what it stores was an argument, so the frame had it. -/
theorem push_does (site : Site) (place : Option Nat) {arguments : List Value}
    (hargs : ∀ v ∈ arguments, f.Has v) :
    RoutineDoes action f s (runRoutine site place arguments .push s) := by
  cases arguments with
  | nil => exact ⟨rfl, trivial⟩
  | cons v rest =>
    by_cases hv : v = .null
    · subst hv
      exact ⟨rfl, trivial⟩
    · rw [runRoutine, if_neg (show (v :: rest).headD .null ≠ .null from hv)]
      show RoutineDoes action f s ((do
        let cells ← cellsOf site place
        setCells place (v :: cells)
        return none : Exec (Option Value)) s)
      rcases cellsOf_cases site place s with h | ⟨queue, cells, rfl, hqueue, h⟩
      · rw [bind_of_error h]
        exact ⟨rfl, trivial⟩
      · rw [bind_of_ok h]
        exact .gives hqueue (hargs v List.mem_cons_self)

theorem pop_does (site : Site) (place : Option Nat) (arguments : List Value) :
    RoutineDoes action f s (runRoutine site place arguments .pop s) := by
  rw [runRoutine]
  rcases cellsOf_cases site place s with h | ⟨queue, cells, rfl, hqueue, h⟩
  · rw [bind_of_error h]
    exact ⟨rfl, trivial⟩
  · rw [bind_of_ok h]
    cases cells with
    | nil => exact ⟨rfl, trivial⟩
    | cons v cells => exact .takes hqueue

theorem isEmpty_does (site : Site) (place : Option Nat) (arguments : List Value) :
    RoutineDoes action f s (runRoutine site place arguments .isEmpty s) := by
  rw [runRoutine]
  rcases cellsOf_cases site place s with h | ⟨queue, cells, rfl, hqueue, h⟩
  · rw [bind_of_error h]
    exact ⟨rfl, trivial⟩
  · rw [bind_of_ok h]
    exact .nothing (by simp)

theorem box_does (site : Site) (place : Option Nat) (arguments : List Value) :
    RoutineDoes action f s (runRoutine site place arguments .box s) := by
  rw [runRoutine]
  cases arguments.headD .null with
  | int n =>
    by_cases hn : 0 ≤ n.toInt ∧ n.toInt ≤ 65535
    · simp only [hn, and_self, if_true]
      exact .makes (.inr ⟨_, rfl⟩)
    · simp only [hn, if_false]
      exact ⟨rfl, trivial⟩
  | _ => exact ⟨rfl, trivial⟩

/-- Library routines only change the cells of a queue, add a box, or print; what they give back is
new or was at hand. -/
theorem runRoutine_does (site : Site) (place : Option Nat) {arguments : List Value}
    (hargs : ∀ v ∈ arguments, f.Has v) (routine : Routine) :
    RoutineDoes action f s (runRoutine site place arguments routine s) := by
  cases routine with
  | construct => exact .nothing (by simp)
  | constructPlain m =>
    rw [runRoutine, objectOf_bind]
    rcases place.bind fun place => s.heap[place]? with _ | _ | _ | _ | _ | _
    case some.plain => exact .nothing (by simp)
    all_goals exact ⟨rfl, trivial⟩
  | push => exact push_does site place hargs
  | pop => exact pop_does site place arguments
  | isEmpty => exact isEmpty_does site place arguments
  | box => exact box_does site place arguments
  | unbox =>
    rw [runRoutine, objectOf_bind]
    rcases place.bind fun place => s.heap[place]? with _ | _ | unit | _ | _ | _
    case some.char => exact .nothing (by simp)
    all_goals exact ⟨rfl, trivial⟩
  | print =>
    rw [runRoutine, objectOf_bind]
    rcases place.bind fun place => s.heap[place]? with _ | _ | _ | _ | _ | _
    case some.printStream =>
      cases arguments.headD .null with
      | int n => exact .prints _
      | _ => exact ⟨rfl, trivial⟩
    all_goals exact ⟨rfl, trivial⟩
  | unknown m => exact ⟨rfl, trivial⟩

/-! ## Operands -/

section Operands

variable {site : Site} {stack : List Value}

/-- An action that goes on in its method and only computes. -/
theorem does_compute {next : Nat} (new : List Value) (hnew : ∀ v ∈ new, ∃ n, v = .int n)
    (hstack : stack ⊆ new ++ f.stack) :
    Does action f s (.ok (.proceed { f with next, stack }) s) :=
  ⟨new, .nothing hnew, Frame.follows_stack next hstack⟩

/-- An action that only moves what is on the operand stack. -/
theorem does_rearrange {next : Nat} (hstack : stack ⊆ f.stack) :
    Does action f s (.ok (.proceed { f with next, stack }) s) :=
  does_compute [] (by simp) hstack

theorem does_number (n : Int32) (hstack : stack ⊆ f.stack) :
    Does action f s (.ok (.proceed { f with stack := .int n :: stack }) s) :=
  does_compute [.int n] (by simp) (List.cons_subset_cons _ hstack)

theorem does_popInt {g : Int32 × List Value → Exec Effect}
    (h : ∀ n rest, rest ⊆ stack → Does action f s (g (n, rest) s)) :
    Does action f s ((popInt site stack >>= g) s) := by
  match stack, h with
  | .int n :: rest, h => exact h n rest (List.subset_cons_self _ _)
  | .null :: _, _ => exact ⟨rfl, .inl trivial⟩
  | .ref _ :: _, _ => exact ⟨rfl, .inl trivial⟩
  | [], _ => exact ⟨rfl, .inl trivial⟩

/-- Arguments come off the operand stack, and so does what lies below them. -/
theorem does_popArguments {count : Nat} {g : List Value × List Value → Exec Effect}
    (h : ∀ arguments rest, arguments ⊆ stack → rest ⊆ stack →
      Does action f s (g (arguments, rest) s)) :
    Does action f s ((popArguments site count stack >>= g) s) := by
  by_cases hcount : (stack.take count).length < count
  · have hpop : popArguments site count stack s = .error (.operandUnderflow site) s := by
      simp only [popArguments, List.splitAt_eq, hcount, if_true]
      rfl
    rw [bind_of_error hpop]
    exact ⟨rfl, .inl trivial⟩
  · have hpop : popArguments site count stack s =
        .ok ((stack.take count).reverse, stack.drop count) s := by
      simp only [popArguments, List.splitAt_eq, hcount, if_false]
      rfl
    rw [bind_of_ok hpop]
    exact h _ _ (List.reverse_subset.mpr (List.take_subset _ _)) (List.drop_subset _ _)

theorem does_popReceiver {static : Bool} {g : Option Value × List Value → Exec Effect}
    (h : ∀ target rest, rest ⊆ stack → Does action f s (g (target, rest) s)) :
    Does action f s ((popReceiver site static stack >>= g) s) := by
  cases static with
  | true => exact h none stack (List.Subset.refl _)
  | false =>
    cases stack with
    | nil => exact ⟨rfl, .inl trivial⟩
    | cons v rest => exact h (some v) rest (List.subset_cons_self _ _)

end Operands

/-- A call of a library routine does what the routine does. -/
theorem does_library {site : Site} {target : Option Value} {arguments rest : List Value}
    (routine : Routine) (hargs : arguments ⊆ f.stack) (hrest : rest ⊆ f.stack) :
    Does action f s ((do
      let place ← receiver site target
      let result ← runRoutine site place arguments routine
      return .proceed { f with stack := result.toList ++ rest } : Exec Effect) s) := by
  have hroutine (place : Option Nat) : Does action f s ((do
      let result ← runRoutine site place arguments routine
      return .proceed { f with stack := result.toList ++ rest } : Exec Effect) s) := by
    have hdoes : RoutineDoes action f s (runRoutine site place arguments routine s) :=
      runRoutine_does site place (fun v hv => .inl (hargs hv)) routine
    cases hrun : runRoutine site place arguments routine s with
    | error e t =>
      rw [hrun] at hdoes
      rw [bind_of_error hrun]
      exact ⟨hdoes.1, .inl hdoes.2⟩
    | ok result t =>
      rw [hrun] at hdoes
      rw [bind_of_ok hrun]
      exact ⟨_, hdoes, Frame.follows_stack _ (List.append_subset.mpr
        ⟨List.subset_append_left _ _, List.subset_append_of_subset_right _ hrest⟩)⟩
  match target with
  | none => exact hroutine none
  | some (.ref place) => exact hroutine (some place)
  | some .null => exact ⟨rfl, .inl trivial⟩
  | some (.int _) => exact ⟨rfl, .inl trivial⟩

/-- A branch pops a number if it is conditional, and goes on in the same method. -/
theorem branch_does (offset : Nat) (test : Test) (target : Nat) (place : Option Nat) :
    Does (.branch test target place) f s (execute offset (.branch test target place) f s) := by
  -- Once it is known where a jump leads, a test chooses between two effects.
  cases place with
  | none =>
    have hjump (taken : Bool) {rest : List Value} (hrest : rest ⊆ f.stack) :
        Does (.branch test target none) f s ((if taken then
            throw (.typeMismatch ⟨f.method.name, offset⟩ (.insideInstruction target))
          else return .proceed { f with stack := rest } : Exec Effect) s) := by
      cases taken with
      | false => exact does_rearrange hrest
      | true => exact ⟨rfl, .inl trivial⟩
    cases test with
    | always => exact hjump true (List.Subset.refl _)
    | zero => exact does_popInt fun n rest hrest => hjump (n == 0) hrest
    | nonzero => exact does_popInt fun n rest hrest => hjump (n != 0) hrest
  | some next =>
    have hjump (taken : Bool) {rest : List Value} (hrest : rest ⊆ f.stack) :
        Does (.branch test target (some next)) f s ((if taken then
            return .proceed { f with next, stack := rest }
          else return .proceed { f with stack := rest } : Exec Effect) s) := by
      cases taken with
      | false => exact does_rearrange hrest
      | true => exact does_rearrange hrest
    cases test with
    | always => exact hjump true (List.Subset.refl _)
    | zero => exact does_popInt fun n rest hrest => hjump (n == 0) hrest
    | nonzero => exact does_popInt fun n rest hrest => hjump (n != 0) hrest

/-- A slot outside the frame is the only way for a load to trap. -/
theorem load_does (offset slot : Nat) :
    Does (.load slot) f s (execute offset (.load slot) f s) := by
  rw [execute]
  cases hslot : f.locals[slot]? with
  | none => exact ⟨rfl, .inl ⟨rfl, Array.getElem?_eq_none_iff.mp hslot⟩⟩
  | some v =>
    refine ⟨[], .nothing (by simp), rfl, rfl, rfl, fun u hu => .inl ?_⟩
    rcases hu with hu | hu
    · rcases List.mem_cons.mp hu with rfl | hu
      · exact .inr (Array.mem_of_getElem? hslot)
      · exact .inl hu
    · exact .inr hu

/-- A store moves a value from the operand stack into a slot; the frame had it before. -/
theorem store_does (offset slot : Nat) :
    Does (.store slot) f s (execute offset (.store slot) f s) := by
  rw [execute]
  cases hstack : f.stack with
  | nil => exact ⟨rfl, .inl trivial⟩
  | cons v rest =>
    by_cases hslot : slot < f.locals.size
    · simp only [hslot, if_true]
      refine ⟨[], .nothing (by simp), rfl, rfl, by simp, fun u hu => .inl ?_⟩
      rcases hu with hu | hu
      · exact .inl (hstack ▸ List.mem_cons_of_mem v hu)
      · rcases Array.mem_or_eq_of_mem_setIfInBounds hu with hu | rfl
        · exact .inr hu
        · exact .inl (hstack ▸ List.mem_cons_self)
    · simp only [hslot, if_false]
      exact ⟨rfl, .inl ⟨rfl, Nat.le_of_not_lt hslot⟩⟩

theorem output_does (offset : Nat) : Does .output f s (execute offset .output f s) := by
  obtain ⟨heap, output?, printed, steps⟩ := s
  cases output? with
  | none => exact ⟨_, .opens rfl, Frame.follows_stack _ (List.Subset.refl _)⟩
  | some place => exact ⟨_, .recalls rfl, Frame.follows_stack _ (List.Subset.refl _)⟩

/-- A cast that is passed leaves the frame as it was. -/
theorem cast_does (offset : Nat) (target : CastTarget) :
    Does (.cast target) f s (execute offset (.cast target) f s) := by
  have hsame : Does (.cast target) f s (.ok (.proceed f) s) := does_rearrange (List.Subset.refl _)
  rw [execute]
  rcases f.stack with _ | ⟨_ | _ | place, rest⟩
  · exact ⟨rfl, .inl trivial⟩
  · exact hsame
  · exact hsame
  · show Does (.cast target) f s ((if target.accepts ((some place).bind fun place => s.heap[place]?)
      then pure (.proceed f) else throw (.raised .classCast ⟨f.method.name, offset⟩)
        : Exec Effect) s)
    by_cases haccepts : target.accepts ((some place).bind fun place => s.heap[place]?)
    · simp only [haccepts, if_true]
      exact hsame
    · simp only [haccepts]
      exact ⟨rfl, .inl trivial⟩

theorem call_does (offset count : Nat) (static : Bool) (callee : Except Fault Callee) :
    Does (.call count static callee) f s (execute offset (.call count static callee) f s) := by
  rw [execute]
  refine does_popArguments fun arguments below hargs hbelow => ?_
  refine does_popReceiver fun target rest hrest => ?_
  have hstack := List.Subset.trans hrest hbelow
  rcases callee with cause | ⟨name, descriptor⟩ | routine
  · exact ⟨rfl, .inl trivial⟩
  · exact ⟨rfl, Frame.follows_stack _ hstack, hargs⟩
  · exact does_library routine hargs hstack

/-- An action does one of the few things that actions can do. -/
theorem execute_does (offset : Nat) (action : Action) (f : Frame) (s : Store) :
    Does action f s (execute offset action f s) := by
  cases action with
  | push v => exact does_number v (List.Subset.refl _)
  | load slot => exact load_does offset slot
  | store slot => exact store_does offset slot
  | pop =>
    rw [execute]
    rcases hstack : f.stack with _ | ⟨a, rest⟩
    · exact ⟨rfl, .inl trivial⟩
    · exact does_rearrange (by simp [hstack])
  | dup =>
    rw [execute]
    rcases hstack : f.stack with _ | ⟨a, rest⟩
    · exact ⟨rfl, .inl trivial⟩
    · exact does_rearrange (by simp [hstack])
  | dup2 =>
    rw [execute]
    rcases hstack : f.stack with _ | ⟨a, _ | ⟨b, rest⟩⟩
    · exact ⟨rfl, .inl trivial⟩
    · exact ⟨rfl, .inl trivial⟩
    · exact does_rearrange (by simp [hstack])
  | swap =>
    rw [execute]
    rcases hstack : f.stack with _ | ⟨a, _ | ⟨b, rest⟩⟩
    · exact ⟨rfl, .inl trivial⟩
    · exact ⟨rfl, .inl trivial⟩
    · exact does_rearrange (by simp [hstack])
  | add =>
    exact does_popInt fun b rest hb => does_popInt fun a rest' ha =>
      does_number _ (List.Subset.trans ha hb)
  | xor =>
    exact does_popInt fun b rest hb => does_popInt fun a rest' ha =>
      does_number _ (List.Subset.trans ha hb)
  | negate => exact does_popInt fun a rest ha => does_number _ ha
  | narrow => exact does_popInt fun a rest ha => does_number _ ha
  | branch test target place => exact branch_does offset test target place
  | leave => exact rfl
  | output => exact output_does offset
  | create object =>
    exact ⟨_, .makes (.inl rfl), Frame.follows_stack _ (List.Subset.refl _)⟩
  | cast target => exact cast_does offset target
  | call count static callee => exact call_does offset count static callee
  | trap t => exact ⟨rfl, .inr rfl⟩

end StackGlyph.Machine
