import Mathlib
import StackGlyph.Proofs.HeapSafety

/-!
# How many operands there are

An action takes a number of operands and leaves a number in their place, whatever the operands are.
It traps for want of operands only if there are fewer than it takes. So a property of frames that is
said in terms of the method, the place and the height of the operand stack holds along a whole run
if actions keep it.
-/
namespace StackGlyph.Machine

variable {p : Program} {limits : Limits}

/-! ## Actions -/

/-- How many values a routine leaves on the operand stack, unless it always traps. -/
def Routine.gives? : Routine → Option Nat
  | .pop | .isEmpty | .box | .unbox => some 1
  | .construct | .constructPlain _ | .push | .print => some 0
  | .unknown _ => none

namespace Action

/-- How many operands an action needs, those that it puts back included. -/
def takes : Action → Nat
  | .store _ | .pop | .dup | .negate | .narrow | .cast _ => 1
  | .dup2 | .swap | .add | .xor => 2
  | .branch .zero _ _ | .branch .nonzero _ _ => 1
  | .call count static _ => count + if static then 0 else 1
  | _ => 0

/-- How many operands an action leaves in the place of those that it took, unless its method never
goes on behind it. A method of the class leaves none. -/
def gives? : Action → Option Nat
  | .push _ | .load _ | .output | .create _ | .negate | .narrow | .cast _ | .add | .xor => some 1
  | .dup | .swap => some 2
  | .dup2 => some 4
  | .store _ | .pop | .branch _ _ _ => some 0
  | .call _ _ (.ok (.own _ _)) => some 0
  | .call _ _ (.ok (.library routine)) => routine.gives?
  | .call _ _ (.error _) | .leave | .trap _ => none

/-- Whether the next instruction is never the one behind. -/
def endsBlock : Action → Bool
  | .branch .always _ _ | .leave => true
  | _ => false

def landing? : Action → Option Nat
  | .branch _ _ place => place
  | _ => none

end Action

/-- A frame goes on behind an action, with as many local slots and with the operands that it
leaves. -/
structure Frame.Continues (f' f : Frame) (action : Action) : Prop where
  method : f'.method = f.method
  slots : f'.locals.size = f.locals.size
  height : ∃ n, action.gives? = some n ∧ f'.stack.length + action.takes = f.stack.length + n
  next : (f'.next = f.next ∧ action.endsBlock = false) ∨ action.landing? = some f'.next

/-- The frame that is left after an effect, if the method goes on. -/
def Effect.Goes (f : Frame) (action : Action) : Effect → Prop
  | .proceed f' | .enter f' _ _ _ => f'.Continues f action
  | .leave => True

/-- An operation ends with what is said of its result, or traps; for want of operands it traps at
this site, and only if they are missing. -/
def Heeds {α : Type} (site : Site) (missing : Prop) (said : α → Prop) :
    EStateM.Result Trap Store α → Prop
  | .ok v _ => said v
  | .error e _ => ∀ place, e = .operandUnderflow place → place = site ∧ missing

section Heeding

variable {α β : Type} {site : Site} {missing missing' : Prop} {s : Store}

/-- Missing operands are found in the first part or in the second; what traps for another reason may
do so. -/
theorem Heeds.bind {said : α → Prop} {said' : β → Prop} {x : Exec α} {g : α → Exec β}
    (hx : Heeds site missing said (x s))
    (hg : ∀ v t, said v → Heeds site missing said' (g v t)) :
    Heeds site missing said' ((x >>= g) s) := by
  cases h : x s with
  | ok v t =>
    rw [h] at hx
    rw [bind_of_ok h]
    exact hg v t hx
  | error e t =>
    rw [h] at hx
    rw [bind_of_error h]
    exact hx

theorem Heeds.mono {said : α → Prop} {r : EStateM.Result Trap Store α}
    (h : Heeds site missing said r) (hmissing : missing → missing') :
    Heeds site missing' said r := by
  cases r with
  | ok v t => exact h
  | error e t => exact fun place he => ⟨(h place he).1, hmissing (h place he).2⟩

theorem heeds_pure {said : α → Prop} {v : α} (h : said v) :
    Heeds site missing said ((pure v : Exec α) s) :=
  h

/-- A trap that tells of something else. -/
theorem heeds_throw {said : α → Prop} {e : Trap} (h : ∀ place, e ≠ .operandUnderflow place) :
    Heeds site missing said ((throw e : Exec α) s) :=
  fun place he => absurd he (h place)

theorem heeds_underflow {said : α → Prop} (h : missing) :
    Heeds site missing said ((throw (.operandUnderflow site) : Exec α) s) := by
  intro place he
  cases he
  exact ⟨rfl, h⟩

theorem heeds_popInt (stack : List Value) :
    Heeds site (stack.length < 1) (fun result => stack.length = result.2.length + 1)
      (popInt site stack s) := by
  cases stack with
  | nil => exact heeds_underflow (by simp)
  | cons v rest =>
    cases v with
    | int n => exact heeds_pure rfl
    | null => exact heeds_throw (by simp)
    | ref place => exact heeds_throw (by simp)

theorem heeds_popArguments (count : Nat) (stack : List Value) :
    Heeds site (stack.length < count)
      (fun result => stack.length = result.2.length + count)
      (popArguments site count stack s) := by
  unfold popArguments
  simp only [List.splitAt_eq, List.length_take]
  split
  · exact heeds_underflow (by omega)
  · refine heeds_pure ?_
    simp only [List.length_drop]
    omega

theorem heeds_popReceiver (static : Bool) (stack : List Value) :
    Heeds site (stack.length < if static then 0 else 1)
      (fun result => stack.length = result.2.length + if static then 0 else 1)
      (popReceiver site static stack s) := by
  cases static with
  | true => exact heeds_pure rfl
  | false =>
    cases stack with
    | nil => exact heeds_underflow (by simp)
    | cons v rest => exact heeds_pure rfl

end Heeding

/-! ## Library calls -/

section Routines

variable {site : Site} {missing : Prop} {s : Store}

theorem heeds_receiver (target : Option Value) :
    Heeds site missing (fun _ => True) (receiver site target s) := by
  rcases target with _ | _ | _ | _
  · exact heeds_pure trivial
  · exact heeds_throw (by simp)
  · exact heeds_throw (by simp)
  · exact heeds_pure trivial

theorem heeds_cellsOf (place : Option Nat) :
    Heeds site missing (fun _ => True) (cellsOf site place s) := by
  rcases cellsOf_cases site place s with h | ⟨queue, cells, -, -, h⟩
  · rw [h]
    exact heeds_throw (by simp)
  · rw [h]
    trivial

/-- A routine leaves as many values as it should, and misses no operand. -/
theorem runRoutine_heeds (place : Option Nat) (arguments : List Value) (routine : Routine) :
    Heeds site missing (fun result => routine.gives? = some result.toList.length)
      (runRoutine site place arguments routine s) := by
  cases routine with
  | construct => exact heeds_pure rfl
  | constructPlain m =>
    rw [runRoutine, objectOf_bind]
    rcases place.bind fun place => s.heap[place]? with _ | _ | _ | _ | _ | _
    case some.plain => exact heeds_pure rfl
    all_goals exact heeds_throw (by simp)
  | push =>
    rw [runRoutine]
    dsimp only
    split
    · exact heeds_throw (by simp)
    · refine (heeds_cellsOf place).bind fun cells t _ => ?_
      exact heeds_pure rfl
  | pop =>
    rw [runRoutine]
    refine (heeds_cellsOf place).bind fun cells t _ => ?_
    cases cells with
    | nil => exact heeds_throw (by simp)
    | cons v cells => exact heeds_pure rfl
  | isEmpty => exact (heeds_cellsOf place).bind fun cells t _ => heeds_pure rfl
  | box =>
    rw [runRoutine]
    cases arguments.headD .null with
    | int n =>
      dsimp only
      split
      · exact heeds_pure rfl
      · exact heeds_throw (by simp)
    | _ => exact heeds_throw (by simp)
  | unbox =>
    rw [runRoutine, objectOf_bind]
    rcases place.bind fun place => s.heap[place]? with _ | _ | _ | _ | _ | _
    case some.char => exact heeds_pure rfl
    all_goals exact heeds_throw (by simp)
  | print =>
    rw [runRoutine, objectOf_bind]
    rcases place.bind fun place => s.heap[place]? with _ | _ | _ | _ | _ | _
    case some.printStream =>
      cases arguments.headD .null with
      | int n => exact heeds_pure rfl
      | _ => exact heeds_throw (by simp)
    all_goals exact heeds_throw (by simp)
  | unknown m => exact heeds_throw (by simp)

end Routines

/-! ## One action -/

section Actions

variable {action : Action} {f : Frame} {s : Store} {site : Site}

theorem continues_stack {stack : List Value} {n : Nat} (hgives : action.gives? = some n)
    (hopen : action.endsBlock = false)
    (hheight : stack.length + action.takes = f.stack.length + n) :
    Frame.Continues { f with stack } f action :=
  ⟨rfl, rfl, ⟨n, hgives, hheight⟩, .inl ⟨rfl, hopen⟩⟩

/-- An action that takes one number and leaves another. -/
theorem heeds_unary {g : Int32 → Int32} (htakes : action.takes = 1) (hgives : action.gives? = some 1)
    (hopen : action.endsBlock = false) :
    Heeds site (f.stack.length < action.takes) (Effect.Goes f action) ((do
      let (a, rest) ← popInt site f.stack
      return .proceed { f with stack := .int (g a) :: rest } : Exec Effect) s) := by
  rw [htakes]
  refine (heeds_popInt f.stack).bind ?_
  rintro ⟨a, rest⟩ t ha
  apply continues_stack hgives hopen
  simp only [List.length_cons] at ha ⊢
  omega

/-- An action that takes two numbers and leaves one. -/
theorem heeds_binary {g : Int32 → Int32 → Int32} (htakes : action.takes = 2)
    (hgives : action.gives? = some 1) (hopen : action.endsBlock = false) :
    Heeds site (f.stack.length < action.takes) (Effect.Goes f action) ((do
      let (b, rest) ← popInt site f.stack
      let (a, rest) ← popInt site rest
      return .proceed { f with stack := .int (g a b) :: rest } : Exec Effect) s) := by
  rw [htakes]
  refine ((heeds_popInt f.stack).mono (by omega)).bind ?_
  rintro ⟨b, rest⟩ t hb
  refine ((heeds_popInt rest).mono (by dsimp only at hb; omega)).bind ?_
  rintro ⟨a, rest'⟩ t' ha
  apply continues_stack hgives hopen
  simp only [List.length_cons] at ha hb ⊢
  omega

/-- A branch takes what its test needs, and goes on behind it or at its target. -/
theorem branch_heeds (offset : Nat) (test : Test) (target : Nat) (place : Option Nat) :
    Heeds ⟨f.method.name, offset⟩ (f.stack.length < (Action.branch test target place).takes)
      (Effect.Goes f (.branch test target place))
      (execute offset (.branch test target place) f s) := by
  -- Once it is known where a jump leads, a test chooses between two effects.
  have hpasses {rest : List Value} (htest : test ≠ .always)
      (hheight : f.stack.length = rest.length + 1) :
      Frame.Continues { f with stack := rest } f (.branch test target place) := by
    cases test with
    | always => exact absurd rfl htest
    | zero => exact continues_stack rfl rfl hheight.symm
    | nonzero => exact continues_stack rfl rfl hheight.symm
  cases place with
  | none =>
    have hjump (taken : Bool) {rest : List Value} (t : Store) (htest : test ≠ .always)
        (hheight : f.stack.length = rest.length + 1) :
        Heeds ⟨f.method.name, offset⟩ (f.stack.length < 1) (Effect.Goes f (.branch test target none))
          ((if taken then throw (.typeMismatch ⟨f.method.name, offset⟩ (.insideInstruction target))
            else return .proceed { f with stack := rest } : Exec Effect) t) := by
      cases taken with
      | false => exact hpasses htest hheight
      | true => exact heeds_throw (by simp)
    cases test with
    | always => exact heeds_throw (by simp)
    | zero => exact (heeds_popInt f.stack).bind fun v t h => hjump (v.1 == 0) t nofun h
    | nonzero => exact (heeds_popInt f.stack).bind fun v t h => hjump (v.1 != 0) t nofun h
  | some next =>
    have hjump (taken : Bool) {rest : List Value} (t : Store) (htest : test ≠ .always)
        (hheight : f.stack.length = rest.length + 1) :
        Heeds ⟨f.method.name, offset⟩ (f.stack.length < 1)
          (Effect.Goes f (.branch test target (some next)))
          ((if taken then return .proceed { f with next, stack := rest }
            else return .proceed { f with stack := rest } : Exec Effect) t) := by
      cases taken with
      | false => exact hpasses htest hheight
      | true =>
        obtain ⟨n, hn⟩ := (hpasses htest hheight).height
        exact ⟨rfl, rfl, ⟨n, hn⟩, .inr rfl⟩
    cases test with
    | always => exact ⟨rfl, rfl, ⟨0, rfl, rfl⟩, .inr rfl⟩
    | zero => exact (heeds_popInt f.stack).bind fun v t h => hjump (v.1 == 0) t nofun h
    | nonzero => exact (heeds_popInt f.stack).bind fun v t h => hjump (v.1 != 0) t nofun h

theorem output_heeds (offset : Nat) :
    Heeds ⟨f.method.name, offset⟩ (f.stack.length < Action.output.takes) (Effect.Goes f .output)
      (execute offset .output f s) := by
  obtain ⟨heap, output?, printed, steps⟩ := s
  cases output? with
  | none => exact continues_stack rfl rfl rfl
  | some place => exact continues_stack rfl rfl rfl

/-- A cast looks at the top operand and leaves it where it is. -/
theorem cast_heeds (offset : Nat) (target : CastTarget) :
    Heeds ⟨f.method.name, offset⟩ (f.stack.length < (Action.cast target).takes)
      (Effect.Goes f (.cast target)) (execute offset (.cast target) f s) := by
  have hsame : f.Continues f (.cast target) := ⟨rfl, rfl, ⟨1, rfl, rfl⟩, .inl ⟨rfl, rfl⟩⟩
  rw [execute]
  rcases hstack : f.stack with _ | ⟨_ | _ | place, rest⟩
  · exact heeds_underflow (by simp [Action.takes])
  · exact hsame
  · exact hsame
  · dsimp only
    rw [objectOf_bind]
    split
    · exact hsame
    · exact heeds_throw (by simp)

/-- A call takes its arguments and then its receiver, and finds at either whether there are enough
operands. -/
theorem call_heeds (offset count : Nat) (static : Bool) (callee : Except Fault Callee) :
    Heeds ⟨f.method.name, offset⟩ (f.stack.length < (Action.call count static callee).takes)
      (Effect.Goes f (.call count static callee))
      (execute offset (.call count static callee) f s) := by
  rw [execute]
  refine ((heeds_popArguments count f.stack).mono ?_).bind ?_
  · rw [Action.takes]
    omega
  rintro ⟨arguments, below⟩ t hbelow
  refine ((heeds_popReceiver static below).mono ?_).bind ?_
  · rw [Action.takes]
    dsimp only at hbelow
    omega
  rintro ⟨target, rest⟩ t' hrest
  dsimp only at hbelow hrest
  rcases callee with cause | ⟨name, descriptor⟩ | routine
  · exact heeds_throw (by simp)
  · apply continues_stack rfl rfl
    rw [Action.takes]
    omega
  · refine (heeds_receiver target).bind fun place t _ => ?_
    refine (runRoutine_heeds place arguments routine).bind fun result t hresult => ?_
    have hgives : (Action.call count static (.ok (.library routine))).gives? =
        some result.toList.length := hresult
    apply continues_stack hgives rfl
    rw [List.length_append, Action.takes]
    omega

/-- An action exchanges the operands that it takes for those that it leaves, or traps, for want of
operands only if there are too few. -/
theorem execute_heeds (offset : Nat) (haction : ∀ place, action ≠ .trap (.operandUnderflow place)) :
    Heeds ⟨f.method.name, offset⟩ (f.stack.length < action.takes) (Effect.Goes f action)
      (execute offset action f s) := by
  cases action with
  | push v => exact continues_stack rfl rfl rfl
  | load slot =>
    rw [execute]
    cases f.locals[slot]? with
    | none => exact heeds_throw (by simp)
    | some v => exact continues_stack rfl rfl rfl
  | store slot =>
    rw [execute]
    rcases hstack : f.stack with _ | ⟨v, rest⟩
    · exact heeds_underflow (by simp [Action.takes])
    · dsimp only
      split
      · exact ⟨rfl, by simp, ⟨0, rfl, by simp [hstack, Action.takes]⟩, .inl ⟨rfl, rfl⟩⟩
      · exact heeds_throw (by simp)
  | pop =>
    rw [execute]
    rcases hstack : f.stack with _ | ⟨a, rest⟩
    · exact heeds_underflow (by simp [Action.takes])
    · exact continues_stack rfl rfl (by simp [hstack, Action.takes])
  | dup =>
    rw [execute]
    rcases hstack : f.stack with _ | ⟨a, rest⟩
    · exact heeds_underflow (by simp [Action.takes])
    · exact continues_stack rfl rfl (by simp [hstack, Action.takes])
  | dup2 =>
    rw [execute]
    rcases hstack : f.stack with _ | ⟨a, _ | ⟨b, rest⟩⟩
    · exact heeds_underflow (by simp [Action.takes])
    · exact heeds_underflow (by simp [Action.takes])
    · exact continues_stack rfl rfl (by simp [hstack, Action.takes])
  | swap =>
    rw [execute]
    rcases hstack : f.stack with _ | ⟨a, _ | ⟨b, rest⟩⟩
    · exact heeds_underflow (by simp [Action.takes])
    · exact heeds_underflow (by simp [Action.takes])
    · exact continues_stack rfl rfl (by simp [hstack, Action.takes])
  | add => exact heeds_binary rfl rfl rfl
  | xor => exact heeds_binary rfl rfl rfl
  | negate => exact heeds_unary (g := fun a => -a) rfl rfl rfl
  | narrow =>
    exact heeds_unary (g := fun a => Int32.ofNat a.toUInt32.toUInt16.toNat) rfl rfl rfl
  | branch test target place => exact branch_heeds offset test target place
  | leave => exact heeds_pure trivial
  | output => exact output_heeds offset
  | create object => exact continues_stack rfl rfl rfl
  | cast target => exact cast_heeds offset target
  | call count static callee => exact call_heeds offset count static callee
  | trap t => exact heeds_throw fun place h => haction place (h ▸ rfl)

end Actions

theorem goes_of_execute {offset : Nat} {action : Action} {f : Frame} {s t : Store} {effect : Effect}
    (h : execute offset action f s = .ok effect t) : effect.Goes f action := by
  by_cases haction : ∀ place, action ≠ .trap (.operandUnderflow place)
  · have hheeds : Heeds _ _ (Effect.Goes f action) (execute offset action f s) :=
      execute_heeds offset haction
    rw [h] at hheeds
    exact hheeds
  · obtain ⟨place, haction⟩ := not_forall.mp haction
    rw [not_not.mp haction] at h
    cases h

/-! ## Runs -/

def State.frames (s : State) : List Frame :=
  s.frame :: s.callers

/-- A property of frames that holds when a method is entered and that actions keep. -/
structure Program.Maintains (p : Program) (P : Frame → Prop) : Prop where
  entered : ∀ {limits depth name descriptor arguments f},
    enter p limits depth name descriptor arguments = .ok f → P f
  continued : ∀ {f f' : Frame} {i : LinkedInstruction}, P f →
    f.method.instructions[f.next]? = some i →
    f'.Continues { f with next := f.next + 1 } i.action → P f'

section Runs

variable {P : Frame → Prop} {s s' : State}

/-- One instruction: the frame under way goes on, is left, or waits for one that is entered. -/
theorem frames_of_step (hp : p.Maintains P) (h : ∀ f ∈ s.frames, P f)
    (hstep : step p limits s = .running s') : ∀ f ∈ s'.frames, P f := by
  obtain ⟨hframe, hcallers⟩ := List.forall_mem_cons.mp h
  cases hnext : s.next? with
  | none =>
    rw [step_of_next_none hnext] at hstep
    cases hstep
  | some i =>
    rcases allows_or_exceeds limits (s.store.steps + 1) with hallow | ⟨limit, hlimit, hlt⟩
    · rw [step_of_allows hnext hallow] at hstep
      cases hexecute :
          execute i.offset i.action { s.frame with next := s.frame.next + 1 } s.counted with
      | error e t =>
        rw [hexecute] at hstep
        cases hstep
      | ok effect t =>
        have hgoes := goes_of_execute hexecute
        rw [hexecute] at hstep
        cases effect with
        | proceed f' =>
          cases hstep
          exact List.forall_mem_cons.mpr ⟨hp.continued hframe hnext hgoes, hcallers⟩
        | enter caller name descriptor arguments =>
          simp only [follow] at hstep
          split at hstep
          · cases hstep
          · next frame hentered =>
            cases hstep
            exact List.forall_mem_cons.mpr ⟨hp.entered hentered,
              List.forall_mem_cons.mpr ⟨hp.continued hframe hnext hgoes, hcallers⟩⟩
        | leave =>
          simp only [follow] at hstep
          split at hstep
          · cases hstep
          · next hwaiting =>
            cases hstep
            rw [hwaiting] at hcallers
            exact hcallers
    · rw [step_of_exceeds hnext hlimit hlt] at hstep
      cases hstep

theorem frames_of_steps (hp : p.Maintains P) (h : ∀ f ∈ s.frames, P f)
    (hsteps : Steps p limits s s') : ∀ f ∈ s'.frames, P f := by
  induction hsteps with
  | refl s => exact h
  | step hstep _ ih => exact ih (frames_of_step hp h hstep)

/-- A run that traps for want of operands does so at the next instruction of the frame under way,
and there are fewer than its action takes. -/
theorem missing_of_step {t : Store} {site : Site} (hp : p.Sound)
    (hactions : ∀ i, s.next? = some i → ∀ site, i.action ≠ .trap (.operandUnderflow site))
    (hstep : step p limits s = .trapped t (.operandUnderflow site)) :
    ∃ i, s.next? = some i ∧ site = ⟨s.frame.method.name, i.offset⟩ ∧
      s.frame.stack.length < i.action.takes := by
  rcases trapped_cases hstep with h | ⟨_, h⟩ | ⟨i, hnext, hexecute⟩ | ⟨_, _, _, _, henter⟩
  · cases h
  · cases h
  · have hheeds : Heeds ⟨s.frame.method.name, i.offset⟩ (s.frame.stack.length < i.action.takes) _
        (execute i.offset i.action { s.frame with next := s.frame.next + 1 } s.counted) :=
      execute_heeds i.offset (hactions i hnext)
    rw [hexecute] at hheeds
    obtain ⟨hsite, hmissing⟩ := hheeds _ rfl
    exact ⟨i, hnext, hsite, hmissing⟩
  · rcases trap_of_enter hp henter with h | h <;> cases h

theorem Ends.trapped_at {e : Trap} {o : Outcome Unit} {t : Store} (h : Ends p limits s o t)
    (ho : o = .trapped e) : ∃ s', Steps p limits s s' ∧ step p limits s' = .trapped t e := by
  induction h with
  | returned _ => cases ho
  | trapped h =>
    cases ho
    exact ⟨_, .refl _, h⟩
  | running h _ ih =>
    obtain ⟨s', hsteps, htrap⟩ := ih ho
    exact ⟨s', .step h hsteps, htrap⟩

end Runs

/-! ## Calls of a class -/

/-- A name and descriptor lead to the first method that bears them. -/
theorem method_link (c : ClassFile) (name descriptor : String) :
    (Program.link c).method name descriptor =
      (c.method? name descriptor).elim (.error (.noSuchMethod name descriptor))
        (Program.linkMethod c) := by
  have hfind : (Program.link c).methods.find? (fun m => m.1 = name ∧ m.2.1 = descriptor) =
      (c.method? name descriptor).map fun m => (m.name, m.descriptor, Program.linkMethod c m) := by
    rw [Program.link, List.find?_map]
    rfl
  rw [Program.method, hfind]
  cases c.method? name descriptor <;> rfl

/-- The inversion of a link: the method has code that can be decoded, and its actions stand one for
each instruction. -/
theorem linkMethod_eq_ok {c : ClassFile} {m : Method} {linked : LinkedMethod}
    (h : Program.linkMethod c m = .ok linked) :
    ∃ code is, m.code = some code ∧ Instruction.decode code.bytes = .ok is ∧
      linked = ⟨m.name, m.descriptor, code.maxLocals,
        is.map fun i => ⟨i.offset, Program.linkInstruction c is i⟩⟩ := by
  unfold Program.linkMethod at h
  split at h
  · cases h
  · next code hcode =>
    split at h
    · cases h
    · next is hdecode =>
      cases h
      exact ⟨code, is, hcode, hdecode, rfl⟩

/-- A method that is found bears the name and descriptor that it was looked up by. -/
theorem name_of_method {c : ClassFile} {name descriptor : String} {linked : LinkedMethod}
    (h : (Program.link c).method name descriptor = .ok linked) :
    linked.name = name ∧ linked.descriptor = descriptor := by
  rw [method_link] at h
  cases hfind : c.method? name descriptor with
  | none =>
    rw [hfind] at h
    cases h
  | some m =>
    rw [hfind] at h
    obtain ⟨code, is, -, -, rfl⟩ := linkMethod_eq_ok h
    have hbears := List.find?_some hfind
    simpa using hbears

/-- The method of a frame that is entered is the one that is found by its name and descriptor. -/
theorem found_of_enter {c : ClassFile} {depth : Nat} {name descriptor : String}
    {arguments : List Value} {f : Frame}
    (h : enter (Program.link c) limits depth name descriptor arguments = .ok f) :
    (Program.link c).method f.method.name f.method.descriptor = .ok f.method := by
  obtain ⟨method, hmethod, rfl⟩ := enter_eq_ok h
  obtain ⟨hname, hdescriptor⟩ := name_of_method hmethod
  dsimp only
  rw [hname, hdescriptor, hmethod]

/-- A call from outside comes to a trap while this frame is under way. -/
def Invocation.TrapsIn (i : Invocation) (p : Program) (limits : Limits) (store : Store) (e : Trap)
    (g : Frame) : Prop :=
  ∃ f s t, i.enter p limits store = .ok f ∧ Steps p limits ⟨i.prepare store, f, []⟩ s ∧
    s.frame = g ∧ step p limits s = .trapped t e

/-- Reading back a stack of cells finds something that is no cell, or nothing amiss. -/
theorem unsupported_of_unitsOfDeque {heap : Array Object} {place : Nat} {e : Trap}
    (h : unitsOfDeque heap place = .error e) : ∃ what, e = .unsupported what := by
  unfold unitsOfDeque at h
  split at h
  · obtain ⟨v, -, herror⟩ := mapM_error h
    unfold cellUnit at herror
    split at herror
    · split at herror
      · cases herror
      · cases herror
        exact ⟨_, rfl⟩
      · cases herror
        exact ⟨_, rfl⟩
    · cases herror
      exact ⟨_, rfl⟩
  · cases h
    exact ⟨_, rfl⟩

/-- A call from outside that is answered with a trap comes to it in some frame, unless the trap is
one that keeps the call from beginning or its result from being read back. -/
theorem Invocation.trapsIn_of_perform {i : Invocation} {store t : Store} {e : Trap} (hp : p.Sound)
    (h : i.perform p limits store = (.trapped e, t)) (hlinkage : ¬ e.IsLinkage)
    (hlimit : ¬ e.IsLimit) (hsupported : ∀ what, e ≠ .unsupported what) :
    ∃ g, i.TrapsIn p limits store e g := by
  obtain ⟨o, hcall, ho⟩ := Invocation.call_of_perform h
  cases o with
  | trapped e =>
    cases ho
    rcases (Invocation.call_eq_iff (by simp)).mp hcall with ⟨e, henter, he, -⟩ | ⟨f, henter, hends⟩
    · cases he
      exact absurd (trap_of_enter hp henter) (not_or.mpr ⟨hlinkage, hlimit⟩)
    · obtain ⟨s, hsteps, htrap⟩ := hends.trapped_at rfl
      exact ⟨s.frame, f, s, t, henter, hsteps, rfl, htrap⟩
  | unfinished => cases ho
  | done value =>
    unfold Invocation.conclude at ho
    dsimp only at ho
    split at ho
    · cases ho
    · next herror =>
      cases ho
      cases i with
      | main => cases herror
      | routine name units =>
        obtain ⟨what, rfl⟩ := unsupported_of_unitsOfDeque herror
        exact absurd rfl (hsupported what)

/-- A routine that is answered with a want of operands traps in some frame. -/
theorem trapsIn_of_callRoutine {c : ClassFile} {name : String} {units : List UInt16} {store t : Store}
    {site : Site}
    (h : callRoutine (Program.link c) limits name units store =
      (.trapped (.operandUnderflow site), t)) :
    ∃ g, (Invocation.routine name units).TrapsIn (Program.link c) limits store
      (.operandUnderflow site) g :=
  Invocation.trapsIn_of_perform (i := .routine name units) (link_sound c) h id id (by simp)

end StackGlyph.Machine
