import Mathlib
import StackGlyph.Proofs.CompiledRuns
import StackGlyph.Proofs.HeapSafety

/-!
# Routines called from outside

The routines of a compiled class can be called on prepared stacks, any number of times on one
machine. Every call puts its stack into the heap anew and works there alone, so what earlier calls
have left behind, also those that failed, makes no difference: each call is answered by what its
command means for its own stack.
-/
namespace StackGlyph

open Machine

namespace Machine

/-- What the caller of a routine sees: how the call ends, the caller's stack afterwards, and the
units that were printed. Stacks are given from the bottom to the top. -/
structure Answer where
  ending : Outcome Unit
  stack : List UInt16
  printed : List UInt16
  deriving DecidableEq, Repr

/-- The answer to a call on a stack. Only a call that succeeds replaces the stack. -/
def Answer.ofCall (stack : List UInt16) (before : Store) : Outcome (List UInt16) × Store → Answer
  | (.done left, after) => ⟨.done (), left, after.printed.toList.drop before.printed.size⟩
  | (.trapped e, after) => ⟨.trapped e, stack, after.printed.toList.drop before.printed.size⟩
  | (.unfinished, after) => ⟨.unfinished, stack, after.printed.toList.drop before.printed.size⟩

/-- The answer that a command means for a stack. A command that lacks cells fails in its routine, at
an offset that the height of the stack decides. -/
def Answer.meant (offset : Command → Nat → Nat) (command : Command) (stack : List UInt16) : Answer :=
  match command.apply stack.reverse with
  | some (left, printed) => ⟨.done (), left.reverse, printed⟩
  | none => ⟨.trapped (.raised .noSuchElement ⟨command.name, offset command stack.length⟩), stack, []⟩

def session (p : Program) (limits : Limits) : List (String × List UInt16) → Store →
    List Answer × Store
  | [], s => ([], s)
  | (name, stack) :: rest, s =>
    let result := callRoutine p limits name stack s
    let (answers, t) := session p limits rest result.2
    (Answer.ofCall stack s result :: answers, t)

variable {p : Program} {limits : Limits} {s t : Store} {w : World} {queue : Nat}
  {units stack : List UInt16}

/-! ## The stack in the heap -/

def Store.world (s : Store) : World :=
  ⟨s.heap, s.output?, s.printed⟩

theorem getElem?_appendList (heap : Array Object) (objects : List Object) (k : Nat) :
    (heap ++ objects)[heap.size + k]? = objects[k]? := by
  rw [← Array.getElem?_toList, Array.toList_appendList, ← Array.length_toList,
    List.getElem?_append_right (Nat.le_add_right _ _), Nat.add_sub_cancel_left]

/-- The queue that a routine is called on holds the stack. -/
theorem prepare_holds (name : String) (units : List UInt16) (hs : s.Sound) :
    ((Invocation.routine name units).prepare s).world.Holds (s.heap.size + units.length)
      units.reverse := by
  let cells := (List.range units.length).map fun k => Value.ref (s.heap.size + k)
  have hsound := ((Invocation.routine name units).prepare_sound hs).1
  refine ⟨⟨cells.reverse, ?_, List.forall₂_reverse_iff.mpr (List.forall₂_iff_get.mpr ⟨by simp [cells],
    fun k hk hk' => ?_⟩)⟩, fun place => (hsound.output place).mpr⟩
  · show (s.heap ++ (units.map Object.char ++ [.deque cells.reverse]))[_]? = _
    rw [getElem?_appendList, List.getElem?_append_right (by simp)]
    simp
  · refine ⟨s.heap.size + k, by simp [cells], ?_⟩
    show (s.heap ++ (units.map Object.char ++ [.deque cells.reverse]))[_]? = _
    rw [getElem?_appendList, List.getElem?_append_left (by simpa using hk')]
    simp [hk']

theorem mapM_cellUnit {cells : List Value} (h : List.Forall₂ w.Boxed cells units) :
    cells.mapM (cellUnit w.heap) = .ok units := by
  induction h with
  | nil => rfl
  | cons hv _ ih =>
    obtain ⟨place, rfl, hplace⟩ := hv
    rw [List.mapM_cons, ih, cellUnit, hplace]
    rfl

/-- What is read back from a queue is the stack that it holds. -/
theorem unitsOfDeque_eq (h : w.Holds queue units) : unitsOfDeque w.heap queue = .ok units.reverse := by
  obtain ⟨⟨cells, hcells, hboxed⟩, -⟩ := h
  rw [unitsOfDeque, hcells]
  exact mapM_cellUnit (List.forall₂_reverse_iff.mpr hboxed)

/-! ## One call -/

section Call

variable {command : Command} {callee : LinkedMethod} {target : Nat → Nat} {r : Outcome Unit × Store}

/-- A call of a routine runs the routine from its first action on and reads the queue. -/
theorem callRoutine_eq (h : p.Has command callee target) (hdepth : 0 < limits.maxCallDepth)
    (hrun : p.run limits (Activation.state ⟨callee, 0, []⟩ 0 s.steps
      ⟨Routines.actions target command, entryLocals callee (.ref (s.heap.size + stack.length)), [],
        ((Invocation.routine command.name stack).prepare s).world⟩) = some r) :
    callRoutine p limits command.name stack s =
      ((Invocation.routine command.name stack).conclude (s.heap.size + stack.length) r.1 r.2, r.2) := by
  have hcall : (Invocation.routine command.name stack).call p limits s = r := by
    have henter : enter p limits 0 command.name routineDescriptor
        [.ref (s.heap.size + stack.length)] =
        .ok ⟨callee, 0, entryLocals callee (.ref (s.heap.size + stack.length)), [], 0⟩ := by
      rw [enter, if_neg (by omega), show routineDescriptor = Routines.descriptor from rfl, h.method]
      rfl
    show call p limits command.name routineDescriptor [.ref (s.heap.size + stack.length)] _ = r
    rw [call, henter]
    exact congrArg (Option.getD · _) hrun
  have hperform := Invocation.perform_eq p limits (.routine command.name stack) s
  rw [hcall] at hperform
  exact hperform

/-- A call answers as its command means for the stack, whatever the machine was used for before. -/
theorem callRoutine_answers (h : p.Has command callee target) (hs : s.Sound)
    (hsteps : limits.maxSteps = none) (hdepth : 1 ≤ limits.maxCallDepth) (stack : List UInt16) :
    match command.apply stack.reverse with
    | some (left, printed) => ∃ t, callRoutine p limits command.name stack s =
        (.done left.reverse, t) ∧ t.printed = s.printed ++ printed.toArray
    | none => ∃ t, callRoutine p limits command.name stack s =
        (.trapped (.raised .noSuchElement (Routines.lackingSite target command stack.length callee)), t) ∧
          t.printed = s.printed := by
  have hholds := prepare_holds command.name stack hs
  have hlocals := entryLocals_zero callee (.ref (s.heap.size + stack.length))
  have hsize (hrot : command = .rot) :=
    size_entryLocals (h.locals hrot) (.ref (s.heap.size + stack.length))
  have hallow (n : Nat) : limits.Allows n := by simp [Limits.Allows, hsteps]
  cases happly : command.apply stack.reverse with
  | some result =>
    obtain ⟨left, printed⟩ := result
    obtain ⟨n, w', locals', -, hleft, hprinted, hmoves⟩ :=
      Routines.actions_move (p := p) target command hlocals hsize hholds happly
    have hrun := (hmoves ⟨callee, 0, []⟩ h.actions).returns rfl h.actions s.steps (hallow _)
    refine ⟨w'.after (s.steps + n + 1), ?_, hprinted⟩
    rw [callRoutine_eq h hdepth hrun, Invocation.conclude, Invocation.readBack,
      show unitsOfDeque (w'.after _).heap _ = _ from unitsOfDeque_eq hleft]
  | none =>
    obtain ⟨w', hprinted, hraises⟩ :=
      Routines.actions_raise (p := p) target command hlocals hsize hholds happly
    rw [List.length_reverse] at hraises
    have hrun := (hraises ⟨callee, 0, []⟩).traps h.actions s.steps (hallow _)
    exact ⟨_, callRoutine_eq h hdepth hrun, hprinted⟩

/-- A call leaves a sound store behind. -/
theorem callRoutine_sound {name : String} {outcome : Outcome (List UInt16)} (hp : p.Sound)
    (hs : s.Sound) (h : callRoutine p limits name stack s = (outcome, t))
    (hends : outcome ≠ .unfinished) : t.Sound := by
  obtain ⟨o, hcall, rfl⟩ := Invocation.call_of_perform (i := .routine name stack) h
  have ho : o ≠ .unfinished := by
    rintro rfl
    exact hends rfl
  exact (reaches_sound hp (Moment.sound_idle hs) (Invocation.call_reaches ho hcall)).1.store

end Call

/-! ## Sessions -/

section Sessions

variable {callee : Command → LinkedMethod} {target : Command → Nat → Nat}

/-- Where each command fails on a stack of a given height that is too low. -/
def lackingOffset (callee : Command → LinkedMethod) (target : Command → Nat → Nat)
    (command : Command) (height : Nat) : Nat :=
  (Routines.lackingSite (target command) command height (callee command)).offset

/-- One call of a session, and what the next one finds. -/
theorem call_answers {command : Command} (hp : p.Sound)
    (h : p.Has command (callee command) (target command)) (hs : s.Sound)
    (hsteps : limits.maxSteps = none) (hdepth : 1 ≤ limits.maxCallDepth) (stack : List UInt16) :
    let result := callRoutine p limits command.name stack s
    let answer := Answer.meant (lackingOffset callee target) command stack
    result.2.Sound ∧ Answer.ofCall stack s result = answer ∧
      result.2.printed.toList = s.printed.toList ++ answer.printed := by
  have hcall := callRoutine_answers h hs hsteps hdepth stack
  dsimp only
  unfold Answer.meant
  cases happly : command.apply stack.reverse with
  | some result =>
    rw [happly] at hcall
    obtain ⟨t, hcall, hprinted⟩ := hcall
    rw [hcall]
    refine ⟨callRoutine_sound hp hs hcall (by simp), ?_, ?_⟩
    · simp [Answer.ofCall, hprinted]
    · simp [hprinted]
  | none =>
    rw [happly] at hcall
    obtain ⟨t, hcall, hprinted⟩ := hcall
    rw [hcall]
    refine ⟨callRoutine_sound hp hs hcall (by simp), ?_, ?_⟩
    · simp [Answer.ofCall, hprinted, ← h.name, lackingOffset, Routines.lackingSite,
        LinkedMethod.siteBefore]
    · simp [hprinted]

/-- A session is answered call by call, and all that it prints is in the answers. -/
theorem session_answers (hp : p.Sound) (h : ∀ command, p.Has command (callee command) (target command))
    (hsteps : limits.maxSteps = none) (hdepth : 1 ≤ limits.maxCallDepth)
    (calls : List (Command × List UInt16)) (hs : s.Sound) :
    let answers := calls.map fun call => Answer.meant (lackingOffset callee target) call.1 call.2
    ∃ t, session p limits (calls.map fun call => (call.1.name, call.2)) s = (answers, t) ∧
      t.printed.toList = s.printed.toList ++ answers.flatMap Answer.printed := by
  induction calls generalizing s with
  | nil => exact ⟨s, rfl, by simp⟩
  | cons call calls ih =>
    obtain ⟨hsound, hanswer, hprinted⟩ := call_answers hp (h call.1) hs hsteps hdepth call.2
    obtain ⟨t, hrest, hprinted'⟩ := ih hsound
    refine ⟨t, ?_, ?_⟩
    · simp only [List.map_cons, session, hrest, hanswer]
    · rw [hprinted', hprinted]
      simp

end Sessions

end Machine

namespace Compile

variable {settings : Settings} {source : List Char} {text : String} {c : CompiledClass}

/-- The routines of a compiled class, called from outside on any stacks, any number of times and in
any order on one machine, each answer as their command means for the stack they are given. With too
few cells a call fails in the command's routine, prints nothing and leaves its caller's stack
alone. -/
theorem session_compile (h : compile settings source text = .ok c)
    (hne : c.name.internal ≠ "java/lang/Character") :
    ∃ file offset, ClassFile.parse c.bytes = .ok file ∧
      ∀ depth, 1 ≤ depth → ∀ calls : List (Command × List UInt16),
        let answers := calls.map fun call => Answer.meant offset call.1 call.2
        ∃ store, session (Program.link file) { maxSteps := none, maxCallDepth := depth }
            (calls.map fun call => (call.1.name, call.2)) {} = (answers, store) ∧
          store.printed.toList = answers.flatMap Answer.printed := by
  obtain ⟨file, hparse, hown, hmade⟩ := compile_made h
  choose callee target hserves using recipes_serve hown hne hmade
  refine ⟨file, lackingOffset callee target, hparse, fun depth hdepth calls => ?_⟩
  have hsteps : (Limits.mk none depth).maxSteps = none := rfl
  obtain ⟨store, hsession, hprinted⟩ :=
    session_answers (link_sound file) hserves hsteps hdepth calls empty_sound
  exact ⟨store, hsession, hprinted⟩

/-- The second call fails, and the third finds nothing of that. -/
theorem session_compile_three :
    ∃ c file offset store, compile {} [] "demo.Main" = .ok c ∧
      c.name.internal ≠ "java/lang/Character" ∧ ClassFile.parse c.bytes = .ok file ∧
      session (Program.link file) { maxSteps := none, maxCallDepth := 1 }
          [("rot", [9, 3, 2, 1]), ("xor", [7]), ("print", [72, 105])] {} =
        ([⟨.done (), [9, 1, 3, 2], []⟩,
          ⟨.trapped (.raised .noSuchElement ⟨"xor", offset⟩), [7], []⟩,
          ⟨.done (), [], [105, 72]⟩], store) ∧
      store.printed.toList = [105, 72] := by
  obtain ⟨c, hc, hname⟩ := compile_demo [] (by decide)
  have hne : c.name.internal ≠ "java/lang/Character" := by
    rw [hname]
    decide
  obtain ⟨file, offset, hparse, hanswers⟩ := session_compile hc hne
  obtain ⟨store, hsession, hprinted⟩ :=
    hanswers 1 (Nat.le_refl 1) [(.rot, [9, 3, 2, 1]), (.xor, [7]), (.print, [72, 105])]
  exact ⟨c, file, offset .xor 1, store, hc, hne, hparse, hsession, hprinted⟩

end Compile

end StackGlyph
