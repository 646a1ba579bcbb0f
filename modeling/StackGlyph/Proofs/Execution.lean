import StackGlyph.Machine.Run
import StackGlyph.Proofs.Effects

/-!
# Running through a list of actions

A method under way is described by the actions that are still ahead of it, its local slots, its
operand stack, and the world outside: heap, output, and what was printed. A move leads from one such
description to another in a given number of instructions, wherever in the method the actions stand
and however many instructions were executed before, as long as the limit allows them. Moves compose;
there is one for each action.
-/
namespace StackGlyph.Machine

/-- What outlives a call, but for the count of instructions. -/
structure World where
  heap : Array Object
  output? : Option Nat
  printed : Array UInt16

def World.after (w : World) (steps : Nat) : Store :=
  ⟨w.heap, w.output?, w.printed, steps⟩

def Limits.Allows (limits : Limits) (steps : Nat) : Prop :=
  ∀ limit, limits.maxSteps = some limit → steps ≤ limit

theorem Limits.Allows.mono {limits : Limits} {m n : Nat} (h : limits.Allows n) (hle : m ≤ n) :
    limits.Allows m :=
  fun limit hlimit => Nat.le_trans hle (h limit hlimit)

variable {p : Program} {limits : Limits}

/-- Instructions lead from one state of a run to another. -/
inductive Steps (p : Program) (limits : Limits) : State → State → Prop
  | refl (s : State) : Steps p limits s s
  | step {s t u : State} (h : step p limits s = .running t) (rest : Steps p limits t u) :
      Steps p limits s u

theorem Steps.trans {s t u : State} (h : Steps p limits s t) (h' : Steps p limits t u) :
    Steps p limits s u := by
  induction h with
  | refl s => exact h'
  | step hstep _ ih => exact .step hstep (ih h')

theorem Steps.run_eq {s t : State} (h : Steps p limits s t) : p.run limits s = p.run limits t := by
  induction h with
  | refl s => rfl
  | step hstep _ ih =>
    rw [Program.run, hstep]
    exact ih

/-- The actions of a method from a place on. -/
def Ahead (m : LinkedMethod) (place : Nat) (actions : List Action) : Prop :=
  (m.instructions.toList.drop place).map (·.action) = actions

/-- The first action ahead is the next instruction; the others are ahead of it. -/
theorem Ahead.head {m : LinkedMethod} {k : Nat} {action : Action} {actions : List Action}
    (h : Ahead m k (action :: actions)) :
    (∃ offset, m.instructions[k]? = some ⟨offset, action⟩) ∧ Ahead m (k + 1) actions := by
  unfold Ahead at h ⊢
  obtain ⟨i, rest, hdrop, haction, hrest⟩ := List.map_eq_cons_iff.mp h
  have hget : m.instructions.toList[k]? = some i := by
    rw [← List.head?_drop, hdrop]
    rfl
  refine ⟨⟨i.offset, ?_⟩, ?_⟩
  · rw [← Array.getElem?_toList, hget, ← haction]
  · rw [← List.tail_drop, hdrop]
    exact hrest

/-- The site of an instruction that is followed by so many in its method. -/
def LinkedMethod.siteBefore (m : LinkedMethod) (rest : Nat) : Site :=
  ⟨m.name, (m.instructions[m.instructions.size - (rest + 1)]?.map (·.offset)).getD 0⟩

/-- The actions that are still ahead tell where a method stands. -/
theorem Ahead.offset_eq {m : LinkedMethod} {k offset : Nat} {action : Action} {actions : List Action}
    (h : Ahead m k (action :: actions)) (hat : m.instructions[k]? = some ⟨offset, action⟩) :
    ⟨m.name, offset⟩ = m.siteBefore actions.length := by
  have hlength := congrArg List.length h
  rw [List.length_map, List.length_drop, Array.length_toList, List.length_cons] at hlength
  have hk : m.instructions.size - (actions.length + 1) = k := by omega
  rw [LinkedMethod.siteBefore, hk, hat]
  rfl

theorem Ahead.drop {m : LinkedMethod} {actions : List Action} (h : Ahead m 0 actions) (k : Nat) :
    Ahead m k (actions.drop k) := by
  unfold Ahead at h ⊢
  rw [← h, List.drop_zero, List.map_drop]

/-- A method under way, at a depth, with the frames that wait for it. -/
structure Activation where
  method : LinkedMethod
  depth : Nat
  callers : List Frame

structure Config where
  ahead : List Action
  locals : Array Value
  stack : List Value
  world : World

/-- The state of a run in which a method is at a place and so many instructions were executed. -/
def Activation.state (c : Activation) (place steps : Nat) (x : Config) : State :=
  ⟨x.world.after steps, ⟨c.method, place, x.locals, x.stack, c.depth⟩, c.callers⟩

/-- A method comes from one point to another in `n` instructions. -/
def Moves (p : Program) (limits : Limits) (c : Activation) (n : Nat) (x y : Config) : Prop :=
  ∀ steps place, limits.Allows (steps + n) → Ahead c.method place x.ahead →
    ∃ place', Ahead c.method place' y.ahead ∧
      Steps p limits (c.state place steps x) (c.state place' (steps + n) y)

/-- After `n` instructions, of which the last is not completed, a method traps in a world. -/
def Raises (p : Program) (limits : Limits) (c : Activation) (n : Nat) (x : Config) (e : Trap)
    (w : World) : Prop :=
  ∀ steps place, limits.Allows (steps + n) → Ahead c.method place x.ahead →
    ∃ s, Steps p limits (c.state place steps x) s ∧
      step p limits s = .trapped (w.after (steps + n)) e

variable {c : Activation} {x y z : Config} {m n : Nat}

theorem Moves.refl (x : Config) : Moves p limits c 0 x x :=
  fun _ place _ hahead => ⟨place, hahead, .refl _⟩

theorem Moves.trans (h : Moves p limits c m x y) (h' : Moves p limits c n y z) :
    Moves p limits c (m + n) x z := by
  intro steps place hallow hahead
  obtain ⟨k, hk, hsteps⟩ := h steps place (hallow.mono (by omega)) hahead
  obtain ⟨k', hk', hsteps'⟩ := h' (steps + m) k (by rwa [Nat.add_assoc]) hk
  rw [Nat.add_assoc] at hsteps'
  exact ⟨k', hk', hsteps.trans hsteps'⟩

theorem Moves.raises {e : Trap} {w : World} (h : Moves p limits c m x y)
    (h' : Raises p limits c n y e w) : Raises p limits c (m + n) x e w := by
  intro steps place hallow hahead
  obtain ⟨k, hk, hsteps⟩ := h steps place (hallow.mono (by omega)) hahead
  obtain ⟨s, hsteps', htrap⟩ := h' (steps + m) k (by rwa [Nat.add_assoc]) hk
  rw [Nat.add_assoc] at htrap
  exact ⟨s, hsteps.trans hsteps', htrap⟩

/-- A trap ends the run. -/
theorem Raises.traps {e : Trap} {w : World} (h : Raises p limits c n x e w)
    (hahead : Ahead c.method 0 x.ahead) (steps : Nat) (hallow : limits.Allows (steps + n)) :
    p.run limits (c.state 0 steps x) = some (.trapped e, w.after (steps + n)) := by
  obtain ⟨s, hsteps, htrap⟩ := h steps 0 hallow hahead
  rw [hsteps.run_eq, Program.run, htrap]

/-- Within the limit, the next action is executed and counted. -/
theorem step_execute {place steps offset : Nat} {action : Action}
    (hat : c.method.instructions[place]? = some ⟨offset, action⟩)
    (hallow : limits.Allows (steps + 1)) :
    step p limits (c.state place steps x) =
      match execute offset action ⟨c.method, place + 1, x.locals, x.stack, c.depth⟩
          (x.world.after (steps + 1)) with
      | .error t store => .trapped store t
      | .ok (.proceed frame) store => .running ⟨store, frame, c.callers⟩
      | .ok (.enter caller name descriptor arguments) store =>
        match enter p limits (caller.depth + 1) name descriptor arguments with
        | .error t => .trapped store t
        | .ok frame => .running ⟨store, frame, caller :: c.callers⟩
      | .ok .leave store =>
        match c.callers with
        | [] => .returned store
        | frame :: callers => .running ⟨store, frame, callers⟩ := by
  unfold step Activation.state
  dsimp only
  rw [hat]
  dsimp only [World.after]
  split
  · next limit hlimit =>
    obtain ⟨hsome, hlt⟩ := Option.filter_eq_some_iff.mp hlimit
    have hle := hallow limit hsome
    have hover : limit < steps + 1 := of_decide_eq_true hlt
    omega
  · rfl

/-- A method that nobody waits for ends the run when it comes to its end. -/
theorem Moves.returns {m : LinkedMethod} {depth : Nat} (h : Moves p limits ⟨m, depth, []⟩ n x y)
    (hend : y.ahead.head? = some .leave) (hahead : Ahead m 0 x.ahead) (steps : Nat)
    (hallow : limits.Allows (steps + n + 1)) :
    p.run limits (Activation.state ⟨m, depth, []⟩ 0 steps x) =
      some (.done (), y.world.after (steps + n + 1)) := by
  obtain ⟨place, hplace, hsteps⟩ := h steps 0 (hallow.mono (by omega)) hahead
  obtain ⟨rest, hrest⟩ := List.head?_eq_some_iff.mp hend
  rw [hrest] at hplace
  obtain ⟨⟨offset, hat⟩, -⟩ := hplace.head
  have hstep : step p limits (Activation.state ⟨m, depth, []⟩ place (steps + n) y) =
      .returned (y.world.after (steps + n + 1)) := by
    rw [step_execute hat hallow]
    rfl
  rw [hsteps.run_eq, Program.run, hstep]

/-! ## One action at a time -/

variable {action : Action} {ahead : List Action} {locals locals' : Array Value}
  {stack stack' : List Value} {w w' : World}

/-- An action that goes on in its method is a move. -/
theorem Moves.one (h : ∀ offset next steps,
      execute offset action ⟨c.method, next, locals, stack, c.depth⟩ (w.after steps) =
        .ok (.proceed ⟨c.method, next, locals', stack', c.depth⟩) (w'.after steps)) :
    Moves p limits c 1 ⟨action :: ahead, locals, stack, w⟩ ⟨ahead, locals', stack', w'⟩ := by
  intro steps place hallow hahead
  obtain ⟨⟨offset, hat⟩, hrest⟩ := hahead.head
  refine ⟨place + 1, hrest, .step ?_ (.refl _)⟩
  rw [step_execute hat hallow]
  dsimp only
  rw [h offset (place + 1) (steps + 1)]
  rfl

/-- An action that traps, where it stands in the method. -/
theorem Raises.trap (e : Site → Trap) (h : ∀ offset next steps,
      execute offset action ⟨c.method, next, locals, stack, c.depth⟩ (w.after steps) =
        .error (e ⟨c.method.name, offset⟩) (w.after steps)) :
    Raises p limits c 1 ⟨action :: ahead, locals, stack, w⟩
      (e (c.method.siteBefore ahead.length)) w := by
  intro steps place hallow hahead
  obtain ⟨⟨offset, hat⟩, -⟩ := hahead.head
  refine ⟨_, .refl _, ?_⟩
  rw [step_execute hat hallow, ← hahead.offset_eq hat]
  dsimp only
  rw [h offset (place + 1) (steps + 1)]

/-- An action that raises an exception. -/
theorem Raises.one {exception : Exception} (h : ∀ offset next steps,
      execute offset action ⟨c.method, next, locals, stack, c.depth⟩ (w.after steps) =
        .error (.raised exception ⟨c.method.name, offset⟩) (w.after steps)) :
    Raises p limits c 1 ⟨action :: ahead, locals, stack, w⟩
      (.raised exception (c.method.siteBefore ahead.length)) w :=
  .trap (.raised exception) h

theorem moves_push (v : Int32) :
    Moves p limits c 1 ⟨.push v :: ahead, locals, stack, w⟩ ⟨ahead, locals, .int v :: stack, w⟩ :=
  .one fun _ _ _ => rfl

theorem moves_load {slot : Nat} {v : Value} (h : locals[slot]? = some v) :
    Moves p limits c 1 ⟨.load slot :: ahead, locals, stack, w⟩ ⟨ahead, locals, v :: stack, w⟩ := by
  refine .one fun _ _ _ => ?_
  simp only [execute, h]
  rfl

theorem moves_store {slot : Nat} {v : Value} (h : slot < locals.size) :
    Moves p limits c 1 ⟨.store slot :: ahead, locals, v :: stack, w⟩
      ⟨ahead, locals.setIfInBounds slot v, stack, w⟩ := by
  refine .one fun _ _ _ => ?_
  simp only [execute, h]
  rfl

theorem moves_pop {v : Value} :
    Moves p limits c 1 ⟨.pop :: ahead, locals, v :: stack, w⟩ ⟨ahead, locals, stack, w⟩ :=
  .one fun _ _ _ => rfl

theorem moves_dup {v : Value} :
    Moves p limits c 1 ⟨.dup :: ahead, locals, v :: stack, w⟩
      ⟨ahead, locals, v :: v :: stack, w⟩ :=
  .one fun _ _ _ => rfl

theorem moves_dup2 {u v : Value} :
    Moves p limits c 1 ⟨.dup2 :: ahead, locals, u :: v :: stack, w⟩
      ⟨ahead, locals, u :: v :: u :: v :: stack, w⟩ :=
  .one fun _ _ _ => rfl

theorem moves_swap {u v : Value} :
    Moves p limits c 1 ⟨.swap :: ahead, locals, u :: v :: stack, w⟩
      ⟨ahead, locals, v :: u :: stack, w⟩ :=
  .one fun _ _ _ => rfl

theorem moves_add {u v : Int32} :
    Moves p limits c 1 ⟨.add :: ahead, locals, .int v :: .int u :: stack, w⟩
      ⟨ahead, locals, .int (u + v) :: stack, w⟩ :=
  .one fun _ _ _ => rfl

theorem moves_xor {u v : Int32} :
    Moves p limits c 1 ⟨.xor :: ahead, locals, .int v :: .int u :: stack, w⟩
      ⟨ahead, locals, .int (u ^^^ v) :: stack, w⟩ :=
  .one fun _ _ _ => rfl

theorem moves_negate {v : Int32} :
    Moves p limits c 1 ⟨.negate :: ahead, locals, .int v :: stack, w⟩
      ⟨ahead, locals, .int (-v) :: stack, w⟩ :=
  .one fun _ _ _ => rfl

theorem moves_narrow {v : Int32} :
    Moves p limits c 1 ⟨.narrow :: ahead, locals, .int v :: stack, w⟩
      ⟨ahead, locals, .int (Int32.ofNat v.toUInt32.toUInt16.toNat) :: stack, w⟩ :=
  .one fun _ _ _ => rfl

/-- A branch on a nonzero number goes on behind it if the number is zero. -/
theorem moves_past {target : Nat} {place : Option Nat} :
    Moves p limits c 1 ⟨.branch .nonzero target place :: ahead, locals, .int 0 :: stack, w⟩
      ⟨ahead, locals, stack, w⟩ :=
  .one fun _ _ _ => rfl

/-- A branch that is taken leads to the actions from its place on. -/
theorem moves_to {test : Test} {target place : Nat} {all : List Action} {next : List Value}
    (hall : Ahead c.method 0 all)
    (htest : (test = .always ∧ stack = next) ∨ (test = .nonzero ∧ stack = .int 1 :: next)) :
    Moves p limits c 1 ⟨.branch test target (some place) :: ahead, locals, stack, w⟩
      ⟨all.drop place, locals, next, w⟩ := by
  intro steps k hallow hahead
  obtain ⟨⟨offset, hat⟩, -⟩ := hahead.head
  refine ⟨place, hall.drop place, .step ?_ (.refl _)⟩
  rw [step_execute hat hallow]
  rcases htest with ⟨rfl, rfl⟩ | ⟨rfl, rfl⟩ <;> rfl

/-! ## Calls of the class's own methods -/

/-- The local slots of a method that was called with one argument. -/
def entryLocals (m : LinkedMethod) (v : Value) : Array Value :=
  (v :: List.replicate (m.maxLocals - 1) Value.null).toArray

variable {callee : LinkedMethod} {name descriptor : String} {v : Value} {actions : List Action}

theorem popArguments_eq (site : Site) (arguments rest : List Value) :
    popArguments site arguments.length (arguments.reverse ++ rest) = pure (arguments, rest) := by
  simp [popArguments, List.splitAt_eq]

theorem execute_own (m : LinkedMethod) (offset next depth : Nat) (store : Store) :
    execute offset (.call 1 true (.ok (.own name descriptor)))
      ⟨m, next, locals, v :: stack, depth⟩ store =
      .ok (.enter ⟨m, next, locals, stack, depth⟩ name descriptor [v]) store := by
  have hpop := popArguments_eq ⟨m.name, offset⟩ [v] stack
  rw [List.length_singleton, List.reverse_singleton, List.singleton_append] at hpop
  unfold execute
  dsimp only
  rw [hpop]
  rfl

/-- A call enters its method at the first action, one frame deeper. -/
theorem steps_enter {steps place : Nat} (hmethod : p.method name descriptor = .ok callee)
    (hdepth : c.depth + 1 < limits.maxCallDepth) (hallow : limits.Allows (steps + 1))
    (hahead : Ahead c.method place (.call 1 true (.ok (.own name descriptor)) :: ahead)) :
    Steps p limits
      (c.state place steps
        ⟨.call 1 true (.ok (.own name descriptor)) :: ahead, locals, v :: stack, w⟩)
      (Activation.state ⟨callee, c.depth + 1,
        ⟨c.method, place + 1, locals, stack, c.depth⟩ :: c.callers⟩ 0 (steps + 1)
        ⟨actions, entryLocals callee v, [], w⟩) := by
  obtain ⟨⟨offset, hat⟩, -⟩ := hahead.head
  have henter : enter p limits (c.depth + 1) name descriptor [v] =
      .ok ⟨callee, 0, entryLocals callee v, [], c.depth + 1⟩ := by
    rw [enter, if_neg (by omega), hmethod]
    rfl
  refine .step ?_ (.refl _)
  rw [step_execute hat hallow]
  dsimp only
  rw [execute_own]
  dsimp only
  rw [henter]
  rfl

/-- A method that comes to its end returns to its caller. -/
theorem moves_call {x : Config} (hmethod : p.method name descriptor = .ok callee)
    (hdepth : c.depth + 1 < limits.maxCallDepth) (hactions : Ahead callee 0 actions)
    (hend : x.ahead.head? = some .leave)
    (hbody : ∀ callers, Moves p limits ⟨callee, c.depth + 1, callers⟩ n
      ⟨actions, entryLocals callee v, [], w⟩ x) :
    Moves p limits c (n + 2)
      ⟨.call 1 true (.ok (.own name descriptor)) :: ahead, locals, v :: stack, w⟩
      ⟨ahead, locals, stack, x.world⟩ := by
  intro steps place hallow hahead
  have hallow' : limits.Allows (steps + 1) := hallow.mono (by omega)
  obtain ⟨k, hk, hsteps⟩ := hbody (⟨c.method, place + 1, locals, stack, c.depth⟩ :: c.callers)
    (steps + 1) 0 (hallow.mono (by omega)) hactions
  obtain ⟨rest, hrest⟩ := List.head?_eq_some_iff.mp hend
  rw [hrest] at hk
  obtain ⟨⟨offset, hat⟩, -⟩ := hk.head
  refine ⟨place + 1, hahead.head.2, (steps_enter hmethod hdepth hallow' hahead).trans
    (hsteps.trans (.step ?_ (.refl _)))⟩
  rw [step_execute hat (hallow.mono (by omega))]
  show Progress.running ⟨x.world.after (steps + 1 + n + 1), _, _⟩ = _
  rw [show steps + 1 + n + 1 = steps + (n + 2) by omega]
  rfl

/-- A trap in a method ends the whole run. -/
theorem raises_call {e : Trap} (hmethod : p.method name descriptor = .ok callee)
    (hdepth : c.depth + 1 < limits.maxCallDepth) (hactions : Ahead callee 0 actions)
    (hbody : ∀ callers, Raises p limits ⟨callee, c.depth + 1, callers⟩ n
      ⟨actions, entryLocals callee v, [], w⟩ e w') :
    Raises p limits c (n + 1)
      ⟨.call 1 true (.ok (.own name descriptor)) :: ahead, locals, v :: stack, w⟩ e w' := by
  intro steps place hallow hahead
  have hallow' : limits.Allows (steps + 1) := hallow.mono (by omega)
  obtain ⟨s, hsteps, htrap⟩ := hbody
    (⟨c.method, place + 1, locals, stack, c.depth⟩ :: c.callers) (steps + 1) 0
    (hallow.mono (by omega)) hactions
  rw [Nat.add_assoc, Nat.add_comm 1 n] at htrap
  exact ⟨s, (steps_enter hmethod hdepth hallow' hahead).trans hsteps, htrap⟩

/-- A call of a method that the class lacks. -/
theorem raises_missing {e : Trap} (hmethod : p.method name descriptor = .error e)
    (hdepth : c.depth + 1 < limits.maxCallDepth) :
    Raises p limits c 1
      ⟨.call 1 true (.ok (.own name descriptor)) :: ahead, locals, v :: stack, w⟩ e w := by
  intro steps place hallow hahead
  obtain ⟨⟨offset, hat⟩, -⟩ := hahead.head
  have henter : enter p limits (c.depth + 1) name descriptor [v] = .error e := by
    rw [enter, if_neg (by omega), hmethod]
    rfl
  refine ⟨_, .refl _, ?_⟩
  rw [step_execute hat hallow]
  dsimp only
  rw [execute_own]
  dsimp only
  rw [henter]

end StackGlyph.Machine
