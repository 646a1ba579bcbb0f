import StackGlyph.Proofs.Compiling
import StackGlyph.Proofs.RoutineRuns

/-!
# Compiled programs run as they mean

The main method of a compiled class calls the routines of its commands in order. By induction over
the commands its queue holds the stack of the reference meaning at every command, so the run prints
what the program means or fails where the program has no meaning. The instructions it takes are
counted on the way; the height of the stack pays in advance for what `print` will take, which bounds
the count by the length of the program.
-/
namespace StackGlyph

open Machine Request

/-- The instructions that the commands take from a stack on, each with the call that leads to its
routine. A command that lacks cells counts in full, and none after it. -/
def instructionsOf (stack : List UInt16) : List Command → Nat
  | [] => 0
  | c :: rest =>
    2 + c.cost stack.length +
      match c.apply stack with
      | some (stack, _) => instructionsOf stack rest
      | none => 0

/-- A command at most adds the greeting to the stack; ten instructions for each cell are paid when
the cell is pushed. -/
theorem cost_apply_le {c : Command} {stack stack' printed : List UInt16}
    (h : c.apply stack = some (stack', printed)) :
    2 + c.cost stack.length + 10 * stack'.length ≤ 187 + 10 * stack.length := by
  have hgreeting : (Text.Utf16.units greeting).length = 13 := by decide +kernel
  unfold Command.apply at h
  split at h
  all_goals cases h
  all_goals
    simp only [Command.cost, List.length_cons, List.length_append, List.length_nil, hgreeting]
  all_goals omega

theorem cost_lack_le {c : Command} {stack : List UInt16} (h : c.apply stack = none) :
    2 + c.cost stack.length ≤ 187 := by
  cases c with
  | print => cases h
  | _ => simp [Command.cost]

/-- Each command is charged 187 instructions: its own, and ten for each cell that it adds, since
that is what printing a cell costs later. -/
theorem instructionsOf_le (stack : List UInt16) (commands : List Command) :
    instructionsOf stack commands ≤ 187 * commands.length + 10 * stack.length := by
  induction commands generalizing stack with
  | nil => exact Nat.zero_le _
  | cons c rest ih =>
    rw [instructionsOf, List.length_cons]
    cases h : c.apply stack with
    | none =>
      have hcost := cost_lack_le h
      dsimp only
      omega
    | some result =>
      have hcost := cost_apply_le h
      have hrest := ih result.1
      dsimp only
      omega

namespace MainMethod

def callActions (c : Command) : List Action :=
  [.dup, .call 1 true (.ok (.own c.name Routines.descriptor))]

def actions (commands : List Command) : List Action :=
  .create (.deque []) :: .dup :: libraryCall 0 .construct ::
    commands.flatMap callActions ++ [.pop, .leave]

/-- The requests of a main method stand for its actions, in whatever class and wherever labels
stand. -/
theorem filterMap_script (own : String) (commands : List Command) {target : Nat → Nat}
    {place : Nat → Option Nat} :
    (script own commands).filterMap (action? own target place) = actions commands := by
  have hinit : MethodType.parse "()V" = .ok ⟨[], none⟩ := by cbv
  have hconstruct : action? own target place (.call .special queueClass "<init>" "()V") =
      some (libraryCall 0 .construct) := by
    simp only [action?, callAction, hinit]
    rfl
  have hcall (c : Command) :
      (callScript own c).filterMap (action? own target place) = callActions c := by
    have hown : action? own target place (.call .static own c.name Routines.descriptor) =
        some (.call 1 true (.ok (.own c.name Routines.descriptor))) := by
      simp [action?, callAction, Routines.parse_descriptor]
    simp only [callScript, List.filterMap_cons, List.filterMap_nil, hown]
    rfl
  simp only [script, openingScript, List.filterMap_append, List.filterMap_cons, List.filterMap_nil,
    hconstruct, List.filterMap_flatMap, hcall]
  rfl

theorem script_lands (own : String) (commands : List Command) : Lands (script own commands) := by
  intro op label hjump
  simp [script, openingScript, callScript] at hjump

end MainMethod

namespace Machine

/-- A method of a program is the routine of a command. -/
structure Program.Has (p : Program) (command : Command) (callee : LinkedMethod)
    (target : Nat → Nat) : Prop where
  method : p.method command.name Routines.descriptor = .ok callee
  name : callee.name = command.name
  actions : Ahead callee 0 (Routines.actions target command)
  locals : command = .rot → 4 ≤ callee.maxLocals

/-- A program has the routines of all commands. -/
def Program.Serves (p : Program) : Prop :=
  ∀ command : Command, ∃ callee target, p.Has command callee target

section Calls

variable {p : Program} {limits : Limits} {c : Activation} {ahead : List Action}
  {locals : Array Value} {stack : List Value} {w : World} {queue : Nat}
  {units units' printed : List UInt16}

theorem entryLocals_zero (m : LinkedMethod) (v : Value) : (entryLocals m v)[0]? = some v := by
  simp [entryLocals]

theorem size_entryLocals {m : LinkedMethod} {n : Nat} (h : n ≤ m.maxLocals) (v : Value) :
    n ≤ (entryLocals m v).size := by
  simp [entryLocals]
  omega

/-- A call of a command does to the queue what the command means. -/
theorem call_moves {command : Command} (hserves : p.Serves)
    (hdepth : c.depth + 1 < limits.maxCallDepth) (h : w.Holds queue units)
    (happly : command.apply units = some (units', printed)) :
    ∃ w', w'.Holds queue units' ∧ w'.printed = w.printed ++ printed.toArray ∧
      Moves p limits c (2 + command.cost units.length)
        ⟨MainMethod.callActions command ++ ahead, locals, .ref queue :: stack, w⟩
        ⟨ahead, locals, .ref queue :: stack, w'⟩ := by
  obtain ⟨callee, target, hmethod, hname, hactions, hlocals⟩ := hserves command
  obtain ⟨n, w', locals', hcost, hholds, hprinted, hmoves⟩ :=
    Routines.actions_move target command (entryLocals_zero callee (.ref queue))
      (fun hrot => size_entryLocals (hlocals hrot) _) h happly
  refine ⟨w', hholds, hprinted, ?_⟩
  rw [← hcost, show 2 + (n + 1) = 1 + (n + 2) by omega]
  exact moves_dup.trans (moves_call hmethod hdepth hactions rfl fun callers => hmoves _ hactions)

/-- A call of a command that lacks cells raises an exception in the command's routine. -/
theorem call_raises {command : Command} (hserves : p.Serves)
    (hdepth : c.depth + 1 < limits.maxCallDepth) (h : w.Holds queue units)
    (happly : command.apply units = none) :
    ∃ n ≤ 2 + command.cost units.length, ∃ site w', site.method = command.name ∧
      Raises p limits c n
        ⟨MainMethod.callActions command ++ ahead, locals, .ref queue :: stack, w⟩
        (.raised .noSuchElement site) w' := by
  obtain ⟨callee, target, hmethod, hname, hactions, hlocals⟩ := hserves command
  obtain ⟨w', -, hraises⟩ :=
    Routines.actions_raise target command (entryLocals_zero callee (.ref queue))
      (fun hrot => size_entryLocals (hlocals hrot) _) h happly
  have hcost := Routines.shortfall_le_cost happly
  refine ⟨1 + (command.shortfall units.length + 1), by omega,
    Routines.lackingSite target command units.length callee, w', hname, ?_⟩
  exact moves_dup.raises (raises_call hmethod hdepth hactions fun callers => hraises _)

/-- The calls of all commands do to the queue what the program means, or raise an exception at the
first command that lacks cells. -/
theorem calls_run (c : Activation) (ahead : List Action) (locals : Array Value) (hserves : p.Serves)
    (hdepth : c.depth + 1 < limits.maxCallDepth) (commands : List Command)
    (h : w.Holds queue units) (hprinted : w.printed.toList = printed) :
    match meaning units printed commands with
    | .completes _ output => ∃ w', w'.printed.toList = output ∧
        Moves p limits c (instructionsOf units commands)
          ⟨commands.flatMap MainMethod.callActions ++ ahead, locals, [.ref queue], w⟩
          ⟨ahead, locals, [.ref queue], w'⟩
    | .lacksCells command => ∃ n ≤ instructionsOf units commands, ∃ site w',
        site.method = command.name ∧ Raises p limits c n
          ⟨commands.flatMap MainMethod.callActions ++ ahead, locals, [.ref queue], w⟩
          (.raised .noSuchElement site) w' := by
  induction commands generalizing w units printed with
  | nil => exact ⟨w, hprinted, .refl _⟩
  | cons command rest ih =>
    rw [meaning, instructionsOf, List.flatMap_cons, List.append_assoc]
    cases happly : command.apply units with
    | none =>
      dsimp only
      exact call_raises hserves hdepth h happly
    | some result =>
      obtain ⟨units', out⟩ := result
      dsimp only
      obtain ⟨w', hholds', hprinted', hmoves⟩ := call_moves hserves hdepth h happly
      have hout : w'.printed.toList = printed ++ out := by simp [hprinted', hprinted]
      have hrest := ih hholds' hout
      split at hrest
      · next output hmeaning =>
        obtain ⟨w'', hprinted'', hmoves'⟩ := hrest
        exact ⟨w'', hprinted'', hmoves.trans hmoves'⟩
      · next lacking hmeaning =>
        obtain ⟨n, hn, site, w'', hsite, hraises⟩ := hrest
        exact ⟨_, by omega, site, w'', hsite, hmoves.raises hraises⟩

/-- The world of a fresh run: nothing but the argument array. -/
def startWorld : World :=
  ⟨#[.arguments], none, #[]⟩

/-- A call of the main method is a run from its first action, in a world with the argument array
alone. -/
theorem callMain_eq {main : LinkedMethod} (actions : List Action)
    (hmain : p.method "main" mainDescriptor = .ok main) (hdepth : 0 < limits.maxCallDepth) :
    callMain p limits {} =
      (p.run limits (Activation.state ⟨main, 0, []⟩ 0 0
        ⟨actions, entryLocals main (.ref 0), [], startWorld⟩)).getD
          (.unfinished, startWorld.after 0) := by
  have henter : enter p limits 0 "main" mainDescriptor [.ref 0] =
      .ok ⟨main, 0, entryLocals main (.ref 0), [], 0⟩ := by
    rw [enter, if_neg (by omega), hmain]
    rfl
  show call p limits "main" mainDescriptor [.ref 0] (startWorld.after 0) = _
  rw [call, henter]
  rfl

/-- The main method makes a queue, calls the commands, and drops the queue. -/
theorem main_run {main : LinkedMethod} {commands : List Command} (hserves : p.Serves)
    (hmain : p.method "main" mainDescriptor = .ok main)
    (hactions : Ahead main 0 (MainMethod.actions commands)) (hdepth : 2 ≤ limits.maxCallDepth)
    (hallow : limits.Allows (5 + instructionsOf [] commands)) :
    match meaning [] [] commands with
    | .completes _ output => ∃ store, callMain p limits {} = (.done (), store) ∧
        store.printed.toList = output ∧ store.steps = 5 + instructionsOf [] commands
    | .lacksCells command => ∃ store offset, callMain p limits {} =
        (.trapped (.raised .noSuchElement ⟨command.name, offset⟩), store) := by
  let w : World := { startWorld with heap := startWorld.heap.push (.deque []) }
  have hstart : Moves p limits ⟨main, 0, []⟩ 3
      ⟨MainMethod.actions commands, entryLocals main (.ref 0), [], startWorld⟩
      ⟨commands.flatMap MainMethod.callActions ++ [.pop, .leave], entryLocals main (.ref 0),
        [.ref 1], w⟩ :=
    (moves_create (.deque [])).trans (moves_dup.trans moves_construct)
  have hholds : w.Holds 1 [] := ⟨⟨[], rfl, .nil⟩, fun _ hplace => by cases hplace⟩
  have hfresh : w.printed.toList = [] := rfl
  have hcalls := calls_run ⟨main, 0, []⟩ [.pop, .leave] (entryLocals main (.ref 0)) hserves
    (show 0 + 1 < limits.maxCallDepth by omega) commands hholds hfresh
  rw [callMain_eq (MainMethod.actions commands) hmain (by omega)]
  cases hmeaning : meaning [] [] commands with
  | completes stack output =>
    rw [hmeaning] at hcalls
    obtain ⟨w', hprinted, hmoves⟩ := hcalls
    rw [(hstart.trans (hmoves.trans moves_pop)).returns rfl hactions 0 (hallow.mono (by omega))]
    exact ⟨_, rfl, hprinted, show 0 + (3 + (_ + 1)) + 1 = _ by omega⟩
  | lacksCells command =>
    rw [hmeaning] at hcalls
    obtain ⟨n, hn, site, w', hsite, hraises⟩ := hcalls
    rw [(hstart.raises hraises).traps hactions 0 (hallow.mono (by omega))]
    dsimp only
    rw [← hsite]
    exact ⟨_, site.offset, rfl⟩

end Calls

end Machine

/-- A method whose code was assembled by requests has the limits that they measure. -/
theorem Drawn.gauge {pool : Pool} {slots : Nat} {rs : List Request} {code : Code}
    (h : Drawn pool slots rs code) :
    ∃ g, measureAll rs { maxLocals := slots } = some ((), g) ∧ code.maxStack = g.maxStack ∧
      code.maxLocals = g.maxLocals := by
  obtain ⟨p, a, -, hrun, hfinish, -⟩ := h
  obtain ⟨bytes, -, -, rfl⟩ := Assembler.finish_eq_ok hfinish
  have hgauge := gauge_of_performAll hrun
  rw [Assembler.gauge_start] at hgauge
  exact ⟨a.gauge, hgauge, rfl, rfl⟩

namespace Compile

variable {settings : Settings} {source : List Char} {text : String} {c : CompiledClass}

/-- The routines of a compiled class serve all commands, unless the class takes the place of the
class of boxes. -/
theorem recipes_serve {file : ClassFile} {own : String} {commands : List Command}
    (hown : file.name = .ok own) (hne : own ≠ Routines.characterClass)
    (hmade : List.Forall₂ (Recipe.Made file.pool) (recipes own commands) file.methods) :
    (Program.link file).Serves := by
  intro command
  have hfind : (recipes own commands).find? (Recipe.declares command.name Routines.descriptor) =
      some (Routines.recipe command) := by
    cases command <;> rfl
  obtain ⟨callee, target, code, hmethod, hname, hlocals, hdrawn, hactions⟩ :=
    method_made hown hmade hfind (Routines.script_lands command)
  refine ⟨callee, target, hmethod, hname, ?_, ?_⟩
  · rwa [show (Routines.recipe command).requests = Routines.script command from rfl,
      Routines.filterMap_script hne] at hactions
  · rintro rfl
    obtain ⟨g, hgauge, -, hmax⟩ := hdrawn.gauge
    obtain rfl : Routines.gauge .rot = g :=
      congrArg Prod.snd (Option.some.inj ((Routines.measure_script .rot).symm.trans hgauge))
    rw [hlocals, hmax]
    exact Nat.le_refl 4

/-- In a class made by the recipes of a program the main method is linked to the actions of the
commands. -/
theorem recipes_main {file : ClassFile} {own : String} {commands : List Command}
    (hown : file.name = .ok own)
    (hmade : List.Forall₂ (Recipe.Made file.pool) (recipes own commands) file.methods) :
    ∃ main code, (Program.link file).method "main" mainDescriptor = .ok main ∧
      Ahead main 0 (MainMethod.actions commands) ∧
      Drawn file.pool 1 (MainMethod.script own commands) code := by
  have hfind : (recipes own commands).find? (Recipe.declares "main" mainDescriptor) =
      some (MainMethod.recipe own commands) := rfl
  obtain ⟨main, target, code, hmethod, -, -, hdrawn, hactions⟩ :=
    method_made hown hmade hfind (MainMethod.script_lands own commands)
  refine ⟨main, code, hmethod, ?_, hdrawn⟩
  rwa [show (MainMethod.recipe own commands).requests = MainMethod.script own commands from rfl,
    MainMethod.filterMap_script] at hactions

/-- A main method fits its class only if it is short. -/
theorem length_commands_le {pool : Pool} {slots : Nat} {own : String} {commands : List Command}
    {code : Code} (h : Drawn pool slots (MainMethod.script own commands) code) :
    9 + 4 * commands.length ≤ 65535 := by
  obtain ⟨p, a, -, hrun, hfinish, -⟩ := h
  obtain ⟨bytes, hfold, hsize, -⟩ := Assembler.finish_eq_ok hfinish
  have hscript := MainMethod.size_of_script hrun
  rw [size_of_resolved hfold, hscript] at hsize
  exact hsize

/-- The main method of a compiled class, under limits that let it finish. -/
theorem runMain_made {file : ClassFile} {own : String} {commands : List Command} (limits : Limits)
    (hown : file.name = .ok own) (hne : own ≠ Routines.characterClass)
    (hmade : List.Forall₂ (Recipe.Made file.pool) (recipes own commands) file.methods)
    (hdepth : 2 ≤ limits.maxCallDepth)
    (hallow : limits.Allows (5 + instructionsOf [] commands)) :
    match meaning [] [] commands with
    | .completes _ output => runMain file limits = .done ⟨output, 5 + instructionsOf [] commands⟩
    | .lacksCells command =>
      ∃ offset, runMain file limits = .trapped (.raised .noSuchElement ⟨command.name, offset⟩) := by
  obtain ⟨main, code, hmain, hactions, -⟩ := recipes_main hown hmade
  have hrun := main_run (recipes_serve hown hne hmade) hmain hactions hdepth hallow
  unfold runMain
  cases hmeaning : meaning [] [] commands with
  | completes stack output =>
    rw [hmeaning] at hrun
    obtain ⟨store, hcall, hprinted, hsteps⟩ := hrun
    rw [hcall, ← hprinted, ← hsteps]
  | lacksCells command =>
    rw [hmeaning] at hrun
    obtain ⟨store, offset, hcall⟩ := hrun
    rw [hcall]
    exact ⟨offset, rfl⟩

/-- Compiled programs run as they mean. Whatever the text, the class name and the settings, the
class file of a compiled program can be read; run without a limit on instructions, it prints exactly
the reference output, or fails in the routine of the first command that lacks cells. -/
theorem runMain_compile (h : compile settings source text = .ok c)
    (hne : c.name.internal ≠ "java/lang/Character") :
    ∃ file, ClassFile.parse c.bytes = .ok file ∧ ∀ depth, 2 ≤ depth →
      match meaning [] [] (commandsOf source) with
      | .completes _ output => ∃ steps,
          runMain file { maxSteps := none, maxCallDepth := depth } = .done ⟨output, steps⟩
      | .lacksCells command => ∃ exception site,
          runMain file { maxSteps := none, maxCallDepth := depth } =
            .trapped (.raised exception site) ∧
          exception.className = "java.util.NoSuchElementException" ∧
          site.method = command.name := by
  obtain ⟨file, hparse, hown, hmade⟩ := compile_made h
  refine ⟨file, hparse, fun depth hdepth => ?_⟩
  have hrun := runMain_made ⟨none, depth⟩ hown hne hmade hdepth fun limit hlimit => by cases hlimit
  cases hmeaning : meaning [] [] (commandsOf source) with
  | completes stack output =>
    rw [hmeaning] at hrun
    exact ⟨_, hrun⟩
  | lacksCells command =>
    rw [hmeaning] at hrun
    obtain ⟨offset, hrun⟩ := hrun
    exact ⟨.noSuchElement, _, hrun, rfl, rfl⟩

/-- A program that takes a detour through all commands, and one whose last command finds the stack
empty. -/
theorem runMain_compile_detour :
    (∃ c file steps,
      compile {} ['\x60', '\x27', '\x22', '^', ' ', '~', '|'] "demo.Main" = .ok c ∧
      c.name.internal ≠ "java/lang/Character" ∧ ClassFile.parse c.bytes = .ok file ∧
      runMain file { maxSteps := none, maxCallDepth := 2 } =
        .done ⟨255 :: Text.Utf16.units "lHlo, world!", steps⟩) ∧
    ∃ c file exception site, compile {} ['\x60', '|', '^'] "demo.Main" = .ok c ∧
      c.name.internal ≠ "java/lang/Character" ∧ ClassFile.parse c.bytes = .ok file ∧
      runMain file { maxSteps := none, maxCallDepth := 2 } = .trapped (.raised exception site) ∧
      exception.className = "java.util.NoSuchElementException" ∧ site.method = "xor" := by
  constructor
  · have hmeaning : meaning [] [] (commandsOf ['\x60', '\x27', '\x22', '^', ' ', '~', '|']) =
        .completes [] (255 :: Text.Utf16.units "lHlo, world!") := by decide +kernel
    obtain ⟨c, hc, hname⟩ := compile_demo ['\x60', '\x27', '\x22', '^', ' ', '~', '|']
      (by decide)
    have hne : c.name.internal ≠ "java/lang/Character" := by
      rw [hname]
      decide
    obtain ⟨file, hparse, hrun⟩ := runMain_compile hc hne
    have hdone := hrun 2 (Nat.le_refl 2)
    rw [hmeaning] at hdone
    obtain ⟨steps, hdone⟩ := hdone
    exact ⟨c, file, steps, hc, hne, hparse, hdone⟩
  · have hmeaning : meaning [] [] (commandsOf ['\x60', '|', '^']) = .lacksCells .xor := by
      decide +kernel
    obtain ⟨c, hc, hname⟩ := compile_demo ['\x60', '|', '^'] (by decide)
    have hne : c.name.internal ≠ "java/lang/Character" := by
      rw [hname]
      decide
    obtain ⟨file, hparse, hrun⟩ := runMain_compile hc hne
    have htrapped := hrun 2 (Nat.le_refl 2)
    rw [hmeaning] at htrapped
    obtain ⟨exception, site, htrapped, hclass, hmethod⟩ := htrapped
    exact ⟨c, file, exception, site, hc, hne, hparse, htrapped, hclass, hmethod⟩

/-- The default limits suffice for every compiled program: neither the instructions nor the depth of
calls run out. A run that succeeds takes five instructions of its own and, for each command, two for
the call and those of its routine on a stack of that height; it succeeds whenever the program has a
meaning. -/
theorem runMain_default (h : compile settings source text = .ok c)
    (hne : c.name.internal ≠ "java/lang/Character") :
    ∃ file, ClassFile.parse c.bytes = .ok file ∧
      (∀ limit, runMain file {} ≠ .trapped (.stepLimit limit)) ∧
      (∀ depth, runMain file {} ≠ .trapped (.callDepth depth)) ∧
      (∀ report, runMain file {} = .done report →
        report.steps = 5 + instructionsOf [] (commandsOf source)) ∧
      ∀ stack output, meaning [] [] (commandsOf source) = .completes stack output →
        ∃ report, runMain file {} = .done report := by
  obtain ⟨file, hparse, hown, hmade⟩ := compile_made h
  obtain ⟨main, code, -, -, hdrawn⟩ := recipes_main hown hmade
  have hshort := length_commands_le hdrawn
  have hbound := instructionsOf_le [] (commandsOf source)
  -- At most 16381 commands fit, and each takes 187 instructions at most, payments included.
  have hallow : Limits.Allows {} (5 + instructionsOf [] (commandsOf source)) := by
    intro limit hlimit
    obtain rfl : 10000000 = limit := Option.some.inj hlimit
    rw [List.length_nil] at hbound
    omega
  have hrun := runMain_made {} hown hne hmade (by decide) hallow
  refine ⟨file, hparse, ?_⟩
  cases hmeaning : meaning [] [] (commandsOf source) with
  | completes stack output =>
    rw [hmeaning] at hrun
    dsimp only at hrun
    rw [hrun]
    refine ⟨by simp, by simp, ?_, fun _ _ _ => ⟨_, rfl⟩⟩
    intro report hreport
    cases hreport
    rfl
  | lacksCells command =>
    rw [hmeaning] at hrun
    obtain ⟨offset, hrun⟩ := hrun
    rw [hrun]
    exact ⟨by simp, by simp, by simp, by simp⟩

/-- All commands once, the last of them on a stack of thirteen cells. -/
theorem runMain_default_detour :
    ∃ c file report,
      compile {} ['\x60', '\x27', '\x22', '^', ' ', '~', '|'] "demo.Main" = .ok c ∧
      c.name.internal ≠ "java/lang/Character" ∧ ClassFile.parse c.bytes = .ok file ∧
      runMain file {} = .done report ∧ report.steps = 260 := by
  have hmeaning : meaning [] [] (commandsOf ['\x60', '\x27', '\x22', '^', ' ', '~', '|']) =
      .completes [] (255 :: Text.Utf16.units "lHlo, world!") := by decide +kernel
  have hsteps : 5 + instructionsOf [] (commandsOf ['\x60', '\x27', '\x22', '^', ' ', '~', '|']) =
      260 := by decide +kernel
  obtain ⟨c, hc, hname⟩ := compile_demo ['\x60', '\x27', '\x22', '^', ' ', '~', '|'] (by decide)
  have hne : c.name.internal ≠ "java/lang/Character" := by
    rw [hname]
    decide
  obtain ⟨file, hparse, -, -, hexact, hdone⟩ := runMain_default hc hne
  obtain ⟨report, hreport⟩ := hdone _ _ hmeaning
  exact ⟨c, file, report, hc, hne, hparse, hreport, (hexact report hreport).trans hsteps⟩

end Compile

end StackGlyph
