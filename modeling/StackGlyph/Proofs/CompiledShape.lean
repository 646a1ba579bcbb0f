import Mathlib
import StackGlyph.Proofs.CompiledRuns

/-!
# The shape of a compiled class

A compiled class has the same eight methods with the same limits, whatever the program. Its main
method makes a queue, calls the routines of the commands in their order, and returns. All that it
refers to can be looked up in the class file, although the constants stand there in the order of
their first use.
-/
namespace StackGlyph

open Request Assembler

/-- An instruction with what it refers to spelt out. -/
inductive Spelling where
  | bare (op : Opcode)
  | ofType (op : Opcode) (className : String)
  | ofMember (op : Opcode) (member : Member)
  deriving DecidableEq, Repr

/-- The spelling of an instruction that has no operand, or refers to a class or a member. -/
def Instruction.spelling? (pool : Pool) (i : Instruction) : Option Spelling :=
  match i.operand with
  | .none => some (.bare i.op)
  | .index k =>
    match pool.memberAt k, pool.classNameAt k with
    | .ok member, _ => some (.ofMember i.op member)
    | .error _, .ok className => some (.ofType i.op className)
    | .error _, .error _ => none
  | _ => none

/-- The largest depth and the number of local slots of a method with code. -/
def Method.limits (m : Method) : Option (Nat × Nat) :=
  m.code.map fun code => (code.maxStack, code.maxLocals)

/-- An index leads to a reference to this method. -/
def Pool.MethodAt (pool : Pool) (k : UInt16) (m : Member) : Prop :=
  (∃ i j, pool.get? k = some (.member .method i j)) ∧ pool.memberAt k = .ok m

theorem Pool.methodAt_of_addMember {p q r : Pool} {k : UInt16} {owner name descriptor : String}
    (hp : p.Sound) (h : Pool.addMember .method owner name descriptor p = .ok k q)
    (hr : q.Extends r) : r.MethodAt k ⟨owner, name, descriptor⟩ :=
  ⟨Pool.get?_of_addMember hp h hr, Pool.memberAt_of_addMember hp h hr⟩

theorem Pool.not_memberAt_of_classNameAt {pool : Pool} {k : UInt16} {name : String}
    (h : pool.classNameAt k = .ok name) : pool.memberAt k = .error (.badReference k) := by
  unfold Pool.classNameAt at h
  split at h
  · next hk => rw [Pool.memberAt, hk]
  · cases h

/-! ## What recipes fix -/

section Recipes

variable {pool : Pool} {recipes : List Recipe} {methods : List Method}

def Recipe.limits (r : Recipe) : Option (Nat × Nat) :=
  (measureAll r.requests { maxLocals := r.slots }).map fun (_, g) => (g.maxStack, g.maxLocals)

theorem Recipe.Made.limits {r : Recipe} {m : Method} (h : r.Made pool m) :
    m.limits = r.limits := by
  obtain ⟨code, hcode, hdrawn⟩ := h.code
  obtain ⟨g, hgauge, hstack, hlocals⟩ := hdrawn.gauge
  simp only [Method.limits, Recipe.limits, hcode, hgauge, hstack, hlocals, Option.map_some]

theorem map_name_made (h : List.Forall₂ (Recipe.Made pool) recipes methods) :
    methods.map Method.name = recipes.map Recipe.name := by
  induction h with
  | nil => rfl
  | cons hm _ ih => simp [hm.name, ih]

theorem map_limits_made (h : List.Forall₂ (Recipe.Made pool) recipes methods) :
    methods.map Method.limits = recipes.map Recipe.limits := by
  induction h with
  | nil => rfl
  | cons hm _ ih => simp [hm.limits, ih]

/-- The last method is made by the last recipe. -/
theorem made_concat {r : Recipe} (h : List.Forall₂ (Recipe.Made pool) (recipes ++ [r]) methods) :
    ∃ front m, methods = front ++ [m] ∧ List.Forall₂ (Recipe.Made pool) recipes front ∧
      r.Made pool m := by
  induction recipes generalizing methods with
  | nil =>
    cases h with
    | cons hm hnil =>
      cases hnil
      exact ⟨[], _, rfl, .nil, hm⟩
  | cons first recipes ih =>
    cases h with
    | cons hfirst hrest =>
      obtain ⟨front, m, rfl, hfront, hm⟩ := ih hrest
      exact ⟨_ :: front, m, rfl, .cons hfirst hfront, hm⟩

end Recipes

/-! ## The main method -/

namespace MainMethod

/-- The calls of a main method from an offset on, with the index that each refers to. -/
def callInstructions (offset : Nat) : List (Command × UInt16) → List Instruction
  | [] => []
  | (_, k) :: rest => ⟨offset, .dup, .none⟩ :: ⟨offset + 1, .invokestatic, .index k⟩ ::
      callInstructions (offset + 4) rest

def instructions (queue init : UInt16) (calls : List (Command × UInt16)) : List Instruction :=
  ⟨0, .new, .index queue⟩ :: ⟨3, .dup, .none⟩ :: ⟨4, .invokespecial, .index init⟩ ::
    callInstructions 7 calls ++
    [⟨7 + 4 * calls.length, .pop, .none⟩, ⟨8 + 4 * calls.length, .ret, .none⟩]

variable {own : String} {commands : List Command} {later : Pool} {a b : Assembler}

theorem instructions_cons {r : Request} {rs : List Request} {target : Nat → Nat} {i : Instruction}
    (h : r.perform a = .ok () b) (hi : instruction? target (r, a) = some i) :
    (history a (r :: rs)).filterMap (instruction? target) =
      i :: (history b rs).filterMap (instruction? target) := by
  rw [history_cons h, List.filterMap_cons_some hi]

/-- The calls of a main method refer to the routines of their commands. -/
theorem asked_calls (target : Nat → Nat)
    (h : performAll (commands.flatMap (callScript own)) a = .ok () b) (hsound : a.pool.Sound)
    (hlater : b.pool.Extends later) :
    ∃ calls : List (Command × UInt16), calls.map Prod.fst = commands ∧
      (∀ call ∈ calls, later.MethodAt call.2 ⟨own, call.1.name, Routines.descriptor⟩) ∧
      (history a (commands.flatMap (callScript own))).filterMap (instruction? target) =
        callInstructions a.code.size calls := by
  induction commands generalizing a with
  | nil => exact ⟨[], rfl, by simp, rfl⟩
  | cons c commands ih =>
    obtain ⟨m, hdup, h⟩ := performAll_cons.mp h
    obtain ⟨n, hcall, hrest⟩ := performAll_cons.mp h
    have hsize := size_of_performed (performed hdup)
    have hsize' := size_of_performed (performed hcall)
    rw [length_openBytes_plain] at hsize
    rw [length_openBytes_call (.inl rfl), hsize] at hsize'
    have hmsound := ((perform_evolves _).of_ok hdup).pool.sound hsound
    have hnsound := ((perform_evolves _).of_ok hcall).pool.sound hmsound
    have hgrown := ((performAll_reaches _).of_ok hrest).evolves.pool.earlier.trans hlater
    have hmethod := Pool.methodAt_of_addMember hmsound (performed hcall).pool hgrown
    obtain ⟨calls, hfst, hrefers, hasked⟩ := ih hrest hnsound
    refine ⟨(c, index m (.call .static own c.name Routines.descriptor)) :: calls,
      by rw [List.map_cons, hfst], ?_, ?_⟩
    · intro call hmem
      rcases List.mem_cons.mp hmem with rfl | hmem
      · exact hmethod
      · exact hrefers call hmem
    · refine (instructions_cons hdup rfl).trans ?_
      rw [callInstructions, ← hsize]
      refine congrArg _ ((instructions_cons hcall rfl).trans ?_)
      rw [← hsize']
      exact congrArg _ hasked

/-- The instructions of a main method, and what they refer to. -/
structure Spelt (pool : Pool) (own : String) (queue init : UInt16)
    (calls : List (Command × UInt16)) : Prop where
  queue : pool.classNameAt queue = .ok "java/util/ArrayDeque"
  init : pool.MethodAt init ⟨"java/util/ArrayDeque", "<init>", "()V"⟩
  calls : ∀ call ∈ calls, pool.MethodAt call.2 ⟨own, call.1.name, "(Ljava/util/Deque;)V"⟩

/-- The code of a main method decodes to its calls, one for each command. -/
theorem decode_script {pool : Pool} {code : Code} (h : Drawn pool 1 (script own commands) code) :
    ∃ queue init calls, Spelt pool own queue init calls ∧ calls.map Prod.fst = commands ∧
      Instruction.decode code.bytes = .ok (instructions queue init calls).toArray := by
  obtain ⟨p, b, hp, hrun, hfinish, hlater⟩ := h
  rw [decode_landing hrun hfinish (script_lands own commands)]
  obtain ⟨m, hbefore, hafter⟩ := performAll_append.mp hrun
  have hsize : m.code.size = 7 + 4 * commands.length := by
    simpa [start] using size_of_opening hbefore
  obtain ⟨a₁, hnew, hbefore'⟩ := performAll_cons.mp hbefore
  obtain ⟨a₂, hdup, hbefore'⟩ := performAll_cons.mp hbefore'
  obtain ⟨a₃, hinit, hcalls⟩ := performAll_cons.mp hbefore'
  obtain ⟨n, hpop, hret⟩ := performAll_cons.mp hafter
  obtain ⟨_, hret, hnil⟩ := performAll_cons.mp hret
  cases hnil
  have hsize₁ : a₁.code.size = 3 := size_of_performed (performed hnew)
  have hsize₂ : a₂.code.size = 4 := by
    rw [size_of_performed (performed hdup), length_openBytes_plain, hsize₁]
  have hsize₃ : a₃.code.size = 7 := by
    rw [size_of_performed (performed hinit), length_openBytes_call (.inr rfl), hsize₂]
  have hsize₄ : n.code.size = 8 + 4 * commands.length := by
    rw [size_of_performed (performed hpop), length_openBytes_plain, hsize]
    omega
  -- Each constant is there from its request on.
  have hsound₁ := ((perform_evolves _).of_ok hnew).pool.sound hp
  have hsound₂ := ((perform_evolves _).of_ok hdup).pool.sound hsound₁
  have hsound₃ := ((perform_evolves _).of_ok hinit).pool.sound hsound₂
  have hgrown := ((performAll_reaches _).of_ok hafter).evolves.pool.earlier.trans hlater
  have hgrown₃ := ((performAll_reaches _).of_ok hcalls).evolves.pool.earlier.trans hgrown
  have hgrown₂ := ((perform_evolves _).of_ok hinit).pool.earlier.trans hgrown₃
  have hgrown₁ := ((perform_evolves _).of_ok hdup).pool.earlier.trans hgrown₂
  obtain ⟨calls, hfst, hrefers, hasked⟩ := asked_calls
    (targetOf (history (start p 1) (script own commands))) hcalls hsound₃ hgrown
  have hlength : calls.length = commands.length := by
    rw [← hfst, List.length_map]
  refine ⟨_, _, calls, ⟨Pool.classNameAt_of_addClass hp (performed hnew).pool hgrown₁,
    Pool.methodAt_of_addMember hsound₂ (performed hinit).pool hgrown₃, hrefers⟩, hfst, ?_⟩
  refine congrArg (fun is => Except.ok (List.toArray is)) ?_
  show (history (start p 1) (openingScript own commands ++ [.plain .pop, .plain .ret])).filterMap
    (instruction? (targetOf (history (start p 1) (script own commands)))) = _
  rw [history_append hbefore, List.filterMap_append, instructions, hlength]
  refine congrArg₂ (· ++ ·) ?_ ?_
  · refine (instructions_cons hnew rfl).trans (congrArg _ ?_)
    rw [← hsize₁, ← hsize₂, ← hsize₃]
    refine (instructions_cons hdup rfl).trans (congrArg _ ?_)
    exact (instructions_cons hinit rfl).trans (congrArg _ hasked)
  · rw [← hsize, ← hsize₄]
    refine (instructions_cons hpop rfl).trans (congrArg _ ?_)
    exact instructions_cons hret rfl

/-- What a main method does: it makes a queue, passes it to the routine of each command, and drops
it. -/
def spellings (own : String) (commands : List Command) : List Spelling :=
  .ofType .new "java/util/ArrayDeque" :: .bare .dup ::
    .ofMember .invokespecial ⟨"java/util/ArrayDeque", "<init>", "()V"⟩ ::
    commands.flatMap (fun c =>
      [.bare .dup, .ofMember .invokestatic ⟨own, c.name, "(Ljava/util/Deque;)V"⟩]) ++
    [.bare .pop, .bare .ret]

theorem spelling?_of_methodAt {pool : Pool} {offset : Nat} {op : Opcode} {k : UInt16} {m : Member}
    (h : pool.MethodAt k m) :
    Instruction.spelling? pool ⟨offset, op, .index k⟩ = some (.ofMember op m) := by
  simp only [Instruction.spelling?, h.2]

/-- Spelt out, the calls of a main method no longer show their offsets and indices. -/
theorem map_spelling_calls {pool : Pool} (offset : Nat) {calls : List (Command × UInt16)}
    (h : ∀ call ∈ calls, pool.MethodAt call.2 ⟨own, call.1.name, "(Ljava/util/Deque;)V"⟩) :
    (callInstructions offset calls).map (Instruction.spelling? pool) =
      ((calls.map Prod.fst).flatMap fun c => [.bare .dup,
        .ofMember .invokestatic ⟨own, c.name, "(Ljava/util/Deque;)V"⟩]).map some := by
  induction calls generalizing offset with
  | nil => rfl
  | cons call calls ih =>
    have hcall := h call List.mem_cons_self
    have hrest := ih (offset + 4) fun c hc => h c (List.mem_cons_of_mem _ hc)
    simp only [callInstructions, List.map_cons, List.flatMap_cons, List.map_append, hrest,
      spelling?_of_methodAt hcall]
    rfl

/-- The instructions of a main method, looked up in its pool. -/
theorem map_spelling {pool : Pool} {queue init : UInt16} {calls : List (Command × UInt16)}
    (h : Spelt pool own queue init calls) :
    (instructions queue init calls).map (Instruction.spelling? pool) =
      (spellings own (calls.map Prod.fst)).map some := by
  have hqueue (offset : Nat) : Instruction.spelling? pool ⟨offset, .new, .index queue⟩ =
      some (.ofType .new "java/util/ArrayDeque") := by
    simp only [Instruction.spelling?, h.queue, Pool.not_memberAt_of_classNameAt h.queue]
  simp only [instructions, spellings, List.map_append, List.map_cons, map_spelling_calls 7 h.calls,
    spelling?_of_methodAt h.init, hqueue]
  rfl

theorem measure_calls (commands : List Command) :
    measureAll (commands.flatMap (callScript own)) idle = some ((), idle) := by
  induction commands with
  | nil => rfl
  | cons c commands ih =>
    have hcall : measureAll (callScript own c) idle = some ((), idle) := by cbv
    rw [List.flatMap_cons, measureAll_append hcall]
    exact ih

/-- A main method never needs more than two slots of the stack. -/
theorem measure_script (own : String) (commands : List Command) :
    measureAll (script own commands) { maxLocals := 1 } = some ((), ⟨none, 2, 1, #[]⟩) := by
  have hopening : measureAll (openingScript own []) { maxLocals := 1 } = some ((), idle) := by cbv
  have hscript : script own commands =
      openingScript own [] ++ (commands.flatMap (callScript own) ++ [.plain .pop, .plain .ret]) :=
    rfl
  rw [hscript, measureAll_append hopening, measureAll_append (measure_calls commands)]
  cbv

end MainMethod

namespace Compile

theorem map_limits_recipes (own : String) (commands : List Command) :
    (recipes own commands).map Recipe.limits = [some (1, 1), some (4, 1), some (2, 1), some (3, 1),
      some (3, 1), some (3, 4), some (3, 1), some (2, 1)] := by
  have hroutine (c : Command) : (Routines.recipe c).limits =
      some ((Routines.gauge c).maxStack, (Routines.gauge c).maxLocals) :=
    congrArg (Option.map _) (Routines.measure_script c)
  have hmain : (MainMethod.recipe own commands).limits = some (2, 1) :=
    congrArg (Option.map _) (MainMethod.measure_script own commands)
  have hinit : Routines.constructorRecipe.limits = some (1, 1) := by cbv
  simp only [recipes, Command.all, List.map_cons, List.map_append, hroutine, hmain, hinit]
  rfl

theorem recipes_land :
    ∀ r ∈ Routines.constructorRecipe :: Command.all.map Routines.recipe, Lands r.requests := by
  intro r hr
  rcases List.mem_cons.mp hr with rfl | hr
  · intro op label hjump
    simp [Routines.constructorRecipe, Routines.constructorScript] at hjump
  · obtain ⟨command, -, rfl⟩ := List.mem_map.mp hr
    exact Routines.script_lands command

variable {settings : Settings} {source : List Char} {text : String} {c : CompiledClass}

/-- The shape of a compiled class. Whatever the text, the class name and the settings, if a program
compiles, its class file reads back as a class with these eight methods and these limits. The main
method decodes to a new queue, a call for each command in the order of the text, and a return, and
all that it refers to can be looked up. The source file is the one that is set. The diagnostics are
the characters that are no commands, each with its place; how loudly they are to be reported makes
no difference. -/
theorem compile_shape (h : compile settings source text = .ok c) :
    ∃ file main code is, ClassFile.parse c.bytes = .ok file ∧
      file.methods.map Method.name =
        ["<init>", "dup", "print", "hello", "not", "rot", "xor", "main"] ∧
      file.methods.map Method.limits = [some (1, 1), some (4, 1), some (2, 1), some (3, 1),
        some (3, 1), some (3, 4), some (3, 1), some (2, 1)] ∧
      file.methods.getLast? = some main ∧ main.code = some code ∧
      Instruction.decode code.bytes = .ok is ∧
      is.toList.map (Instruction.spelling? file.pool) =
        (MainMethod.spellings c.name.internal (commandsOf source)).map some ∧
      file.sourceFile = settings.sourceFile ∧
      c.diagnostics = MainMethod.strays 0 source ∧
      ∀ policy, compile { settings with warnings := policy } source text = .ok c := by
  obtain ⟨file, hparse, -, -, hsource, hmade⟩ := compile_parse h
  obtain ⟨front, main, hmethods, -, hmain⟩ := made_concat hmade
  obtain ⟨code, hcode, hdrawn⟩ := hmain.code
  obtain ⟨queue, init, calls, hspelt, hfst, hdecode⟩ := MainMethod.decode_script hdrawn
  refine ⟨file, main, code, _, hparse, map_name_made hmade,
    (map_limits_made hmade).trans (map_limits_recipes _ _), ?_, hcode, hdecode, ?_, hsource, ?_,
    fun policy => h⟩
  · rw [hmethods, List.getLast?_concat]
  · rw [← hfst]
    exact MainMethod.map_spelling hspelt
  · obtain ⟨r, hbuild, h⟩ := except_bind_eq_ok.mp h
    cases h
    obtain ⟨d, e, -, -, hadded, -⟩ := build_eq_ok.mp hbuild
    exact congrArg MainMethod.Tally.diagnostics (addMain_eq_ok hadded).1

/-- Four commands, as many as are allowed, and two characters that are none. -/
theorem compile_shape_greeting :
    let settings : Settings := { sourceFile := some "greeting", maxCommands := some 4 }
    let source := ['\x60', 'a', '~', '|', ' ', '|']
    ∃ c file main code is, compile settings source "demo.Main" = .ok c ∧
      ClassFile.parse c.bytes = .ok file ∧ file.methods.length = 8 ∧
      file.methods.getLast? = some main ∧ main.code = some code ∧
      Instruction.decode code.bytes = .ok is ∧
      is.toList.map (Instruction.spelling? file.pool) =
        (MainMethod.spellings "demo/Main" [.hello, .not, .print, .print]).map some ∧
      file.sourceFile = some "greeting" ∧ c.diagnostics = [⟨'a', 1⟩, ⟨' ', 4⟩] ∧
      compile { settings with warnings := .allow } source "demo.Main" = .ok c := by
  intro settings source
  have hparse : ClassName.parse "demo.Main" = .ok ⟨["demo", "Main"]⟩ := by rfl
  have hcommands : commandsOf source = [.hello, .not, .print, .print] := by decide
  have hcompile : ∃ c, compile settings source "demo.Main" = .ok c ∧ c.name = ⟨["demo", "Main"]⟩ :=
    compile_succeeds settings hparse (by cbv) (fun file hfile => by cases hfile; cbv)
      (fun m hm => by cases hm; rw [hcommands]; decide) (by rw [hcommands]; decide)
  obtain ⟨c, hc, hname⟩ := hcompile
  obtain ⟨file, main, code, is, hfile, hnames, -, hlast, hcode, hdecode, hspelt, hsource, hstrays,
    hpolicy⟩ := compile_shape hc
  rw [hcommands, hname] at hspelt
  refine ⟨c, file, main, code, is, hc, hfile, ?_, hlast, hcode, hdecode, hspelt, hsource, ?_,
    hpolicy .allow⟩
  · simpa using congrArg List.length hnames
  · rw [hstrays]
    decide

end Compile

end StackGlyph
