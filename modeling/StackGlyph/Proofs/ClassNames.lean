import Mathlib
import StackGlyph.Proofs.CompiledShape

/-!
# The name of a class makes no difference to its runs

Compiled under two names, a program gives two class files whose constants differ in number and
order. What they link to is the same: no instruction of a compiled class changes its length with the
index of a constant, so all offsets agree, and the name itself is linked away, since a class calls
its own methods wherever it says its own name. Only the class of boxed characters is told apart: a
class that takes its name would have to box characters itself.
-/
namespace StackGlyph

open Request Assembler Machine

namespace Request

/-! ## Requests that link alike -/

/-- Whether the instruction of a request has the same length wherever its constant stands, and
static calls go to `owner`. -/
def isSteady (owner : String) : Request → Bool
  | .pushInt v => -32768 ≤ v.toInt ∧ v.toInt ≤ 32767
  | .loadConstant _ => false
  | .call .static called _ _ => called = owner
  | _ => true

/-- Requests in two classes that stand for the same action and take the same space. -/
structure Alike (own own' : String) (r r' : Request) : Prop where
  length : ∀ a a' : Assembler, (openBytes (r, a)).length = (openBytes (r', a')).length
  bind : ∀ label, r = .bind label ↔ r' = .bind label
  action : ∀ target place, r.action? own target place = r'.action? own' target place

theorem length_encode_congr (offset offset' : Nat) (op : Opcode) (operand : Operand) :
    (Instruction.encode ⟨offset, op, operand⟩).length =
      (Instruction.encode ⟨offset', op, operand⟩).length := by
  cases operand <;> rfl

/-- A number that an instruction can hold is not looked up. -/
theorem shortestPush_congr {v : Int} (h : -32768 ≤ v ∧ v ≤ 32767) (i j : UInt16) :
    shortestPush v i = shortestPush v j := by
  simp only [shortestPush, h, and_self, if_true]

/-- A steady request takes the same space at every index, so that offsets do not depend on the
pool. -/
theorem length_openBytes_congr {owner : String} {r : Request} (h : r.isSteady owner)
    (a a' : Assembler) : (openBytes (r, a)).length = (openBytes (r, a')).length := by
  cases r with
  | load slot | store slot => exact length_encode_congr _ _ _ _
  | pushInt v =>
    have hrange := of_decide_eq_true h
    simp only [openBytes, instruction?, form?, shortestPush_congr hrange _ (index a (.pushInt v))]
    exact length_encode_congr _ _ _ _
  | loadConstant v => cases h
  | onType op className =>
    simp only [openBytes, instruction?, form?, Instruction.encode, Option.map_some, Option.getD_some]
    split <;> rfl
  | call kind called name descriptor => cases kind <;> rfl
  | _ => rfl

/-- Only a static call depends on the name of the class, and only on whether it goes to the class
itself. -/
theorem alike_of_steady {own own' : String} (owner : String) {r : Request} (h : r.isSteady owner)
    (howner : ∀ name descriptor, r = .call .static owner name descriptor →
      (own = owner ↔ own' = owner)) : Alike own own' r r where
  length := length_openBytes_congr h
  bind _ := Iff.rfl
  action target place := by
    cases r with
    | call kind called name descriptor =>
      cases kind with
      | static =>
        obtain rfl : called = owner := of_decide_eq_true h
        simp only [action?, callAction, howner name descriptor rfl]
      | _ => rfl
    | _ => rfl

/-- A static call of the class itself is one under any name. -/
theorem alike_own (own own' name descriptor : String) :
    Alike own own' (.call .static own name descriptor) (.call .static own' name descriptor) where
  length _ _ := rfl
  bind _ := by simp
  action target place := by simp [action?, callAction]

section Congruence

variable {own own' : String} {rs rs' : List Request} {a a' b b' : Assembler}

theorem Alike.emits_eq {r r' : Request} (h : Alike own own' r r') : r.emits = r'.emits := by
  rw [← action?_isSome own id fun _ => none, ← action?_isSome own' id fun _ => none, h.action]

theorem placeOf_congr (h : List.Forall₂ (Alike own own') rs rs') (label : Nat) :
    placeOf label rs = placeOf label rs' := by
  induction h with
  | nil => rfl
  | cons hr _ ih => simp only [placeOf, ih, hr.emits_eq, hr.bind]

/-- Requests that are alike find assemblers that have come equally far. -/
theorem history_congr (h : List.Forall₂ (Alike own own') rs rs')
    (hrun : performAll rs a = .ok () b) (hrun' : performAll rs' a' = .ok () b')
    (hsize : a.code.size = a'.code.size) :
    List.Forall₂ (fun s s' => Alike own own' s.1 s'.1 ∧ s.2.code.size = s'.2.code.size)
      (history a rs) (history a' rs') := by
  induction h generalizing a a' with
  | nil => exact .nil
  | cons hr _ ih =>
    obtain ⟨m, hm, hrest⟩ := performAll_cons.mp hrun
    obtain ⟨m', hm', hrest'⟩ := performAll_cons.mp hrun'
    rw [history_cons hm, history_cons hm']
    refine .cons ⟨hr, hsize⟩ (ih hrest hrest' ?_)
    rw [size_of_performed (performed hm), size_of_performed (performed hm'), hsize, hr.length a a']

variable {calls calls' : List Served}

theorem boundAt_congr (h : List.Forall₂ (fun s s' : Served =>
      Alike own own' s.1 s'.1 ∧ s.2.code.size = s'.2.code.size) calls calls') (label : Nat) :
    boundAt calls label = boundAt calls' label := by
  induction h with
  | nil => rfl
  | cons hs _ ih => simp only [boundAt_cons, ih, hs.1.bind, hs.2]

theorem linked_congr (h : List.Forall₂ (fun s s' : Served =>
      Alike own own' s.1 s'.1 ∧ s.2.code.size = s'.2.code.size) calls calls') (target : Nat → Nat)
    (place : Nat → Option Nat) :
    calls.filterMap (linked? own target place) = calls'.filterMap (linked? own' target place) := by
  induction h with
  | nil => rfl
  | cons hs _ ih => simp only [List.filterMap_cons, linked?, hs.1.action, hs.2, ih]

end Congruence

end Request

/-! ## Recipes that link alike -/

/-- Recipes in two classes whose methods link alike. -/
structure Recipe.Alike (own own' : String) (r r' : Recipe) : Prop where
  name : r.name = r'.name
  descriptor : r.descriptor = r'.descriptor
  limits : r.limits = r'.limits
  requests : List.Forall₂ (Request.Alike own own') r.requests r'.requests
  lands : Lands r.requests ∧ Lands r'.requests

section Classes

variable {c c' : ClassFile} {own own' : String}

/-- Methods of two classes that were made by like recipes are linked to the same method: actions,
offsets and places agree one by one. -/
theorem linkMethod_alike {r r' : Recipe} {m m' : Method} (hown : c.name = .ok own)
    (hown' : c'.name = .ok own') (h : r.Alike own own' r') (hm : r.Made c.pool m)
    (hm' : r'.Made c'.pool m') : Program.linkMethod c m = Program.linkMethod c' m' := by
  obtain ⟨code, hcode, p, a, hp, hrun, hfinish, hlater⟩ := hm.code
  obtain ⟨code', hcode', p', a', hp', hrun', hfinish', hlater'⟩ := hm'.code
  have hlimits : m.limits = m'.limits := hm.limits.trans (h.limits.trans hm'.limits.symm)
  rw [Method.limits, Method.limits, hcode, hcode', Option.map_some, Option.map_some] at hlimits
  have hlocals : code.maxLocals = code'.maxLocals := congrArg Prod.snd (Option.some.inj hlimits)
  have hcalls := history_congr h.requests hrun hrun' rfl
  have htarget : targetOf (history (start p r.slots) r.requests) =
      targetOf (history (start p' r'.slots) r'.requests) :=
    funext fun label => congrArg (Option.getD · 0) (boundAt_congr hcalls label)
  have hplace : (fun label => placeOf label r.requests) = fun label => placeOf label r'.requests :=
    funext fun label => placeOf_congr h.requests label
  rw [linkMethod_asked hown hcode hp hrun hfinish hlater h.lands.1,
    linkMethod_asked hown' hcode' hp' hrun' hfinish' hlater' h.lands.2, hm.name, hm'.name, h.name,
    hm.descriptor, hm'.descriptor, h.descriptor, hlocals, htarget, hplace, linked_congr hcalls]

/-- Method by method, the links of two classes made by like recipes are the same. -/
theorem links_alike {recipes recipes' : List Recipe} {methods methods' : List Method}
    (hown : c.name = .ok own) (hown' : c'.name = .ok own')
    (h : List.Forall₂ (Recipe.Alike own own') recipes recipes')
    (hmade : List.Forall₂ (Recipe.Made c.pool) recipes methods)
    (hmade' : List.Forall₂ (Recipe.Made c'.pool) recipes' methods') :
    methods.map (fun m => (m.name, m.descriptor, Program.linkMethod c m)) =
      methods'.map fun m => (m.name, m.descriptor, Program.linkMethod c' m) := by
  induction h generalizing methods methods' with
  | nil =>
    cases hmade
    cases hmade'
    rw [List.map_nil, List.map_nil]
  | cons hr _ ih =>
    obtain ⟨m, rest, hm, hrest, rfl⟩ := List.forall₂_cons_left_iff.mp hmade
    obtain ⟨m', rest', hm', hrest', rfl⟩ := List.forall₂_cons_left_iff.mp hmade'
    have hname : m.name = m'.name := hm.name.trans (hr.name.trans hm'.name.symm)
    have hdescriptor : m.descriptor = m'.descriptor :=
      hm.descriptor.trans (hr.descriptor.trans hm'.descriptor.symm)
    rw [List.map_cons, List.map_cons, ih hrest hrest', hname, hdescriptor,
      linkMethod_alike hown hown' hr hm hm']

/-- Classes made by recipes that are alike link to one program. -/
theorem link_alike {recipes recipes' : List Recipe} (hown : c.name = .ok own)
    (hown' : c'.name = .ok own') (h : List.Forall₂ (Recipe.Alike own own') recipes recipes')
    (hmade : List.Forall₂ (Recipe.Made c.pool) recipes c.methods)
    (hmade' : List.Forall₂ (Recipe.Made c'.pool) recipes' c'.methods) :
    Program.link c = Program.link c' :=
  congrArg Program.mk (links_alike hown hown' h hmade hmade')

end Classes

/-! ## Compiled classes -/

theorem Routines.script_steady (command : Command) :
    ∀ r ∈ script command, r.isSteady characterClass := by
  cases command <;> decide +kernel

namespace Compile

variable {own own' : String} {commands : List Command}

theorem front_alike (h : own = Routines.characterClass ↔ own' = Routines.characterClass)
    {r : Recipe} (hr : r ∈ Routines.constructorRecipe :: Command.all.map Routines.recipe) :
    r.Alike own own' r := by
  have hsteady : ∀ request ∈ r.requests, request.isSteady Routines.characterClass := by
    rcases List.mem_cons.mp hr with rfl | hr
    · decide +kernel
    · obtain ⟨command, -, rfl⟩ := List.mem_map.mp hr
      exact Routines.script_steady command
  exact ⟨rfl, rfl, rfl, List.forall₂_same.mpr fun request hmem =>
    alike_of_steady _ (hsteady request hmem) fun _ _ _ => h, recipes_land r hr, recipes_land r hr⟩

theorem calls_alike (own own' : String) (commands : List Command) :
    List.Forall₂ (Request.Alike own own') (commands.flatMap (MainMethod.callScript own))
      (commands.flatMap (MainMethod.callScript own')) := by
  induction commands with
  | nil => exact .nil
  | cons command commands ih =>
    have hdup : Request.Alike own own' (.plain .dup) (.plain .dup) :=
      alike_of_steady own rfl nofun
    exact .cons hdup (.cons (alike_own own own' _ _) ih)

/-- Main methods differ only in the class that their calls name, which is each time their own. -/
theorem main_alike (own own' : String) (commands : List Command) :
    (MainMethod.recipe own commands).Alike own own' (MainMethod.recipe own' commands) where
  name := rfl
  descriptor := rfl
  limits := congrArg (Option.map _)
    ((MainMethod.measure_script own commands).trans (MainMethod.measure_script own' commands).symm)
  requests := by
    have hplain (op : Opcode) : Request.Alike own own' (.plain op) (.plain op) :=
      alike_of_steady own rfl nofun
    have hnew : Request.Alike own own' (.onType .new MainMethod.queueClass)
        (.onType .new MainMethod.queueClass) := alike_of_steady own rfl nofun
    have hinit : Request.Alike own own' (.call .special MainMethod.queueClass "<init>" "()V")
        (.call .special MainMethod.queueClass "<init>" "()V") :=
      alike_of_steady own rfl nofun
    exact List.rel_append
      (.cons hnew (.cons (hplain .dup) (.cons hinit (calls_alike own own' commands))))
      (.cons (hplain .pop) (.cons (hplain .ret) .nil))
  lands := ⟨MainMethod.script_lands own commands, MainMethod.script_lands own' commands⟩

/-- Under any two names that both are the name of the class of boxes or both are not, a program has
recipes that are alike. -/
theorem recipes_alike (h : own = Routines.characterClass ↔ own' = Routines.characterClass)
    (commands : List Command) :
    List.Forall₂ (Recipe.Alike own own') (recipes own commands) (recipes own' commands) :=
  List.rel_append (List.forall₂_same.mpr fun _ hr => front_alike h hr)
    (.cons (main_alike own own' commands) .nil)

/-! ## The class of boxes -/

theorem method_missing {file : ClassFile} {name : String} (h : name ∉ file.methods.map Method.name)
    (descriptor : String) :
    (Program.link file).method name descriptor = .error (.noSuchMethod name descriptor) := by
  have hnone : (Program.link file).methods.find? (fun m => m.1 = name ∧ m.2.1 = descriptor) =
      none := by
    rw [List.find?_eq_none]
    intro entry hentry hfound
    obtain ⟨m, hm, rfl⟩ := List.mem_map.mp hentry
    exact h (List.mem_map.mpr ⟨m, hm, (of_decide_eq_true hfound).1⟩)
  rw [Program.method, hnone]

/-- In a class that takes the name of the class of boxes, `hello` calls a method of that class. -/
theorem hello_of_boxes (target : Nat → Nat) (place : Nat → Option Nat) :
    ∃ unit rest, (Routines.script .hello).filterMap
      (action? Routines.characterClass target place) =
        .load 0 :: .dup :: .push unit ::
          .call 1 true (.ok (.own "valueOf" "(C)Ljava/lang/Character;")) :: rest := by
  have hparse : MethodType.parse "(C)Ljava/lang/Character;" =
      .ok ⟨[⟨0, .char⟩], some ⟨0, .object "java/lang/Character"⟩⟩ := by cbv
  have hbox : action? Routines.characterClass target place
      (.call .static Routines.characterClass "valueOf" "(C)Ljava/lang/Character;") =
        some (.call 1 true (.ok (.own "valueOf" "(C)Ljava/lang/Character;"))) := by
    simp [action?, callAction, hparse]
  have hlength : (Text.Utf16.units greeting).reverse.length = 13 := by decide +kernel
  cases hunits : (Text.Utf16.units greeting).reverse with
  | nil =>
    rw [hunits] at hlength
    cases hlength
  | cons unit units =>
    simp only [Routines.script, hunits, List.flatMap_cons, Routines.helloUnitScript,
      Routines.pushUnitScript, List.cons_append, List.filterMap_cons, hbox]
    exact ⟨_, _, rfl⟩

/-- The first command of such a class fails at the first character that it would box. -/
theorem runMain_boxes {file : ClassFile} (hown : file.name = .ok Routines.characterClass)
    (hmade : List.Forall₂ (Recipe.Made file.pool)
      (recipes Routines.characterClass (.hello :: commands)) file.methods) :
    runMain file {} = .trapped (.noSuchMethod "valueOf" "(C)Ljava/lang/Character;") := by
  have hfind : (recipes Routines.characterClass (.hello :: commands)).find?
      (Recipe.declares "hello" Routines.descriptor) = some (Routines.recipe .hello) := rfl
  obtain ⟨main, -, hmain, hactions, -⟩ := recipes_main hown hmade
  obtain ⟨hello, target, -, hmethod, -, -, -, hahead⟩ :=
    method_made hown hmade hfind (Routines.script_lands .hello)
  obtain ⟨unit, rest, hhello⟩ := hello_of_boxes target
    fun label => placeOf label (Routines.script .hello)
  have hnames : file.methods.map Method.name =
      ["<init>", "dup", "print", "hello", "not", "rot", "xor", "main"] := map_name_made hmade
  have hmissing : (Program.link file).method "valueOf" "(C)Ljava/lang/Character;" =
      .error (.noSuchMethod "valueOf" "(C)Ljava/lang/Character;") :=
    method_missing (by rw [hnames]; decide) _
  let w : World := { startWorld with heap := startWorld.heap.push (.deque []) }
  have hstart : Moves (Program.link file) {} ⟨main, 0, []⟩ 4
      ⟨MainMethod.actions (.hello :: commands), entryLocals main (.ref 0), [], startWorld⟩
      ⟨.call 1 true (.ok (.own "hello" Routines.descriptor)) ::
        (commands.flatMap MainMethod.callActions ++ [.pop, .leave]),
        entryLocals main (.ref 0), [.ref 1, .ref 1], w⟩ :=
    (moves_create (.deque [])).trans (moves_dup.trans (moves_construct.trans moves_dup))
  have hbody (callers : List Frame) : Raises (Program.link file) {} ⟨hello, 1, callers⟩ 4
      ⟨(Routines.script .hello).filterMap
        (action? Routines.characterClass target fun label => placeOf label (Routines.script .hello)),
        entryLocals hello (.ref 1), [], w⟩
      (.noSuchMethod "valueOf" "(C)Ljava/lang/Character;") w := by
    rw [hhello]
    exact (moves_load (entryLocals_zero hello (.ref 1))).raises (moves_dup.raises
      ((moves_push unit).raises (raises_missing hmissing (show 1 + 1 < 256 by decide))))
  have hraises := hstart.raises (raises_call hmethod (show 0 + 1 < 256 by decide) hahead hbody)
  have hallow : Limits.Allows {} (0 + (4 + (4 + 1))) := by
    rintro _ ⟨⟩
    decide
  rw [runMain, callMain_eq _ hmain (by decide), hraises.traps hactions 0 hallow]
  rfl

/-! ## Renaming -/

variable {settings settings' : Settings} {source : List Char} {text text' : String}
  {c c' : CompiledClass}

/-- A program behaves in the same way under any two class names, unless just one of them is that of
the class of boxes: the main methods end alike under all limits, with the same output and the same
count of instructions, or with the same trap. -/
theorem runMain_renamed (h : compile settings source text = .ok c)
    (h' : compile settings' source text' = .ok c')
    (hname : c.name.internal = "java/lang/Character" ↔ c'.name.internal = "java/lang/Character") :
    ∃ file file', ClassFile.parse c.bytes = .ok file ∧ ClassFile.parse c'.bytes = .ok file' ∧
      ∀ limits, callMain (Program.link file) limits {} = callMain (Program.link file') limits {} ∧
        runMain file limits = runMain file' limits := by
  obtain ⟨file, hparse, hown, hmade⟩ := compile_made h
  obtain ⟨file', hparse', hown', hmade'⟩ := compile_made h'
  have hlink : Program.link file = Program.link file' :=
    link_alike hown hown' (recipes_alike hname _) hmade hmade'
  refine ⟨file, file', hparse, hparse', fun limits => ?_⟩
  rw [runMain, runMain, hlink]
  exact ⟨rfl, rfl⟩

/-- The name of another library class is as good as any. -/
theorem runMain_renamed_system :
    ∃ c c' file file', compile {} ['\x60', '|'] "demo.Main" = .ok c ∧
      compile {} ['\x60', '|'] "java.lang.System" = .ok c' ∧
      (c.name.internal = "java/lang/Character" ↔ c'.name.internal = "java/lang/Character") ∧
      ClassFile.parse c.bytes = .ok file ∧ ClassFile.parse c'.bytes = .ok file' ∧
      ∀ limits, runMain file limits = runMain file' limits := by
  have hparse : ClassName.parse "java.lang.System" = .ok ⟨["java", "lang", "System"]⟩ := by rfl
  obtain ⟨c, hc, hname⟩ := compile_demo ['\x60', '|'] (by decide)
  obtain ⟨c', hc', hname'⟩ := compile_within ['\x60', '|'] hparse (by cbv) (by decide)
  have hiff : c.name.internal = "java/lang/Character" ↔
      c'.name.internal = "java/lang/Character" := by
    rw [hname, hname']
    decide
  obtain ⟨file, file', hfile, hfile', hrun⟩ := runMain_renamed hc hc' hiff
  exact ⟨c, c', file, file', hc, hc', hiff, hfile, hfile', fun limits => (hrun limits).2⟩

/-- A class that takes the name of the class of boxes has no method to box characters, so it fails
where it would print a greeting under another name. -/
theorem runMain_as_boxes :
    ∃ c c' file file', compile {} ['\x60', '|'] "demo.Main" = .ok c ∧
      compile {} ['\x60', '|'] "java.lang.Character" = .ok c' ∧
      ClassFile.parse c.bytes = .ok file ∧ ClassFile.parse c'.bytes = .ok file' ∧
      runMain file {} = .done ⟨Text.Utf16.units "Hello, world!", 198⟩ ∧
      runMain file' {} = .trapped (.noSuchMethod "valueOf" "(C)Ljava/lang/Character;") := by
  have hparse : ClassName.parse "java.lang.Character" = .ok ⟨["java", "lang", "Character"]⟩ := by rfl
  obtain ⟨c, hc, hname⟩ := compile_demo ['\x60', '|'] (by decide)
  obtain ⟨c', hc', hname'⟩ := compile_within ['\x60', '|'] hparse (by cbv) (by decide)
  obtain ⟨file, hfile, hown, hmade⟩ := compile_made hc
  obtain ⟨file', hfile', hown', hmade'⟩ := compile_made hc'
  have hcommands : commandsOf ['\x60', '|'] = [.hello, .print] := by decide
  refine ⟨c, c', file, file', hc, hc', hfile, hfile', ?_, ?_⟩
  · have hmeaning : meaning [] [] (commandsOf ['\x60', '|']) =
        .completes [] (Text.Utf16.units "Hello, world!") := by decide +kernel
    have hsteps : 5 + instructionsOf [] (commandsOf ['\x60', '|']) = 198 := by decide +kernel
    have hrun := runMain_made {} hown (by rw [hname]; decide) hmade (by decide)
      (by rw [hsteps]; rintro _ ⟨⟩; decide)
    rw [hmeaning, hsteps] at hrun
    exact hrun
  · have hinternal : c'.name.internal = Routines.characterClass := by
      rw [hname']
      rfl
    rw [hinternal] at hown' hmade'
    rw [hcommands] at hmade'
    exact runMain_boxes hown' hmade'

end Compile

end StackGlyph
