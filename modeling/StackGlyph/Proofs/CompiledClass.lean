import StackGlyph.Compile.Basic
import StackGlyph.Proofs.Drafting
import StackGlyph.Proofs.Execution
import StackGlyph.Proofs.Linking
import StackGlyph.Proofs.Scripts

/-!
# What a compiled class consists of

A compiled class has a method for each of a fixed list of recipes: the constructor, the routines,
and the main method of its commands. The class file reads back as such methods under the class's
name, and each name and descriptor leads to the method of its recipe.
-/
namespace StackGlyph

open Request Assembler Machine

/-- A method as it is drafted: the requests that its body makes, and how it is declared. -/
structure Recipe where
  access : UInt16
  name : String
  descriptor : String
  /-- The slots of the parameters, with the receiver if there is one. -/
  slots : Nat
  requests : List Request

/-- A method of a class with the given pool was made by a recipe. -/
structure Recipe.Made (pool : Pool) (r : Recipe) (m : Method) : Prop where
  access : m.access = r.access
  name : m.name = r.name
  descriptor : m.descriptor = r.descriptor
  code : ∃ code, m.code = some code ∧ Drawn pool r.slots r.requests code

theorem Recipe.Made.mono {p q : Pool} {r : Recipe} {m : Method} (h : r.Made p m)
    (hpq : p.Extends q) : r.Made q m where
  access := h.access
  name := h.name
  descriptor := h.descriptor
  code := by
    obtain ⟨code, hcode, hdrawn⟩ := h.code
    exact ⟨code, hcode, hdrawn.mono hpq⟩

/-- A draft of the class `own` with this superclass and source file has followed recipes, in
order. -/
def ClassDraft.Follows (d : ClassDraft) (own superName : String) (source : Option String)
    (recipes : List Recipe) : Prop :=
  ∃ methods, d.Records methods source ∧ List.Forall₂ (Recipe.Made d.pool) recipes methods ∧
    d.pool.classNameAt d.thisClass = .ok own ∧ d.pool.classNameAt d.superClass = .ok superName

namespace ClassDraft

variable {d e : ClassDraft} {own superName : String} {source : Option String}
  {recipes : List Recipe}

/-- One more method, made by one more recipe. -/
theorem Follows.method {α : Type} {body : Asm α} {v : α} {t : MethodType} {r : Recipe}
    (h : d.Follows own superName source recipes) (hbody : Respects Reaches body)
    (hparse : MethodType.parse r.descriptor = .ok t) (hslots : parameterSlots r.access t = .ok r.slots)
    (hrun : ∀ pool a, body (start pool r.slots) = .ok v a →
      performAll r.requests (start pool r.slots) = .ok () a)
    (hmethod : ClassDraft.method r.access r.name r.descriptor body d = .ok v e) :
    e.Follows own superName source (recipes ++ [r]) := by
  obtain ⟨methods, hrecords, hmade, hown, hsuper⟩ := h
  have hends := method_ends hrecords.pool hbody r.access r.name r.descriptor
  rw [hmethod] at hends
  obtain ⟨n, i, j, t', code, p, hn, hroom, rfl, hcode, hi, hj, ht, -, hassembled, hlater⟩ := hends
  obtain rfl : t = t' := Except.ok.inj (hparse.symm.trans ht)
  obtain ⟨hentry, hfit⟩ := parameterSlots_eq_ok hslots
  rw [hentry] at hassembled
  have hfits := fits_of_assemble hbody hfit hassembled
  obtain ⟨a, ha, hfinish, rfl⟩ := assemble_eq_ok hassembled
  rw [← hn.methods] at hroom
  refine ⟨methods ++ [⟨r.access, r.name, r.descriptor, some code⟩],
    (hrecords.carried hn).declared hroom hcode ⟨rfl, hi, hj, rfl, hfits⟩, ?_, ?_, ?_⟩
  · refine List.rel_append (hmade.imp fun _ _ hm => hm.mono hn.pool.earlier) (.cons ?_ .nil)
    exact ⟨rfl, rfl, rfl, code, rfl, d.pool, a, hrecords.pool, hrun d.pool a ha, hfinish, hlater⟩
  · show n.pool.classNameAt n.thisClass = .ok own
    rw [hn.thisClass]
    exact Pool.classNameAt_mono hn.pool.earlier hown
  · show n.pool.classNameAt n.superClass = .ok superName
    rw [hn.superClass]
    exact Pool.classNameAt_mono hn.pool.earlier hsuper

/-- A source file may be named at any time; the methods that were made are still found in the pool
that grew. -/
theorem Follows.setSourceFile {name : String} (h : d.Follows own superName source recipes)
    (hset : ClassDraft.setSourceFile name d = .ok () e) :
    e.Follows own superName (some name) recipes := by
  obtain ⟨methods, hrecords, hmade, hown, hsuper⟩ := h
  have hends := setSourceFile_ends hrecords.pool name
  rw [hset] at hends
  obtain ⟨m, attr, text, hm, rfl, hattr, htext⟩ := hends
  refine ⟨methods, (hrecords.carried hm).named hattr htext,
    hmade.imp fun _ _ hmade => hmade.mono hm.pool.earlier, ?_, ?_⟩
  · show m.pool.classNameAt m.thisClass = .ok own
    rw [hm.thisClass]
    exact Pool.classNameAt_mono hm.pool.earlier hown
  · show m.pool.classNameAt m.superClass = .ok superName
    rw [hm.superClass]
    exact Pool.classNameAt_mono hm.pool.earlier hsuper

/-- The class file of a draft has its names and source file, and a method for each recipe. -/
theorem Follows.parse (h : d.Follows own superName source recipes) :
    ∃ c, ClassFile.parse d.bytes = .ok c ∧ c.name = .ok own ∧ c.superName = .ok superName ∧
      c.sourceFile = source ∧ List.Forall₂ (Recipe.Made c.pool) recipes c.methods := by
  obtain ⟨methods, hrecords, hmade, hown, hsuper⟩ := h
  obtain ⟨pool, hentries, hparse⟩ := ClassFile.parse_bytes hrecords
  have hlater : d.pool.Extends pool := .of_entries hentries
  exact ⟨_, hparse, Pool.classNameAt_mono hlater hown, Pool.classNameAt_mono hlater hsuper, rfl,
    hmade.imp fun _ _ hm => hm.mono hlater⟩

end ClassDraft

def Recipe.declares (name descriptor : String) (r : Recipe) : Bool :=
  r.name = name ∧ r.descriptor = descriptor

/-- The first method of a name and descriptor is made by the first such recipe. -/
theorem find_made {pool : Pool} {recipes : List Recipe} {methods : List Method} {r : Recipe}
    {name descriptor : String} (hmade : List.Forall₂ (Recipe.Made pool) recipes methods)
    (hfind : recipes.find? (Recipe.declares name descriptor) = some r) :
    ∃ m, r.Made pool m ∧
      methods.find? (fun m => m.name = name ∧ m.descriptor = descriptor) = some m := by
  induction hmade with
  | nil => cases hfind
  | @cons first method recipes methods hfirst _ ih =>
    have hsame : decide (method.name = name ∧ method.descriptor = descriptor) =
        first.declares name descriptor := by
      rw [Recipe.declares, hfirst.name, hfirst.descriptor]
    rw [List.find?_cons] at hfind ⊢
    rw [hsame]
    cases hdeclares : first.declares name descriptor with
    | true =>
      rw [hdeclares] at hfind
      cases hfind
      exact ⟨method, hfirst, rfl⟩
    | false =>
      rw [hdeclares] at hfind
      exact ih hfind

/-- A name and descriptor lead to the actions of the recipe that declares them. -/
theorem method_made {c : ClassFile} {own name descriptor : String} {recipes : List Recipe}
    {r : Recipe} (hown : c.name = .ok own)
    (hmade : List.Forall₂ (Recipe.Made c.pool) recipes c.methods)
    (hfind : recipes.find? (Recipe.declares name descriptor) = some r) (hlands : Lands r.requests) :
    ∃ linked target code, (Program.link c).method name descriptor = .ok linked ∧
      linked.name = r.name ∧ linked.maxLocals = code.maxLocals ∧
      Drawn c.pool r.slots r.requests code ∧
      Ahead linked 0 (r.requests.filterMap
        (action? own target fun label => placeOf label r.requests)) := by
  obtain ⟨m, hm, hfound⟩ := find_made hmade hfind
  obtain ⟨code, hcode, hdrawn⟩ := hm.code
  obtain ⟨linked, target, hlink, hname, hlocals, hactions⟩ :=
    linkMethod_drawn hown hcode hdrawn hlands
  refine ⟨linked, target, code, ?_, hname.trans hm.name, hlocals, hdrawn, ?_⟩
  · have hlinked : (Program.link c).methods.find? (fun m => m.1 = name ∧ m.2.1 = descriptor) =
        some (m.name, m.descriptor, Program.linkMethod c m) := by
      rw [Program.link, List.find?_map]
      exact congrArg (Option.map _) hfound
    rw [Program.method, hlinked]
    exact hlink
  · rw [Ahead, List.drop_zero]
    exact hactions

namespace Routines

def constructorRecipe : Recipe :=
  ⟨Access.isPublic, "<init>", "()V", 1, constructorScript⟩

def recipe (c : Command) : Recipe :=
  ⟨Access.isPrivate ||| Access.isStatic, c.name, descriptor, 1, script c⟩

theorem parse_descriptor :
    MethodType.parse descriptor = .ok ⟨[⟨0, .object "java/util/Deque"⟩], none⟩ := by cbv

theorem routine_slots : ClassDraft.parameterSlots (Access.isPrivate ||| Access.isStatic)
    ⟨[⟨0, .object "java/util/Deque"⟩], none⟩ = .ok 1 := rfl

/-- The loop over the commands adds their recipes in order, by induction on the commands that are
left. -/
theorem routines_follow {d e : ClassDraft} {own superName : String} {source : Option String}
    {recipes : List Recipe} (commands : List Command) (h : d.Follows own superName source recipes)
    (hdeclare : commands.forM (fun c => ClassDraft.method (Access.isPrivate ||| Access.isStatic)
      c.name descriptor (body c)) d = .ok () e) :
    e.Follows own superName source (recipes ++ commands.map recipe) := by
  induction commands generalizing d recipes with
  | nil =>
    cases hdeclare
    simpa using h
  | cons c commands ih =>
    obtain ⟨⟨⟩, m, hmethod, hrest⟩ := bind_eq_ok.mp hdeclare
    have hm := h.method (r := recipe c) (body_reaches c) parse_descriptor routine_slots
      (fun pool a ha => (body_run c pool 1).symm.trans ha) hmethod
    rw [List.map_cons, List.append_cons]
    exact ih hm hrest

theorem declare_follows {d e : ClassDraft} {own superName : String} {source : Option String}
    (h : d.Follows own superName source []) (hdeclare : declare d = .ok () e) :
    e.Follows own superName source (constructorRecipe :: Command.all.map recipe) := by
  have hinit : MethodType.parse "()V" = .ok ⟨[], none⟩ := by cbv
  obtain ⟨⟨⟩, m, hconstructor, hrest⟩ := bind_eq_ok.mp hdeclare
  have hm := h.method (r := constructorRecipe) constructor_performs.reaches hinit rfl
    (fun pool a ha => constructor_performs.run.symm.trans ha) hconstructor
  exact routines_follow Command.all hm hrest

end Routines

namespace MainMethod

def recipe (owner : String) (commands : List Command) : Recipe :=
  ⟨Access.isPublic ||| Access.isStatic, "main", descriptor, 1, script owner commands⟩

theorem parse_descriptor :
    MethodType.parse descriptor = .ok ⟨[⟨1, .object "java/lang/String"⟩], none⟩ := by cbv

theorem main_slots : ClassDraft.parameterSlots (Access.isPublic ||| Access.isStatic)
    ⟨[⟨1, .object "java/lang/String"⟩], none⟩ = .ok 1 := rfl

end MainMethod

namespace Compile

/-- The methods of a compiled class. -/
def recipes (own : String) (commands : List Command) : List Recipe :=
  Routines.constructorRecipe :: Command.all.map Routines.recipe ++ [MainMethod.recipe own commands]

variable {settings : Settings} {source : List Char} {name : ClassName} {d e : ClassDraft}

/-- A scaffold has the constructor and the routines of all commands, and names no source file
yet. -/
theorem scaffold_follows (h : scaffold name = .ok d) :
    d.Follows name.internal Routines.objectClass none
      (Routines.constructorRecipe :: Command.all.map Routines.recipe) := by
  unfold scaffold at h
  dsimp only at h
  split at h
  · cases h
  · next fresh hcreate =>
    split at h
    · cases h
    · next hdeclare =>
      cases h
      obtain ⟨hrecords, -, hthis, hsuper⟩ := ClassDraft.create_eq_ok hcreate
      exact Routines.declare_follows ⟨[], hrecords, .nil, hthis, hsuper⟩ hdeclare

/-- A main method that could be added finds what there is in its text, and all that it adds comes
from the commands. -/
theorem addMain_eq_ok {tally : MainMethod.Tally}
    (h : addMain settings name source d = .ok (tally, e)) :
    tally = MainMethod.tallyOf source ∧
      ClassDraft.method (Access.isPublic ||| Access.isStatic) "main" MainMethod.descriptor
        (performAll (MainMethod.script name.internal (commandsOf source))) d = .ok () e := by
  unfold addMain at h
  split at h
  · cases h
  · cases h
  · next hmethod =>
    cases h
    obtain ⟨t, slots, code, q, hread, hslots, hassembled, hdeclare⟩ :=
      ClassDraft.method_eq_ok.mp hmethod
    obtain ⟨a, hbody, hfinish, rfl⟩ := ClassDraft.assemble_eq_ok hassembled
    obtain ⟨hrun, htally⟩ := MainMethod.body_run hbody
    refine ⟨htally, ClassDraft.method_eq_ok.mpr ⟨t, slots, code, _, hread, hslots, ?_, hdeclare⟩⟩
    simp only [ClassDraft.assemble, hrun, hfinish]

theorem addMain_follows {tally : MainMethod.Tally} {superName : String} {file : Option String}
    {recipes : List Recipe} (h : d.Follows name.internal superName file recipes)
    (hadd : addMain settings name source d = .ok (tally, e)) :
    e.Follows name.internal superName file
      (recipes ++ [MainMethod.recipe name.internal (commandsOf source)]) :=
  h.method (r := MainMethod.recipe name.internal (commandsOf source)) (performAll_reaches _)
    MainMethod.parse_descriptor MainMethod.main_slots
    (fun _ _ ha => ha) (addMain_eq_ok hadd).2

/-- The source file of the settings is the one that the class names, if they have one. -/
theorem addSourceFile_follows {own superName : String} {recipes : List Recipe}
    (h : d.Follows own superName none recipes) (hadd : addSourceFile settings d = .ok e) :
    e.Follows own superName settings.sourceFile recipes := by
  unfold addSourceFile at hadd
  split at hadd
  · next hnone =>
    cases hadd
    rw [hnone]
    exact h
  · next file hfile =>
    split at hadd
    · cases hadd
    · next hset =>
      cases hadd
      rw [hfile]
      exact h.setSourceFile hset

/-- A class is built exactly if each stage succeeds. -/
theorem build_eq_ok {text : String} {r : Result} :
    build settings source text = .ok r ↔
      ∃ d e, nameOf text = .ok r.name ∧ scaffold r.name = .ok d ∧
        addMain settings r.name source d = .ok (r.tally, e) ∧
        addSourceFile settings e = .ok r.draft := by
  constructor
  · intro h
    obtain ⟨name, hname, h⟩ := except_bind_eq_ok.mp h
    obtain ⟨d, hscaffold, h⟩ := except_bind_eq_ok.mp h
    obtain ⟨⟨tally, e⟩, hmain, h⟩ := except_bind_eq_ok.mp h
    obtain ⟨f, hsource, h⟩ := except_bind_eq_ok.mp h
    cases h
    exact ⟨d, e, hname, hscaffold, hmain, hsource⟩
  · rintro ⟨d, e, hname, hscaffold, hmain, hsource⟩
    exact except_bind_eq_ok.mpr ⟨_, hname, except_bind_eq_ok.mpr ⟨_, hscaffold,
      except_bind_eq_ok.mpr ⟨_, hmain, except_bind_eq_ok.mpr ⟨_, hsource, rfl⟩⟩⟩⟩

theorem nameOf_of_compile {text : String} {c : CompiledClass}
    (h : compile settings source text = .ok c) : nameOf text = .ok c.name := by
  obtain ⟨r, hbuild, hr⟩ := except_bind_eq_ok.mp h
  cases hr
  obtain ⟨_, _, hname, -⟩ := build_eq_ok.mp hbuild
  exact hname

/-- A compiled class is made by its recipes, and its class file reads back as such, under its names
and with the source file that is set. -/
theorem compile_parse {text : String} {c : CompiledClass}
    (h : compile settings source text = .ok c) :
    ∃ file, ClassFile.parse c.bytes = .ok file ∧ file.name = .ok c.name.internal ∧
      file.superName = .ok Routines.objectClass ∧ file.sourceFile = settings.sourceFile ∧
      List.Forall₂ (Recipe.Made file.pool) (recipes c.name.internal (commandsOf source))
        file.methods := by
  obtain ⟨r, hbuild, h⟩ := except_bind_eq_ok.mp h
  cases h
  obtain ⟨d, e, -, hscaffold, hmain, hsource⟩ := build_eq_ok.mp hbuild
  exact (addSourceFile_follows (addMain_follows (scaffold_follows hscaffold) hmain) hsource).parse

theorem compile_made {text : String} {c : CompiledClass}
    (h : compile settings source text = .ok c) :
    ∃ file, ClassFile.parse c.bytes = .ok file ∧ file.name = .ok c.name.internal ∧
      List.Forall₂ (Recipe.Made file.pool) (recipes c.name.internal (commandsOf source))
        file.methods := by
  obtain ⟨file, hparse, hname, -, -, hmade⟩ := compile_parse h
  exact ⟨file, hparse, hname, hmade⟩

end Compile

end StackGlyph
