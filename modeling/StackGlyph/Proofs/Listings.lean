import Mathlib
import StackGlyph.ClassFile.Listing
import StackGlyph.Proofs.CompiledShape

/-!
# Listings of compiled classes

Under one class name and one choice of settings, the commands of a program decide the class file,
and the class file decides its listing. The listing in turn decides the commands, although neither
lines nor words can be told apart in it, for a class may have a name with line feeds and blanks. It
is read from its end: the last offset gives the number of calls, and each call ends with the name of
its command behind a part of known length.
-/
namespace StackGlyph

open Request Assembler

def listingOf (bytes : List UInt8) : Except Fault String := do
  Listing.render (← ClassFile.parse bytes)

def glyphsOf (source : List Char) : List Char :=
  source.filter fun c => (Command.ofGlyph? c).isSome

theorem Command.glyph_of_ofGlyph? {c : Char} {command : Command}
    (h : Command.ofGlyph? c = some command) : command.glyph = c := by
  simpa using List.find?_some h

theorem map_glyph_commandsOf (source : List Char) :
    (commandsOf source).map Command.glyph = glyphsOf source := by
  induction source with
  | nil => rfl
  | cons c source ih =>
    cases hc : Command.ofGlyph? c with
    | none => simpa [commandsOf, glyphsOf, hc] using ih
    | some command => simpa [commandsOf, glyphsOf, hc, Command.glyph_of_ofGlyph? hc] using ih

theorem commandsOf_glyphsOf (source : List Char) :
    commandsOf (glyphsOf source) = commandsOf source := by
  induction source with
  | nil => rfl
  | cons c source ih =>
    cases hc : Command.ofGlyph? c with
    | none => simpa [commandsOf, glyphsOf, hc] using ih
    | some command => simpa [commandsOf, glyphsOf, hc] using ih

/-- A command has one glyph, and a glyph one command. -/
theorem glyphsOf_eq_iff {source source' : List Char} :
    glyphsOf source = glyphsOf source' ↔ commandsOf source = commandsOf source' := by
  constructor
  · intro h
    rw [← commandsOf_glyphsOf source, h, commandsOf_glyphsOf]
  · intro h
    rw [← map_glyph_commandsOf, h, map_glyph_commandsOf]

/-! ## The class file follows from the commands -/

namespace Compile

variable {settings : Settings} {source source' : List Char} {text : String} {c c' : CompiledClass}

/-- Under one name and the same settings, programs with the same commands have the same class file:
nothing else of a text reaches the draft. -/
theorem bytes_of_commands (h : compile settings source text = .ok c)
    (h' : compile settings source' text = .ok c')
    (hcommands : commandsOf source = commandsOf source') : c.bytes = c'.bytes := by
  obtain ⟨r, hbuild, hr⟩ := except_bind_eq_ok.mp h
  obtain ⟨r', hbuild', hr'⟩ := except_bind_eq_ok.mp h'
  cases hr
  cases hr'
  obtain ⟨d, e, hname, hscaffold, hmain, hsource⟩ := build_eq_ok.mp hbuild
  obtain ⟨d', e', hname', hscaffold', hmain', hsource'⟩ := build_eq_ok.mp hbuild'
  have hsame : r'.name = r.name := Except.ok.inj (hname'.symm.trans hname)
  rw [hsame] at hscaffold' hmain'
  obtain rfl : d = d' := Except.ok.inj (hscaffold.symm.trans hscaffold')
  have hmethod := (addMain_eq_ok hmain).2
  have hmethod' := (addMain_eq_ok hmain').2
  rw [hcommands] at hmethod
  obtain rfl : e = e' := congrArg leftBy (hmethod.symm.trans hmethod')
  have hdraft : r.draft = r'.draft := Except.ok.inj (hsource.symm.trans hsource')
  exact congrArg ClassDraft.bytes hdraft

end Compile

/-! ## The text of a listing -/

/-- What stands behind the last separator of a text can be told from it. -/
theorem append_cons_inj {α : Type} {a b x y : List α} {sep : α}
    (h : a ++ sep :: x = b ++ sep :: y) (hx : sep ∉ x) (hy : sep ∉ y) : a = b ∧ x = y := by
  rcases List.append_eq_append_iff.mp h with ⟨t, rfl, ht⟩ | ⟨t, rfl, ht⟩
  · cases t with
    | nil => simpa using ht
    | cons u t =>
      obtain ⟨rfl, rfl⟩ := List.cons.inj ht
      simp at hx
  · cases t with
    | nil => simpa [eq_comm] using ht
    | cons u t =>
      obtain ⟨rfl, rfl⟩ := List.cons.inj ht
      simp at hy

namespace Listing

variable {pool pool' : Pool}

/-- The line of an instruction within the listing of its method. -/
def lineOf (pool : Pool) (i : Instruction) : List Char :=
  ("    " ++ instruction pool i ++ "\n").toList

theorem describe_of_methodAt {k : UInt16} {m : Member} (h : pool.MethodAt k m) :
    describe pool k = "Method" ++ " " ++ m.owner ++ "." ++ m.name ++ ":" ++ m.descriptor := by
  obtain ⟨⟨i, j, hk⟩, hm⟩ := h
  simp only [describe, hk, hm]

theorem length_toString_le {n : Nat} (h : n < 100000) : (toString n).length ≤ 5 :=
  Nat.repr_length n 5 (by decide) h

/-- A column is filled up to its width. -/
theorem length_alignLeft {width : Nat} {line : String} (h : line.length ≤ width) :
    (Text.alignLeft width line).toList.length = width := by
  rw [Text.alignLeft, String.toList_ofList, List.length_rightpad, String.length_toList]
  exact Nat.max_eq_left h

/-- The line of a call: an indent and a column of fixed width, then what is called. -/
theorem lineOf_call {offset : Nat} {k : UInt16} {own name descriptor : String}
    (hoffset : offset < 100000) (h : pool.MethodAt k ⟨own, name, descriptor⟩) :
    ∃ column : List Char, column.length = 32 ∧ lineOf pool ⟨offset, .invokestatic, .index k⟩ =
      column ++ (" // Method " ++ own).toList ++
        '.' :: (name.toList ++ (":" ++ descriptor ++ "\n").toList) := by
  let line := Text.alignRight 4 (toString offset) ++ ": " ++ "invokestatic" ++ " #" ++ toString k
  have hline : line.length ≤ commentColumn := by
    have hlength := length_toString_le hoffset
    have hindex : (toString k).length ≤ 5 := length_toString_le (by have := k.toNat_lt; omega)
    have hright : (Text.alignRight 4 (toString offset)).length ≤ 5 := by
      rw [Text.alignRight, String.length_ofList, List.length_leftpad, String.length_toList]
      omega
    simp only [line, String.length_append, commentColumn]
    have hcolon : ": ".length = 2 := rfl
    have hmnemonic : "invokestatic".length = 12 := rfl
    have hhash : " #".length = 2 := rfl
    omega
  refine ⟨"    ".toList ++ (Text.alignLeft commentColumn line).toList, ?_, ?_⟩
  · rw [List.length_append, length_alignLeft hline]
    rfl
  · have htext : lineOf pool ⟨offset, .invokestatic, .index k⟩ = ("    " ++
        (Text.alignLeft commentColumn line ++ " // " ++ describe pool k) ++ "\n").toList := rfl
    rw [htext, describe_of_methodAt h]
    simp

/-- The line of an instruction without operand: blanks, its offset, its mnemonic. -/
theorem lineOf_bare (pool : Pool) (offset : Nat) (op : Opcode) :
    ∃ blanks : List Char, lineOf pool ⟨offset, op, .none⟩ = blanks ++
      ' ' :: ((toString offset).toList ++ (": " ++ op.mnemonic ++ "\n").toList) := by
  have htext : lineOf pool ⟨offset, op, .none⟩ =
      ("    " ++ (Text.alignRight 4 (toString offset) ++ ": " ++ op.mnemonic) ++ "\n").toList := rfl
  have hblanks (n : Nat) : "    ".toList ++ List.replicate n ' ' =
      List.replicate (3 + n) ' ' ++ [' '] := by
    rw [← List.replicate_succ', Nat.add_right_comm, ← List.replicate_append_replicate]
    rfl
  refine ⟨List.replicate (3 + (4 - (toString offset).toList.length)) ' ', htext.trans ?_⟩
  rw [Text.alignRight]
  simp only [String.toList_append, String.toList_ofList, List.leftpad, List.append_assoc]
  rw [← List.append_assoc "    ".toList, hblanks]
  simp only [List.append_assoc, List.singleton_append]

theorem blank_not_mem_toString (n : Nat) : ' ' ∉ (toString n).toList := by
  intro h
  have hmem : ' ' ∈ Nat.toDigits 10 n := by simpa using h
  have hdigit := Nat.isDigit_of_mem_toDigits (by decide) (by decide) hmem
  cases hdigit

theorem point_not_mem_name (c : Command) :
    '.' ∉ c.name.toList ++ (":" ++ Routines.descriptor ++ "\n").toList := by
  cases c <;> decide

theorem name_injective : Function.Injective Command.name := by
  intro c c' h
  cases c <;> cases c' <;> first | rfl | exact absurd h (by decide)

/-- A last line without operand tells its offset, and what stands before it. -/
theorem last_bare {before before' : List Char} {offset offset' : Nat} {op : Opcode}
    (h : before ++ lineOf pool ⟨offset, op, .none⟩ = before' ++ lineOf pool' ⟨offset', op, .none⟩) :
    offset = offset' ∧ before = before' := by
  obtain ⟨blanks, hline⟩ := lineOf_bare pool offset op
  obtain ⟨blanks', hline'⟩ := lineOf_bare pool' offset' op
  let tail := (": " ++ op.mnemonic ++ "\n").toList
  have hdigits : (before ++ blanks ++ ' ' :: (toString offset).toList) ++ tail =
      (before' ++ blanks' ++ ' ' :: (toString offset').toList) ++ tail := by
    rw [hline, hline'] at h
    simpa only [List.append_assoc, List.cons_append] using h
  have hsame := (append_cons_inj (List.append_cancel_right hdigits) (blank_not_mem_toString _)
    (blank_not_mem_toString _)).2
  obtain rfl : offset = offset' := Nat.repr_inj.mp (String.toList_inj.mp hsame)
  exact ⟨rfl, List.append_cancel_right h⟩

/-- A last line that is a call tells its command, and what stands before it. -/
theorem last_call {before before' : List Char} {offset offset' : Nat} {own : String}
    {call call' : Command × UInt16} (hoffset : offset < 100000) (hoffset' : offset' < 100000)
    (hcall : pool.MethodAt call.2 ⟨own, call.1.name, Routines.descriptor⟩)
    (hcall' : pool'.MethodAt call'.2 ⟨own, call'.1.name, Routines.descriptor⟩)
    (h : before ++ lineOf pool ⟨offset, .invokestatic, .index call.2⟩ =
      before' ++ lineOf pool' ⟨offset', .invokestatic, .index call'.2⟩) :
    call.1 = call'.1 ∧ before = before' := by
  obtain ⟨column, hwidth, hline⟩ := lineOf_call hoffset hcall
  obtain ⟨column', hwidth', hline'⟩ := lineOf_call hoffset' hcall'
  rw [hline, hline', ← List.append_assoc, ← List.append_assoc, ← List.append_assoc,
    ← List.append_assoc] at h
  obtain ⟨hfront, hname⟩ := append_cons_inj h (point_not_mem_name _) (point_not_mem_name _)
  constructor
  · exact name_injective (String.toList_inj.mp (List.append_cancel_right hname))
  · have hcolumns := List.append_cancel_right hfront
    exact (List.append_inj' hcolumns (hwidth.trans hwidth'.symm)).1

end Listing

namespace MainMethod

open Listing

theorem callInstructions_concat (offset : Nat) (calls : List (Command × UInt16))
    (call : Command × UInt16) :
    callInstructions offset (calls ++ [call]) = callInstructions offset calls ++
      [⟨offset + 4 * calls.length, .dup, .none⟩,
        ⟨offset + 4 * calls.length + 1, .invokestatic, .index call.2⟩] := by
  induction calls generalizing offset with
  | nil => rfl
  | cons first calls ih =>
    have hoffset : offset + 4 + 4 * calls.length = offset + 4 * (calls.length + 1) := by omega
    rw [List.cons_append, callInstructions, ih, hoffset]
    rfl

/-- The lines of as many calls tell the commands, whatever stands before them. The calls are read
off one by one from the end. -/
theorem commands_of_lines {pool pool' : Pool} {own : String} {offset : Nat}
    {before before' : List Char} {calls calls' : List (Command × UInt16)}
    (hlength : calls.length = calls'.length) (hshort : offset + 4 * calls.length < 100000)
    (hcalls : ∀ call ∈ calls, pool.MethodAt call.2 ⟨own, call.1.name, Routines.descriptor⟩)
    (hcalls' : ∀ call ∈ calls', pool'.MethodAt call.2 ⟨own, call.1.name, Routines.descriptor⟩)
    (h : before ++ (callInstructions offset calls).flatMap (lineOf pool) =
      before' ++ (callInstructions offset calls').flatMap (lineOf pool')) :
    calls.map Prod.fst = calls'.map Prod.fst := by
  induction calls using List.reverseRecOn generalizing before before' calls' with
  | nil =>
    rw [List.length_nil] at hlength
    rw [List.length_eq_zero_iff.mp hlength.symm]
  | append_singleton calls call ih =>
    rw [List.length_append, List.length_singleton] at hlength hshort
    obtain ⟨calls', call', rfl⟩ : ∃ front last, calls' = front ++ [last] := by
      rcases List.eq_nil_or_concat calls' with rfl | ⟨front, last, hconcat⟩
      · simp at hlength
      · exact ⟨front, last, by simpa using hconcat⟩
    rw [List.length_append, List.length_singleton] at hlength
    have hsame : calls.length = calls'.length := by omega
    simp only [callInstructions_concat, List.flatMap_append, List.flatMap_cons, List.flatMap_nil,
      List.append_nil, ← List.append_assoc, hsame] at h
    obtain ⟨hcommand, h⟩ := last_call (by omega) (by omega) (hcalls call (by simp))
      (hcalls' call' (by simp)) h
    have hbefore := (last_bare h).2
    have hrest := ih hsame (by omega) (fun c hc => hcalls c (by simp [hc]))
      (fun c hc => hcalls' c (by simp [hc])) hbefore
    rw [List.map_append, List.map_append, hrest, List.map_singleton, List.map_singleton, hcommand]

/-- A text that ends with the lines of a main method tells its commands. -/
theorem commands_of_text {pool pool' : Pool} {own : String} {before before' : List Char}
    {queue queue' init init' : UInt16} {calls calls' : List (Command × UInt16)}
    (hspelt : Spelt pool own queue init calls) (hspelt' : Spelt pool' own queue' init' calls')
    (hshort : 9 + 4 * calls.length ≤ 65535)
    (h : before ++ (instructions queue init calls).flatMap (lineOf pool) =
      before' ++ (instructions queue' init' calls').flatMap (lineOf pool')) :
    calls.map Prod.fst = calls'.map Prod.fst := by
  simp only [instructions, List.flatMap_append, List.flatMap_cons, List.flatMap_nil,
    List.append_nil, ← List.append_assoc] at h
  obtain ⟨hoffset, h⟩ := last_bare h
  have hcalls := (last_bare h).2
  exact commands_of_lines (by omega) (by omega) hspelt.calls hspelt'.calls hcalls

end MainMethod

/-! ## Listings of compiled classes -/

namespace Listing

variable {pool : Pool} {m : Method} {code : Code} {is : Array Instruction}

/-- The listing of a method ends with the lines of its instructions. -/
theorem method_of_decode (pool : Pool) (hcode : m.code = some code)
    (hdecode : Instruction.decode code.bytes = .ok is) :
    ∃ heading, method pool m = .ok (heading ++
      is.toList.map fun i => "    " ++ instruction pool i ++ "\n") := by
  rw [method, hcode]
  dsimp only
  rw [hdecode]
  exact ⟨["\n", _, _], rfl⟩

/-- Methods that are made by recipes can be listed, if the jumps of these land on instructions. -/
theorem methods_made {recipes : List Recipe} {methods : List Method}
    (h : List.Forall₂ (Recipe.Made pool) recipes methods)
    (hlands : ∀ r ∈ recipes, Lands r.requests) :
    ∃ lines, methods.mapM (method pool) = .ok lines := by
  induction h with
  | nil => exact ⟨[], rfl⟩
  | @cons r m recipes methods hm _ ih =>
    obtain ⟨code, hcode, p, a, -, hrun, hfinish, -⟩ := hm.code
    have hdecode := decode_landing hrun hfinish (hlands r List.mem_cons_self)
    obtain ⟨heading, hfirst⟩ := method_of_decode pool hcode hdecode
    obtain ⟨lines, hrest⟩ := ih fun r hr => hlands r (List.mem_cons_of_mem _ hr)
    rw [List.mapM_cons, hfirst]
    dsimp only [Bind.bind, Except.bind]
    rw [hrest]
    exact ⟨_, rfl⟩

/-- The listing of a class ends with the lines of its last method. -/
theorem render_concat {file : ClassFile} {own superName : String} {front : List Method}
    {lines : List (List String)} (hname : file.name = .ok own)
    (hsuper : file.superName = .ok superName) (hmethods : file.methods = front ++ [m])
    (hfront : front.mapM (method file.pool) = .ok lines) (hcode : m.code = some code)
    (hdecode : Instruction.decode code.bytes = .ok is) :
    ∃ listing before, render file = .ok listing ∧
      listing.toList = before ++ is.toList.flatMap (lineOf file.pool) := by
  obtain ⟨heading, hlast⟩ := method_of_decode file.pool hcode hdecode
  have hall : file.methods.mapM (method file.pool) = .ok (lines ++ [heading ++
      is.toList.map fun i => "    " ++ instruction file.pool i ++ "\n"]) := by
    rw [hmethods, List.mapM_append, hfront, List.mapM_cons, List.mapM_nil, hlast]
    rfl
  have hrender : ∃ top : List String, render file = .ok (String.join (top ++
      is.toList.map fun i => "    " ++ instruction file.pool i ++ "\n")) := by
    unfold render
    rw [hname, hsuper, hall]
    dsimp only [Bind.bind, Except.bind, pure, Except.pure]
    rw [List.flatten_append, List.flatten_singleton, ← List.append_assoc, ← List.append_assoc]
    exact ⟨_, rfl⟩
  obtain ⟨top, hrender⟩ := hrender
  refine ⟨_, top.flatMap String.toList, hrender, ?_⟩
  rw [String.toList_join, List.flatMap_append, List.flatMap_map]
  rfl

end Listing

namespace Compile

variable {settings : Settings} {source source' : List Char} {text : String} {c c' : CompiledClass}

/-- A compiled class can be listed, and the listing ends with the lines of its main method. -/
theorem listing_of_compile (h : compile settings source text = .ok c) :
    ∃ listing pool before queue init calls, listingOf c.bytes = .ok listing ∧
      MainMethod.Spelt pool c.name.internal queue init calls ∧
      calls.map Prod.fst = commandsOf source ∧ 9 + 4 * calls.length ≤ 65535 ∧
      listing.toList =
        before ++ (MainMethod.instructions queue init calls).flatMap (Listing.lineOf pool) := by
  obtain ⟨file, hparse, hname, hsuper, -, hmade⟩ := compile_parse h
  obtain ⟨front, main, hmethods, hfront, hmain⟩ := made_concat hmade
  obtain ⟨code, hcode, hdrawn⟩ := hmain.code
  obtain ⟨queue, init, calls, hspelt, hfst, hdecode⟩ := MainMethod.decode_script hdrawn
  have hlength := length_commands_le hdrawn
  obtain ⟨lines, hlines⟩ := Listing.methods_made hfront recipes_land
  obtain ⟨listing, before, hrender, htext⟩ :=
    Listing.render_concat hname hsuper hmethods hlines hcode hdecode
  refine ⟨listing, file.pool, before, queue, init, calls, ?_, hspelt, hfst, ?_, htext⟩
  · rw [listingOf, hparse]
    exact hrender
  · rwa [← hfst, List.length_map] at hlength

/-- Under one class name and one choice of settings, the commands of a program, its class file and
the listing of that decide each other. What else stands in the text leaves no trace. -/
theorem listing_determines (h : compile settings source text = .ok c)
    (h' : compile settings source' text = .ok c') :
    ∃ listing listing', listingOf c.bytes = .ok listing ∧ listingOf c'.bytes = .ok listing' ∧
      List.TFAE [glyphsOf source = glyphsOf source', c.bytes = c'.bytes, listing = listing'] := by
  obtain ⟨listing, pool, before, queue, init, calls, hlisting, hspelt, hfst, hshort, htext⟩ :=
    listing_of_compile h
  obtain ⟨listing', pool', before', queue', init', calls', hlisting', hspelt', hfst', -, htext'⟩ :=
    listing_of_compile h'
  refine ⟨listing, listing', hlisting, hlisting', ?_⟩
  tfae_have 1 → 2 := fun hglyphs => bytes_of_commands h h' (glyphsOf_eq_iff.mp hglyphs)
  tfae_have 2 → 3 := by
    intro hbytes
    rw [hbytes] at hlisting
    exact Except.ok.inj (hlisting.symm.trans hlisting')
  tfae_have 3 → 1 := by
    intro hsame
    have hname : c'.name = c.name :=
      Except.ok.inj ((nameOf_of_compile h').symm.trans (nameOf_of_compile h))
    rw [hname] at hspelt'
    rw [hsame, htext'] at htext
    rw [glyphsOf_eq_iff, ← hfst, ← hfst']
    exact MainMethod.commands_of_text hspelt hspelt' hshort htext.symm
  tfae_finish

/-- Two programs with one command, hidden among other characters, have one class file. The main
method of a third has the same code and differs in what it refers to. -/
theorem listing_determines_single :
    ∃ c c' c'' listing listing' listing'',
      compile {} ['\x60', 'x'] "demo.Main" = .ok c ∧
      compile {} ['y', '\x60', '\n'] "demo.Main" = .ok c' ∧
      compile {} ['~'] "demo.Main" = .ok c'' ∧
      listingOf c.bytes = .ok listing ∧ listingOf c'.bytes = .ok listing' ∧
      listingOf c''.bytes = .ok listing'' ∧
      c.bytes = c'.bytes ∧ listing = listing' ∧ c.bytes ≠ c''.bytes ∧ listing ≠ listing'' := by
  obtain ⟨c, hc, -⟩ := compile_demo ['\x60', 'x'] (by decide)
  obtain ⟨c', hc', -⟩ := compile_demo ['y', '\x60', '\n'] (by decide)
  obtain ⟨c'', hc'', -⟩ := compile_demo ['~'] (by decide)
  obtain ⟨listing, listing', hlisting, hlisting', htfae⟩ := listing_determines hc hc'
  obtain ⟨first, listing'', hfirst, hlisting'', htfae'⟩ := listing_determines hc hc''
  obtain rfl : listing = first := Except.ok.inj (hlisting.symm.trans hfirst)
  have hsame : glyphsOf ['\x60', 'x'] = glyphsOf ['y', '\x60', '\n'] := by decide
  have hother : glyphsOf ['\x60', 'x'] ≠ glyphsOf ['~'] := by decide
  exact ⟨c, c', c'', listing, listing', listing'', hc, hc', hc'', hlisting, hlisting', hlisting'',
    (htfae.out 0 1).mp hsame, (htfae.out 0 2).mp hsame, fun h => hother ((htfae'.out 0 1).mpr h),
    fun h => hother ((htfae'.out 0 2).mpr h)⟩

end Compile

end StackGlyph
