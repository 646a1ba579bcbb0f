import StackGlyph.Proofs.Compiling

/-!
# What becomes of a compilation

A compilation is refused for its class name, for the number of its commands, for the length of its
code or for the name of its source file, and for nothing else; the first of these that applies is
the one that is reported. The pool never fills, no depth is wrong and every reference resolves.
-/
namespace StackGlyph.Compile

open Request Assembler
open Text.ModifiedUtf8 (encode encodedLength)

/-- The largest number that two bytes hold: the greatest length of a text and of code. -/
def wordLimit : Nat := 65535

/-- The refusal of something for its length, with what it is refused for. -/
def lengthRefusal? (cause : Nat → Fault) (length : Nat) : Option CompileError :=
  if length ≤ wordLimit then none else some (.fault (cause length))

/-- The refusal of a text, for the bytes that it takes. -/
def textRefusal? (text : String) : Option CompileError :=
  lengthRefusal? .textTooLong (encode text).length

def codeRefusal? (length : Nat) : Option CompileError :=
  lengthRefusal? .codeTooLarge length

/-- The refusal of a class name. -/
def nameRefusal? (text : String) : Option CompileError :=
  match ClassName.parse text with
  | .error reason => some (.invalidName text reason)
  | .ok name => textRefusal? name.internal

/-- The refusal of a main method of so many commands. Beyond the limit on commands it is cut short,
and then it is the limit that is reported, unless what is left is still too long. -/
def mainRefusal? (limit : Option Nat) (commands : Nat) : Option CompileError :=
  match limit.filter (· < commands) with
  | some m => (codeRefusal? (7 + 4 * m)).or (some (.tooManyCommands m))
  | none => codeRefusal? (9 + 4 * commands)

/-- The error with which the compilation of a text with so many commands ends, if it does. -/
def refusal? (settings : Settings) (commands : Nat) (text : String) : Option CompileError :=
  (nameRefusal? text).or
    ((mainRefusal? settings.maxCommands commands).or (settings.sourceFile.bind textRefusal?))

variable {settings : Settings} {source : List Char} {text : String} {name : ClassName}
  {d : ClassDraft} {e : CompileError}

theorem lengthRefusal?_eq_none {cause : Nat → Fault} {length : Nat} :
    lengthRefusal? cause length = none ↔ length ≤ 65535 := by
  unfold lengthRefusal?
  split <;> simp_all [wordLimit]

theorem lengthRefusal?_eq_some {cause : Nat → Fault} {length : Nat} :
    lengthRefusal? cause length = some e ↔ 65535 < length ∧ e = .fault (cause length) := by
  unfold lengthRefusal?
  split <;> simp_all [wordLimit, eq_comm]

theorem textRefusal?_eq_none : textRefusal? text = none ↔ encodedLength text ≤ 65535 := by
  rw [textRefusal?, Text.ModifiedUtf8.length_encode]
  exact lengthRefusal?_eq_none

theorem textRefusal?_eq_some : textRefusal? text = some e ↔
    65535 < encodedLength text ∧ e = .fault (.textTooLong (encodedLength text)) := by
  rw [textRefusal?, Text.ModifiedUtf8.length_encode]
  exact lengthRefusal?_eq_some

/-- The limit on commands matters only if it is exceeded. -/
theorem mainRefusal?_within {limit : Option Nat} {commands : Nat}
    (h : ∀ m, limit = some m → commands ≤ m) :
    mainRefusal? limit commands = codeRefusal? (9 + 4 * commands) := by
  have hnone : limit.filter (· < commands) = none := by
    rw [Option.filter_eq_none_iff]
    intro m hm
    simpa using h m hm
  rw [mainRefusal?, hnone]

theorem mainRefusal?_beyond {m commands : Nat} (h : m < commands) :
    mainRefusal? (some m) commands =
      (codeRefusal? (7 + 4 * m)).or (some (.tooManyCommands m)) := by
  have hsome : (some m).filter (· < commands) = some m := by simp [h]
  rw [mainRefusal?, hsome]

/-- Only a main method within both limits is not refused. -/
theorem within_of_mainRefusal? {limit : Option Nat} {commands : Nat}
    (h : mainRefusal? limit commands = none) :
    (∀ m, limit = some m → commands ≤ m) ∧ 9 + 4 * commands ≤ 65535 := by
  by_cases hwithin : ∀ m, limit = some m → commands ≤ m
  · rw [mainRefusal?_within hwithin] at h
    exact ⟨hwithin, lengthRefusal?_eq_none.mp h⟩
  · push Not at hwithin
    obtain ⟨m, rfl, hlt⟩ := hwithin
    rw [mainRefusal?_beyond hlt] at h
    simp at h

/-! ## The stages -/

theorem scaffold_refuses (hname : Pool.maxTextLength < encodedLength name.internal) :
    scaffold name = .error (.fault (.textTooLong (encodedLength name.internal))) := by
  have htext := Pool.addText_refuses Pool.sound_empty Pool.textsFit_empty (by decide) hname
  have hclass : Pool.addClass name.internal Pool.empty = _ := bind_of_error htext
  have hcreate : ClassDraft.create name.internal Routines.objectClass
      (Access.isPublic ||| Access.isSuper) =
      .error (.textTooLong (encodedLength name.internal)) := by
    unfold ClassDraft.create
    dsimp only
    rw [bind_of_error hclass]
  simp only [scaffold, hcreate]

/-- A main method is refused for its number of commands or for its length. -/
theorem addMain_refuses (hsound : d.pool.Sound)
    (hname : encodedLength name.internal ≤ Pool.maxTextLength)
    (hroom : d.pool.size + 69 ≤ Pool.capacity) (hmethods : d.methods.size < ClassDraft.maxMethods)
    (h : mainRefusal? settings.maxCommands (commandsOf source).length = some e) :
    addMain settings name source d = .error e := by
  rcases MainMethod.body_cases name.internal settings.maxCommands source with
    ⟨hwithin, hbody⟩ | ⟨m, hm, hlt, hbody⟩
  · rw [mainRefusal?_within hwithin] at h
    obtain ⟨hlong, rfl⟩ := lengthRefusal?_eq_some.mp h
    obtain ⟨a, ha, hsize⟩ := MainMethod.script_succeeds hname (commandsOf source) hsound (by omega)
    have hcode : a.code.size = 9 + 4 * (commandsOf source).length := by
      simpa [start] using MainMethod.size_of_script ha
    obtain ⟨draft, hdraft, -⟩ := main_declared hbody ha (MainMethod.script_jumpless _ _) (by omega)
      hmethods
    have hnot : ¬ 9 + 4 * (commandsOf source).length ≤ maxCodeLength := Nat.not_le.mpr hlong
    rw [hcode, if_neg hnot] at hdraft
    simp only [addMain, hdraft]
  · rw [hm, mainRefusal?_beyond hlt] at h
    obtain ⟨a, ha, -, hsize⟩ := MainMethod.opening_succeeds hname ((commandsOf source).take m)
      hsound (by omega)
    have hcode : a.code.size = 7 + 4 * m := by
      have hgrown := MainMethod.size_of_opening ha
      rw [List.length_take_of_le (by omega)] at hgrown
      simpa [start] using hgrown
    obtain ⟨draft, hdraft, -⟩ := main_declared hbody ha (MainMethod.opening_jumpless _ _)
      (by omega) hmethods
    rw [hcode] at hdraft
    -- The limit is reported only if the method, cut short there, could be declared.
    cases hlength : codeRefusal? (7 + 4 * m) with
    | none =>
      rw [hlength] at h
      cases h
      have hshort : 7 + 4 * m ≤ maxCodeLength := lengthRefusal?_eq_none.mp hlength
      rw [if_pos hshort] at hdraft
      simp only [addMain, hdraft]
    | some cause =>
      rw [hlength] at h
      cases h
      obtain ⟨hlong, rfl⟩ := lengthRefusal?_eq_some.mp hlength
      have hnot : ¬ 7 + 4 * m ≤ maxCodeLength := Nat.not_le.mpr hlong
      rw [if_neg hnot] at hdraft
      simp only [addMain, hdraft]

/-- A source file whose name is too long is refused with its length. -/
theorem addSourceFile_refuses {file : String} (hsound : d.pool.Sound) (htexts : d.pool.TextsFit)
    (hroom : d.pool.size + 2 ≤ Pool.capacity) (hset : settings.sourceFile = some file)
    (h : textRefusal? file = some e) : addSourceFile settings d = .error e := by
  obtain ⟨hlong, rfl⟩ := textRefusal?_eq_some.mp h
  obtain ⟨i, q, hq, hsize⟩ := Pool.addText_succeeds (s := "SourceFile") (by cbv) d.pool (by omega)
  have hgrows := (Pool.addText_grows "SourceFile").of_ok hq
  have hrefused := Pool.addText_refuses (hgrows.sound hsound) (hgrows.textsFit htexts) (by omega)
    hlong
  have hnamed : ClassDraft.setSourceFile file d =
      .error (.textTooLong (encodedLength file)) { d with pool := q } := by
    refine (bind_of_ok (ClassDraft.onPool_of_ok hq)).trans (bind_of_error ?_)
    simp only [ClassDraft.onPool, hrefused]
  simp only [addSourceFile, hset, hnamed]

/-- A stage ends with the error that is given; if none is given, with a result of which `said`
holds. -/
def Ends {α : Type} (said : α → Prop) (refusal : Option CompileError)
    (x : Except CompileError α) : Prop :=
  match refusal with
  | some e => x = .error e
  | none => ∃ v, x = .ok v ∧ said v

/-- Of two stages in a row, the first that is refused decides. -/
theorem Ends.bind {α β : Type} {said : α → Prop} {said' : β → Prop}
    {refusal refusal' : Option CompileError} {x : Except CompileError α}
    {f : α → Except CompileError β} (hx : Ends said refusal x)
    (hf : ∀ v, x = .ok v → said v → Ends said' refusal' (f v)) :
    Ends said' (refusal.or refusal') (x >>= f) := by
  cases refusal with
  | some e =>
    replace hx : x = .error e := hx
    rw [hx]
    rfl
  | none =>
    obtain ⟨v, hv, hsaid⟩ := hx
    have hrest := hf v hv hsaid
    rw [hv]
    exact hrest

/-- After the last stage nothing can fail. -/
theorem Ends.map {α β : Type} {said : α → Prop} {refusal : Option CompileError}
    {x : Except CompileError α} (hx : Ends said refusal x) (f : α → β) :
    Ends (fun _ => True) refusal (x >>= fun v => pure (f v)) := by
  have hpure : ∀ v, x = .ok v → said v → Ends (fun _ => True) none (pure (f v)) :=
    fun v _ _ => ⟨f v, rfl, trivial⟩
  simpa using hx.bind hpure

theorem scaffold_ends (name : ClassName) :
    Ends (fun d => encodedLength name.internal ≤ Pool.maxTextLength ∧ d.pool.size ≤ 2023 ∧
      d.methods.size = 7) (textRefusal? name.internal) (scaffold name) := by
  cases h : textRefusal? name.internal with
  | some e =>
    obtain ⟨hlong, rfl⟩ := textRefusal?_eq_some.mp h
    exact scaffold_refuses hlong
  | none =>
    have hshort : encodedLength name.internal ≤ Pool.maxTextLength := textRefusal?_eq_none.mp h
    obtain ⟨d, hscaffold, hsize, hcount⟩ := scaffold_succeeds hshort
    exact ⟨d, hscaffold, hshort, hsize, hcount⟩

/-- The main method is refused for its length or for the number of its commands, and otherwise
added. -/
theorem addMain_ends (hsound : d.pool.Sound)
    (hname : encodedLength name.internal ≤ Pool.maxTextLength)
    (hroom : d.pool.size + 69 ≤ Pool.capacity) (hmethods : d.methods.size < ClassDraft.maxMethods) :
    Ends (fun added => added.2.pool.size ≤ d.pool.size + 69)
      (mainRefusal? settings.maxCommands (commandsOf source).length)
      (addMain settings name source d) := by
  cases h : mainRefusal? settings.maxCommands (commandsOf source).length with
  | some e => exact addMain_refuses hsound hname hroom hmethods h
  | none =>
    obtain ⟨hlimit, hlength⟩ := within_of_mainRefusal? h
    obtain ⟨tally, e, hadded, hsize⟩ := addMain_succeeds hsound hname hlimit hlength hroom hmethods
    exact ⟨(tally, e), hadded, hsize⟩

/-- Where no source file is set there is nothing to refuse. -/
theorem addSourceFile_ends (hsound : d.pool.Sound) (htexts : d.pool.TextsFit)
    (hroom : d.pool.size + 2 ≤ Pool.capacity) :
    Ends (fun _ => True) (settings.sourceFile.bind textRefusal?) (addSourceFile settings d) := by
  cases h : settings.sourceFile.bind textRefusal? with
  | some e =>
    obtain ⟨file, hset, hfile⟩ := Option.bind_eq_some_iff.mp h
    exact addSourceFile_refuses hsound htexts hroom hset hfile
  | none =>
    have hfile : ∀ file, settings.sourceFile = some file →
        encodedLength file ≤ Pool.maxTextLength := by
      intro file hset
      rw [hset] at h
      exact textRefusal?_eq_none.mp h
    obtain ⟨e, hadded⟩ := addSourceFile_succeeds hfile hroom
    exact ⟨e, hadded, trivial⟩

/-- What becomes of a class once its name was read. -/
theorem build_ends (settings : Settings) (source : List Char) (hname : nameOf text = .ok name) :
    Ends (fun _ => True) ((textRefusal? name.internal).or
      ((mainRefusal? settings.maxCommands (commandsOf source).length).or
        (settings.sourceFile.bind textRefusal?))) (build settings source text) := by
  have hcapacity : Pool.capacity = 65534 := rfl
  have hmaximum : ClassDraft.maxMethods = 65535 := rfl
  rw [build, hname]
  refine (scaffold_ends name).bind ?_
  rintro d hscaffold ⟨hshort, hsize, hcount⟩
  obtain ⟨_, hrecords, -⟩ := scaffold_follows hscaffold
  refine (addMain_ends hrecords.pool hshort (by omega) (by omega)).bind ?_
  rintro ⟨tally, e⟩ hadded hsize'
  obtain ⟨_, hrecords', -⟩ := addMain_follows (scaffold_follows hscaffold) hadded
  dsimp only at hsize'
  exact (addSourceFile_ends hrecords'.pool hrecords'.texts (by omega)).map _

/-- How a compilation ends is decided by the class name, the number of commands and the settings:
with the error that these give, and where they give none with a class. -/
theorem compile_outcome (settings : Settings) (source : List Char) (text : String) :
    match refusal? settings (commandsOf source).length text with
    | some e => compile settings source text = .error e
    | none => ∃ c, compile settings source text = .ok c := by
  unfold refusal? nameRefusal?
  cases hparse : ClassName.parse text with
  | error reason =>
    rw [Option.some_or, compile, build, nameOf, hparse]
    rfl
  | ok name =>
    have hname : nameOf text = .ok name := by rw [nameOf, hparse]
    have hends : Ends (fun _ => True) _ (compile settings source text) :=
      (build_ends settings source hname).map Result.compiled
    dsimp only
    generalize (textRefusal? name.internal).or _ = refusal at hends ⊢
    cases refusal with
    | some e => exact hends
    | none =>
      obtain ⟨c, hc, -⟩ := hends
      exact ⟨c, hc⟩

/-- A program that exceeds its limit may still be cut short too late for its length. -/
theorem compile_outcome_cut_short :
    let source := List.replicate 20000 '~'
    compile { maxCommands := some 16382 } source "Main" = .error (.tooManyCommands 16382) ∧
      compile { maxCommands := some 16383 } source "Main" =
        .error (.fault (.codeTooLarge 65539)) := by
  intro source
  have hcount : (commandsOf source).length = 20000 := by
    have hglyph : Command.ofGlyph? '~' = some .not := by decide
    rw [commandsOf, List.filterMap_replicate_of_some hglyph, List.length_replicate]
  clear_value source
  have hname : nameRefusal? "Main" = none := by cbv
  have hends {e : CompileError} (settings : Settings)
      (h : mainRefusal? settings.maxCommands 20000 = some e) :
      compile settings source "Main" = .error e := by
    have houtcome := compile_outcome settings source "Main"
    rw [hcount, refusal?, hname, h] at houtcome
    exact houtcome
  exact ⟨hends _ (by decide), hends _ (by decide)⟩

end StackGlyph.Compile
