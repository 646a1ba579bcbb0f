import StackGlyph.Proofs.CompiledClass
import StackGlyph.Proofs.Completion

/-!
# When a program compiles

A program compiles if its class has a name that fits a pool, its commands keep to the limit, and its
main method keeps to the length of code that a class file can hold. The pool never fills: the
routines take a fixed number of constants, and the calls of a main method take six at most for each
command that occurs in it, however often it does.
-/
namespace StackGlyph

open Request Assembler
open Text.ModifiedUtf8 (encodedLength)

theorem short_of_texts {rs : List Request}
    (h : (rs.flatMap texts).all (fun s => encodedLength s ≤ Pool.maxTextLength) = true) :
    ∀ r ∈ rs, r.Short := by
  intro r hr s hs
  have hall := List.all_eq_true.mp h s (List.mem_flatMap.mpr ⟨r, hr, hs⟩)
  exact of_decide_eq_true hall

namespace Routines

/-- What a routine needs: its depths, its local slots and its labels. -/
def gauge : Command → Gauge
  | .dup => ⟨none, 4, 1, #[]⟩
  | .print => ⟨none, 2, 1, #[⟨true, some 0⟩, ⟨true, some 0⟩]⟩
  | .hello => ⟨none, 3, 1, #[]⟩
  | .not => ⟨none, 3, 1, #[]⟩
  | .rot => ⟨none, 3, 4, #[]⟩
  | .xor => ⟨none, 3, 1, #[]⟩

theorem name_short (c : Command) : encodedLength c.name ≤ Pool.maxTextLength := by
  cases c <;> cbv

theorem descriptor_short : encodedLength descriptor ≤ Pool.maxTextLength := by cbv

theorem measure_helloUnits (units : List UInt16) :
    measureAll (units.flatMap helloUnitScript) ⟨some 1, 3, 1, #[]⟩ =
      some ((), ⟨some 1, 3, 1, #[]⟩) := by
  induction units with
  | nil => rfl
  | cons u units ih =>
    have hunit : measureAll (helloUnitScript u) ⟨some 1, 3, 1, #[]⟩ =
        some ((), ⟨some 1, 3, 1, #[]⟩) := by cbv
    rw [List.flatMap_cons, measureAll_append hunit]
    exact ih

theorem measure_hello :
    measureAll (script .hello) { maxLocals := 1 } = some ((), gauge .hello) := by
  have hgreeting : (Text.Utf16.units greeting).reverse ≠ [] := by decide +kernel
  obtain ⟨u, units, hunits⟩ := List.exists_cons_of_ne_nil hgreeting
  have hload : measureAll [.load 0] { maxLocals := 1 } = some ((), ⟨some 1, 1, 1, #[]⟩) := by cbv
  have hfirst : measureAll (helloUnitScript u) ⟨some 1, 1, 1, #[]⟩ =
      some ((), ⟨some 1, 3, 1, #[]⟩) := by cbv
  rw [script, hunits, List.flatMap_cons, List.cons_append, List.append_assoc]
  refine (measureAll_append hload _).trans ((measureAll_append hfirst _).trans
    ((measureAll_append (measure_helloUnits units) _).trans ?_))
  cbv

theorem measure_script (c : Command) :
    measureAll (script c) { maxLocals := 1 } = some ((), gauge c) := by
  cases c with
  | hello => exact measure_hello
  | _ => cbv

/-- The texts of the routines are all fixed and far below the limit of a pool. -/
theorem script_short (c : Command) : ∀ r ∈ script c, r.Short := by
  cases c with
  | hello =>
    have hunit (u : UInt16) : ∀ r ∈ helloUnitScript u, r.Short := short_of_texts (by cbv)
    intro r hr
    rcases List.mem_append.mp hr with hr | hr
    · rcases List.mem_cons.mp hr with rfl | hr
      · intro s hs
        cases hs
      · obtain ⟨u, -, hu⟩ := List.mem_flatMap.mp hr
        exact hunit u r hu
    · exact short_of_texts (by cbv) r hr
  | _ => exact short_of_texts (by cbv)

theorem length_script (c : Command) : (script c).length ≤ 55 := by
  cases c with
  | hello =>
    have hlength : (Text.Utf16.units greeting).length = 13 := by decide +kernel
    simp [script, helloUnitScript, pushUnitScript, hlength]
  | _ => decide

/-- Jumps of a routine lead to labels that are bound. -/
theorem jump_bound {c : Command} {op : Opcode} {label : Nat} (h : .jump op label ∈ script c) :
    ((gauge c).labels.getD label {}).bound = true := by
  cases c with
  | print =>
    have hlabel : label = 0 ∨ label = 1 := by
      simp [script, printScript, popUnitScript, popCellRequest] at h
      omega
    rcases hlabel with rfl | rfl <;> rfl
  | hello => simp [script, helloUnitScript, pushUnitScript, pushCellRequest] at h
  | _ => simp [script, popUnitScript, popCellRequest, pushUnitScript, pushCellRequest] at h

variable {d : ClassDraft}

/-- A routine takes at most 333 constants. -/
theorem routine_succeeds (c : Command) (hroom : d.pool.size + 333 ≤ Pool.capacity)
    (hmethods : d.methods.size < ClassDraft.maxMethods) :
    ∃ e, ClassDraft.method (Access.isPrivate ||| Access.isStatic) c.name descriptor (body c) d =
        .ok () e ∧
      e.pool.size ≤ d.pool.size + 333 ∧ e.methods.size = d.methods.size + 1 := by
  have hlength := length_script c
  obtain ⟨e, he, hsize, hcount⟩ := ClassDraft.script_succeeds _ c.name parse_descriptor
    routine_slots (name_short c) descriptor_short (body_run c d.pool 1) (measure_script c)
    (script_short c) (by omega) (fun op label => jump_bound) (by omega) hmethods
  exact ⟨e, he, by omega, hcount⟩

/-- The loop over the commands never runs out of room: a routine adds at most 333 constants and one
method. -/
theorem routines_succeed (commands : List Command)
    (hroom : d.pool.size + 333 * commands.length ≤ Pool.capacity)
    (hmethods : d.methods.size + commands.length ≤ ClassDraft.maxMethods) :
    ∃ e, commands.forM (fun c => ClassDraft.method (Access.isPrivate ||| Access.isStatic) c.name
        descriptor (body c)) d = .ok () e ∧
      e.pool.size ≤ d.pool.size + 333 * commands.length ∧
      e.methods.size = d.methods.size + commands.length := by
  induction commands generalizing d with
  | nil => exact ⟨d, rfl, by simp, by simp⟩
  | cons c commands ih =>
    rw [List.length_cons] at hroom hmethods ⊢
    obtain ⟨m, hm, hsize, hcount⟩ := routine_succeeds c (d := d) (by lia) (by omega)
    obtain ⟨e, he, hsize', hcount'⟩ := ih (d := m) (by lia) (by omega)
    exact ⟨e, (bind_of_ok hm).trans he, by lia, by omega⟩

/-- A draft with few constants and methods takes the constructor and the routines. -/
theorem declare_succeeds (hroom : d.pool.size + 2019 ≤ Pool.capacity)
    (hmethods : d.methods.size + 7 ≤ ClassDraft.maxMethods) :
    ∃ e, declare d = .ok () e ∧ e.pool.size ≤ d.pool.size + 2019 ∧
      e.methods.size = d.methods.size + 7 := by
  have hparse : MethodType.parse "()V" = .ok ⟨[], none⟩ := by cbv
  have hmeasure : measureAll constructorScript { maxLocals := 1 } =
      some ((), ⟨none, 1, 1, #[]⟩) := by cbv
  have hslots : ClassDraft.parameterSlots Access.isPublic ⟨[], none⟩ = .ok 1 := rfl
  obtain ⟨m, hm, hsize, hcount⟩ := ClassDraft.script_succeeds Access.isPublic "<init>" (d := d)
    hparse hslots (by cbv) (by cbv) constructor_performs.run hmeasure
    (short_of_texts (by cbv)) (by decide)
    (fun op label hjump => by simp [constructorScript] at hjump)
    (show d.pool.size + 6 * 3 + 3 ≤ _ by omega) (by omega)
  replace hsize : m.pool.size ≤ d.pool.size + 6 * 3 + 3 := hsize
  have hall : Command.all.length = 6 := rfl
  obtain ⟨e, he, hsize', hcount'⟩ := routines_succeed Command.all (d := m) (by omega) (by omega)
  exact ⟨e, (bind_of_ok hm).trans he, by omega, by omega⟩

end Routines

namespace MainMethod

theorem length_openBytes_plain (op : Opcode) (a : Assembler) :
    (openBytes (.plain op, a)).length = 1 := rfl

theorem length_openBytes_new (a : Assembler) (className : String) :
    (openBytes (.onType .new className, a)).length = 3 := rfl

theorem length_openBytes_call {kind : CallKind} (h : kind = .static ∨ kind = .special)
    (a : Assembler) (owner name descriptor : String) :
    (openBytes (.call kind owner name descriptor, a)).length = 3 := by
  rcases h with rfl | rfl <;> rfl

/-- A call takes four bytes. -/
theorem size_of_calls {own : String} {commands : List Command} {a b : Assembler}
    (h : performAll (commands.flatMap (callScript own)) a = .ok () b) :
    b.code.size = a.code.size + 4 * commands.length := by
  induction commands generalizing a with
  | nil =>
    cases h
    rfl
  | cons c commands ih =>
    obtain ⟨m, hcall, hrest⟩ := performAll_append.mp h
    obtain ⟨n, hdup, hcall⟩ := performAll_cons.mp hcall
    obtain ⟨_, hinvoke, hnil⟩ := performAll_cons.mp hcall
    cases hnil
    have hdup := size_of_performed (performed hdup)
    have hinvoke := size_of_performed (performed hinvoke)
    rw [length_openBytes_plain] at hdup
    rw [length_openBytes_call (.inl rfl)] at hinvoke
    rw [ih hrest, hinvoke, hdup, List.length_cons]
    omega

/-- Up to its last command, a main method has four bytes for each command and seven before them. -/
theorem size_of_opening {own : String} {commands : List Command} {a b : Assembler}
    (h : performAll (openingScript own commands) a = .ok () b) :
    b.code.size = a.code.size + 7 + 4 * commands.length := by
  obtain ⟨a₁, hnew, h⟩ := performAll_cons.mp h
  obtain ⟨a₂, hdup, h⟩ := performAll_cons.mp h
  obtain ⟨a₃, hinit, hcalls⟩ := performAll_cons.mp h
  have hnew := size_of_performed (performed hnew)
  have hdup := size_of_performed (performed hdup)
  have hinit := size_of_performed (performed hinit)
  rw [length_openBytes_new] at hnew
  rw [length_openBytes_call (.inr rfl)] at hinit
  rw [length_openBytes_plain] at hdup
  rw [size_of_calls hcalls, hinit, hdup, hnew]

/-- The code of a main method has two more bytes. -/
theorem size_of_script {own : String} {commands : List Command} {a b : Assembler}
    (h : performAll (script own commands) a = .ok () b) :
    b.code.size = a.code.size + 9 + 4 * commands.length := by
  obtain ⟨m, hbefore, hafter⟩ := performAll_append.mp h
  obtain ⟨n, hpop, hafter⟩ := performAll_cons.mp hafter
  obtain ⟨_, hret, hnil⟩ := performAll_cons.mp hafter
  cases hnil
  have hpop := size_of_performed (performed hpop)
  have hret := size_of_performed (performed hret)
  rw [length_openBytes_plain] at hpop hret
  rw [hret, hpop, size_of_opening hbefore]
  omega

theorem opening_jumpless (own : String) (commands : List Command) (op : Opcode) (label : Nat) :
    .jump op label ∉ openingScript own commands := by
  simp [openingScript, callScript]

theorem script_jumpless (own : String) (commands : List Command) (op : Opcode) (label : Nat) :
    .jump op label ∉ script own commands := by
  simp [script, opening_jumpless]

/-- The depths of a main method between two calls: only the queue is on the stack. -/
def idle : Gauge :=
  ⟨some 1, 2, 1, #[]⟩

/-- The pool has the constant that a call of a command refers to. -/
def Known (owner : String) (pool : Pool) (c : Command) : Prop :=
  ∃ i, Pool.addMember .method owner c.name Routines.descriptor pool = .ok i pool

variable {owner : String} {a : Assembler} {p q : Pool} {c : Command}

theorem Known.mono (h : Known owner p c) (hp : p.Sound) (hq : q.Sound) (hpq : p.Extends q) :
    Known owner q c := by
  obtain ⟨i, hi⟩ := h
  exact ⟨i, Pool.addMember_repeats _ _ _ _ p p q i hp hi hpq hq⟩

/-- A constant that was added is known from then on. -/
theorem known_of_addMember {i : UInt16} (hp : p.Sound)
    (h : Pool.addMember .method owner c.name Routines.descriptor p = .ok i q) :
    Known owner q c :=
  ⟨i, Pool.addMember_repeats _ _ _ _ p q q i hp h (Pool.Extends.refl q)
    (((Pool.addMember_grows _ _ _ _).of_ok h).sound hp)⟩

/-- A call succeeds if its constant can be had, and takes nothing else from the pool. -/
theorem call_succeeds {i : UInt16} (hidle : a.gauge = idle)
    (h : Pool.addMember .method owner c.name Routines.descriptor a.pool = .ok i q) :
    ∃ b, performAll (callScript owner c) a = .ok () b ∧ b.gauge = idle ∧ b.pool = q := by
  have hdup : (Request.plain .dup).measure a.gauge = some ((), ⟨some 2, 2, 1, #[]⟩) := by
    rw [hidle]
    cbv
  obtain ⟨m, hm, hgauge⟩ := perform_of_measure hdup fun add hadd => by cases hadd
  have hsame : m.pool = a.pool := (performed hm).pool
  have hcall : (Request.call .static owner c.name Routines.descriptor).measure m.gauge =
      some ((), idle) := by
    rw [hgauge]
    cbv
  obtain ⟨b, hb, hgauge'⟩ := perform_of_measure hcall fun add hadd => by
    cases hadd
    rw [hsame]
    exact ⟨i, q, h⟩
  refine ⟨b, performAll_cons.mpr ⟨m, hm, performAll_cons.mpr ⟨b, hb, rfl⟩⟩, hgauge', ?_⟩
  have hpool := (performed hb).pool
  dsimp only [constant?] at hpool
  rw [hsame] at hpool
  exact congrArg leftBy (hpool.symm.trans h)

theorem card_commands_le (seen : Finset Command) : seen.card ≤ 6 := by
  have hall : seen ⊆ Command.all.toFinset := fun c _ => by cases c <;> decide
  exact Finset.card_le_card hall

/-- The calls of a main method take six constants for each command that they have not seen before.
The commands seen so far are those whose constants are known. -/
theorem calls_succeed (howner : encodedLength owner ≤ Pool.maxTextLength) (commands : List Command)
    (seen : Finset Command) (hsound : a.pool.Sound) (hidle : a.gauge = idle)
    (hseen : ∀ c ∈ seen, Known owner a.pool c)
    (hroom : a.pool.size + 6 * (6 - seen.card) ≤ Pool.capacity) :
    ∃ b, performAll (commands.flatMap (callScript owner)) a = .ok () b ∧ b.gauge = idle ∧
      b.pool.size ≤ a.pool.size + 6 * (6 - seen.card) := by
  induction commands generalizing a seen with
  | nil => exact ⟨a, rfl, hidle, by omega⟩
  | cons c commands ih =>
    -- The command counts as seen from here on; only a new one takes constants.
    obtain ⟨i, q, hadd, hsize⟩ : ∃ i q,
        Pool.addMember .method owner c.name Routines.descriptor a.pool = .ok i q ∧
        q.size + 6 * (6 - (insert c seen).card) ≤ a.pool.size + 6 * (6 - seen.card) := by
      by_cases hc : c ∈ seen
      · obtain ⟨i, hi⟩ := hseen c hc
        exact ⟨i, a.pool, hi, by rw [Finset.insert_eq_of_mem hc]⟩
      · have hcard := card_commands_le (insert c seen)
        rw [Finset.card_insert_of_notMem hc] at hcard ⊢
        obtain ⟨i, q, hq, hgrowth⟩ :=
          Pool.addMember_succeeds .method howner (Routines.name_short c) Routines.descriptor_short
            a.pool (by omega)
        exact ⟨i, q, hq, by omega⟩
    obtain ⟨m, hm, hmidle, rfl⟩ := call_succeeds hidle hadd
    have hgrows := (Pool.addMember_grows _ _ _ _).of_ok hadd
    have hmsound := hgrows.sound hsound
    have hknown : ∀ d ∈ insert c seen, Known owner m.pool d := by
      intro d hd
      rcases Finset.mem_insert.mp hd with rfl | hd
      · exact known_of_addMember hsound hadd
      · exact (hseen d hd).mono hsound hmsound hgrows.earlier
    obtain ⟨b, hb, hbidle, hbsize⟩ := ih _ hmsound hmidle hknown (by omega)
    exact ⟨b, performAll_append.mpr ⟨m, hm, hb⟩, hbidle, by omega⟩

/-- A main method up to its last command takes at most 54 constants, however many there are. -/
theorem opening_succeeds (howner : encodedLength owner ≤ Pool.maxTextLength)
    (commands : List Command) (hp : p.Sound) (hroom : p.size + 54 ≤ Pool.capacity) :
    ∃ b, performAll (openingScript owner commands) (start p 1) = .ok () b ∧ b.gauge = idle ∧
      b.pool.size ≤ p.size + 54 := by
  have hopening : measureAll (openingScript owner []) { maxLocals := 1 } = some ((), idle) := by cbv
  rw [← gauge_start p] at hopening
  -- The three requests in front, then the calls.
  obtain ⟨a₁, h₁, hgauge₁, hsize₁⟩ := performAll_succeeds (short_of_texts (by cbv))
    (show p.size + 6 * 3 ≤ _ by omega) hopening
  replace hsize₁ : a₁.pool.size ≤ p.size + 6 * 3 := hsize₁
  have hsound₁ := ((performAll_reaches _).of_ok h₁).evolves.pool.sound hp
  obtain ⟨a₂, h₂, hgauge₂, hsize₂⟩ := calls_succeed howner commands ∅ hsound₁ hgauge₁
    (fun c hc => by simp at hc) (by rw [Finset.card_empty]; omega)
  rw [Finset.card_empty] at hsize₂
  refine ⟨a₂, ?_, hgauge₂, by omega⟩
  rw [show openingScript owner commands =
    openingScript owner [] ++ commands.flatMap (callScript owner) from rfl, performAll_append]
  exact ⟨a₁, h₁, h₂⟩

/-- A main method of any length takes at most 66 constants. -/
theorem script_succeeds (howner : encodedLength owner ≤ Pool.maxTextLength)
    (commands : List Command) (hp : p.Sound) (hroom : p.size + 66 ≤ Pool.capacity) :
    ∃ b, performAll (script owner commands) (start p 1) = .ok () b ∧ b.pool.size ≤ p.size + 66 := by
  have hclosing : measureAll [.plain .pop, .plain .ret] idle =
      some ((), ⟨none, 2, 1, #[]⟩) := by cbv
  obtain ⟨m, hm, hgauge, hsize⟩ := opening_succeeds howner commands hp (by omega)
  rw [← hgauge] at hclosing
  obtain ⟨b, hb, -, hsize'⟩ := performAll_succeeds (short_of_texts (by cbv))
    (show m.pool.size + 6 * 2 ≤ _ by omega) hclosing
  replace hsize' : b.pool.size ≤ m.pool.size + 6 * 2 := hsize'
  exact ⟨b, performAll_append.mpr ⟨m, hm, hb⟩, by omega⟩

end MainMethod

namespace Compile

variable {settings : Settings} {source : List Char} {text : String} {name : ClassName}
  {d : ClassDraft}

theorem scaffold_succeeds (hname : encodedLength name.internal ≤ Pool.maxTextLength) :
    ∃ d, scaffold name = .ok d ∧ d.pool.size ≤ 2023 ∧ d.methods.size = 7 := by
  obtain ⟨fresh, hcreate, hsize, hcount⟩ := ClassDraft.create_succeeds name.internal
    Routines.objectClass (Access.isPublic ||| Access.isSuper) hname (by cbv)
  obtain ⟨d, hdeclare, hsize', hcount'⟩ := Routines.declare_succeeds (d := fresh)
    (by rw [Pool.capacity]; omega) (by rw [ClassDraft.maxMethods]; omega)
  refine ⟨d, ?_, by omega, by omega⟩
  simp only [scaffold, hcreate, hdeclare]

/-- What becomes of a main method whose requests, without jumps, all succeed: it is declared, or its
code is too long. -/
theorem main_declared {limit : Option Nat} {rs : List Request}
    {v : Except Nat MainMethod.Tally} {a : Assembler}
    (hbody : MainMethod.body name.internal limit source = (do performAll rs; return v))
    (hrun : performAll rs (start d.pool 1) = .ok () a) (hjumps : ∀ op label, .jump op label ∉ rs)
    (hroom : a.pool.size + 3 ≤ Pool.capacity) (hmethods : d.methods.size < ClassDraft.maxMethods) :
    ∃ e, ClassDraft.method (Access.isPublic ||| Access.isStatic) "main" MainMethod.descriptor
        (MainMethod.body name.internal limit source) d =
      (if a.code.size ≤ maxCodeLength then .ok v e else .error (.codeTooLarge a.code.size) e) ∧
      (a.code.size ≤ maxCodeLength → e.pool.size ≤ a.pool.size + 3) := by
  have hresult : MainMethod.body name.internal limit source (start d.pool 1) = .ok v a := by
    rw [hbody, bind_of_ok hrun]
    rfl
  by_cases hsize : a.code.size ≤ maxCodeLength
  · obtain ⟨code, hfinish, -⟩ := finish_succeeds hrun hsize
      fun op label hjump => absurd hjump (hjumps op label)
    obtain ⟨e, he, hpool, -⟩ := ClassDraft.method_succeeds _ "main" MainMethod.parse_descriptor
      MainMethod.main_slots (by cbv) (by cbv) hresult hfinish hroom hmethods
    exact ⟨e, by rw [if_pos hsize, he], fun _ => hpool⟩
  · have hfinish := finish_refuses hrun (by omega) hjumps
    have hassembled : ClassDraft.assemble 1 (MainMethod.body name.internal limit source) d.pool =
        .error (.codeTooLarge a.code.size) a.pool := by
      simp only [ClassDraft.assemble, hresult, hfinish]
    have he := ClassDraft.method_refuses _ "main" MainMethod.parse_descriptor
      MainMethod.main_slots hassembled
    exact ⟨_, by rw [if_neg hsize, he], fun hle => absurd hle hsize⟩

/-- A main method that keeps to the limits can be added. -/
theorem addMain_succeeds (hsound : d.pool.Sound)
    (hname : encodedLength name.internal ≤ Pool.maxTextLength)
    (hlimit : ∀ m, settings.maxCommands = some m → (commandsOf source).length ≤ m)
    (hlength : 9 + 4 * (commandsOf source).length ≤ 65535)
    (hroom : d.pool.size + 69 ≤ Pool.capacity) (hmethods : d.methods.size < ClassDraft.maxMethods) :
    ∃ tally e, addMain settings name source d = .ok (tally, e) ∧
      e.pool.size ≤ d.pool.size + 69 := by
  rcases MainMethod.body_cases name.internal settings.maxCommands source with
    ⟨-, hbody⟩ | ⟨m, hm, hlt, -⟩
  · obtain ⟨a, ha, hsize⟩ := MainMethod.script_succeeds hname (commandsOf source) hsound
      (by omega)
    have hcode : a.code.size = 0 + 9 + 4 * (commandsOf source).length :=
      MainMethod.size_of_script ha
    obtain ⟨e, he, hpool⟩ := main_declared hbody ha (MainMethod.script_jumpless _ _) (by omega)
      hmethods
    have hshort : a.code.size ≤ maxCodeLength := by
      rw [maxCodeLength]
      omega
    rw [if_pos hshort] at he
    have hgrowth := hpool hshort
    refine ⟨MainMethod.tallyOf source, e, ?_, by omega⟩
    simp only [addMain, he]
  · have hle := hlimit m hm
    omega

/-- A source file takes two texts; the name of the attribute is short, so that only the file's own
matters. -/
theorem addSourceFile_succeeds
    (hfile : ∀ file, settings.sourceFile = some file → encodedLength file ≤ Pool.maxTextLength)
    (hroom : d.pool.size + 2 ≤ Pool.capacity) : ∃ e, addSourceFile settings d = .ok e := by
  unfold addSourceFile
  cases hset : settings.sourceFile with
  | none => exact ⟨d, rfl⟩
  | some file =>
    obtain ⟨i, q, hq, hsize⟩ := Pool.addText_succeeds (s := "SourceFile") (by cbv) d.pool (by omega)
    obtain ⟨j, r, hr, -⟩ := Pool.addText_succeeds (hfile file hset) q (by omega)
    have hnamed : ClassDraft.setSourceFile file d =
        .ok () { d with pool := r, sourceFile := some (i, j) } :=
      (bind_of_ok (ClassDraft.onPool_of_ok hq)).trans
        ((bind_of_ok (ClassDraft.onPool_of_ok hr)).trans rfl)
    simp only [hnamed]
    exact ⟨_, rfl⟩

/-- A program compiles if its class has a name, the texts fit a pool, its commands keep to the
limit, and its main method to the length of code. -/
theorem compile_succeeds (settings : Settings) (htext : ClassName.parse text = .ok name)
    (hname : encodedLength name.internal ≤ Pool.maxTextLength)
    (hfile : ∀ file, settings.sourceFile = some file → encodedLength file ≤ Pool.maxTextLength)
    (hlimit : ∀ m, settings.maxCommands = some m → (commandsOf source).length ≤ m)
    (hlength : 9 + 4 * (commandsOf source).length ≤ 65535) :
    ∃ c, compile settings source text = .ok c ∧ c.name = name := by
  have hcapacity : Pool.capacity = 65534 := rfl
  obtain ⟨d, hscaffold, hsize, hcount⟩ := scaffold_succeeds hname
  obtain ⟨_, hrecords, -⟩ := scaffold_follows hscaffold
  obtain ⟨tally, e, hmain, hsize'⟩ := addMain_succeeds hrecords.pool hname hlimit hlength
    (by omega) (by rw [ClassDraft.maxMethods]; omega)
  obtain ⟨f, hsource⟩ := addSourceFile_succeeds (d := e) hfile (by omega)
  have hnameOf : nameOf text = .ok name := by rw [nameOf, htext]
  have hbuild : build settings source text = .ok ⟨name, tally, f⟩ :=
    build_eq_ok.mpr ⟨d, e, hnameOf, hscaffold, hmain, hsource⟩
  exact ⟨Result.compiled ⟨name, tally, f⟩, except_bind_eq_ok.mpr ⟨_, hbuild, rfl⟩, rfl⟩

/-- Under a short name and default settings, only the length of the program matters. -/
theorem compile_within {name : ClassName} (source : List Char)
    (htext : ClassName.parse text = .ok name)
    (hname : encodedLength name.internal ≤ Pool.maxTextLength)
    (hlength : 9 + 4 * (commandsOf source).length ≤ 65535) :
    ∃ c, compile {} source text = .ok c ∧ c.name = name :=
  compile_succeeds {} htext hname (fun _ hfile => by cases hfile) (fun _ hlimit => by cases hlimit)
    hlength

theorem compile_demo (source : List Char)
    (hlength : 9 + 4 * (commandsOf source).length ≤ 65535) :
    ∃ c, compile {} source "demo.Main" = .ok c ∧ c.name.internal = "demo/Main" := by
  have hparse : ClassName.parse "demo.Main" = .ok ⟨["demo", "Main"]⟩ := by rfl
  obtain ⟨c, hc, hname⟩ := compile_within source hparse (by cbv) hlength
  exact ⟨c, hc, by rw [hname]; rfl⟩

end Compile

end StackGlyph
