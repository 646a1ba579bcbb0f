import Mathlib
import StackGlyph.Proofs.CompiledClass
import StackGlyph.Proofs.Completion
import StackGlyph.Proofs.OperandSafety

/-!
# Routines that come to lack operands

A routine whose body was assembled may come to lack operands when it is called. This has three
causes. An instruction may have been accepted at a depth below what it takes, since the assembler
looks only at what it leaves. The depth at a label may have been unknown when it was bound, and
control arrives there all the same. And a call within the class may have been counted with a result,
which the machine does not hand on. Where neither of the last two is the case, the instruction at
which operands are missing is one of the first kind.
-/
namespace StackGlyph

open Request Assembler Machine

theorem parse_routineDescriptor :
    MethodType.parse routineDescriptor = .ok ⟨[⟨0, .object "java/util/Deque"⟩], none⟩ := by cbv

/-- The only parameter of a static routine is the stack of cells. -/
theorem slots_of_routine {access : UInt16} {m : MethodType}
    (hstatic : Access.has access Access.isStatic = true)
    (hm : MethodType.parse routineDescriptor = .ok m) : ClassDraft.entrySlots access m = 1 := by
  rw [parse_routineDescriptor] at hm
  cases hm
  rw [ClassDraft.entrySlots, if_pos hstatic]
  rfl

/-! ## Bodies that are accepted -/

section Bodies

variable {d : ClassDraft} {a b : Assembler} {rs : List Request} {g : Gauge}

/-- The requests of a run, each with the gauge at which it is served. -/
def measured (g : Gauge) : List Request → List (Request × Gauge)
  | [] => []
  | r :: rest => (r, g) :: measured ((r.measure g).elim g (·.2)) rest

theorem map_gauge_history (h : performAll rs a = .ok () b) :
    (history a rs).map (fun s => (s.1, s.2.gauge)) = measured a.gauge rs := by
  induction rs generalizing a with
  | nil => rfl
  | cons r rs ih =>
    obtain ⟨m, hr, hrs⟩ := performAll_cons.mp h
    rw [history_cons hr, List.map_cons, ih hrs, measured, gauge_of_perform hr]
    rfl

/-- A few requests that can be measured in a method with one parameter, and that bind the labels
which jumps lead to. -/
structure Modest (rs : List Request) (g : Gauge) : Prop where
  measure : measureAll rs { maxLocals := 1 } = some ((), g)
  short : ∀ r ∈ rs, r.Short
  length : rs.length ≤ 10
  bound : ∀ op label, .jump op label ∈ rs → (g.labels.getD label {}).bound = true

/-- No request lacks operands if none does by measure. -/
theorem Modest.not_lacks (h : Modest rs g) (hpool : d.pool.size ≤ 100)
    (hall : ∀ v ∈ measured { maxLocals := 1 } rs, v.2.depth.all (v.1.operands ≤ ·) = true) :
    ∀ s ∈ history (start d.pool 1) rs, ¬ Lacks s := by
  have hroom : (start d.pool 1).pool.size + 6 * rs.length ≤ Pool.capacity := by
    have hlength := h.length
    rw [Pool.capacity, start]
    dsimp only
    omega
  have hmeasure := h.measure
  rw [← gauge_start d.pool] at hmeasure hall
  obtain ⟨a, hrun, -⟩ := performAll_succeeds h.short hroom hmeasure
  rintro s hs ⟨n, hdepth, hshort⟩
  have hmem : (s.1, s.2.gauge) ∈ measured (start d.pool 1).gauge rs := by
    rw [← map_gauge_history hrun]
    exact List.mem_map_of_mem hs
  have hknown : s.2.gauge.depth = some n := hdepth
  have henough := hall _ hmem
  rw [hknown, Option.all_some, decide_eq_true_iff] at henough
  exact absurd hshort henough.not_gt

/-- Such a body is accepted for a static method of a small class. -/
theorem Modest.accepted {name descriptor : String} {t : MethodType} (h : Modest rs g)
    (hparse : MethodType.parse descriptor = .ok t) (hslots : ClassDraft.parameterSlots 9 t = .ok 1)
    (hname : Text.ModifiedUtf8.encodedLength name ≤ Pool.maxTextLength)
    (hdescriptor : Text.ModifiedUtf8.encodedLength descriptor ≤ Pool.maxTextLength)
    (hpool : d.pool.size ≤ 100) (hmethods : d.methods.size ≤ 1) :
    ∃ e, ClassDraft.method 9 name descriptor (performAll rs) d = .ok () e ∧
      e.pool.size ≤ d.pool.size + 63 ∧ e.methods.size = d.methods.size + 1 := by
  have hlength := h.length
  have hroom : d.pool.size + 6 * rs.length + 3 ≤ Pool.capacity := by
    rw [Pool.capacity]
    omega
  have hcount : d.methods.size < ClassDraft.maxMethods := by
    rw [ClassDraft.maxMethods]
    omega
  obtain ⟨e, hmethod, hsize, hgrown⟩ := ClassDraft.script_succeeds 9 name hparse hslots hname
    hdescriptor rfl h.measure h.short (by omega) h.bound hroom hcount
  exact ⟨e, hmethod, by omega, hgrown⟩

theorem Modest.accepted_routine (h : Modest rs g) (hpool : d.pool.size ≤ 100)
    (hmethods : d.methods.size ≤ 1) :
    ∃ e, ClassDraft.method 9 "f" routineDescriptor (performAll rs) d = .ok () e := by
  obtain ⟨e, hmethod, -⟩ := h.accepted parse_routineDescriptor rfl
    (show Text.ModifiedUtf8.encodedLength "f" ≤ _ by decide) (by decide) hpool hmethods
  exact ⟨e, hmethod⟩

end Bodies

/-! ## Methods of a written class -/

section Drafts

open DraftCall

variable {className superName name descriptor : String} {classAccess access : UInt16}
  {d e : ClassDraft} {rs : List Request}

theorem sound_afterAll (hcreate : ClassDraft.create className superName classAccess = .ok d)
    (calls : List DraftCall) : (afterAll d calls).pool.Sound :=
  (afterAll_records calls (ClassDraft.create_eq_ok hcreate).1).1.pool

/-- The class that a draft is written as has the code that was assembled for a method, if the method
is the first of its name and descriptor. -/
theorem method_of_draft (before after : List DraftCall)
    (hcreate : ClassDraft.create className superName classAccess = .ok d)
    (hmethod : ClassDraft.method access name descriptor (performAll rs) (afterAll d before) =
      .ok () e)
    (hfirst : ∀ m ∈ declaresAll d before, ¬ (m.name = name ∧ m.descriptor = descriptor)) :
    ∃ c t a code, ClassFile.parse (afterAll e after).bytes = .ok c ∧ c.name = .ok className ∧
      MethodType.parse descriptor = .ok t ∧
      performAll rs (start (afterAll d before).pool (ClassDraft.entrySlots access t)) = .ok () a ∧
      a.finish = .ok code ∧ a.pool.Extends c.pool ∧
      c.method? name descriptor = some ⟨access, name, descriptor, some code⟩ := by
  -- The call that declared the method, among all calls.
  let body : Body Unit := ⟨performAll rs, performAll_reaches rs⟩
  let call : DraftCall := .method access name descriptor body
  obtain ⟨hfresh, -, hown, -⟩ := ClassDraft.create_eq_ok hcreate
  obtain ⟨hrecords, -⟩ := afterAll_records before hfresh
  have hleft : call.after (afterAll d before) = e := congrArg leftBy hmethod
  have hkeeps : ClassDraft.Keeps e (afterAll e after) := by
    have hcall := (after_records call hrecords).1
    rw [hleft] at hcall
    exact (afterAll_records after hcall).2.1
  have hends := ClassDraft.method_ends hrecords.pool body.byRequests access name descriptor
  rw [show body.run = performAll rs from rfl, hmethod] at hends
  obtain ⟨n, i, j, t, code, p, -, -, he, -, -, -, ht, -, hassembled, hext⟩ := hends
  obtain ⟨a, hrun, hfinish, rfl⟩ := ClassDraft.assemble_eq_ok hassembled
  have hdeclares : call.declares (afterAll d before) =
      some ⟨access, name, descriptor, some code⟩ := by
    have hcode : body.code? access descriptor (afterAll d before).pool = some code :=
      Body.code?_of_finish ht hrun hfinish
    simp only [call, DraftCall.declares, body, hmethod]
    rw [← hcode]
  obtain ⟨pool, hentries, hlater, hparse⟩ := parse_afterAll hfresh (before ++ call :: after)
  have hall : afterAll d (before ++ call :: after) = afterAll e after := by
    rw [afterAll_append, ← hleft]
    rfl
  rw [hall] at hparse hentries
  refine ⟨_, t, a, code, hparse, Pool.classNameAt_mono hlater hown, ht, hrun, hfinish, ?_, ?_⟩
  · have hpool : e.pool = n.pool := by rw [he]
    rw [← hpool] at hext
    refine hext.trans ?_
    rw [Pool.Extends, hentries]
    exact hkeeps.pool.earlier
  · have hnone : (declaresAll d before).find?
        (fun m => m.name = name ∧ m.descriptor = descriptor) = none := by
      rw [List.find?_eq_none]
      intro m hm hsame
      exact hfirst m hm (of_decide_eq_true hsame)
    rw [ClassFile.method?, declaresAll_append, declaresAll, hdeclares, List.find?_append, hnone,
      Option.none_or, Option.toList_some, List.singleton_append, List.find?_cons_of_pos]
    simp

/-- A call of a static routine comes to lack operands within that routine only at an instruction
that gives back some of what it takes, and that the assembler accepted at a depth below what it
takes. -/
theorem underflow_lacks_operands (before after : List DraftCall)
    (hcreate : ClassDraft.create className superName classAccess = .ok d)
    (hstatic : Access.has access Access.isStatic = true)
    (hmethod : ClassDraft.method access name routineDescriptor (performAll rs) (afterAll d before) =
      .ok () e)
    (hfirst : ∀ m ∈ declaresAll d before, ¬ (m.name = name ∧ m.descriptor = routineDescriptor))
    (htraceable : Traceable className (history (start (afterAll d before).pool 1) rs)) :
    ∃ c, ClassFile.parse (afterAll e after).bytes = .ok c ∧ ∀ limits store units site t,
      callRoutine (Program.link c) limits name units store = (.trapped (.operandUnderflow site), t) →
      (∃ f, (Invocation.routine name units).TrapsIn (Program.link c) limits store
          (.operandUnderflow site) f ∧
        ¬ (f.method.name = name ∧ f.method.descriptor = routineDescriptor)) ∨
      ∃ s ∈ history (start (afterAll d before).pool 1) rs, Lacks s ∧ site = ⟨name, s.2.code.size⟩ ∧
        ∃ op ∈ Opcode.exchanging, s.1 = .plain op ∨ ∃ type, s.1 = .onType op type := by
  obtain ⟨c, m, a, code, hparse, hname, hm, hrun, hfinish, hlater, hfind⟩ :=
    method_of_draft before after hcreate hmethod hfirst
  rw [slots_of_routine hstatic hm] at hrun
  refine ⟨c, hparse, ?_⟩
  intro limits store units site t hcall
  obtain ⟨f, htraps⟩ := trapsIn_of_callRoutine hcall
  by_cases hsame : f.method.name = name ∧ f.method.descriptor = routineDescriptor
  · right
    have hlinked := linkedFrom_asked hrun hfinish hfind rfl rfl
    obtain ⟨s, hs, hlacks, hsite⟩ := lacks_of_trap hname (sound_afterAll hcreate before)
      hrun hfinish hlater htraceable hlinked htraps hsame.1 hsame.2
    obtain ⟨b, -, hperform, -⟩ := later_of_mem hrun hs
    exact ⟨s, hs, hlacks, hsite, exchanging_of_lacks hperform (htraceable.narrow s hs) hlacks⟩
  · exact .inl ⟨f, htraps, hsame⟩

/-- A loop around an addition, in which every operand is there. -/
theorem underflow_lacks_operands_loop :
    let rs := [.newLabel, .bind 0, .pushInt 1, .plain .dup, .plain .iadd, .jump .ifeq 0, .plain .ret]
    ∃ d e, ClassDraft.create "A" "java/lang/Object" 0x21 = .ok d ∧
      ClassDraft.method 9 "f" routineDescriptor (performAll rs) d = .ok () e ∧
      Traceable "A" (history (start d.pool 1) rs) ∧
      ∃ c, ClassFile.parse e.bytes = .ok c ∧ ∀ limits store units site t,
        callRoutine (Program.link c) limits "f" units store =
          (.trapped (.operandUnderflow site), t) →
        ∃ f, (Invocation.routine "f" units).TrapsIn (Program.link c) limits store
            (.operandUnderflow site) f ∧
          ¬ (f.method.name = "f" ∧ f.method.descriptor = routineDescriptor) := by
  intro rs
  have hmodest : Modest rs ⟨none, 2, 1, #[⟨true, some 0⟩]⟩ := by
    refine ⟨by decide +kernel, by simp [rs, Short, texts], by decide, ?_⟩
    intro op label hjump
    obtain rfl : label = 0 := by simp_all [rs]
    rfl
  obtain ⟨d, hcreate, hpool, hmethods⟩ :=
    ClassDraft.create_succeeds "A" "java/lang/Object" 0x21 (by decide) (by decide)
  obtain ⟨e, hmethod⟩ := hmodest.accepted_routine (d := d) (by omega) (by omega)
  have horderly : Orderly (history (start d.pool 1) rs) := by
    constructor
    · refine List.forall_iff_forall_mem.mp ?_
      refine ⟨?_, ?_, ?_, ?_, ?_, ?_, ?_⟩ <;> rintro _ ⟨⟩
      · exact Nat.one_pos
      · exact Nat.one_pos
    · refine List.forall_iff_forall_mem.mp ?_
      refine ⟨?_, ?_, ?_, ?_, ?_, ?_, ?_⟩ <;> rintro ⟨⟩
      rfl
  have htraceable : Traceable "A" (history (start d.pool 1) rs) :=
    { horderly.followed with
      narrow := List.forall_iff_forall_mem.mp (by repeat' constructor)
      mute := List.forall_iff_forall_mem.mp (by repeat' constructor) }
  have hnone : ∀ s ∈ history (start d.pool 1) rs, ¬ Lacks s :=
    hmodest.not_lacks (by omega) (by decide +kernel)
  obtain ⟨c, hparse, hunderflow⟩ :=
    underflow_lacks_operands [] [] hcreate (by decide) hmethod (List.forall_mem_nil _) htraceable
  refine ⟨d, e, hcreate, hmethod, htraceable, c, hparse, ?_⟩
  intro limits store units site t hcall
  rcases hunderflow limits store units site t hcall with hother | ⟨s, hs, hlacks, -⟩
  · exact hother
  · exact absurd hlacks (hnone s hs)

end Drafts

/-! ## The three causes -/

/-- The routine `f` of a drafted class lacks an operand when it is called on an empty stack. -/
def Underflows (d : ClassDraft) : Prop :=
  ∃ c offset t, ClassFile.parse d.bytes = .ok c ∧
    callRoutine (Program.link c) {} "f" [] {} = (.trapped (.operandUnderflow ⟨"f", offset⟩), t)

def routineOf (rs : List Request) : Recipe :=
  ⟨9, "f", routineDescriptor, 1, rs⟩

section Causes

variable {d e : ClassDraft} {recipes : List Recipe} {rs : List Request}

theorem follows_create {own superName : String} {access : UInt16}
    (h : ClassDraft.create own superName access = .ok d) : d.Follows own superName none [] := by
  obtain ⟨hrecords, -, hthis, hsuper⟩ := ClassDraft.create_eq_ok h
  exact ⟨[], hrecords, .nil, hthis, hsuper⟩

/-- A routine lacks an operand if its actions come to. -/
theorem underflows_of_raises (hfollows : d.Follows "A" "java/lang/Object" none recipes)
    (hfresh : recipes.find? (Recipe.declares "f" routineDescriptor) = none)
    (hmethod : ClassDraft.method 9 "f" routineDescriptor (performAll rs) d = .ok () e)
    (hlands : Lands rs)
    (hraises : ∀ c linked target, c.name = .ok "A" →
      List.Forall₂ (Recipe.Made c.pool) (recipes ++ [routineOf rs]) c.methods →
      Ahead linked 0 (rs.filterMap (action? "A" target fun label => placeOf label rs)) →
      ∃ n k w, n ≤ 100 ∧ Raises (Program.link c) {} ⟨linked, 0, []⟩ n
        ⟨rs.filterMap (action? "A" target fun label => placeOf label rs), entryLocals linked (.ref 0),
          [], ⟨#[.deque []], none, #[]⟩⟩ (.operandUnderflow (linked.siteBefore k)) w) :
    Underflows e := by
  have hslots : ClassDraft.parameterSlots 9 ⟨[⟨0, .object "java/util/Deque"⟩], none⟩ = .ok 1 := rfl
  have hfollows' : e.Follows "A" "java/lang/Object" none (recipes ++ [routineOf rs]) :=
    hfollows.method (performAll_reaches rs) parse_routineDescriptor hslots (fun _ _ h => h) hmethod
  have hfind : (recipes ++ [routineOf rs]).find? (Recipe.declares "f" routineDescriptor) =
      some (routineOf rs) := by
    rw [List.find?_append, hfresh]
    rfl
  obtain ⟨c, hparse, hown, -, -, hmade⟩ := hfollows'.parse
  obtain ⟨linked, target, code, hlinked, hname, -, -, hahead⟩ := method_made hown hmade hfind hlands
  obtain ⟨n, k, w, hn, htraps⟩ := hraises c linked target hown hmade hahead
  have hallow : Limits.Allows {} (0 + n) := by
    rintro _ ⟨⟩
    omega
  have henter : (Invocation.routine "f" []).enter (Program.link c) {} {} =
      .ok ⟨linked, 0, entryLocals linked (.ref 0), [], 0⟩ := by
    show enter (Program.link c) {} 0 "f" routineDescriptor [.ref 0] = _
    rw [enter, if_neg (by decide), hlinked]
    rfl
  have hcall : (Invocation.routine "f" []).call (Program.link c) {} {} =
      (.trapped (.operandUnderflow (linked.siteBefore k)), w.after (0 + n)) := by
    rw [Invocation.call_of_entered henter]
    exact congrArg (Option.getD · _) (htraps.traps hahead 0 hallow)
  have hperform := Invocation.perform_eq (Program.link c) {} (.routine "f" []) {}
  rw [hcall] at hperform
  have hsite : linked.siteBefore k = ⟨"f", (linked.siteBefore k).offset⟩ := by
    rw [LinkedMethod.siteBefore, hname]
    rfl
  refine ⟨c, (linked.siteBefore k).offset, w.after (0 + n), hparse, ?_⟩
  rw [← hsite]
  exact hperform

/-- An addition where there is one operand. -/
def addition : List Request :=
  [.pushInt 1, .plain .iadd, .plain .ret]

theorem addition_underflows (hfollows : d.Follows "A" "java/lang/Object" none [])
    (hpool : d.pool.size ≤ 4) (hmethods : d.methods.size = 0) :
    ∃ e, ClassDraft.method 9 "f" routineDescriptor (performAll addition) d = .ok () e ∧
      Underflows e := by
  have hmodest : Modest addition ⟨none, 1, 1, #[]⟩ :=
    ⟨by decide +kernel, by simp [addition, Short, texts], by decide, by simp [addition]⟩
  obtain ⟨e, hmethod⟩ := hmodest.accepted_routine (d := d) (by omega) (by omega)
  refine ⟨e, hmethod, underflows_of_raises hfollows rfl hmethod (by simp [addition, Lands]) ?_⟩
  intro c linked target _ _ _
  exact ⟨_, _, _, by decide, (moves_push 1).raises (.trap .operandUnderflow fun _ _ _ => rfl)⟩

/-- A label that is bound behind a jump, where the depth is unknown, and that a later jump leads to.
The value that is dropped behind the label is missing. -/
def lateJump : List Request :=
  [.newLabel, .newLabel, .jump .goto 0, .bind 1, .plain .pop, .plain .ret, .bind 0, .jump .goto 1]

/-- The assembler lost track of the depth: it was unknown at the label, so that the later jump is
taken at its word. -/
theorem lateJump_underflows (hfollows : d.Follows "A" "java/lang/Object" none [])
    (hpool : d.pool.size ≤ 4) (hmethods : d.methods.size = 0) :
    ∃ e, ClassDraft.method 9 "f" routineDescriptor (performAll lateJump) d = .ok () e ∧
      (∀ s ∈ history (start d.pool 1) lateJump, ¬ Lacks s) ∧ Underflows e := by
  have hjumps : ∀ op label, .jump op label ∈ lateJump → label = 0 ∨ label = 1 := by
    intro op label hjump
    simp only [lateJump, List.mem_cons, reduceCtorEq, Request.jump.injEq, List.not_mem_nil, or_false,
      false_or] at hjump
    omega
  have hmodest : Modest lateJump ⟨none, 0, 1, #[⟨true, some 0⟩, ⟨true, some 0⟩]⟩ := by
    refine ⟨by decide +kernel, by simp [lateJump, Short, texts], by decide, ?_⟩
    intro op label hjump
    rcases hjumps op label hjump with rfl | rfl <;> rfl
  have hlands : Lands lateJump := by
    intro op label hjump
    rcases hjumps op label hjump with rfl | rfl
    · exact ⟨3, rfl, by decide⟩
    · exact ⟨1, rfl, by decide⟩
  obtain ⟨e, hmethod⟩ := hmodest.accepted_routine (d := d) (by omega) (by omega)
  refine ⟨e, hmethod, hmodest.not_lacks (by omega) (by decide +kernel),
    underflows_of_raises hfollows rfl hmethod hlands ?_⟩
  intro c linked target _ _ hahead
  exact ⟨_, _, _, by decide, (moves_to hahead (.inl ⟨rfl, rfl⟩)).raises
    ((moves_to hahead (.inl ⟨rfl, rfl⟩)).raises (.trap .operandUnderflow fun _ _ _ => rfl))⟩

/-- A call within the class that is counted with the result of its descriptor. The result that is
dropped is missing. -/
def droppedResult : List Request :=
  [.load 0, .call .static "A" "g" "(Ljava/util/Deque;)I", .plain .pop, .plain .ret]

/-- The assembler counts the result of the descriptor, which no method of the class leaves
behind. -/
theorem droppedResult_underflows (hfollows : d.Follows "A" "java/lang/Object" none [])
    (hpool : d.pool.size ≤ 4) (hmethods : d.methods.size = 0) :
    ∃ e f, ClassDraft.method 9 "g" "(Ljava/util/Deque;)I" (performAll [.plain .ret]) d = .ok () e ∧
      ClassDraft.method 9 "f" routineDescriptor (performAll droppedResult) e = .ok () f ∧
      (∀ s ∈ history (start e.pool 1) droppedResult, ¬ Lacks s) ∧ Underflows f := by
  have hparse : MethodType.parse "(Ljava/util/Deque;)I" =
      .ok ⟨[⟨0, .object "java/util/Deque"⟩], some ⟨0, .int⟩⟩ := by cbv
  have hcallee : Modest [.plain .ret] ⟨none, 0, 1, #[]⟩ :=
    ⟨by decide +kernel, by simp [Short, texts], by decide, by simp⟩
  have hmodest : Modest droppedResult ⟨none, 1, 1, #[]⟩ :=
    ⟨by decide +kernel, by simp [droppedResult, Short, texts]; decide, by decide,
      by simp [droppedResult]⟩
  obtain ⟨e, hdeclare, hgrown, hcount⟩ := hcallee.accepted (d := d) hparse rfl
    (show Text.ModifiedUtf8.encodedLength "g" ≤ _ by decide) (by decide) (by omega) (by omega)
  obtain ⟨f, hmethod⟩ := hmodest.accepted_routine (d := e) (by omega) (by omega)
  have hfollows' := hfollows.method (r := ⟨9, "g", "(Ljava/util/Deque;)I", 1, [.plain .ret]⟩)
    (performAll_reaches _) hparse rfl (fun _ _ h => h) hdeclare
  refine ⟨e, f, hdeclare, hmethod, hmodest.not_lacks (by omega) (by decide +kernel),
    underflows_of_raises hfollows' (by decide) hmethod (by simp [droppedResult, Lands]) ?_⟩
  intro c linked target hown hmade _
  have hfind : List.find? (Recipe.declares "g" "(Ljava/util/Deque;)I")
      ([] ++ [⟨9, "g", "(Ljava/util/Deque;)I", 1, [.plain .ret]⟩] ++ [routineOf droppedResult]) =
        some ⟨9, "g", "(Ljava/util/Deque;)I", 1, [.plain .ret]⟩ := rfl
  obtain ⟨callee, _, _, hfound, -, -, -, hahead⟩ := method_made hown hmade hfind (by simp [Lands])
  have hactions : droppedResult.filterMap
      (action? "A" target fun label => placeOf label droppedResult) =
        [.load 0, .call 1 true (.ok (.own "g" "(Ljava/util/Deque;)I")), .pop, .leave] := by cbv
  have hdepth : 0 + 1 < Limits.maxCallDepth {} := by decide
  rw [hactions]
  exact ⟨_, _, _, by decide, (moves_load rfl).raises
    ((moves_call hfound hdepth hahead rfl fun _ => .refl _).raises
      (.trap .operandUnderflow fun _ _ _ => rfl))⟩

/-- Each of the three causes is met in code that is accepted, the last two where no request lacks
operands. -/
theorem accepted_code_underflows :
    ∃ d, ClassDraft.create "A" "java/lang/Object" 0x21 = .ok d ∧
      (∃ e, ClassDraft.method 9 "f" routineDescriptor (performAll addition) d = .ok () e ∧
        Underflows e) ∧
      (∃ e, ClassDraft.method 9 "f" routineDescriptor (performAll lateJump) d = .ok () e ∧
        (∀ s ∈ history (start d.pool 1) lateJump, ¬ Lacks s) ∧ Underflows e) ∧
      (∃ e f, ClassDraft.method 9 "g" "(Ljava/util/Deque;)I" (performAll [.plain .ret]) d = .ok () e ∧
        ClassDraft.method 9 "f" routineDescriptor (performAll droppedResult) e = .ok () f ∧
        (∀ s ∈ history (start e.pool 1) droppedResult, ¬ Lacks s) ∧ Underflows f) := by
  obtain ⟨d, hcreate, hpool, hmethods⟩ :=
    ClassDraft.create_succeeds "A" "java/lang/Object" 0x21 (by decide) (by decide)
  have hfollows := follows_create hcreate
  exact ⟨d, hcreate, addition_underflows hfollows hpool hmethods,
    lateJump_underflows hfollows hpool hmethods, droppedResult_underflows hfollows hpool hmethods⟩

end Causes

end StackGlyph
