import Mathlib
import StackGlyph.Proofs.Flow
import StackGlyph.Proofs.OperandHeights

/-!
# Operands that are missing

The assembler counts how many operands there are, but it looks only at what an instruction leaves:
an instruction that takes two and gives one back is accepted where there is one. This is the only
way in which assembled code comes to lack operands when it runs, as long as the assembler knows the
depth where control arrives and counts as the machine does: every value as one operand, and no
result for a call within the class. Then the height of the operand stack is the depth that the
assembler had, along every run.
-/
namespace StackGlyph

open Request Assembler Machine

/-- How many operands the instruction of an opcode takes, where this does not depend on a
descriptor. -/
def Opcode.operands : Opcode → Nat
  | .astore | .astore0 | .astore1 | .astore2 | .astore3 | .pop | .dup | .ineg | .i2c | .ifeq | .ifne
  | .checkcast => 1
  | .dup2 | .swap | .iadd | .ixor => 2
  | _ => 0

namespace Request

def operands : Request → Nat
  | .plain op | .onType op _ | .jump op _ => op.operands
  | .store _ => 1
  | .call kind _ _ descriptor =>
    match MethodType.parse descriptor with
    | .ok m => m.params.length + kind.receiverSlots
    | .error _ => 0
  | _ => 0

/-- No argument and no field that a request names is long or double, so that each takes one slot. -/
def Narrow : Request → Prop
  | .getStatic _ _ descriptor => ∀ t, FieldType.parse descriptor = .ok t → t.slots = 1
  | .call _ _ _ descriptor =>
    ∀ m, MethodType.parse descriptor = .ok m → ∀ t ∈ m.params, t.slots = 1
  | _ => True

/-- A call within the class `own` has no result. -/
def Mute (own : String) : Request → Prop
  | .call .static owner _ descriptor =>
    owner = own → ∀ m, MethodType.parse descriptor = .ok m → m.result = none
  | _ => True

/-! ## The action of a request -/

/-- An action takes the operands of a request, changes their number as the assembler counts, and
leads where the request says. -/
structure Counts (place : Nat → Option Nat) (r : Request) (action : Action) : Prop where
  takes : action.takes = r.operands
  effect : ∀ n, action.gives? = some n → ∀ delta, r.delta? = some delta →
    delta = (n : Int) - action.takes
  endsBlock : action.endsBlock = r.endsBlock
  landing : ∀ k, action.landing? = some k → ∃ op label, r = .jump op label ∧ place label = some k
  trap : ∀ site, action ≠ .trap (.operandUnderflow site)

/-- The library gives as many values as the descriptor of a routine says. -/
theorem gives_ofMember {m : Member} {t : MethodType} {n : Nat}
    (hparse : MethodType.parse m.descriptor = .ok t) (h : (Routine.ofMember m).gives? = some n) :
    t.resultSlots = n := by
  have hvoid : MethodType.parse "()V" = .ok ⟨[], none⟩ := by cbv
  have hpush : MethodType.parse "(Ljava/lang/Object;)V" =
      .ok ⟨[⟨0, .object "java/lang/Object"⟩], none⟩ := by cbv
  have hpop : MethodType.parse "()Ljava/lang/Object;" =
      .ok ⟨[], some ⟨0, .object "java/lang/Object"⟩⟩ := by cbv
  have hisEmpty : MethodType.parse "()Z" = .ok ⟨[], some ⟨0, .boolean⟩⟩ := by cbv
  have hbox : MethodType.parse "(C)Ljava/lang/Character;" =
      .ok ⟨[⟨0, .char⟩], some ⟨0, .object "java/lang/Character"⟩⟩ := by cbv
  have hunbox : MethodType.parse "()C" = .ok ⟨[], some ⟨0, .char⟩⟩ := by cbv
  have hprint : MethodType.parse "(C)V" = .ok ⟨[⟨0, .char⟩], none⟩ := by cbv
  obtain ⟨owner, name, descriptor⟩ := m
  dsimp only at hparse
  unfold Routine.ofMember at h
  dsimp only at h
  split at h <;> cases h
  all_goals
    simp only [hvoid, hpush, hpop, hisEmpty, hbox, hunbox, hprint, Except.ok.injEq] at hparse
    subst hparse
    rfl

theorem ownSlots_of_narrow {m : MethodType} (h : ∀ t ∈ m.params, t.slots = 1) :
    m.ownSlots = m.params.length := by
  obtain ⟨params, result⟩ := m
  unfold MethodType.ownSlots
  induction params with
  | nil => rfl
  | cons t rest ih =>
    rw [List.foldr_cons, ← t.slots_eq_width, h t List.mem_cons_self, List.length_cons,
      ih fun t ht => h t (List.mem_cons_of_mem _ ht), Nat.add_comm]

variable {r : Request} {a b : Assembler} {own : String} {target : Nat → Nat}
  {place : Nat → Option Nat} {action : Action}

theorem counts_plain {op : Opcode} (hsuits : Operand.none.Suits op.layout) :
    Counts place (.plain op) (plainAction op) := by
  cases op with
  | bipush | sipush | ldc | ldcW | aload | astore | ifeq | ifne | goto | getstatic | invokevirtual
  | invokespecial | invokestatic | invokeinterface | new | checkcast => exact hsuits.elim
  | ret => exact ⟨rfl, by rintro _ ⟨⟩, rfl, by rintro _ ⟨⟩, by simp [plainAction]⟩
  | _ =>
    refine ⟨rfl, ?_, rfl, by rintro _ ⟨⟩, by simp [plainAction]⟩
    rintro _ ⟨⟩ _ ⟨⟩
    rfl

theorem counts_jump {op : Opcode} {label t : Nat} (hsuits : (Operand.target t).Suits op.layout) :
    Counts place (.jump op label) (.branch (testOf op) (target label) (place label)) := by
  cases op with
  | ifeq | ifne | goto =>
    refine ⟨rfl, ?_, rfl, fun k hk => ⟨_, label, rfl, hk⟩, by rintro _ ⟨⟩⟩
    rintro _ ⟨⟩ _ ⟨⟩
    rfl
  | _ => exact hsuits.elim

/-- A narrow field is one slot for the assembler and one operand for the machine. -/
theorem counts_getStatic {owner name descriptor : String}
    (hnarrow : (Request.getStatic owner name descriptor).Narrow) :
    Counts place (.getStatic owner name descriptor) (fieldAction owner name) := by
  unfold fieldAction
  split
  · refine ⟨rfl, ?_, rfl, by rintro _ ⟨⟩, by rintro _ ⟨⟩⟩
    rintro _ ⟨⟩ delta hdelta
    simp only [delta?] at hdelta
    split at hdelta
    · next t ht =>
      cases hdelta
      rw [hnarrow t ht]
      rfl
    · cases hdelta
  · exact ⟨rfl, by rintro _ ⟨⟩, rfl, by rintro _ ⟨⟩, by simp⟩

/-- With narrow arguments, slots and operands are the same number. A routine of the library leaves
what its descriptor says; a call within the class leaves nothing, which is why its descriptor must
say so. -/
theorem counts_call {kind : CallKind} {owner name descriptor : String}
    (hnarrow : (Request.call kind owner name descriptor).Narrow)
    (hmute : (Request.call kind owner name descriptor).Mute own) :
    Counts place (.call kind owner name descriptor)
      (callAction own (kind = .static) ⟨owner, name, descriptor⟩) := by
  unfold callAction
  dsimp only
  cases hparse : MethodType.parse descriptor with
  | error cause =>
    refine ⟨?_, by rintro _ ⟨⟩, rfl, by rintro _ ⟨⟩, by simp⟩
    simp [operands, hparse, Action.takes]
  | ok m =>
    have htakes : m.params.length + (if decide (kind = .static) = true then 0 else 1) =
        m.params.length + kind.receiverSlots := by
      cases kind <;> rfl
    dsimp only
    refine ⟨?_, ?_, rfl, by rintro _ ⟨⟩, by rintro _ ⟨⟩⟩
    · simp only [operands, hparse]
      exact htakes
    · intro n hn delta hdelta
      simp only [delta?, hparse, Option.some.injEq] at hdelta
      have hresult : m.resultSlots = n := by
        by_cases hown : kind = .static ∧ own = owner
        · obtain ⟨rfl, rfl⟩ := hown
          rw [if_pos (by simp)] at hn
          cases hn
          rw [MethodType.resultSlots, hmute rfl m hparse]
          rfl
        · rw [if_neg (by simpa using hown)] at hn
          exact gives_ofMember (m := ⟨owner, name, descriptor⟩) hparse hn
      rw [← hdelta, hresult, ownSlots_of_narrow (hnarrow m hparse)]
      simp only [Action.takes, htakes]

/-- The action of a request that was served, in a class where the assembler counts as the machine
does. -/
theorem counts_of_action (h : Performed r a b) (hnarrow : r.Narrow) (hmute : r.Mute own)
    (haction : r.action? own target place = some action) : Counts place r action := by
  cases r with
  | plain op =>
    cases haction
    exact counts_plain (h.suits target op .none rfl)
  | jump op label =>
    cases haction
    exact counts_jump (h.suits target op (.target (target label)) rfl)
  | onType op className =>
    cases haction
    rcases h.types op className rfl with rfl | rfl <;>
      exact ⟨rfl, by rintro _ ⟨⟩ _ ⟨⟩; rfl, rfl, by rintro _ ⟨⟩, by rintro _ ⟨⟩⟩
  | getStatic owner name descriptor =>
    cases haction
    exact counts_getStatic hnarrow
  | call kind owner name descriptor =>
    cases haction
    exact counts_call hnarrow hmute
  | newLabel => cases haction
  | bind label => cases haction
  | _ =>
    cases haction
    exact ⟨rfl, by rintro _ ⟨⟩ _ ⟨⟩; rfl, rfl, by rintro _ ⟨⟩, by rintro _ ⟨⟩⟩

end Request

/-! ## Requests at too small a depth -/

/-- The opcodes that give back some of what they take. What they leave is not less than nothing even
where operands are missing. -/
def Opcode.exchanging : List Opcode :=
  [.dup, .dup2, .swap, .iadd, .ineg, .ixor, .i2c, .checkcast]

/-- A request was served at a known depth, and takes more operands than that. -/
def Lacks (s : Served) : Prop :=
  ∃ n, s.2.depth = some n ∧ n < s.1.operands

namespace Request

variable {r : Request} {a b : Assembler} {n : Nat}

/-- The assembler looks for the arguments of a call. -/
theorem arguments_of_perform {kind : CallKind} {owner name descriptor : String} {m : MethodType}
    (h : (Request.call kind owner name descriptor).perform a = .ok () b)
    (hparse : MethodType.parse descriptor = .ok m) (hdepth : a.depth = some n) :
    m.ownSlots + kind.receiverSlots ≤ n := by
  obtain ⟨m', hparse', -, hthere, -⟩ := measure_call (gauge_of_perform h)
  obtain rfl : m = m' := Except.ok.inj (hparse.symm.trans hparse')
  exact hthere n hdepth

/-- A request that lacks operands is served only if it gives something back. -/
theorem exchanging_of_lacks (h : r.perform a = .ok () b) (hnarrow : r.Narrow)
    (hlacks : Lacks (r, a)) :
    ∃ op ∈ Opcode.exchanging, r = .plain op ∨ ∃ className, r = .onType op className := by
  obtain ⟨n, hdepth, hshort⟩ := hlacks
  dsimp only at hdepth hshort
  obtain ⟨behind, hshifts⟩ := shifts_of_perform h
  -- What is left behind is not less than nothing.
  have hleft : r.emits = true → ∀ delta, r.delta? = some delta → 0 ≤ (n : Int) + delta := by
    intro hemits delta hdelta
    obtain ⟨delta', left, hdelta', -, hleft, -⟩ := behind_of_depth hshifts hemits hdepth
    obtain rfl : delta = delta' := Option.some.inj (hdelta.symm.trans hdelta')
    omega
  cases r with
  | plain op =>
    cases op with
    | dup | dup2 | swap | iadd | ineg | ixor | i2c | checkcast =>
      exact ⟨_, by decide, .inl rfl⟩
    | astore | astore0 | astore1 | astore2 | astore3 | pop | ifeq | ifne =>
      have := hleft rfl (-1) rfl
      replace hshort : n < 1 := hshort
      omega
    | _ => cases hshort
  | jump op label =>
    have hsuits := (performed h).suits (fun _ => 0) op (.target 0) rfl
    cases op with
    | ifeq | ifne =>
      have := hleft rfl (-1) rfl
      replace hshort : n < 1 := hshort
      omega
    | goto => cases hshort
    | _ => exact hsuits.elim
  | onType op className =>
    rcases (performed h).types op className rfl with rfl | rfl
    · cases hshort
    · exact ⟨.checkcast, by decide, .inr ⟨className, rfl⟩⟩
  | store slot =>
    have := hleft rfl (-1) rfl
    replace hshort : n < 1 := hshort
    omega
  | call kind owner name descriptor =>
    simp only [operands] at hshort
    split at hshort
    · next m hparse =>
      have harguments := arguments_of_perform h hparse hdepth
      rw [ownSlots_of_narrow (hnarrow m hparse)] at harguments
      omega
    · cases hshort
  | _ => cases hshort

end Request

/-! ## Heights on paths -/

namespace Instruction

theorem Tiled.head {offset : Nat} {is : List Instruction} (h : Tiled offset is) {i : Instruction}
    (hi : is[0]? = some i) : i.offset = offset := by
  cases h with
  | nil => cases hi
  | cons =>
    cases hi
    rfl

/-- The next instruction starts behind the one before. -/
theorem Tiled.next {offset k : Nat} {is : List Instruction} {i j : Instruction} (h : Tiled offset is)
    (hi : is[k]? = some i) (hj : is[k + 1]? = some j) : j.offset = i.behind := by
  induction h generalizing k with
  | nil => cases hi
  | @cons first rest hsuits _ htail ih =>
    cases k with
    | zero =>
      cases hi
      rw [htail.head hj, Instruction.behind, length_encode hsuits, Nat.add_assoc]
    | succ k => exact ih hi hj

end Instruction

/-- A history that the assembler can follow as the machine runs it, in a class of this name. -/
structure Traceable (own : String) (calls : List Served) : Prop extends Followed calls where
  narrow : ∀ s ∈ calls, s.1.Narrow
  mute : ∀ s ∈ calls, s.1.Mute own

section Frames

variable {c : ClassFile} {own : String} {pool : Pool} {slots : Nat} {rs : List Request}
  {a : Assembler} {code : Code} {li : LinkedInstruction}

/-- A linked instruction comes from a request, and counts as it does. -/
theorem served_at {k : Nat} (hown : c.name = .ok own) (hpool : pool.Sound)
    (hrun : performAll rs (start pool slots) = .ok () a) (hlater : a.pool.Extends c.pool)
    (htraceable : Traceable own (history (start pool slots) rs)) :
    let calls := history (start pool slots) rs
    ((asked calls).toArray.map fun i =>
      (⟨i.offset, Program.linkInstruction c (asked calls).toArray i⟩ : LinkedInstruction))[k]? =
        some li →
    ∃ i s, (asked calls)[k]? = some i ∧ s ∈ calls ∧ instruction? (targetOf calls) s = some i ∧
      li.offset = i.offset ∧
      Counts (fun label => (asked calls).findIdx? (·.offset == targetOf calls label)) s.1
        li.action := by
  intro calls h
  rw [Array.getElem?_map, List.getElem?_toArray] at h
  obtain ⟨i, hi, rfl⟩ := Option.map_eq_some_iff.mp h
  obtain ⟨s, hs, hsi⟩ := List.mem_filterMap.mp (List.mem_of_getElem? hi)
  obtain ⟨m, hperformed, hsound, hext⟩ := served_of_mem hpool hrun hs
  have haction : s.1.action? own (targetOf calls)
      (fun label => Instruction.place? (asked calls).toArray (targetOf calls label)) =
        some (Program.linkInstruction c (asked calls).toArray i) :=
    link_performed hown hperformed hsound (hext.trans hlater) hsi
  simp only [calls, place?_asked hrun] at haction
  exact ⟨i, s, hi, hs, hsi, rfl,
    counts_of_action hperformed (htraceable.narrow s hs) (htraceable.mute s hs) haction⟩

/-- A frame that goes on behind an instruction follows a path, with the height that the path has. -/
theorem passes_of_continues {f f' : Frame} {i j : Instruction} {s : Served} (hpool : pool.Sound)
    (hrun : performAll rs (start pool slots) = .ok () a) (hfinish : a.finish = .ok code)
    (hlater : a.pool.Extends c.pool) :
    let calls := history (start pool slots) rs
    s ∈ calls → instruction? (targetOf calls) s = some i → (asked calls)[f.next]? = some i →
    Counts (fun label => (asked calls).findIdx? (·.offset == targetOf calls label)) s.1 li.action →
    f'.Continues { f with next := f.next + 1 } li.action → (asked calls)[f'.next]? = some j →
    Passes (asked calls) i j ∧
      ∃ delta, i.effect? c.pool = some delta ∧ (f'.stack.length : Int) = f.stack.length + delta := by
  intro calls hs hsi hi hcounts hcontinues hj
  have htiled := (assembled hrun hfinish).tiled
  obtain ⟨hemits, heffect, m, rest, behind, hperformed, hshifts, -⟩ :=
    emitted_of_mem hpool hrun hlater hs hsi
  constructor
  · rcases hcontinues.next with ⟨hnext, hopen⟩ | hlands
    · -- The instruction passes control on.
      rw [hnext] at hj
      refine .follow (List.mem_of_getElem? hi) (List.mem_of_getElem? hj) (htiled.next hi hj) ?_
      rw [endsBlock_of_performed hperformed hsi, ← hcounts.endsBlock]
      exact hopen
    · -- It jumps to where its label stands.
      obtain ⟨op, label, hjump, hplace⟩ := hcounts.landing _ hlands
      obtain ⟨hlt, hoffset, -⟩ := List.findIdx?_eq_some_iff_getElem.mp hplace
      rw [List.getElem?_eq_getElem hlt] at hj
      cases hj
      refine .branch (List.mem_of_getElem? hi) (List.getElem_mem hlt) ?_
      rw [eq_of_beq hoffset]
      obtain ⟨r, m⟩ := s
      dsimp only at hjump
      subst hjump
      cases hsi
      rfl
  · obtain ⟨n, hgives, hheight⟩ := hcontinues.height
    obtain ⟨delta, hdelta, -⟩ := hshifts.emitted hemits
    refine ⟨delta, heffect.trans hdelta, ?_⟩
    rw [hcounts.effect n hgives delta hdelta]
    dsimp only at hheight
    omega

/-- A frame of a class stands where a path through the code of the method of this name and
descriptor arrives, with the height of the path, if it is a frame of that method. -/
structure OnPath (c : ClassFile) (is : List Instruction) (name descriptor : String) (f : Frame) :
    Prop where
  found : (Program.link c).method f.method.name f.method.descriptor = .ok f.method
  arrives : f.method.name = name → f.method.descriptor = descriptor → ∀ i, is[f.next]? = some i →
    Arrives c.pool is i f.stack.length

/-- The method of this name and descriptor is made of these instructions, if it can be linked. -/
def LinkedFrom (c : ClassFile) (is : List Instruction) (name descriptor : String) : Prop :=
  ∀ linked, (Program.link c).method name descriptor = .ok linked →
    linked.instructions = is.toArray.map fun i => ⟨i.offset, Program.linkInstruction c is.toArray i⟩

/-- A method whose code was assembled is linked from the instructions that the history asks for. -/
theorem linkedFrom_asked {name descriptor : String} {m : Method} {limits : Code}
    (hrun : performAll rs (start pool slots) = .ok () a) (hfinish : a.finish = .ok code)
    (hfind : c.method? name descriptor = some m) (hcode : m.code = some limits)
    (hbytes : limits.bytes = code.bytes) :
    LinkedFrom c (asked (history (start pool slots) rs)) name descriptor := by
  intro linked hlinked
  rw [method_link, hfind] at hlinked
  obtain ⟨code', is', hcode', hdecode, rfl⟩ := linkMethod_eq_ok hlinked
  obtain rfl : limits = code' := Option.some.inj (hcode.symm.trans hcode')
  rw [hbytes] at hdecode
  rcases decode_cases hrun hfinish with ⟨-, hok⟩ | ⟨-, e, herror⟩
  · rw [hok] at hdecode
    cases hdecode
    rfl
  · rw [herror] at hdecode
    cases hdecode

/-- What holds of the frames of a method along every run of its class. -/
theorem maintains_onPath {name descriptor : String} (hown : c.name = .ok own) (hpool : pool.Sound)
    (hrun : performAll rs (start pool slots) = .ok () a) (hfinish : a.finish = .ok code)
    (hlater : a.pool.Extends c.pool) (htraceable : Traceable own (history (start pool slots) rs))
    (hlinked : LinkedFrom c (asked (history (start pool slots) rs)) name descriptor) :
    (Program.link c).Maintains
      (OnPath c (asked (history (start pool slots) rs)) name descriptor) where
  entered := by
    intro limits depth name' descriptor' arguments f henter
    refine ⟨found_of_enter henter, fun _ _ i hi => ?_⟩
    obtain ⟨linked, -, rfl⟩ := enter_eq_ok henter
    exact .first (List.mem_of_getElem? hi) ((assembled hrun hfinish).tiled.head hi)
  continued := by
    intro f f' li hf hnext hcontinues
    have hmethod : f'.method = f.method := hcontinues.method
    refine ⟨?_, fun hname hdescriptor j hj => ?_⟩
    · rw [hmethod]
      exact hf.found
    · rw [hmethod] at hname hdescriptor
      have hfound := hf.found
      rw [hname, hdescriptor] at hfound
      rw [hlinked f.method hfound] at hnext
      obtain ⟨i, s, hi, hs, hsi, -, hcounts⟩ := served_at hown hpool hrun hlater htraceable hnext
      obtain ⟨hpasses, delta, heffect, hheight⟩ :=
        passes_of_continues hpool hrun hfinish hlater hs hsi hi hcounts hcontinues hj
      rw [hheight]
      exact (hf.arrives hname hdescriptor i hi).pass heffect hpasses

/-- Where a method lacks operands, the request did when it was served. -/
theorem lacks_of_trap {name descriptor : String} {call : Invocation} {limits : Limits} {store : Store}
    {site : Site} {f : Frame} (hown : c.name = .ok own) (hpool : pool.Sound)
    (hrun : performAll rs (start pool slots) = .ok () a) (hfinish : a.finish = .ok code)
    (hlater : a.pool.Extends c.pool) (htraceable : Traceable own (history (start pool slots) rs))
    (hlinked : LinkedFrom c (asked (history (start pool slots) rs)) name descriptor)
    (htraps : call.TrapsIn (Program.link c) limits store (.operandUnderflow site) f)
    (hname : f.method.name = name) (hdescriptor : f.method.descriptor = descriptor) :
    ∃ s ∈ history (start pool slots) rs, Lacks s ∧ site = ⟨name, s.2.code.size⟩ := by
  obtain ⟨first, state, t, henter, hsteps, rfl, hstep⟩ := htraps
  have hmaintains := maintains_onPath hown hpool hrun hfinish hlater htraceable hlinked
  have hon : OnPath c (asked (history (start pool slots) rs)) name descriptor state.frame := by
    refine frames_of_steps hmaintains ?_ hsteps state.frame List.mem_cons_self
    intro g hg
    obtain rfl := List.mem_singleton.mp hg
    exact hmaintains.entered henter
  have hfound := hon.found
  rw [hname, hdescriptor] at hfound
  have hlook : state.next? = state.frame.method.instructions[state.frame.next]? := rfl
  rw [hlinked state.frame.method hfound] at hlook
  have hserved := fun li (hli : state.next? = some li) =>
    served_at hown hpool hrun hlater htraceable (hlook.symm.trans hli)
  have hactions : ∀ li, state.next? = some li →
      ∀ site, li.action ≠ .trap (.operandUnderflow site) := by
    intro li hli
    obtain ⟨_, _, _, _, _, _, hcounts⟩ := hserved li hli
    exact hcounts.trap
  obtain ⟨li, hnext, rfl, hmissing⟩ := missing_of_step (link_sound c) hactions hstep
  obtain ⟨i, s, hi, hs, hsi, hoffset, hcounts⟩ := hserved li hnext
  obtain ⟨n, hdepth, hheight⟩ := depth_on_path hpool hrun htraceable.toFollowed hlater
    (assembled hrun hfinish).bound (hon.arrives hname hdescriptor i hi) s hs hsi
  rw [hcounts.takes] at hmissing
  refine ⟨s, hs, ⟨n, hdepth, by omega⟩, ?_⟩
  rw [hname, hoffset, (instruction?_eq_some hsi).1]

end Frames

end StackGlyph
