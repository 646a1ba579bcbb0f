import Mathlib
import StackGlyph.Proofs.Completion
import StackGlyph.Proofs.OperandSafety

/-!
# The local slots of a method

An assembler counts a local slot as used where it is asked to load or store it. Code names a slot in
a second way: a short form such as `aload_2` can be asked for as a plain opcode, and then the slot
is not counted. So the locals of finished code cover its parameters and the slots it names, except
for those that only plain opcodes name; and a call of the method finds a slot outside its frame only
there.
-/
namespace StackGlyph

open Request Assembler

/-! ## Slots that are named and slots that are counted -/

def Opcode.slot? : Opcode → Option Nat
  | .aload0 | .astore0 => some 0
  | .aload1 | .astore1 => some 1
  | .aload2 | .astore2 => some 2
  | .aload3 | .astore3 => some 3
  | _ => none

/-- The local slot that an instruction reads or writes, in the short form or in the long one. -/
def Instruction.slot? (i : Instruction) : Option Nat :=
  match i.op, i.operand with
  | .aload, .slot n | .astore, .slot n => some n.toNat
  | op, _ => op.slot?

namespace Request

/-- The local slot that a request counts as used. -/
def countedSlot? : Request → Option Nat
  | .load slot | .store slot => some slot.toNat
  | _ => none

/-- The local slot that the instruction of a request names. -/
def namedSlot? : Request → Option Nat
  | .plain op => op.slot?
  | .load slot | .store slot => some slot.toNat
  | _ => none

end Request

/-- How many locals a method needs that has these parameters, counted in slots, and names these
slots: one more than the highest of them, and never fewer than the parameters take. -/
def localsFor (parameters : Nat) (slots : List Nat) : Nat :=
  slots.foldr (fun slot n => max (slot + 1) n) parameters

theorem localsFor_le_iff {parameters n : Nat} {slots : List Nat} :
    localsFor parameters slots ≤ n ↔ parameters ≤ n ∧ ∀ slot ∈ slots, slot < n := by
  induction slots with
  | nil => simp [localsFor]
  | cons slot slots ih =>
    have hcons : localsFor parameters (slot :: slots) = max (slot + 1) (localsFor parameters slots) := rfl
    rw [hcons, max_le_iff, ih, List.forall_mem_cons]
    exact and_left_comm

/-- Two such numbers are equal if they have the same upper bounds. -/
theorem localsFor_congr {parameters parameters' : Nat} {slots slots' : List Nat}
    (h : ∀ n, (parameters ≤ n ∧ ∀ slot ∈ slots, slot < n) ↔
      parameters' ≤ n ∧ ∀ slot ∈ slots', slot < n) :
    localsFor parameters slots = localsFor parameters' slots' := by
  apply eq_of_forall_ge_iff
  intro n
  rw [localsFor_le_iff, localsFor_le_iff, h]

theorem localsFor_mono {parameters : Nat} {slots more : List Nat} (h : slots ⊆ more) :
    localsFor parameters slots ≤ localsFor parameters more := by
  obtain ⟨hparameters, hmore⟩ := localsFor_le_iff.mp (le_refl (localsFor parameters more))
  exact localsFor_le_iff.mpr ⟨hparameters, fun slot hslot => hmore slot (h hslot)⟩

/-! ## What the assembler counts -/

namespace Gauge

variable {α β : Type} {m n : Nat} {x : Gauging α}

/-- An operation on gauges provides for `n` locals, and leaves their number alone if it suffices. -/
def Provides (n : Nat) (x : Gauging α) : Prop :=
  ∀ g v g', x g = some (v, g') → g'.maxLocals = max n g.maxLocals

theorem Provides.bind {y : α → Gauging β} (hx : Provides m x) (hy : ∀ v, Provides n (y v)) :
    Provides (max n m) (x >>= y) := by
  intro g w g' h
  obtain ⟨⟨v, g₁⟩, hv, hw⟩ := Option.bind_eq_some_iff.mp h
  rw [hy v _ _ _ hw, hx _ _ _ hv, max_assoc]

/-- An operation that touches no local slot may come first. -/
theorem Provides.after {y : α → Gauging β} (hx : Provides 0 x) (hy : ∀ v, Provides n (y v)) :
    Provides n (x >>= y) := by
  rw [← Nat.max_zero n]
  exact hx.bind hy

theorem provides_failure : Provides n (failure : Gauging α) := by
  rintro g v g' ⟨⟩

theorem provides_pure (v : α) : Provides 0 (pure v : Gauging α) := by
  rintro g w g' ⟨⟩
  exact (Nat.zero_max _).symm

theorem provides_get : Provides 0 (get : Gauging Gauge) := by
  rintro g w g' ⟨⟩
  exact (Nat.zero_max _).symm

theorem provides_modify {f : Gauge → Gauge} (hf : ∀ g, (f g).maxLocals = g.maxLocals) :
    Provides 0 (modify f : Gauging Unit) := by
  rintro g v g' ⟨⟩
  rw [Nat.zero_max]
  exact hf g

theorem provides_useLocal (slot : UInt8) : Provides (slot.toNat + 1) (useLocal slot) := by
  rintro g v g' ⟨⟩
  exact max_comm _ _

theorem provides_adjust (delta : Int) : Provides 0 (adjust delta) := by
  intro g v g' h
  rw [Nat.zero_max]
  unfold adjust at h
  split at h
  · cases h
    rfl
  · dsimp only at h
    split_ifs at h
    cases h
    rfl

theorem provides_close (op : Opcode) : Provides 0 (close op) := by
  unfold close
  split
  · exact provides_modify fun _ => rfl
  · exact provides_pure ()

theorem provides_meet (label : Nat) (depth : Option Nat) : Provides 0 (meet label depth) := by
  intro g v g' h
  rw [Nat.zero_max]
  unfold meet at h
  dsimp only at h
  repeat' split at h
  all_goals cases h <;> rfl

end Gauge

namespace Request

open Gauge

variable {a b : Assembler} {r : Request} {rs : List Request}

/-- A request provides for the slot that it counts, and for no other. -/
theorem provides_measure (r : Request) :
    Provides (localsFor 0 r.countedSlot?.toList) r.measure := by
  cases r with
  | plain op =>
    rw [measure]
    split
    · exact (provides_adjust _).after fun _ => provides_close op
    · exact provides_failure
  | load slot => exact (provides_adjust 1).after fun _ => provides_useLocal slot
  | store slot => exact (provides_adjust (-1)).after fun _ => provides_useLocal slot
  | pushInt v => exact provides_adjust 1
  | loadConstant v => exact provides_adjust 1
  | onType op className =>
    rw [measure]
    split
    · exact provides_adjust _
    · exact provides_failure
  | getStatic owner name descriptor =>
    rw [measure]
    split
    · exact provides_failure
    · exact provides_adjust _
  | call kind owner name descriptor =>
    rw [measure]
    split
    · exact provides_failure
    · split
      · exact provides_failure
      · refine provides_get.after fun g => ?_
        split
        · exact provides_failure
        · refine (provides_adjust _).after fun _ => ?_
          split
          · exact provides_failure
          · exact provides_pure ()
  | newLabel => exact provides_modify fun _ => rfl
  | jump op label =>
    rw [measure]
    split
    · exact provides_failure
    · refine (provides_adjust _).after fun _ => provides_get.after fun g => ?_
      exact (provides_meet label _).after fun _ => provides_close op
  | bind label =>
    rw [measure]
    refine provides_get.after fun g => ?_
    dsimp only
    split
    · exact provides_failure
    · apply Provides.after
      · exact provides_modify fun _ => rfl
      · refine fun _ => provides_get.after fun g => ?_
        exact (provides_meet label _).after fun _ => provides_modify fun _ => rfl

theorem maxLocals_of_perform (h : r.perform a = .ok () b) :
    b.maxLocals = localsFor a.maxLocals r.countedSlot?.toList := by
  have hprovides : b.maxLocals = max (localsFor 0 r.countedSlot?.toList) a.maxLocals :=
    provides_measure r _ _ _ (gauge_of_perform h)
  rw [hprovides]
  cases r.countedSlot? with
  | none => exact Nat.zero_max _
  | some slot => simp [localsFor]

/-- The locals after a run are those for the slots that its requests count. -/
theorem maxLocals_of_performAll (h : performAll rs a = .ok () b) :
    b.maxLocals = localsFor a.maxLocals (rs.filterMap countedSlot?) := by
  induction rs generalizing a with
  | nil =>
    cases h
    rfl
  | cons r rs ih =>
    obtain ⟨m, hr, hrs⟩ := performAll_cons.mp h
    rw [ih hrs, maxLocals_of_perform hr]
    apply localsFor_congr
    intro n
    rw [localsFor_le_iff, List.filterMap_cons]
    cases r.countedSlot? with
    | none => simp
    | some slot => simp [and_assoc]

/-! ## What the code names -/

theorem slot?_of_operand {operand : Operand} (offset : Nat) (op : Opcode)
    (h : ∀ n, operand ≠ .slot n) : Instruction.slot? ⟨offset, op, operand⟩ = op.slot? := by
  cases operand with
  | slot n => exact absurd rfl (h n)
  | _ => cases op <;> rfl

/-- Both forms of an access name the slot that was asked for. -/
theorem slot?_slotForm {short : List Opcode} {long : Opcode} (offset : Nat) (slot : UInt8)
    (hshort : short.map Opcode.slot? = (List.range 4).map some)
    (hlong : long = .aload ∨ long = .astore) :
    Instruction.slot? ⟨offset, (slotForm short long slot).1, (slotForm short long slot).2⟩ =
      some slot.toNat := by
  unfold slotForm
  cases hs : short[slot.toNat]? with
  | some op =>
    have hop : (short.map Opcode.slot?)[slot.toNat]? = some op.slot? := by
      rw [List.getElem?_map, hs]
      rfl
    rw [hshort, List.getElem?_map, Option.map_eq_some_iff] at hop
    obtain ⟨k, hk, hop⟩ := hop
    obtain ⟨hlt, rfl⟩ := List.getElem?_eq_some_iff.mp hk
    rw [slot?_of_operand offset op (by simp), ← hop, List.getElem_range]
  | none => rcases hlong with rfl | rfl <;> rfl

theorem slot?_indexedPush (offset : Nat) (i : UInt16) :
    Instruction.slot? ⟨offset, (indexedPush i).1, (indexedPush i).2⟩ = none := by
  unfold indexedPush
  split <;> rfl

theorem slot?_shortestPush (offset : Nat) (v : Int) (i : UInt16) :
    Instruction.slot? ⟨offset, (shortestPush v i).1, (shortestPush v i).2⟩ = none := by
  unfold shortestPush
  split_ifs
  case neg => exact slot?_indexedPush offset i
  all_goals rfl

/-- The instruction of a request names the slot that the request names. -/
theorem slot?_of_instruction {target : Nat → Nat} {i : Instruction} (h : Performed r a b)
    (hi : instruction? target (r, a) = some i) : i.slot? = r.namedSlot? := by
  have hsuits := h.suits target i.op i.operand (instruction?_eq_some hi).2
  cases r with
  | plain op =>
    cases hi
    exact slot?_of_operand _ op (by simp)
  | load slot =>
    cases hi
    exact slot?_slotForm _ slot rfl (.inl rfl)
  | store slot =>
    cases hi
    exact slot?_slotForm _ slot rfl (.inr rfl)
  | pushInt v =>
    cases hi
    exact slot?_shortestPush _ _ _
  | loadConstant v =>
    cases hi
    exact slot?_indexedPush _ _
  | onType op className =>
    cases hi
    rcases h.types op className rfl with rfl | rfl <;> rfl
  | getStatic owner name descriptor =>
    cases hi
    rfl
  | call kind owner name descriptor =>
    cases kind <;> cases hi <;> rfl
  | newLabel => cases hi
  | jump op label =>
    cases hi
    rw [slot?_of_operand _ op (by simp)]
    cases op with
    | ifeq | ifne | goto => rfl
    | _ => cases hsuits
  | bind label => cases hi

theorem namedSlot?_of_silent (h : r.emits = false) : r.namedSlot? = none := by
  cases r with
  | newLabel | bind label => rfl
  | _ => cases h

/-- The slots that finished code names, once it is decoded, are those that the requests name. -/
theorem slots_of_decode {pool : Pool} {slots : Nat} {code : Code} {is : Array Instruction}
    (hrun : performAll rs (start pool slots) = .ok () a) (hfinish : a.finish = .ok code)
    (hdecode : Instruction.decode code.bytes = .ok is) :
    is.toList.filterMap Instruction.slot? = rs.filterMap namedSlot? := by
  obtain ⟨-, hok⟩ | ⟨-, e, herror⟩ := decode_cases hrun hfinish
  · rw [hok] at hdecode
    cases hdecode
    conv_rhs => rw [← map_fst_history (start pool slots) rs, List.filterMap_map]
    rw [asked, instructions, List.filterMap_filterMap]
    apply List.filterMap_congr
    intro s hs
    obtain ⟨m, hperformed⟩ := performed_of_mem hrun hs
    cases hi : instruction? (targetOf (history (start pool slots) rs)) s with
    | some i => exact slot?_of_instruction hperformed hi
    | none =>
      have hsilent := instruction?_isSome (targetOf (history (start pool slots) rs)) s
      rw [hi] at hsilent
      exact (namedSlot?_of_silent hsilent.symm).symm
  · rw [herror] at hdecode
    cases hdecode

end Request

namespace Machine

/-! ## What a frame has room for -/

theorem slot?_linkCall (c : ClassFile) (static : Bool) (k : UInt16) :
    (Program.linkCall c static k).slot? = none := by
  unfold Program.linkCall
  repeat' split
  all_goals rfl

theorem slot?_linkConstant (c : ClassFile) (k : UInt16) :
    (Program.linkConstant c k).slot? = none := by
  unfold Program.linkConstant
  split <;> rfl

theorem slot?_linkField (c : ClassFile) (k : UInt16) : (Program.linkField c k).slot? = none := by
  unfold Program.linkField
  repeat' split
  all_goals rfl

theorem slot?_linkType {action : String → Action} (c : ClassFile) (k : UInt16)
    (h : ∀ className, (action className).slot? = none) :
    (Program.linkType c k action).slot? = none := by
  unfold Program.linkType
  split
  · rfl
  · exact h _

/-- An action reads or writes the slot that its instruction names. -/
theorem slot?_linkInstruction (c : ClassFile) (all : Array Instruction) (i : Instruction) :
    (Program.linkInstruction c all i).slot? = i.slot? := by
  obtain ⟨offset, op, operand⟩ := i
  cases op with
  | bipush | sipush | aload | astore | ifeq | ifne | goto => cases operand <;> rfl
  | ldc | ldcW =>
    cases operand with
    | index k => exact slot?_linkConstant c k
    | _ => rfl
  | getstatic =>
    cases operand with
    | index k => exact slot?_linkField c k
    | _ => rfl
  | invokestatic | invokevirtual | invokespecial =>
    cases operand with
    | index k => exact slot?_linkCall c _ k
    | _ => rfl
  | invokeinterface =>
    cases operand with
    | interface k count => exact slot?_linkCall c _ k
    | _ => rfl
  | new | checkcast =>
    cases operand with
    | index k => exact slot?_linkType c k fun _ => rfl
    | _ => rfl
  | _ => rfl

section Frames

variable {p : Program} {limits : Limits} {s : State}

/-- A frame that is one of a method of the program and has a slot for each of its locals. -/
structure Frame.Roomy (p : Program) (f : Frame) : Prop where
  found : p.method f.method.name f.method.descriptor = .ok f.method
  slots : f.method.maxLocals ≤ f.locals.size

/-- A method is entered with a slot for each of its locals, and no action changes their number. -/
theorem maintains_roomy (c : ClassFile) : (Program.link c).Maintains (Frame.Roomy (Program.link c)) where
  entered := by
    intro limits depth name descriptor arguments f henter
    refine ⟨found_of_enter henter, ?_⟩
    obtain ⟨method, -, rfl⟩ := enter_eq_ok henter
    dsimp only
    rw [List.size_toArray, List.length_append, List.length_replicate]
    omega
  continued := by
    intro f f' i hf hnext hcontinues
    refine ⟨?_, ?_⟩
    · rw [hcontinues.method]
      exact hf.found
    · rw [hcontinues.method, hcontinues.slots]
      exact hf.slots

/-- A slot is found to be outside the frame at an action that reads or writes it. -/
theorem outside_of_step {t : Store} {site : Site} {slot : Nat} (hp : p.Sound)
    (hmethod : s.frame.method.Sound)
    (h : step p limits s = .trapped t (.typeMismatch site (.slotOutsideFrame slot))) :
    ∃ i, s.next? = some i ∧ i.action.slot? = some slot ∧ s.frame.locals.size ≤ slot := by
  rcases trapped_cases h with h | ⟨_, h⟩ | ⟨i, hnext, hexecute⟩ | ⟨_, _, _, _, henter⟩
  · cases h
  · cases h
  · refine ⟨i, hnext, ?_⟩
    have hdoes := execute_does i.offset i.action { s.frame with next := s.frame.next + 1 } s.counted
    rw [hexecute] at hdoes
    obtain ⟨-, harises | htrap⟩ := hdoes
    · exact harises
    · have hsound := hmethod i (Array.mem_of_getElem? hnext)
      rw [htrap] at hsound
      cases hsound
  · rcases trap_of_enter hp henter with h | h <;> cases h

/-- Where a call finds a slot outside the frame of a method, the method's code names the slot and
has no local for it. -/
theorem outside_of_trapsIn {c : ClassFile} {call : Invocation} {store : Store} {site : Site}
    {slot : Nat} {f : Frame} {m : Method} {code : Code}
    (h : call.TrapsIn (Program.link c) limits store (.typeMismatch site (.slotOutsideFrame slot)) f)
    (hfind : c.method? f.method.name f.method.descriptor = some m) (hcode : m.code = some code) :
    code.maxLocals ≤ slot ∧ ∃ is, Instruction.decode code.bytes = .ok is ∧
      slot ∈ is.toList.filterMap Instruction.slot? := by
  obtain ⟨first, state, t, henter, hsteps, rfl, hstep⟩ := h
  have hroomy : state.frame.Roomy (Program.link c) := by
    refine frames_of_steps (maintains_roomy c) ?_ hsteps state.frame List.mem_cons_self
    intro g hg
    obtain rfl := List.mem_singleton.mp hg
    exact (maintains_roomy c).entered henter
  have hfound := hroomy.found
  have hsound := link_sound c state.frame.method.name state.frame.method.descriptor
  rw [hfound] at hsound
  obtain ⟨i, hnext, hslot, houtside⟩ := outside_of_step (link_sound c) hsound hstep
  rw [method_link, hfind] at hfound
  obtain ⟨code', is, hcode', hdecode, hlinked⟩ := linkMethod_eq_ok hfound
  obtain rfl : code = code' := Option.some.inj (hcode.symm.trans hcode')
  constructor
  · have hslots := hroomy.slots
    rw [hlinked] at hslots
    exact hslots.trans houtside
  · refine ⟨is, hdecode, ?_⟩
    unfold State.next? at hnext
    rw [hlinked] at hnext
    obtain ⟨j, hj, rfl⟩ := Array.mem_map.mp (Array.mem_of_getElem? hnext)
    rw [slot?_linkInstruction] at hslot
    exact List.mem_filterMap.mpr ⟨j, Array.mem_toList_iff.mpr hj, hslot⟩

end Frames

end Machine

open Machine

section Finished

variable {pool : Pool} {slots : Nat} {rs : List Request} {a : Assembler} {code : Code}

/-- The slots that requests name are those that they count, and those that plain opcodes name by
themselves. -/
theorem mem_namedSlots {slot : Nat} :
    slot ∈ rs.filterMap namedSlot? ↔
      slot ∈ rs.filterMap countedSlot? ∨ ∃ op, .plain op ∈ rs ∧ op.slot? = some slot := by
  simp only [List.mem_filterMap]
  constructor
  · rintro ⟨r, hr, hslot⟩
    cases r with
    | plain op => exact .inr ⟨op, hr, hslot⟩
    | load n | store n => exact .inl ⟨_, hr, hslot⟩
    | _ => cases hslot
  · rintro (⟨r, hr, hslot⟩ | ⟨op, hop, hslot⟩)
    · refine ⟨r, hr, ?_⟩
      cases r with
      | load n | store n => exact hslot
      | _ => cases hslot
    · exact ⟨_, hop, hslot⟩

/-- The locals of finished code are those for its parameters and the slots that were asked for by
their number. They are those for all slots that the decoded code names exactly if the slots that
were only asked for by a plain opcode are among them. And a call finds a slot outside a frame of the
method, in whatever class, only if it was asked for in that way and is not among the locals. -/
theorem locals_of_finished (hrun : performAll rs (start pool slots) = .ok () a)
    (hfinish : a.finish = .ok code) :
    code.maxLocals = localsFor slots (rs.filterMap countedSlot?) ∧
    (∀ is, Instruction.decode code.bytes = .ok is →
      (code.maxLocals = localsFor slots (is.toList.filterMap Instruction.slot?) ↔
        ∀ op slot, .plain op ∈ rs → op.slot? = some slot → slot < code.maxLocals)) ∧
    ∀ (c : ClassFile) (name descriptor : String) (m : Method),
      c.method? name descriptor = some m → m.code = some code →
      ∀ (call : Invocation) limits store site slot t,
        call.perform (Program.link c) limits store =
          (.trapped (.typeMismatch site (.slotOutsideFrame slot)), t) →
        (∃ f, call.TrapsIn (Program.link c) limits store
            (.typeMismatch site (.slotOutsideFrame slot)) f ∧
          ¬ (f.method.name = name ∧ f.method.descriptor = descriptor)) ∨
        (code.maxLocals ≤ slot ∧ ∃ op, .plain op ∈ rs ∧ op.slot? = some slot) := by
  have hcounted : code.maxLocals = localsFor slots (rs.filterMap countedSlot?) := by
    obtain ⟨bytes, -, -, rfl⟩ := finish_eq_ok hfinish
    exact maxLocals_of_performAll hrun
  obtain ⟨hparameters, hslots⟩ := localsFor_le_iff.mp hcounted.ge
  refine ⟨hcounted, ?_, ?_⟩
  · intro is hdecode
    rw [slots_of_decode hrun hfinish hdecode]
    constructor
    · intro hnamed op slot hop hslot
      exact (localsFor_le_iff.mp hnamed.ge).2 slot (mem_namedSlots.mpr (.inr ⟨op, hop, hslot⟩))
    · intro hplain
      apply le_antisymm
      · rw [hcounted]
        exact localsFor_mono fun slot hslot => mem_namedSlots.mpr (.inl hslot)
      · refine localsFor_le_iff.mpr ⟨hparameters, fun slot hslot => ?_⟩
        rcases mem_namedSlots.mp hslot with hcount | ⟨op, hop, hslot⟩
        · exact hslots slot hcount
        · exact hplain op slot hop hslot
  · intro c name descriptor m hfind hcode call limits store site slot t hperform
    obtain ⟨f, htraps⟩ := Invocation.trapsIn_of_perform (link_sound c) hperform id id (by simp)
    by_cases hsame : f.method.name = name ∧ f.method.descriptor = descriptor
    · obtain ⟨rfl, rfl⟩ := hsame
      obtain ⟨houtside, is, hdecode, hnamed⟩ := outside_of_trapsIn htraps hfind hcode
      rw [slots_of_decode hrun hfinish hdecode] at hnamed
      rcases mem_namedSlots.mp hnamed with hcount | hplain
      · exact absurd (hslots slot hcount) houtside.not_gt
      · exact .inr ⟨houtside, hplain⟩
    · exact .inl ⟨f, htraps, hsame⟩

/-- A class whose only method is the routine `f` with this code. -/
def routineClass (code : Code) : ClassFile where
  minorVersion := 0
  majorVersion := 49
  pool := { entries := #[.text "A", .type 1] }
  access := 33
  thisClass := 2
  superClass := 0
  methods := [⟨9, "f", routineDescriptor, some code⟩]
  sourceFile := none

/-- A slot that a plain opcode names and a higher one that is stored: both are covered. -/
theorem locals_of_finished_covered :
    let rs := [.plain .aload1, .store 5, .load 4, .plain .ret]
    let code : Code := ⟨1, 6, [0x2b, 0x3a, 5, 0x19, 4, 0xb1]⟩
    ∃ a is, performAll rs (start .empty 1) = .ok () a ∧ a.finish = .ok code ∧
      Instruction.decode code.bytes = .ok is ∧ is.toList.filterMap Instruction.slot? = [1, 5, 4] ∧
      code.maxLocals = localsFor 1 [1, 5, 4] ∧
      ∀ (call : Invocation) limits store site slot t,
        call.perform (Program.link (routineClass code)) limits store =
          (.trapped (.typeMismatch site (.slotOutsideFrame slot)), t) →
        ∃ f, call.TrapsIn (Program.link (routineClass code)) limits store
            (.typeMismatch site (.slotOutsideFrame slot)) f ∧
          ¬ (f.method.name = "f" ∧ f.method.descriptor = routineDescriptor) := by
  intro rs code
  have hmeasure : measureAll rs (start .empty 1).gauge = some ((), ⟨none, 1, 6, #[]⟩) := by
    decide +kernel
  obtain ⟨a, hrun, -⟩ := performAll_succeeds (by simp [rs, Short, texts]) (by decide) hmeasure
  obtain rfl : performEach rs (start .empty 1) = a := performEach_of_performAll hrun
  have hfinish : (performEach rs (start .empty 1)).finish = .ok code := by decide
  have hdecode : Instruction.decode code.bytes = .ok #[⟨0, .aload1, .none⟩, ⟨1, .astore, .slot 5⟩,
      ⟨3, .aload, .slot 4⟩, ⟨5, .ret, .none⟩] := by decide
  have hplain : ∀ op slot, .plain op ∈ rs → op.slot? = some slot → slot < code.maxLocals := by
    intro op slot hop hslot
    obtain rfl | rfl : op = .aload1 ∨ op = .ret := by simpa [rs] using hop
    · cases hslot
      decide
    · cases hslot
  obtain ⟨-, hlocals, hcalls⟩ := locals_of_finished hrun hfinish
  refine ⟨_, _, hrun, hfinish, hdecode, rfl, (hlocals _ hdecode).mpr hplain, ?_⟩
  intro call limits store site slot t hperform
  rcases hcalls (routineClass code) "f" routineDescriptor _ rfl rfl call limits store site slot t
    hperform with hother | ⟨houtside, op, hop, hslot⟩
  · exact hother
  · exact absurd (hplain op slot hop hslot) houtside.not_gt

/-- A slot that only a plain opcode names has no local, and reading it is an access outside the
frame. -/
theorem plain_slot_outside :
    let rs := [.plain .aload1, .plain .ret]
    let code : Code := ⟨1, 1, [0x2b, 0xb1]⟩
    ∃ a is t, performAll rs (start .empty 1) = .ok () a ∧ a.finish = .ok code ∧
      Instruction.decode code.bytes = .ok is ∧
      localsFor 1 (is.toList.filterMap Instruction.slot?) = 2 ∧
      callRoutine (Program.link (routineClass code)) {} "f" [] {} =
        (.trapped (.typeMismatch ⟨"f", 0⟩ (.slotOutsideFrame 1)), t) := by
  intro rs code
  have hmeasure : measureAll rs (start .empty 1).gauge = some ((), ⟨none, 1, 1, #[]⟩) := by
    decide +kernel
  obtain ⟨a, hrun, -⟩ := performAll_succeeds (by simp [rs, Short, texts]) (by decide) hmeasure
  obtain rfl : performEach rs (start .empty 1) = a := performEach_of_performAll hrun
  have hdecode : Instruction.decode code.bytes = .ok #[⟨0, .aload1, .none⟩, ⟨1, .ret, .none⟩] := by
    decide
  have hlink : Program.link (routineClass code) = ⟨[("f", routineDescriptor,
      .ok ⟨"f", routineDescriptor, 1, #[⟨0, .load 1⟩, ⟨1, .leave⟩]⟩)]⟩ := by
    cbv
  have hcall : (Invocation.routine "f" []).call (Program.link (routineClass code)) {} {} =
      (.trapped (.typeMismatch ⟨"f", 0⟩ (.slotOutsideFrame 1)),
        { heap := #[.deque []], steps := 1 }) := by
    rw [hlink, Invocation.call_eq_iff (by simp)]
    exact .inr ⟨_, rfl, .trapped rfl⟩
  exact ⟨_, _, _, hrun, by decide, hdecode, rfl, Invocation.perform_of_call hcall⟩

end Finished

end StackGlyph
