import StackGlyph.Machine.Link
import StackGlyph.Proofs.Decoding
import StackGlyph.Proofs.Evolution
import StackGlyph.Proofs.Placement

/-!
# What assembled code links to

Linking the code that requests assembled gives one action for each request that asks for an
instruction, and the action can be told from the request: constants are found where the pool holds
them, and a jump leads to the action that follows the place where its label was bound. Offsets and
indices no longer matter.
-/
namespace StackGlyph

open Request Assembler Machine

namespace Request

def emits : Request → Bool
  | .newLabel | .bind _ => false
  | _ => true

/-- How many instructions stand before the place where a label is bound, by the last request that
binds it. -/
def placeOf (label : Nat) : List Request → Option Nat
  | [] => none
  | r :: rest =>
    match placeOf label rest with
    | some k => some (if r.emits then k + 1 else k)
    | none => if r = .bind label then some 0 else none

def plainAction : Opcode → Action
  | .iconstM1 => .push (-1)
  | .iconst0 => .push 0
  | .iconst1 => .push 1
  | .iconst2 => .push 2
  | .iconst3 => .push 3
  | .iconst4 => .push 4
  | .iconst5 => .push 5
  | .aload0 => .load 0
  | .aload1 => .load 1
  | .aload2 => .load 2
  | .aload3 => .load 3
  | .astore0 => .store 0
  | .astore1 => .store 1
  | .astore2 => .store 2
  | .astore3 => .store 3
  | .pop => .pop
  | .dup => .dup
  | .dup2 => .dup2
  | .swap => .swap
  | .iadd => .add
  | .ineg => .negate
  | .ixor => .xor
  | .i2c => .narrow
  | _ => .leave

def fieldAction (owner name : String) : Action :=
  if owner = "java/lang/System" ∧ name = "out" then .output
  else .trap (.unsupported (.field owner name))

/-- The action of a call in a class with the given name. -/
def callAction (own : String) (static : Bool) (m : Member) : Action :=
  match MethodType.parse m.descriptor with
  | .error cause => .trap (.fault cause)
  | .ok t =>
    .call t.params.length static (.ok
      (if static && own = m.owner then .own m.name m.descriptor
      else .library (Routine.ofMember m)))

def testOf : Opcode → Test
  | .ifeq => .zero
  | .ifne => .nonzero
  | _ => .always

/-- The action that a request stands for in a class with the given name; `target` and `place` tell
where each label stands. -/
def action? (own : String) (target : Nat → Nat) (place : Nat → Option Nat) : Request → Option Action
  | .plain op => some (plainAction op)
  | .load slot => some (.load slot.toNat)
  | .store slot => some (.store slot.toNat)
  | .pushInt v | .loadConstant v => some (.push v)
  | .onType op className =>
    some (if op = .new then Program.creation className else Program.castTo className)
  | .getStatic owner name _ => some (fieldAction owner name)
  | .call kind owner name descriptor =>
    some (callAction own (kind = .static) ⟨owner, name, descriptor⟩)
  | .jump op label => some (.branch (testOf op) (target label) (place label))
  | .newLabel | .bind _ => none

theorem action?_congr {own : String} {target : Nat → Nat} {place place' : Nat → Option Nat}
    {r : Request} (h : ∀ op label, r = .jump op label → place label = place' label) :
    r.action? own target place = r.action? own target place' := by
  cases r with
  | jump op label => rw [action?, action?, h op label rfl]
  | _ => rfl

theorem action?_isSome (own : String) (target : Nat → Nat) (place : Nat → Option Nat)
    (r : Request) : (r.action? own target place).isSome = r.emits := by
  cases r <;> rfl

/-- The linked instruction of a request, at the offset where the assembler stood. -/
def linked? (own : String) (target : Nat → Nat) (place : Nat → Option Nat) (s : Served) :
    Option LinkedInstruction :=
  (s.1.action? own target place).map fun action => ⟨s.2.code.size, action⟩

theorem map_action_linked {own : String} {target : Nat → Nat} {place : Nat → Option Nat}
    (calls : List Served) : (calls.filterMap (linked? own target place)).map (·.action) =
      (calls.map (·.1)).filterMap (action? own target place) := by
  rw [List.map_filterMap, List.filterMap_map]
  refine List.filterMap_congr fun s _ => ?_
  rw [linked?, Option.map_map]
  exact Option.map_id'

section Places

variable {a b : Assembler} {r : Request} {rs : List Request}

theorem instruction?_isSome (target : Nat → Nat) (s : Served) :
    (instruction? target s).isSome = s.1.emits := by
  obtain ⟨r, a⟩ := s
  rw [instruction?, Option.isSome_map]
  cases r with
  | call kind owner name descriptor =>
    rw [form?]
    split <;> rfl
  | _ => rfl

/-- A request that asks for an instruction has it where the assembler stands, and moves on. -/
theorem emits_cases (target : Nat → Nat) (h : Performed r a b) :
    (r.emits = false ∧ instruction? target (r, a) = none ∧ b.code.size = a.code.size) ∨
    (r.emits = true ∧ a.code.size < b.code.size ∧
      ∃ i, instruction? target (r, a) = some i ∧ i.offset = a.code.size) := by
  have hemits := instruction?_isSome target (r, a)
  have hsize := size_of_performed h
  rcases served_cases target (r, a) with ⟨-, hi, hopen⟩ | ⟨-, i, hi, hopen, -⟩ | ⟨op, label, rfl⟩
  · rw [hi] at hemits
    rw [hopen] at hsize
    exact .inl ⟨hemits.symm, hi, hsize⟩
  · rw [hi] at hemits
    refine .inr ⟨hemits.symm, ?_, i, hi, (instruction?_eq_some hi).1⟩
    rw [hsize, hopen]
    simp [Instruction.encode]
  · refine .inr ⟨rfl, ?_, _, rfl, rfl⟩
    rw [hsize]
    simp [openBytes, instruction?, form?, Instruction.encode]

/-- A run that asks for an instruction begins with one where the assembler stands. -/
theorem instructions_head (target : Nat → Nat) (h : performAll rs a = .ok () b)
    (hsome : 0 < (rs.filter emits).length) :
    ∃ i rest, instructions target (history a rs) = i :: rest ∧ i.offset = a.code.size := by
  induction rs generalizing a with
  | nil => simp at hsome
  | cons r rs ih =>
    obtain ⟨m, hr, hrs⟩ := performAll_cons.mp h
    rw [history_cons hr, instructions]
    rcases emits_cases target (performed hr) with ⟨hnot, hi, hsize⟩ | ⟨-, -, i, hi, hoffset⟩
    · rw [List.filterMap_cons_none hi, ← hsize]
      rw [List.filter_cons_of_neg (by simp [hnot])] at hsome
      exact ih hrs hsome
    · rw [List.filterMap_cons_some hi]
      exact ⟨i, _, rfl, hoffset⟩

/-- The instructions of a run stand by ascending offset, from where the assembler stands on. -/
theorem ascending_instructions (target : Nat → Nat) (h : performAll rs a = .ok () b) :
    Instruction.Ascending (instructions target (history a rs)) ∧
      ∀ i ∈ instructions target (history a rs), a.code.size ≤ i.offset := by
  induction rs generalizing a with
  | nil => exact ⟨List.Pairwise.nil, by simp [history, instructions]⟩
  | cons r rs ih =>
    obtain ⟨m, hr, hrs⟩ := performAll_cons.mp h
    obtain ⟨hascending, hbehind⟩ := ih hrs
    rw [history_cons hr, instructions]
    rcases emits_cases target (performed hr) with ⟨-, hi, hsize⟩ | ⟨-, hgrows, i, hi, hoffset⟩
    · rw [List.filterMap_cons_none hi, ← hsize]
      exact ⟨hascending, hbehind⟩
    · rw [List.filterMap_cons_some hi]
      refine ⟨.cons (fun j hj => ?_) hascending, fun j hj => ?_⟩
      · have hle := hbehind j hj
        omega
      · rcases List.mem_cons.mp hj with rfl | hj
        · exact Nat.le_of_eq hoffset.symm
        · have hle := hbehind j hj
          omega

/-- A label that no request binds has no offset in the history. -/
theorem boundAt_of_placeOf_none {label : Nat} (h : performAll rs a = .ok () b)
    (hnone : placeOf label rs = none) : boundAt (history a rs) label = none := by
  induction rs generalizing a with
  | nil => rfl
  | cons r rs ih =>
    obtain ⟨m, hr, hrs⟩ := performAll_cons.mp h
    rw [placeOf] at hnone
    split at hnone
    · cases hnone
    · next hrest =>
      rw [history_cons hr, boundAt_cons, ih hrs hrest, Option.none_or]
      split at hnone
      · cases hnone
      · next hne => exact if_neg hne

/-- A label stands before the instruction that follows its binding, if one does. -/
theorem place_found {label k : Nat} (target : Nat → Nat) (h : performAll rs a = .ok () b)
    (hplace : placeOf label rs = some k) (hlt : k < (rs.filter emits).length) :
    ∃ t, boundAt (history a rs) label = some t ∧ a.code.size ≤ t ∧
      (instructions target (history a rs)).findIdx? (·.offset == t) = some k := by
  induction rs generalizing a k with
  | nil => cases hplace
  | cons r rs ih =>
    obtain ⟨m, hr, hrs⟩ := performAll_cons.mp h
    rw [history_cons hr, boundAt_cons, instructions]
    rw [placeOf] at hplace
    rcases emits_cases target (performed hr) with
      ⟨hnot, hi, hsize⟩ | ⟨hemits, hlater, i, hi, hoffset⟩
    · rw [List.filterMap_cons_none hi]
      rw [List.filter_cons_of_neg (by simp [hnot])] at hlt
      split at hplace
      · next k' hrest =>
        rw [if_neg (by simp [hnot])] at hplace
        cases hplace
        obtain ⟨t, ht, hle, hfound⟩ := ih hrs hrest hlt
        exact ⟨t, by rw [ht]; rfl, by omega, hfound⟩
      · next hrest =>
        -- The label is bound here, and the next instruction starts here.
        split at hplace
        · next hbind =>
          cases hplace
          obtain ⟨j, rest, hhead, hj⟩ := instructions_head target hrs hlt
          refine ⟨a.code.size, ?_, Nat.le_refl _, ?_⟩
          · rw [boundAt_of_placeOf_none hrs hrest, Option.none_or]
            exact if_pos hbind
          · rw [instructions] at hhead
            rw [hhead, List.findIdx?_cons, hj, hsize, beq_self_eq_true]
            rfl
        · cases hplace
    · rw [List.filterMap_cons_some hi]
      rw [List.filter_cons_of_pos hemits, List.length_cons] at hlt
      split at hplace
      · next k' hrest =>
        rw [if_pos hemits] at hplace
        cases hplace
        -- The label is bound later, behind the instruction of this request.
        obtain ⟨t, ht, hle, hfound⟩ := ih hrs hrest (by omega)
        refine ⟨t, by rw [ht]; rfl, by omega, ?_⟩
        have hne : (i.offset == t) = false := by
          rw [hoffset, beq_eq_false_iff_ne]
          omega
        rw [instructions] at hfound
        rw [List.findIdx?_cons, hne, hfound]
        rfl
      · split at hplace
        · next hbind =>
          rw [hbind] at hemits
          cases hemits
        · cases hplace

end Places

/-! ## Actions -/

section Actions

variable {c : ClassFile} {own : String} {all : Array Instruction} {a b : Assembler}

theorem link_plain {op : Opcode} (offset : Nat) (h : Operand.none.Suits op.layout) :
    Program.linkInstruction c all ⟨offset, op, .none⟩ = plainAction op := by
  cases op with
  | bipush | sipush | ldc | ldcW | aload | astore | ifeq | ifne | goto | getstatic | invokevirtual
  | invokespecial | invokestatic | invokeinterface | new | checkcast => exact h.elim
  | _ => rfl

theorem link_jump {op : Opcode} (offset t : Nat) (h : (Operand.target t).Suits op.layout) :
    Program.linkInstruction c all ⟨offset, op, .target t⟩ =
      .branch (testOf op) t (Instruction.place? all t) := by
  cases op with
  | ifeq | ifne | goto => rfl
  | _ => exact h.elim

/-- The short and the long form of an access to a slot do the same. -/
theorem link_slotForm {short : List Opcode} {long : Opcode} {action : Nat → Action} (offset : Nat)
    (slot : UInt8) (hshort : ∀ k op, short[k]? = some op →
      Program.linkInstruction c all ⟨offset, op, .none⟩ = action k)
    (hlong : Program.linkInstruction c all ⟨offset, long, .slot slot⟩ = action slot.toNat) :
    Program.linkInstruction c all ⟨offset, (slotForm short long slot).1,
      (slotForm short long slot).2⟩ = action slot.toNat := by
  unfold slotForm
  cases h : short[slot.toNat]? with
  | some op => exact hshort _ op h
  | none => exact hlong

theorem link_load (offset : Nat) (slot : UInt8) :
    Program.linkInstruction c all ⟨offset,
      (slotForm [.aload0, .aload1, .aload2, .aload3] .aload slot).1,
      (slotForm [.aload0, .aload1, .aload2, .aload3] .aload slot).2⟩ = .load slot.toNat := by
  refine link_slotForm offset slot ?_ rfl
  rintro (_ | _ | _ | _ | k) op h <;> cases h <;> rfl

theorem link_store (offset : Nat) (slot : UInt8) :
    Program.linkInstruction c all ⟨offset,
      (slotForm [.astore0, .astore1, .astore2, .astore3] .astore slot).1,
      (slotForm [.astore0, .astore1, .astore2, .astore3] .astore slot).2⟩ = .store slot.toNat := by
  refine link_slotForm offset slot ?_ rfl
  rintro (_ | _ | _ | _ | k) op h <;> cases h <;> rfl

theorem link_indexedPush {i : UInt16} {v : Int32} (offset : Nat)
    (h : c.pool.get? i = some (.integer v)) :
    Program.linkInstruction c all ⟨offset, (indexedPush i).1, (indexedPush i).2⟩ = .push v := by
  unfold indexedPush
  split <;> simp only [Program.linkInstruction, Program.linkConstant, h]

/-- In whichever form a number is pushed, it is that number. -/
theorem link_shortestPush {i : UInt16} {v : Int32} (offset : Nat)
    (h : ¬ (-32768 ≤ v.toInt ∧ v.toInt ≤ 32767) → c.pool.get? i = some (.integer v)) :
    Program.linkInstruction c all ⟨offset, (shortestPush v.toInt i).1, (shortestPush v.toInt i).2⟩ =
      .push v := by
  by_cases hv : -1 ≤ v.toInt ∧ v.toInt ≤ 5
  · have hcases : v = -1 ∨ v = 0 ∨ v = 1 ∨ v = 2 ∨ v = 3 ∨ v = 4 ∨ v = 5 := by
      simp only [← Int32.toInt_inj]
      have hvalues : (-1 : Int32).toInt = -1 ∧ (0 : Int32).toInt = 0 ∧ (1 : Int32).toInt = 1 ∧
          (2 : Int32).toInt = 2 ∧ (3 : Int32).toInt = 3 ∧ (4 : Int32).toInt = 4 ∧
          (5 : Int32).toInt = 5 := by decide
      omega
    rcases hcases with rfl | rfl | rfl | rfl | rfl | rfl | rfl <;> rfl
  · rw [shortestPush_wide hv]
    split
    · simp [Program.linkInstruction]
    · split
      · simp [Program.linkInstruction]
      · next hwide => exact link_indexedPush offset (h hwide)

theorem link_type {i : UInt16} {className : String} (offset : Nat)
    (h : c.pool.classNameAt i = .ok className) :
    Program.linkInstruction c all ⟨offset, .new, .index i⟩ = Program.creation className ∧
      Program.linkInstruction c all ⟨offset, .checkcast, .index i⟩ = Program.castTo className := by
  simp only [Program.linkInstruction, Program.linkType, h, and_self]

theorem link_field {i : UInt16} {owner name descriptor : String} (offset : Nat)
    (h : c.pool.memberAt i = .ok ⟨owner, name, descriptor⟩) :
    Program.linkInstruction c all ⟨offset, .getstatic, .index i⟩ = fieldAction owner name := by
  simp only [Program.linkInstruction, Program.linkField, h, fieldAction]

theorem link_call (static : Bool) {i : UInt16} {m : Member} (hown : c.name = .ok own)
    (h : c.pool.memberAt i = .ok m) : Program.linkCall c static i = callAction own static m := by
  simp only [Program.linkCall, h, hown, callAction]
  rfl

/-- An instruction links to the action of the request that asked for it. -/
theorem link_performed {r : Request} {i : Instruction} {target : Nat → Nat}
    (hown : c.name = .ok own) (h : Performed r a b) (hsound : a.pool.Sound)
    (hlater : b.pool.Extends c.pool) (hi : instruction? target (r, a) = some i) :
    r.action? own target (fun label => Instruction.place? all (target label)) =
      some (Program.linkInstruction c all i) := by
  obtain ⟨form, hform, rfl⟩ := Option.map_eq_some_iff.mp hi
  have hsuits := h.suits target form.1 form.2 hform
  have hpool := h.pool
  show _ = some (Program.linkInstruction c all ⟨a.code.size, form.1, form.2⟩)
  cases r with
  | plain op =>
    obtain rfl := Option.some.inj hform
    rw [link_plain _ hsuits]
    rfl
  | load slot =>
    obtain rfl := Option.some.inj hform
    rw [link_load]
    rfl
  | store slot =>
    obtain rfl := Option.some.inj hform
    rw [link_store]
    rfl
  | pushInt v =>
    obtain rfl := Option.some.inj hform
    rw [link_shortestPush]
    · rfl
    · intro hwide
      rw [constant?, if_neg hwide] at hpool
      exact Pool.get?_of_addInteger hsound hpool hlater
  | loadConstant v =>
    obtain rfl := Option.some.inj hform
    rw [link_indexedPush _ (Pool.get?_of_addInteger hsound hpool hlater)]
    rfl
  | onType op className =>
    obtain rfl := Option.some.inj hform
    have hclass := Pool.classNameAt_of_addClass hsound hpool hlater
    rcases h.types op className rfl with rfl | rfl
    · rw [(link_type _ hclass).1]
      rfl
    · rw [(link_type _ hclass).2]
      rfl
  | getStatic owner name descriptor =>
    obtain rfl := Option.some.inj hform
    rw [link_field _ (Pool.memberAt_of_addMember hsound hpool hlater)]
    rfl
  | call kind owner name descriptor =>
    have hcall := fun static => link_call static hown
      (Pool.memberAt_of_addMember hsound hpool hlater)
    cases kind <;> obtain rfl := Option.some.inj hform <;> exact congrArg some (hcall _).symm
  | jump op label =>
    obtain rfl := Option.some.inj hform
    rw [link_jump _ _ hsuits]
    rfl
  | newLabel => cases hform
  | bind label => cases hform

end Actions

/-- A request of a run finds a sound pool, and the pool it leaves behind lasts. -/
theorem served_of_mem {a b : Assembler} {rs : List Request} {s : Served} (hsound : a.pool.Sound)
    (h : performAll rs a = .ok () b) (hs : s ∈ history a rs) :
    ∃ m, Performed s.1 s.2 m ∧ s.2.pool.Sound ∧ m.pool.Extends b.pool := by
  induction rs generalizing a with
  | nil => cases hs
  | cons r rs ih =>
    obtain ⟨m, hr, hrs⟩ := performAll_cons.mp h
    have hm := ((perform_evolves r).of_ok hr).pool
    rw [history_cons hr] at hs
    rcases List.mem_cons.mp hs with rfl | hs
    · exact ⟨m, performed hr, hsound, ((performAll_reaches rs).of_ok hrs).evolves.pool.earlier⟩
    · exact ih (hm.sound hsound) hrs hs

/-- Every label that a jump leads to is followed by an instruction. -/
def Lands (rs : List Request) : Prop :=
  ∀ op label, .jump op label ∈ rs → ∃ k, placeOf label rs = some k ∧ k < (rs.filter emits).length

end Request

/-- Code that a class with the given pool holds was assembled by these requests, in a method whose
parameters take `slots`. -/
def Drawn (pool : Pool) (slots : Nat) (rs : List Request) (code : Code) : Prop :=
  ∃ p a, p.Sound ∧ performAll rs (start p slots) = .ok () a ∧ a.finish = .ok code ∧
    a.pool.Extends pool

theorem Drawn.mono {p q : Pool} {slots : Nat} {rs : List Request} {code : Code}
    (h : Drawn p slots rs code) (hpq : p.Extends q) : Drawn q slots rs code := by
  obtain ⟨p, a, hp, hrun, hfinish, hlater⟩ := h
  exact ⟨p, a, hp, hrun, hfinish, hlater.trans hpq⟩

section Landing

variable {p : Pool} {slots : Nat} {rs : List Request} {a : Assembler}

/-- The search for an instruction of a run finds the first at the offset. -/
theorem place?_asked (hrun : performAll rs (start p slots) = .ok () a) (t : Nat) :
    let calls := history (start p slots) rs
    Instruction.place? (asked calls).toArray t = (asked calls).findIdx? (·.offset == t) := by
  intro calls
  have hall : Instruction.Ascending (asked calls).toArray.toList :=
    (ascending_instructions _ hrun).1
  rw [Instruction.place?_eq_findIdx? hall, List.findIdx?_toArray]

/-- The place of a label that a jump leads to is that of the instruction at its offset. -/
theorem findIdx?_asked {op : Opcode} {label : Nat}
    (hrun : performAll rs (start p slots) = .ok () a) (hlands : Lands rs)
    (hmem : .jump op label ∈ rs) :
    let calls := history (start p slots) rs
    (asked calls).findIdx? (·.offset == targetOf calls label) = placeOf label rs ∧
      (placeOf label rs).isSome := by
  intro calls
  obtain ⟨k, hk, hlt⟩ := hlands op label hmem
  obtain ⟨t, ht, -, hfound⟩ := place_found (targetOf calls) hrun hk hlt
  rw [asked, targetOf, ht, hk]
  exact ⟨hfound, rfl⟩

/-- Code whose jumps land on instructions can be decoded. -/
theorem decode_landing {code : Code} (hrun : performAll rs (start p slots) = .ok () a)
    (hfinish : a.finish = .ok code) (hlands : Lands rs) :
    Instruction.decode code.bytes = .ok (asked (history (start p slots) rs)).toArray := by
  rcases decode_cases hrun hfinish with ⟨-, hok⟩ | ⟨hnot, -⟩
  · exact hok
  · have h := assembled hrun hfinish
    refine absurd ?_ hnot
    -- No jump leads to the end, for there is an instruction where it leads.
    intro op label hmem hend
    obtain ⟨hplace, hsome⟩ := findIdx?_asked hrun hlands hmem
    obtain ⟨k, hk⟩ := Option.isSome_iff_exists.mp hsome
    rw [hk, targetOf, hend, Option.getD_some] at hplace
    obtain ⟨hlt, hoffset, -⟩ := List.findIdx?_eq_some_iff_getElem.mp hplace
    have hinside := h.tiled.offset_lt (List.getElem_mem hlt)
    rw [← h.bytes, eq_of_beq hoffset] at hinside
    omega

/-- The instructions link to the actions of the requests, each where the assembler stood. -/
theorem link_asked {c : ClassFile} {own : String} (hown : c.name = .ok own) (hp : p.Sound)
    (hrun : performAll rs (start p slots) = .ok () a) (hlater : a.pool.Extends c.pool)
    (hlands : Lands rs) :
    let calls := history (start p slots) rs
    (asked calls).map (fun i => ⟨i.offset, Program.linkInstruction c (asked calls).toArray i⟩) =
      calls.filterMap (linked? own (targetOf calls) fun label => placeOf label rs) := by
  intro calls
  rw [asked, instructions, List.map_filterMap]
  apply List.filterMap_congr
  intro s hs
  obtain ⟨m, hperformed, hsound, hext⟩ := served_of_mem hp hrun hs
  have hsame : s.1.action? own (targetOf calls) (fun label => placeOf label rs) =
      s.1.action? own (targetOf calls)
        (fun label => Instruction.place? (asked calls).toArray (targetOf calls label)) := by
    refine action?_congr fun op label hjump => ?_
    have hmem : .jump op label ∈ rs := hjump ▸ mem_of_mem_history hs
    rw [place?_asked hrun, (findIdx?_asked hrun hlands hmem).1]
  rw [linked?, hsame]
  cases hi : instruction? (targetOf calls) s with
  | some i =>
    rw [link_performed hown hperformed hsound (hext.trans hlater) hi, ← (instruction?_eq_some hi).1]
    rfl
  | none =>
    have hemits := instruction?_isSome (targetOf calls) s
    rw [hi, ← action?_isSome own (targetOf calls) fun label =>
      Instruction.place? (asked calls).toArray (targetOf calls label)] at hemits
    rw [Option.isNone_iff_eq_none.mp (Option.isSome_eq_false_iff.mp hemits.symm)]
    rfl

end Landing

/-- A method whose jumps land links to the instructions of the requests. -/
theorem linkMethod_asked {c : ClassFile} {own : String} {m : Method} {code : Code} {slots : Nat}
    {rs : List Request} {p : Pool} {a : Assembler} (hown : c.name = .ok own)
    (hcode : m.code = some code) (hp : p.Sound) (hrun : performAll rs (start p slots) = .ok () a)
    (hfinish : a.finish = .ok code) (hlater : a.pool.Extends c.pool) (hlands : Lands rs) :
    let calls := history (start p slots) rs
    Program.linkMethod c m = .ok ⟨m.name, m.descriptor, code.maxLocals,
      (calls.filterMap (linked? own (targetOf calls) fun label => placeOf label rs)).toArray⟩ := by
  intro calls
  rw [← link_asked hown hp hrun hlater hlands, Program.linkMethod, hcode]
  dsimp only
  rw [decode_landing hrun hfinish hlands, ← List.map_toArray]

/-- The actions that a linked method goes through are those of the requests. -/
theorem linkMethod_drawn {c : ClassFile} {own : String} {m : Method} {code : Code} {slots : Nat}
    {rs : List Request} (hown : c.name = .ok own) (hcode : m.code = some code)
    (h : Drawn c.pool slots rs code) (hlands : Lands rs) :
    ∃ linked target, Program.linkMethod c m = .ok linked ∧ linked.name = m.name ∧
      linked.maxLocals = code.maxLocals ∧
      linked.instructions.toList.map (·.action) =
        rs.filterMap (action? own target fun label => placeOf label rs) := by
  obtain ⟨p, a, hp, hrun, hfinish, hlater⟩ := h
  refine ⟨_, targetOf (history (start p slots) rs),
    linkMethod_asked hown hcode hp hrun hfinish hlater hlands, rfl, rfl, ?_⟩
  rw [map_action_linked, map_fst_history]

end StackGlyph
