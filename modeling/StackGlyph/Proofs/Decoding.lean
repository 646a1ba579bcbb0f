import Mathlib
import StackGlyph.Proofs.InstructionBytes

/-!
# Assembled code reads back

A run of requests leaves behind the bytes of its instructions, with the jumps still open, and the
list of these jumps. Resolving them writes in each distance, so that the finished code is made of
the instructions that were asked for, each at the offset where the assembler stood. Decoding such
code gives them back, unless a jump leads behind the last of them.
-/
namespace StackGlyph

namespace Request

open Assembler

variable {a b m : Assembler} {r : Request} {rs : List Request}

theorem performAll_cons :
    performAll (r :: rs) a = .ok () b ↔
      ∃ m, r.perform a = .ok () m ∧ performAll rs m = .ok () b := by
  rw [performAll, bind_eq_ok]
  constructor
  · rintro ⟨_, m, hr, hrs⟩
    exact ⟨m, hr, hrs⟩
  · rintro ⟨m, hr, hrs⟩
    exact ⟨(), m, hr, hrs⟩

theorem performAll_append_eq (rs ss : List Request) :
    performAll (rs ++ ss) = (do performAll rs; performAll ss) := by
  induction rs with
  | nil => exact (pure_bind () fun _ => performAll ss).symm
  | cons r rs ih =>
    show (do r.perform; performAll (rs ++ ss)) = do (do r.perform; performAll rs); performAll ss
    rw [ih, bind_assoc]

theorem performAll_append {ss : List Request} :
    performAll (rs ++ ss) a = .ok () b ↔
      ∃ m, performAll rs a = .ok () m ∧ performAll ss m = .ok () b := by
  rw [performAll_append_eq, bind_eq_ok]
  constructor
  · rintro ⟨_, m, hrs, hss⟩
    exact ⟨m, hrs, hss⟩
  · rintro ⟨m, hrs, hss⟩
    exact ⟨(), m, hrs, hss⟩

theorem history_cons (h : r.perform a = .ok () m) :
    history a (r :: rs) = (r, a) :: history m rs := by
  rw [history, h, leftBy_ok]

theorem history_append {ss : List Request} (h : performAll rs a = .ok () m) :
    history a (rs ++ ss) = history a rs ++ history m ss := by
  induction rs generalizing a with
  | nil =>
    cases h
    rfl
  | cons r rs ih =>
    obtain ⟨n, hr, hrs⟩ := performAll_cons.mp h
    rw [List.cons_append, history_cons hr, history_cons hr, ih hrs, List.cons_append]

theorem map_fst_history (a : Assembler) (rs : List Request) : (history a rs).map (·.1) = rs := by
  induction rs generalizing a with
  | nil => rfl
  | cons r rs ih => rw [history, List.map_cons, ih]

theorem mem_of_mem_history {s : Served} (h : s ∈ history a rs) : s.1 ∈ rs := by
  rw [← map_fst_history a rs]
  exact List.mem_map_of_mem h

theorem mem_iff_history (a : Assembler) : r ∈ rs ↔ ∃ m, (r, m) ∈ history a rs := by
  constructor
  · intro h
    rw [← map_fst_history a rs] at h
    obtain ⟨⟨_, m⟩, hmem, rfl⟩ := List.mem_map.mp h
    exact ⟨m, hmem⟩
  · rintro ⟨m, hmem⟩
    exact mem_of_mem_history hmem

/-- What holds of every request that succeeds holds of all requests of a run. -/
theorem performed_of_mem {s : Served} (h : performAll rs a = .ok () b) (hs : s ∈ history a rs) :
    ∃ m, Performed s.1 s.2 m := by
  induction rs generalizing a with
  | nil => cases hs
  | cons r rs ih =>
    obtain ⟨m, hr, hrs⟩ := performAll_cons.mp h
    rw [history_cons hr] at hs
    rcases List.mem_cons.mp hs with rfl | hs
    · exact ⟨m, performed hr⟩
    · exact ih hrs hs

/-- Only jumps have targets. -/
theorem form?_target {target : Nat → Nat} {op : Opcode} {t : Nat}
    (h : r.form? target a = some (op, .target t)) :
    ∃ label, r = .jump op label ∧ t = target label := by
  cases r with
  | jump o label =>
    cases h
    exact ⟨label, rfl, rfl⟩
  | load slot =>
    rw [form?, slotForm] at h
    split at h <;> cases h
  | store slot =>
    rw [form?, slotForm] at h
    split at h <;> cases h
  | pushInt v =>
    have hpush := Option.some.inj h
    rcases smallConstant?_cases v.toInt (index a (.pushInt v)) with ⟨o, -, ho, -⟩ | ⟨-, hv⟩
    · rw [ho] at hpush
      cases hpush
    · rw [shortestPush_wide hv, indexedPush] at hpush
      repeat' split at hpush
      all_goals cases hpush
  | loadConstant v =>
    rw [form?, indexedPush] at h
    split at h <;> cases h
  | call kind owner name descriptor =>
    rw [form?] at h
    split at h <;> cases h
  | _ => cases h

/-- Where the labels stand matters to jumps alone. -/
theorem form?_congr {target target' : Nat → Nat}
    (h : ∀ op label, r = .jump op label → target label = target' label) :
    r.form? target a = r.form? target' a := by
  cases r with
  | jump op label => rw [form?, form?, h op label rfl]
  | _ => rfl

/-- The bytes that a request appends: those of its instruction, a jump still leading to itself. -/
def openBytes (s : Served) : List UInt8 :=
  ((instruction? (fun _ => s.2.code.size) s).map Instruction.encode).getD []

theorem code_of_performAll (h : performAll rs a = .ok () b) :
    b.code.toList = a.code.toList ++ (history a rs).flatMap openBytes := by
  induction rs generalizing a with
  | nil =>
    cases h
    simp [history]
  | cons r rs ih =>
    obtain ⟨m, hr, hrs⟩ := performAll_cons.mp h
    rw [ih hrs, (performed hr).code, history_cons hr, List.flatMap_cons, List.append_assoc]
    rfl

/-- The open jumps of a run are those of its requests, in order. -/
theorem jumps_of_performAll (h : performAll rs a = .ok () b) :
    b.jumps.toList = a.jumps.toList ++ (history a rs).filterMap jump? := by
  induction rs generalizing a with
  | nil =>
    cases h
    simp [history]
  | cons r rs ih =>
    obtain ⟨m, hr, hrs⟩ := performAll_cons.mp h
    rw [ih hrs, (performed hr).jumps, history_cons hr, List.append_assoc]
    cases hj : jump? (r, a) with
    | none => rw [List.filterMap_cons_none hj, Option.toList_none, List.nil_append]
    | some j => rw [List.filterMap_cons_some hj, Option.toList_some, List.singleton_append]

theorem boundAt_cons (s : Served) (served : List Served) (label : Nat) :
    boundAt (s :: served) label =
      (boundAt served label).or (if s.1 = .bind label then some s.2.code.size else none) := by
  rw [boundAt, List.reverse_cons, List.findSome?_append, boundAt]
  congr 1
  rw [List.findSome?_singleton]

/-- A label that stands bound after a run was bound before it and never in it, or in it. -/
theorem boundAt_of_labelOffset {label t : Nat} (h : performAll rs a = .ok () b)
    (hbound : labelOffset b label = some t) :
    labelOffset a label = some t ∧ boundAt (history a rs) label = none ∨
      boundAt (history a rs) label = some t := by
  induction rs generalizing a with
  | nil =>
    cases h
    exact .inl ⟨hbound, rfl⟩
  | cons r rs ih =>
    obtain ⟨m, hr, hrs⟩ := performAll_cons.mp h
    have hp := performed hr
    rw [history_cons hr, boundAt_cons]
    rcases ih hrs with ⟨hm, hnone⟩ | hsome
    · rw [hnone, Option.none_or]
      rw [hp.offsets] at hm
      split at hm
      · next hbind =>
        cases hm
        exact .inr (if_pos hbind.1)
      · have hne : r ≠ .bind label := by
          intro hbind
          rw [hp.free label hbind] at hm
          cases hm
        exact .inl ⟨hm, if_neg hne⟩
    · rw [hsome]
      exact .inr rfl

/-- The inversion of one resolved jump: its label is bound within reach, and the two bytes behind
the opcode hold the distance. -/
theorem resolve_eq_ok {labels : Array LabelState} {code code' : Array UInt8} {j : Jump}
    (h : resolve labels code j = .ok code') :
    ∃ t, (labels.getD j.label {}).offset = some t ∧
      (-32768 ≤ (t : Int) - j.origin ∧ (t : Int) - j.origin ≤ 32767) ∧
      code' = (code.setIfInBounds j.patch
        ((((t : Int) - j.origin) % 0x10000).toNat / 0x100).toUInt8).setIfInBounds (j.patch + 1)
        ((((t : Int) - j.origin) % 0x10000).toNat % 0x100).toUInt8 := by
  unfold resolve at h
  split at h
  · cases h
  · next t ht =>
    dsimp only at h
    split at h
    · next hreach =>
      cases h
      exact ⟨t, ht, hreach, rfl⟩
    · cases h

/-- Resolving a jump fills in the two bytes behind its opcode. -/
theorem resolve_jump {labels : Array LabelState} {code code' : Array UInt8} {op : Opcode}
    {label : Nat} {before behind : List UInt8} {x y : UInt8}
    (hcode : code.toList = before ++ op.byte :: x :: y :: behind)
    (h : resolve labels code ⟨before.length, before.length + 1, label⟩ = .ok code') :
    ∃ t, (labels.getD label {}).offset = some t ∧
      Instruction.InReach ⟨before.length, op, .target t⟩ ∧
      code'.toList = before ++ Instruction.encode ⟨before.length, op, .target t⟩ ++ behind := by
  obtain ⟨t, ht, hreach, rfl⟩ := resolve_eq_ok h
  refine ⟨t, ht, ?_, ?_⟩
  · intro t' ht'
    cases ht'
    exact hreach
  · have hword := Word.toNat_toUInt16 (n := (((t : Int) - before.length) % 0x10000).toNat)
      (by omega)
    simp [hcode, Instruction.encode, Word.bytes16, hword, Nat.add_assoc]

/-- Where each label stands according to a table, 0 for a label that is not bound. -/
def targetIn (labels : Array LabelState) (label : Nat) : Nat :=
  (labels.getD label {}).offset.getD 0

/-- The instructions that a run of requests asks for, if the labels stand where a table says. -/
def instructions (target : Nat → Nat) (served : List Served) : List Instruction :=
  served.filterMap (instruction? target)

theorem instruction?_eq_some {target : Nat → Nat} {s : Served} {i : Instruction}
    (h : instruction? target s = some i) :
    i.offset = s.2.code.size ∧ s.1.form? target s.2 = some (i.op, i.operand) := by
  obtain ⟨⟨op, operand⟩, hform, rfl⟩ := Option.map_eq_some_iff.mp h
  exact ⟨rfl, hform⟩

/-- A request asks for no instruction, or for one that is written at once, or for a jump. -/
theorem served_cases (target : Nat → Nat) (s : Served) :
    (jump? s = none ∧ instruction? target s = none ∧ openBytes s = []) ∨
    (jump? s = none ∧ ∃ i, instruction? target s = some i ∧ openBytes s = i.encode ∧
      ∀ t, i.operand ≠ .target t) ∨
    (∃ op label, s.1 = .jump op label) := by
  obtain ⟨r, a⟩ := s
  by_cases hr : ∃ op label, r = .jump op label
  · exact .inr (.inr hr)
  · have hjump : jump? (r, a) = none := by
      cases r with
      | jump op label => exact absurd ⟨op, label, rfl⟩ hr
      | _ => rfl
    have hsame : r.form? (fun _ => a.code.size) a = r.form? target a :=
      form?_congr fun op label h => absurd ⟨op, label, h⟩ hr
    have hopen : openBytes (r, a) =
        ((instruction? target (r, a)).map Instruction.encode).getD [] := by
      simp only [openBytes, instruction?, hsame]
    cases hi : instruction? target (r, a) with
    | none => exact .inl ⟨hjump, rfl, by rw [hopen, hi]; rfl⟩
    | some i =>
      refine .inr (.inl ⟨hjump, i, rfl, by rw [hopen, hi]; rfl, ?_⟩)
      intro t ht
      have hform := (instruction?_eq_some hi).2
      rw [ht] at hform
      obtain ⟨label, h, -⟩ := form?_target hform
      exact hr ⟨i.op, label, h⟩

theorem size_of_performed (h : Performed r a b) :
    b.code.size = a.code.size + (openBytes (r, a)).length := by
  have hlength := congrArg List.length h.code
  rwa [List.length_append, Array.length_toList, Array.length_toList] at hlength

/-- Jumps can be resolved only to labels that are bound. -/
theorem bound_of_resolved {labels : Array LabelState} {jumps : List Jump}
    {code code' : Array UInt8} (h : jumps.foldlM (resolve labels) code = .ok code') :
    ∀ j ∈ jumps, ∃ t, (labels.getD j.label {}).offset = some t := by
  induction jumps generalizing code with
  | nil => simp
  | cons j jumps ih =>
    rw [List.foldlM_cons] at h
    obtain ⟨next, hj, h⟩ := except_bind_eq_ok.mp h
    intro k hk
    rcases List.mem_cons.mp hk with rfl | hk
    · obtain ⟨t, ht, -⟩ := resolve_eq_ok hj
      exact ⟨t, ht⟩
    · exact ih h k hk

theorem size_of_resolved {labels : Array LabelState} {jumps : List Jump} {code code' : Array UInt8}
    (h : jumps.foldlM (resolve labels) code = .ok code') : code'.size = code.size := by
  induction jumps generalizing code with
  | nil =>
    cases h
    rfl
  | cons j jumps ih =>
    rw [List.foldlM_cons] at h
    obtain ⟨next, hj, h⟩ := except_bind_eq_ok.mp h
    obtain ⟨t, -, -, rfl⟩ := resolve_eq_ok hj
    rw [ih h, Array.size_setIfInBounds, Array.size_setIfInBounds]

/-- Once the jumps of a run are resolved, its code is made of the instructions it asked for. -/
theorem resolved {labels : Array LabelState} (before : List UInt8) {code code' : Array UInt8}
    (h : performAll rs a = .ok () b) (hbefore : before.length = a.code.size)
    (hcode : code.toList = before ++ (history a rs).flatMap openBytes)
    (hfold : ((history a rs).filterMap jump?).foldlM (resolve labels) code = .ok code') :
    code'.toList =
        before ++ (instructions (targetIn labels) (history a rs)).flatMap Instruction.encode ∧
      Instruction.Tiled a.code.size (instructions (targetIn labels) (history a rs)) := by
  induction rs generalizing a before code with
  | nil =>
    cases hfold
    exact ⟨hcode, .nil _⟩
  | cons r rs ih =>
    obtain ⟨m, hr, hrs⟩ := performAll_cons.mp h
    have hp := performed hr
    have hsize := size_of_performed hp
    rw [history_cons hr] at hcode hfold ⊢
    rw [List.flatMap_cons] at hcode
    rcases served_cases (targetIn labels) (r, a) with
      ⟨hjump, hi, hopen⟩ | ⟨hjump, i, hi, hopen, hplain⟩ | ⟨op, label, rfl⟩
    · rw [hopen] at hsize hcode
      rw [List.filterMap_cons_none hjump] at hfold
      rw [instructions, List.filterMap_cons_none hi]
      obtain ⟨hbytes, htiled⟩ := ih before hrs (hbefore.trans hsize.symm) hcode hfold
      rw [show m.code.size = a.code.size from hsize] at htiled
      exact ⟨hbytes, htiled⟩
    · obtain ⟨hoffset, hform⟩ := instruction?_eq_some hi
      rw [hopen] at hsize hcode
      rw [List.filterMap_cons_none hjump] at hfold
      rw [instructions, List.filterMap_cons_some hi]
      obtain ⟨hbytes, htiled⟩ := ih (before ++ i.encode) hrs
        (by rw [List.length_append, hbefore, hsize]) (by rw [hcode, List.append_assoc]) hfold
      rw [hsize, ← hoffset] at htiled
      refine ⟨by rw [hbytes, List.flatMap_cons, List.append_assoc]; rfl, ?_⟩
      rw [show a.code.size = i.offset from hoffset.symm]
      exact .cons (hp.suits _ _ _ hform) (fun t ht => absurd ht (hplain t)) htiled
    · -- The jump is the first one to be resolved; what it writes ends up in front of the rest.
      have hopen : openBytes (.jump op label, a) = [op.byte, 0, 0] := by
        simp [openBytes, instruction?, form?, Instruction.encode, Word.bytes16]
      rw [hopen] at hsize hcode
      rw [List.filterMap_cons_some (b := ⟨before.length, before.length + 1, label⟩)
        (by rw [hbefore]; rfl), List.foldlM_cons] at hfold
      obtain ⟨next, hfirst, hfold⟩ := except_bind_eq_ok.mp hfold
      obtain ⟨t, ht, hreach, hnext⟩ := resolve_jump hcode hfirst
      rw [hbefore] at hreach hnext
      have hi : instruction? (targetIn labels) (.jump op label, a) =
          some ⟨a.code.size, op, .target t⟩ := by
        rw [instruction?, form?, targetIn, ht]
        rfl
      rw [instructions, List.filterMap_cons_some hi]
      obtain ⟨hbytes, htiled⟩ := ih
        (before ++ Instruction.encode ⟨a.code.size, op, .target t⟩) hrs
        (by rw [List.length_append, hbefore, hsize]; rfl) hnext hfold
      refine ⟨by rw [hbytes, List.flatMap_cons, List.append_assoc]; rfl, ?_⟩
      rw [hsize] at htiled
      exact .cons (i := ⟨a.code.size, op, .target t⟩)
        (hp.suits (targetIn labels) op _ (instruction?_eq_some hi).2) hreach htiled

/-- Where the assembler stands before a request of a run, there stands the next instruction, or the
code ends. -/
theorem offset_of_start (target : Nat → Nat) (h : performAll rs a = .ok () b) :
    a.code.size = b.code.size ∨
      ∃ i ∈ instructions target (history a rs), i.offset = a.code.size := by
  induction rs generalizing a with
  | nil =>
    cases h
    exact .inl rfl
  | cons r rs ih =>
    obtain ⟨m, hr, hrs⟩ := performAll_cons.mp h
    rw [history_cons hr, instructions]
    cases hi : instruction? target (r, a) with
    | some i =>
      rw [List.filterMap_cons_some hi]
      exact .inr ⟨i, by simp, (instruction?_eq_some hi).1⟩
    | none =>
      have hopen : openBytes (r, a) = [] := by
        rcases served_cases target (r, a) with ⟨-, -, hopen⟩ | ⟨-, i, hsome, -⟩ | ⟨op, label, rfl⟩
        · exact hopen
        · rw [hi] at hsome
          cases hsome
        · cases hi
      have hsize := size_of_performed (performed hr)
      rw [hopen, List.length_nil, Nat.add_zero] at hsize
      rw [List.filterMap_cons_none hi, ← hsize]
      exact ih hrs

/-- Where a request was served, an instruction of the run starts, or the run ends. -/
theorem offset_of_mem (target : Nat → Nat) (h : performAll rs a = .ok () b) {s : Served}
    (hs : s ∈ history a rs) :
    s.2.code.size = b.code.size ∨
      ∃ i ∈ instructions target (history a rs), i.offset = s.2.code.size := by
  induction rs generalizing a with
  | nil => cases hs
  | cons r rs ih =>
    obtain ⟨m, hr, hrs⟩ := performAll_cons.mp h
    have hstart := offset_of_start target h
    rw [history_cons hr] at hs hstart ⊢
    rcases List.mem_cons.mp hs with rfl | hs
    · exact hstart
    · rcases ih hrs hs with hend | ⟨i, hi, hoffset⟩
      · exact .inl hend
      · refine .inr ⟨i, ?_, hoffset⟩
        obtain ⟨s', hs', hi'⟩ := List.mem_filterMap.mp hi
        exact List.mem_filterMap.mpr ⟨s', List.mem_cons_of_mem _ hs', hi'⟩

theorem mem_of_boundAt {served : List Served} {label t : Nat} (h : boundAt served label = some t) :
    ∃ s ∈ served, s.2.code.size = t := by
  obtain ⟨s, hs, ht⟩ := List.exists_of_findSome?_eq_some h
  refine ⟨s, List.mem_reverse.mp hs, ?_⟩
  dsimp only at ht
  split at ht
  · exact Option.some.inj ht
  · cases ht

end Request

/-- The inversion of a finish: the jumps were resolved, the code fits its length, and the limits are
those that were counted. -/
theorem Assembler.finish_eq_ok {a : Assembler} {code : Code} (h : a.finish = .ok code) :
    ∃ bytes, a.jumps.toList.foldlM (resolve a.labels) a.code = .ok bytes ∧
      bytes.size ≤ maxCodeLength ∧ code = ⟨a.maxStack, a.maxLocals, bytes.toList⟩ := by
  unfold finish at h
  cases hfold : a.jumps.toList.foldlM (resolve a.labels) a.code with
  | error e =>
    rw [hfold] at h
    cases h
  | ok bytes =>
    rw [hfold] at h
    refine ⟨bytes, rfl, ?_⟩
    by_cases hsize : maxCodeLength < bytes.size
    · replace h : Except.error _ = Except.ok code := (if_pos hsize).symm.trans h
      cases h
    · replace h : Except.ok _ = Except.ok code := (if_neg hsize).symm.trans h
      cases h
      exact ⟨by omega, rfl⟩

open Request Assembler

/-- Where the labels of a history stand, 0 for those it does not bind. -/
def targetOf (served : List Served) (label : Nat) : Nat :=
  (boundAt served label).getD 0

def asked (served : List Served) : List Instruction :=
  instructions (targetOf served) served

/-- Finished code is made of the instructions that were asked for. -/
structure Assembled (rs : List Request) (served : List Served) (code : List UInt8) : Prop where
  bytes : code = (asked served).flatMap Instruction.encode
  tiled : Instruction.Tiled 0 (asked served)
  bound : ∀ op label, .jump op label ∈ rs → ∃ t, boundAt served label = some t
  /-- A label stands before an instruction or at the end. -/
  placed : ∀ label t, boundAt served label = some t →
    t = code.length ∨ ∃ i ∈ asked served, i.offset = t

/-- Finished code is what the history asks for. The run leaves the open bytes, with each jump
leading to itself; resolving replaces the distance of one jump at a time, and a jump's bytes are not
another's. -/
theorem assembled {pool : Pool} {slots : Nat} {rs : List Request} {a : Assembler} {code : Code}
    (hrun : performAll rs (start pool slots) = .ok () a) (hfinish : a.finish = .ok code) :
    Assembled rs (history (start pool slots) rs) code.bytes := by
  obtain ⟨bytes, hfold, -, rfl⟩ := finish_eq_ok hfinish
  have hsize := size_of_resolved hfold
  rw [jumps_of_performAll hrun] at hfold
  have hcode : a.code.toList = [] ++ (history (start pool slots) rs).flatMap openBytes :=
    code_of_performAll hrun
  obtain ⟨hbytes, htiled⟩ := resolved [] hrun rfl hcode hfold
  have hbound : ∀ op label, .jump op label ∈ rs →
      ∃ t, boundAt (history (start pool slots) rs) label = some t ∧
        (a.labels.getD label {}).offset = some t := by
    intro op label hmem
    obtain ⟨m, hserved⟩ := (mem_iff_history (start pool slots)).mp hmem
    obtain ⟨t, ht⟩ := bound_of_resolved hfold ⟨m.code.size, m.code.size + 1, label⟩
      (List.mem_filterMap.mpr ⟨_, hserved, rfl⟩)
    rcases boundAt_of_labelOffset hrun ht with ⟨hbefore, -⟩ | hin
    · cases hbefore
    · exact ⟨t, hin, ht⟩
  -- The table of labels and the history agree on every label that a jump leads to.
  have hasked : asked (history (start pool slots) rs) =
      instructions (targetIn a.labels) (history (start pool slots) rs) := by
    apply List.filterMap_congr
    intro s hs
    rw [instruction?, instruction?, form?_congr]
    intro op label hjump
    obtain ⟨t, hin, ht⟩ := hbound op label (hjump ▸ mem_of_mem_history hs)
    rw [targetOf, targetIn, hin, ht]
  refine ⟨hasked ▸ hbytes, hasked ▸ htiled, ?_, ?_⟩
  · intro op label hmem
    obtain ⟨t, hin, -⟩ := hbound op label hmem
    exact ⟨t, hin⟩
  · intro label t ht
    obtain ⟨s, hs, rfl⟩ := mem_of_boundAt ht
    rcases offset_of_mem (targetOf (history (start pool slots) rs)) hrun hs with hend | hinside
    · left
      rw [hend, ← hsize]
      simp
    · exact .inr hinside

/-- Jumps stay inside the code exactly if none leads to its end. -/
theorem Assembled.inside_iff {rs : List Request} {served : List Served} {code : List UInt8}
    (h : Assembled rs served code) (hserved : ∀ r, r ∈ rs ↔ ∃ a, (r, a) ∈ served) :
    (∀ i ∈ asked served, i.Inside code.length) ↔
      ∀ op label, .jump op label ∈ rs → boundAt served label ≠ some code.length := by
  constructor
  · intro hinside op label hmem hend
    obtain ⟨a, ha⟩ := (hserved _).mp hmem
    have hi : (⟨a.code.size, op, .target code.length⟩ : Instruction) ∈ asked served := by
      refine List.mem_filterMap.mpr ⟨_, ha, ?_⟩
      rw [instruction?, form?, targetOf, hend]
      rfl
    have hlt := hinside _ hi code.length rfl
    omega
  · intro hbefore i hi t ht
    obtain ⟨s, hs, his⟩ := List.mem_filterMap.mp hi
    have hform := (instruction?_eq_some his).2
    rw [ht] at hform
    obtain ⟨label, hjump, htarget⟩ := form?_target hform
    have hmem : .jump i.op label ∈ rs := (hserved _).mpr ⟨s.2, hjump ▸ hs⟩
    obtain ⟨t', ht'⟩ := h.bound i.op label hmem
    have hne := hbefore i.op label hmem
    rw [targetOf, ht', Option.getD_some] at htarget
    rw [ht'] at hne
    subst htarget
    rcases h.placed label t ht' with hend | ⟨j, hj, hoffset⟩
    · rw [hend] at hne
      exact absurd rfl hne
    · have hlt := h.tiled.offset_lt hj
      rw [← h.bytes] at hlt
      omega

/-- Finished code decodes to the instructions that were asked for, unless a jump leads behind it. -/
theorem decode_cases {pool : Pool} {slots : Nat} {rs : List Request} {a : Assembler} {code : Code}
    (hrun : performAll rs (start pool slots) = .ok () a) (hfinish : a.finish = .ok code) :
    let calls := history (start pool slots) rs
    ((∀ op label, .jump op label ∈ rs → boundAt calls label ≠ some code.bytes.length) ∧
      Instruction.decode code.bytes = .ok (asked calls).toArray) ∨
    ((¬ ∀ op label, .jump op label ∈ rs → boundAt calls label ≠ some code.bytes.length) ∧
      ∃ e, Instruction.decode code.bytes = .error e) := by
  intro calls
  have h : Assembled rs calls code.bytes := assembled hrun hfinish
  have hdecode := Instruction.decode_tiled h.tiled
  rwa [← h.bytes, h.inside_iff fun _ => mem_iff_history _] at hdecode

/-! ## A loop around a call

Indices of the pool cannot be computed by evaluation, but what a run does with them can. -/

def pollingHead : List Request :=
  [.newLabel, .newLabel, .bind 0, .load 0]

def pollingTail : List Request :=
  [.jump .ifeq 1, .jump .goto 0, .load 0, .load 0, .load 0, .load 0, .bind 1, .plain .ret]

/-- A loop that calls an interface with a long while the answer is true. Behind the jump back to its
head stand pushes that control never reaches. -/
def polling : List Request :=
  pollingHead ++ .getStatic "A" "x" "J" :: .call .interface "A" "f" "(J)Z" :: pollingTail

/-- The assembler of this loop behind some of its bytes, before any jump. -/
def polledAt (pool : Pool) (bytes : List UInt8) (depth maxStack : Nat) : Assembler :=
  ⟨pool, bytes.toArray, some depth, maxStack, 1, #[⟨some 0, some 0⟩, {}], #[]⟩

/-- The bytes up to the answer, with the indices of the field and of the method. -/
def polledBytes (i j : UInt16) : List UInt8 :=
  42 :: 178 :: Word.bytes16 i ++ 185 :: Word.bytes16 j ++ [3, 0]

/-- The assembler behind the whole loop, with both jumps still leading to themselves. -/
def polledEnd (pool : Pool) (i j : UInt16) : Assembler :=
  ⟨pool, (polledBytes i j ++ [153, 0, 0, 167, 0, 0, 42, 42, 42, 42, 177]).toArray, none, 3, 1,
    #[⟨some 0, some 0⟩, ⟨some 19, some 0⟩], #[⟨9, 10, 1⟩, ⟨12, 13, 0⟩]⟩

/-- The history of the loop, where the call finds the pool `p` and leaves `q`. -/
def polledCalls (p q : Pool) (i j : UInt16) : List Served :=
  history (start .empty 1) pollingHead ++
    (.getStatic "A" "x" "J", polledAt .empty [42] 1 1) ::
    (.call .interface "A" "f" "(J)Z", polledAt p (42 :: 178 :: Word.bytes16 i) 3 3) ::
    history (polledAt q (polledBytes i j) 1 3) pollingTail

/-- The long takes two slots, and the call consumes it and the receiver. -/
theorem polling_calls : ∃ p q i j,
    perform (.getStatic "A" "x" "J") (polledAt .empty [42] 1 1) =
      .ok () (polledAt p (42 :: 178 :: Word.bytes16 i) 3 3) ∧
    index (polledAt .empty [42] 1 1) (.getStatic "A" "x" "J") = i ∧
    perform (.call .interface "A" "f" "(J)Z") (polledAt p (42 :: 178 :: Word.bytes16 i) 3 3) =
      .ok () (polledAt q (polledBytes i j) 1 3) ∧
    index (polledAt p (42 :: 178 :: Word.bytes16 i) 3 3) (.call .interface "A" "f" "(J)Z") = j := by
  have howner : Text.ModifiedUtf8.encodedLength "A" ≤ Pool.maxTextLength := by cbv
  have hfield : Text.ModifiedUtf8.encodedLength "x" ≤ Pool.maxTextLength := by cbv
  have hfieldType : Text.ModifiedUtf8.encodedLength "J" ≤ Pool.maxTextLength := by cbv
  have hmethod : Text.ModifiedUtf8.encodedLength "f" ≤ Pool.maxTextLength := by cbv
  have hmethodType : Text.ModifiedUtf8.encodedLength "(J)Z" ≤ Pool.maxTextLength := by cbv
  obtain ⟨i, p, hi, hsize⟩ :=
    Pool.addMember_succeeds .field howner hfield hfieldType .empty (by decide)
  replace hsize : p.size ≤ 6 := hsize
  obtain ⟨j, q, hj, -⟩ := Pool.addMember_succeeds .interfaceMethod howner hmethod hmethodType p
    (by rw [Pool.capacity]; omega)
  refine ⟨p, q, i, j, ?_, index_of_onPool rfl (onPool_of_ok hi), ?_,
    index_of_onPool rfl (onPool_of_ok hj)⟩
  · have hparse : FieldType.parse "J" = .ok ⟨0, .long⟩ := by cbv
    rw [perform, Assembler.getStatic, hparse]
    refine (bind_of_ok rfl).trans ((bind_of_ok (onPool_of_ok hi)).trans ?_)
    cbv
  · have hparse : MethodType.parse "(J)Z" = .ok ⟨[⟨0, .long⟩], some ⟨0, .boolean⟩⟩ := by cbv
    rw [perform, Assembler.call, hparse]
    refine (bind_of_ok rfl).trans ((bind_of_ok rfl).trans
      ((bind_of_ok (onPool_of_ok hj)).trans ?_))
    cbv

theorem boundAt_polled (p q : Pool) (i j : UInt16) :
    boundAt (polledCalls p q i j) 0 = some 0 ∧ boundAt (polledCalls p q i j) 1 = some 19 := by
  constructor <;> cbv

theorem label_of_polling {op : Opcode} {label : Nat} (h : .jump op label ∈ polling) :
    label = 0 ∨ label = 1 := by
  simp only [polling, pollingHead, pollingTail, List.mem_append, List.mem_cons, reduceCtorEq,
    Request.jump.injEq, List.not_mem_nil, or_false, false_or] at h
  omega

/-- What the loop asks for, once the pool has handed out the two indices. The parts in front of the
two members and behind them are evaluated for any place of the labels. -/
theorem asked_polled {p q : Pool} {i j : UInt16}
    (hi : index (polledAt .empty [42] 1 1) (.getStatic "A" "x" "J") = i)
    (hj : index (polledAt p (42 :: 178 :: Word.bytes16 i) 3 3)
      (.call .interface "A" "f" "(J)Z") = j) :
    (polledCalls p q i j).filterMap (instruction? (targetOf (polledCalls p q i j))) =
      [⟨0, .aload0, .none⟩, ⟨1, .getstatic, .index i⟩, ⟨4, .invokeinterface, .interface j 3⟩,
        ⟨9, .ifeq, .target 19⟩, ⟨12, .goto, .target 0⟩, ⟨15, .aload0, .none⟩, ⟨16, .aload0, .none⟩,
        ⟨17, .aload0, .none⟩, ⟨18, .aload0, .none⟩, ⟨19, .ret, .none⟩] := by
  obtain ⟨hback, hexit⟩ := boundAt_polled p q i j
  generalize htarget : targetOf (polledCalls p q i j) = target
  have hfirst : (history (start .empty 1) pollingHead).filterMap (instruction? target) =
      [⟨0, .aload0, .none⟩] := by cbv
  have hlast : (history (polledAt q (polledBytes i j) 1 3) pollingTail).filterMap
      (instruction? target) =
      [⟨9, .ifeq, .target (target 1)⟩, ⟨12, .goto, .target (target 0)⟩, ⟨15, .aload0, .none⟩,
        ⟨16, .aload0, .none⟩, ⟨17, .aload0, .none⟩, ⟨18, .aload0, .none⟩, ⟨19, .ret, .none⟩] := by
    cbv
  have hcount : consumed .interface "(J)Z" = 3 := by cbv
  rw [polledCalls, List.filterMap_append, List.filterMap_cons, List.filterMap_cons, hfirst, hlast]
  simp only [instruction?, form?, hi, hj, hcount]
  rw [← htarget, targetOf, targetOf, hback, hexit]
  rfl

/-- The loop is served, and the indices of its two members are the only part that the pool
decides. -/
theorem polling_served : ∃ p q i j a code, performAll polling (start .empty 1) = .ok () a ∧
    a.finish = .ok code ∧ code.maxStack = 3 ∧
    history (start .empty 1) polling = polledCalls p q i j ∧
    (∀ op label, .jump op label ∈ polling →
      boundAt (history (start .empty 1) polling) label ≠ some code.bytes.length) ∧
    (history (start .empty 1) polling).filterMap
        (instruction? (targetOf (history (start .empty 1) polling))) =
      [⟨0, .aload0, .none⟩, ⟨1, .getstatic, .index i⟩, ⟨4, .invokeinterface, .interface j 3⟩,
        ⟨9, .ifeq, .target 19⟩, ⟨12, .goto, .target 0⟩, ⟨15, .aload0, .none⟩, ⟨16, .aload0, .none⟩,
        ⟨17, .aload0, .none⟩, ⟨18, .aload0, .none⟩, ⟨19, .ret, .none⟩] := by
  obtain ⟨p, q, i, j, hpush, hi, hcall, hj⟩ := polling_calls
  obtain ⟨hback, hexit⟩ := boundAt_polled p q i j
  have hhead : performAll pollingHead (start .empty 1) = .ok () (polledAt .empty [42] 1 1) := by cbv
  have htail : performAll pollingTail (polledAt q (polledBytes i j) 1 3) =
      .ok () (polledEnd q i j) := by cbv
  have hrun := performAll_append.mpr ⟨_, hhead,
    performAll_cons.mpr ⟨_, hpush, performAll_cons.mpr ⟨_, hcall, htail⟩⟩⟩
  have hfinish : (polledEnd q i j).finish =
      .ok ⟨3, 1, polledBytes i j ++ [153, 0, 10, 167, 255, 244, 42, 42, 42, 42, 177]⟩ := by cbv
  have hserved : history (start .empty 1) polling = polledCalls p q i j := by
    rw [polling, history_append hhead, history_cons hpush, history_cons hcall, polledCalls]
  rw [hserved]
  refine ⟨p, q, i, j, _, _, hrun, hfinish, rfl, rfl, ?_, asked_polled hi hj⟩
  intro op label hmem
  rcases label_of_polling hmem with rfl | rfl
  · simp [hback, polledBytes]
  · simp [hexit, polledBytes, Word.bytes16]

/-- Decoding undoes assembling. For requests that all succeed, followed by a successful `finish`,
the code can be decoded exactly if no jump leads to its end. Then there is one instruction for each
request that asks for one, in order and where the assembler stood, and each jump leads to the
instruction at which its label was bound. The count byte of an interface call is the number of slots
of its descriptor's parameters and of the receiver, which fit the byte. -/
theorem decode_finished {pool : Pool} {slots : Nat} {rs : List Request} {a : Assembler}
    {code : Code} (hrun : performAll rs (start pool slots) = .ok () a)
    (hfinish : a.finish = .ok code) :
    let calls := history (start pool slots) rs
    ((∃ is, Instruction.decode code.bytes = .ok is) ↔
      ∀ op label, .jump op label ∈ rs → boundAt calls label ≠ some code.bytes.length) ∧
    ∀ is, Instruction.decode code.bytes = .ok is →
      is.toList = calls.filterMap (instruction? (targetOf calls)) ∧
      (∀ op label, .jump op label ∈ rs →
        ∃ t, boundAt calls label = some t ∧ ∃ i ∈ is, i.offset = t) ∧
      ∀ owner name descriptor, .call .interface owner name descriptor ∈ rs →
        ∃ m, MethodType.parse descriptor = .ok m ∧
          consumed .interface descriptor = m.ownSlots + 1 ∧ m.ownSlots + 1 ≤ 255 := by
  intro calls
  have h : Assembled rs calls code.bytes := assembled hrun hfinish
  rcases decode_cases hrun hfinish with ⟨hinside, hok⟩ | ⟨houtside, e, herror⟩
  · refine ⟨iff_of_true ⟨_, hok⟩ hinside, ?_⟩
    intro is his
    rw [hok] at his
    cases his
    refine ⟨rfl, ?_, ?_⟩
    · intro op label hmem
      obtain ⟨t, ht⟩ := h.bound op label hmem
      rcases h.placed label t ht with hend | ⟨i, hi, hoffset⟩
      · exact absurd (hend ▸ ht) (hinside op label hmem)
      · exact ⟨t, ht, i, List.mem_toArray.mpr hi, hoffset⟩
    · intro owner name descriptor hmem
      obtain ⟨m, hm⟩ := (mem_iff_history (start pool slots)).mp hmem
      obtain ⟨_, hperformed⟩ := performed_of_mem hrun hm
      obtain ⟨t, ht, hcount⟩ := hperformed.counted owner name descriptor rfl
      exact ⟨t, ht, by simp [consumed, ht, CallKind.receiverSlots], hcount⟩
  · refine ⟨iff_of_false ?_ houtside, ?_⟩
    · rintro ⟨is, his⟩
      rw [herror] at his
      cases his
    · intro is his
      rw [herror] at his
      cases his

/-- The loop around a call reads back, with the slots of the call counted. -/
theorem decode_finished_loop :
    ∃ a code i j is, performAll polling (start .empty 1) = .ok () a ∧ a.finish = .ok code ∧
      Instruction.decode code.bytes = .ok is ∧
      is.toList = [⟨0, .aload0, .none⟩, ⟨1, .getstatic, .index i⟩,
        ⟨4, .invokeinterface, .interface j 3⟩, ⟨9, .ifeq, .target 19⟩, ⟨12, .goto, .target 0⟩,
        ⟨15, .aload0, .none⟩, ⟨16, .aload0, .none⟩, ⟨17, .aload0, .none⟩, ⟨18, .aload0, .none⟩,
        ⟨19, .ret, .none⟩] := by
  obtain ⟨p, q, i, j, a, code, hrun, hfinish, -, -, hinside, hasked⟩ := polling_served
  obtain ⟨hdecodes, hexact⟩ := decode_finished hrun hfinish
  obtain ⟨is, his⟩ := hdecodes.mpr hinside
  exact ⟨a, code, i, j, is, hrun, hfinish, his, (hexact is his).1.trans hasked⟩

end StackGlyph
