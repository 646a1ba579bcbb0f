import Mathlib
import StackGlyph.Proofs.Decoding
import StackGlyph.Proofs.Evolution
import StackGlyph.Proofs.Reading

/-!
# Histories of a class draft

A draft passes through any sequence of calls, of which some may fail. A call that fails declares
nothing and disturbs nothing, although the constants that it added stay. So at any time the draft
stands for the methods and the source file of the calls that succeeded, and its bytes read back as
just these.
-/
namespace StackGlyph

open Request Assembler

namespace ClassDraft

/-- What every call keeps. -/
structure Keeps (d e : ClassDraft) : Prop where
  pool : d.pool.Grows e.pool
  access : e.access = d.access
  thisClass : e.thisClass = d.thisClass
  superClass : e.superClass = d.superClass

theorem keeps_lasting : Lasting Keeps where
  refl d := ⟨Pool.grows_lasting.refl d.pool, rfl, rfl, rfl⟩
  trans h h' := ⟨Pool.grows_lasting.trans h.pool h'.pool, h'.access.trans h.access,
    h'.thisClass.trans h.thisClass, h'.superClass.trans h.superClass⟩

/-- What a call keeps that fails, and every call up to its last step. -/
structure Carries (d e : ClassDraft) : Prop extends Keeps d e where
  methods : e.methods = d.methods
  sourceFile : e.sourceFile = d.sourceFile
  codeName : d.pool.textAt d.codeName = .ok "Code" → e.pool.textAt e.codeName = .ok "Code"

theorem carries_lasting : Lasting Carries where
  refl d := ⟨keeps_lasting.refl d, rfl, rfl, id⟩
  trans h h' := ⟨keeps_lasting.trans h.toKeeps h'.toKeeps, h'.methods.trans h.methods,
    h'.sourceFile.trans h.sourceFile, h'.codeName ∘ h.codeName⟩

theorem carries_of_grows {d : ClassDraft} {q : Pool} (h : d.pool.Grows q) :
    Carries d { d with pool := q } :=
  ⟨⟨h, rfl, rfl, rfl⟩, rfl, rfl, Pool.textAt_mono h.earlier⟩

/-- How an operation on the way of a call from `d` ends: if it fails, `d` is carried on; if it
succeeds, with what is said of its result. -/
def Ends {α : Type} (d : ClassDraft) (said : α → ClassDraft → Prop) :
    EStateM.Result Fault ClassDraft α → Prop
  | .ok v e => said v e
  | .error _ e => Carries d e

/-- How two operations in a row end: where either fails, the draft is carried on. -/
theorem Ends.bind {α β : Type} {d m : ClassDraft} {x : DraftM α} {f : α → DraftM β}
    {said : α → ClassDraft → Prop} {said' : β → ClassDraft → Prop} (hx : Ends d said (x m))
    (hf : ∀ v n, said v n → Ends d said' (f v n)) : Ends d said' ((x >>= f) m) := by
  cases h : x m with
  | ok v n =>
    rw [h] at hx
    rw [bind_of_ok h]
    exact hf v n hx
  | error e n =>
    rw [h] at hx
    rw [bind_of_error h]
    exact hx

theorem Ends.step {α β : Type} {d m n : ClassDraft} {x : DraftM α} {f : α → DraftM β} {v : α}
    {said : β → ClassDraft → Prop} (hx : x m = .ok v n) (hf : Ends d said (f v n)) :
    Ends d said ((x >>= f) m) := by
  rw [bind_of_ok hx]
  exact hf

/-- The pool is all that an operation on it can change. -/
theorem onPool_ends {α : Type} {x : PoolM α} {d m : ClassDraft} (hx : Respects Pool.Grows x)
    (hm : Carries d m) :
    Ends d (fun v n => Carries m n ∧ x m.pool = .ok v n.pool) (onPool x m) := by
  have hgrows := hx m.pool
  unfold onPool
  dsimp only
  cases h : x m.pool with
  | ok v q =>
    rw [h] at hgrows
    exact ⟨carries_of_grows hgrows, rfl⟩
  | error e q =>
    rw [h] at hgrows
    exact carries_lasting.trans hm (carries_of_grows hgrows)

theorem onPool_of_ok {α : Type} {x : PoolM α} {d : ClassDraft} {v : α} {q : Pool}
    (h : x d.pool = .ok v q) : onPool x d = .ok v { d with pool := q } := by
  simp only [onPool, h]

theorem onPool_eq_ok {α : Type} {x : PoolM α} {d e : ClassDraft} {v : α}
    (h : onPool x d = .ok v e) : x d.pool = .ok v e.pool ∧ e = { d with pool := e.pool } := by
  unfold onPool at h
  dsimp only at h
  split at h
  · next hx =>
    cases h
    exact ⟨hx, rfl⟩
  · cases h

theorem addText_ends {d m : ClassDraft} (hd : d.pool.Sound) (hm : Carries d m) (s : String) :
    Ends d (fun i n => Carries m n ∧ n.pool.textAt i = .ok s) (onPool (Pool.addText s) m) := by
  have h := onPool_ends (Pool.addText_grows s) hm
  cases hx : onPool (Pool.addText s) m with
  | error e n =>
    rw [hx] at h
    exact h
  | ok i n =>
    rw [hx] at h
    obtain ⟨hn, hadd⟩ := h
    exact ⟨hn, Pool.textAt_of_addText (hm.pool.sound hd) hadd (Pool.Extends.refl _)⟩

/-- Naming the source file adds two texts, then notes their indices. -/
theorem setSourceFile_ends {d : ClassDraft} (hd : d.pool.Sound) (name : String) :
    Ends d (fun _ e => ∃ m attr text, Carries d m ∧ e = { m with sourceFile := some (attr, text) } ∧
      m.pool.textAt attr = .ok "SourceFile" ∧ m.pool.textAt text = .ok name)
      (setSourceFile name d) := by
  refine (addText_ends hd (carries_lasting.refl d) "SourceFile").bind ?_
  rintro attr m ⟨hm, hattr⟩
  refine (addText_ends hd hm name).bind ?_
  rintro text n ⟨hn, htext⟩
  exact ⟨n, attr, text, carries_lasting.trans hm hn, rfl,
    Pool.textAt_mono hn.pool.earlier hattr, htext⟩

/-- Declaring a method adds three texts, then the method if there is room. -/
theorem declare_ends {d m : ClassDraft} (hd : d.pool.Sound) (hm : Carries d m) (access : UInt16)
    (name descriptor : String) (code : Code) :
    Ends d (fun _ e => ∃ n i j, Carries d n ∧ m.pool.Extends n.pool ∧ d.methods.size < maxMethods ∧
      e = { n with methods := n.methods.push ⟨access, i, j, code⟩ } ∧
      n.pool.textAt n.codeName = .ok "Code" ∧ n.pool.textAt i = .ok name ∧
      n.pool.textAt j = .ok descriptor) (declare access name descriptor code m) := by
  refine (addText_ends hd hm "Code").bind ?_
  rintro k n₁ ⟨hn₁, hk⟩
  -- From here on the index of `Code` is noted, and what follows carries it on.
  have hn₂ : Carries d { n₁ with codeName := k } :=
    { carries_lasting.trans hm hn₁ with codeName := fun _ => hk }
  refine Ends.step rfl ?_
  refine (addText_ends hd hn₂ name).bind ?_
  rintro i n₃ ⟨hn₃, hi⟩
  have hd₃ := carries_lasting.trans hn₂ hn₃
  refine (addText_ends hd hd₃ descriptor).bind ?_
  rintro j n ⟨hn, hj⟩
  have hdn := carries_lasting.trans hd₃ hn
  refine Ends.step rfl ?_
  dsimp only
  split
  · exact hdn
  · next hroom =>
    rw [hdn.methods] at hroom
    exact ⟨_, i, j, hdn, hn₁.pool.earlier.trans (hn₃.pool.earlier.trans hn.pool.earlier), by omega,
      rfl, hn.codeName (hn₃.codeName hk), Pool.textAt_mono hn.pool.earlier hi, hj⟩

variable {α : Type} {body : Asm α}

/-- A body reaches the pool through its assembler alone, which lets it grow and no more, even where
the code cannot be finished. -/
theorem assemble_grows (hbody : Respects Reaches body) (slots : Nat) :
    Respects Pool.Grows (assemble slots body) := by
  intro p
  have hpool := (hbody (start p slots)).evolves.pool
  unfold assemble
  split
  · next e a ha =>
    rw [ha] at hpool
    exact hpool
  · next v a ha =>
    rw [ha] at hpool
    split <;> exact hpool

/-- The inversion of an assembly: the body succeeded on a fresh assembler, and its code was
finished. -/
theorem assemble_eq_ok {slots : Nat} {p q : Pool} {v : α} {code : Code}
    (h : assemble slots body p = .ok (v, code) q) :
    ∃ a, body (start p slots) = .ok v a ∧ a.finish = .ok code ∧ a.pool = q := by
  unfold assemble at h
  split at h
  · cases h
  · next w a ha =>
    split at h
    · cases h
    · next c hc =>
      cases h
      exact ⟨a, ha, hc, rfl⟩

/-- The code of a body fits its fields if the parameters of the method do. -/
theorem fits_of_assemble (hbody : Respects Reaches body) {slots : Nat} (hslots : slots ≤ 65535)
    {p q : Pool} {v : α} {code : Code} (h : assemble slots body p = .ok (v, code) q) :
    code.Fits := by
  obtain ⟨a, ha, hfinish, -⟩ := assemble_eq_ok h
  have hevolves := (hbody.of_ok ha).evolves
  obtain ⟨bytes, -, hsize, rfl⟩ := finish_eq_ok hfinish
  exact ⟨hevolves.maxStack (Nat.zero_le _), hevolves.maxLocals hslots, by rwa [Array.length_toList]⟩

/-- The slots that a method is entered with: its parameters', and its receiver's if it has one. -/
def entrySlots (access : UInt16) (m : MethodType) : Nat :=
  m.ownSlots + if Access.has access Access.isStatic then 0 else 1

/-- The count that a declaration makes is that of the slots at entry, and they fit 16 bits. -/
theorem parameterSlots_eq_ok {access : UInt16} {m : MethodType} {n : Nat}
    (h : parameterSlots access m = .ok n) : entrySlots access m = n ∧ n ≤ 65535 := by
  obtain ⟨slots, hslots, h⟩ := except_bind_eq_ok.mp h
  obtain ⟨rfl, -⟩ := MethodType.paramSlots_eq_ok.mp hslots
  exact MethodType.addSlots_eq_ok h

/-- A declaration that succeeded has the code that its body assembled. -/
theorem method_ends {d : ClassDraft} (hd : d.pool.Sound) (hbody : Respects Reaches body)
    (access : UInt16) (name descriptor : String) :
    Ends d (fun v e => ∃ n i j t code p, Carries d n ∧ d.methods.size < maxMethods ∧
      e = { n with methods := n.methods.push ⟨access, i, j, code⟩ } ∧
      n.pool.textAt n.codeName = .ok "Code" ∧ n.pool.textAt i = .ok name ∧
      n.pool.textAt j = .ok descriptor ∧ MethodType.parse descriptor = .ok t ∧
      entrySlots access t ≤ 65535 ∧
      assemble (entrySlots access t) body d.pool = .ok (v, code) p ∧ p.Extends n.pool)
      (method access name descriptor body d) := by
  unfold method
  cases ht : MethodType.parse descriptor with
  | error e => exact carries_lasting.refl d
  | ok t =>
    refine Ends.step rfl ?_
    cases hslots : parameterSlots access t with
    | error e => exact carries_lasting.refl d
    | ok slots =>
      obtain ⟨rfl, hfits⟩ := parameterSlots_eq_ok hslots
      refine Ends.step rfl ?_
      refine (onPool_ends (assemble_grows hbody _) (carries_lasting.refl _)).bind ?_
      rintro ⟨v, code⟩ m ⟨hm, hassembled⟩
      refine (declare_ends hd hm access name descriptor code).bind ?_
      rintro - e ⟨n, i, j, hn, hmn, hroom, he, hcode, hi, hj⟩
      exact ⟨n, i, j, _, code, _, hn, hroom, he, hcode, hi, hj, rfl, hfits, hassembled, hmn⟩

/-! ## What a draft stands for -/

variable {d e : ClassDraft} {methods : List Method} {source : Option String}

/-- A draft that is carried on stands for the same methods: they refer to entries that stay where
they are. -/
theorem Records.carried (h : d.Records methods source) (hc : Carries d e) :
    e.Records methods source where
  pool := hc.pool.sound h.pool
  texts := hc.pool.textsFit h.texts
  count := by
    rw [hc.methods]
    exact h.count
  methods := by
    rw [hc.methods]
    exact h.methods.imp fun _ _ hm => hm.mono hc.pool.earlier
  codeName hne := hc.codeName (h.codeName (by rwa [hc.methods] at hne))
  source := by
    rw [hc.sourceFile]
    exact h.source.mono hc.pool.earlier

theorem Records.named (h : d.Records methods source) {attr text : UInt16} {name : String}
    (hattr : d.pool.textAt attr = .ok "SourceFile") (htext : d.pool.textAt text = .ok name) :
    Records { d with sourceFile := some (attr, text) } methods (some name) :=
  { h with source := ⟨hattr, htext⟩ }

/-- One more method at the end, with its constants already in the pool. -/
theorem Records.declared (h : d.Records methods source) (hroom : d.methods.size < maxMethods)
    (hcode : d.pool.textAt d.codeName = .ok "Code") {m : DraftMethod} {method : Method}
    (hm : m.Describes d.pool method) :
    Records { d with methods := d.methods.push m } (methods ++ [method]) source :=
  { h with
    count := by
      rw [Array.size_push]
      exact hroom
    methods := by
      rw [Array.toList_push]
      exact List.rel_append h.methods (.cons hm .nil)
    codeName := fun _ => hcode }

/-- A draft without methods stands for none. -/
theorem records_empty (hpool : d.pool.Sound) (htexts : d.pool.TextsFit) (hmethods : d.methods = #[])
    (hsource : d.sourceFile = none) : d.Records [] none where
  pool := hpool
  texts := htexts
  count := by simp [hmethods]
  methods := by
    rw [hmethods]
    exact .nil
  codeName hne := by simp [hmethods] at hne
  source := by
    rw [hsource]
    trivial

/-- A fresh class stands for nothing but its names. -/
theorem create_eq_ok {name superName : String} {access : UInt16}
    (h : create name superName access = .ok d) :
    d.Records [] none ∧ d.access = access ∧ d.pool.classNameAt d.thisClass = .ok name ∧
      d.pool.classNameAt d.superClass = .ok superName := by
  unfold create at h
  dsimp only at h
  split at h
  · next i j pool hpool =>
    cases h
    obtain ⟨_, m, hthis, hpool⟩ := bind_eq_ok.mp hpool
    obtain ⟨_, q, hsuper, hpool⟩ := bind_eq_ok.mp hpool
    cases hpool
    have hm := (Pool.addClass_grows name).of_ok hthis
    have hq := (Pool.addClass_grows superName).of_ok hsuper
    have hsound := hm.sound Pool.sound_empty
    exact ⟨records_empty (hq.sound hsound) (hq.textsFit (hm.textsFit Pool.textsFit_empty)) rfl rfl,
      rfl, Pool.classNameAt_of_addClass Pool.sound_empty hthis hq.earlier,
      Pool.classNameAt_of_addClass hsound hsuper (Pool.Extends.refl _)⟩
  · cases h

/-- A fresh class takes four constants. -/
theorem create_succeeds (name superName : String) (access : UInt16)
    (hname : Text.ModifiedUtf8.encodedLength name ≤ Pool.maxTextLength)
    (hsuper : Text.ModifiedUtf8.encodedLength superName ≤ Pool.maxTextLength) :
    ∃ d, create name superName access = .ok d ∧ d.pool.size ≤ 4 ∧ d.methods.size = 0 := by
  have hboth : Pool.Succeeds 4 (do
      let thisClass ← Pool.addClass name
      let superClass ← Pool.addClass superName
      return (thisClass, superClass)) :=
    (Pool.addClass_succeeds hname).bind fun _ =>
      (Pool.addClass_succeeds hsuper).bind fun _ => .pure _
  obtain ⟨⟨i, j⟩, q, hq, hsize⟩ := hboth Pool.empty (by decide)
  rw [create, hq]
  exact ⟨_, rfl, hsize, rfl⟩

/-- Naming the source file takes two texts. -/
theorem setSourceFile_succeeds {name : String}
    (hname : Text.ModifiedUtf8.encodedLength name ≤ Pool.maxTextLength)
    (hroom : d.pool.size + 2 ≤ Pool.capacity) :
    ∃ e, setSourceFile name d = .ok () e ∧ e.pool.size ≤ d.pool.size + 2 ∧
      e.methods = d.methods := by
  have hshort : Text.ModifiedUtf8.encodedLength "SourceFile" ≤ Pool.maxTextLength := by cbv
  obtain ⟨i, q₁, h₁, hsize₁⟩ := Pool.addText_succeeds hshort d.pool (by omega)
  obtain ⟨j, q₂, h₂, hsize₂⟩ := Pool.addText_succeeds hname q₁ (by omega)
  refine ⟨{ d with pool := q₂, sourceFile := some (i, j) }, ?_, ?_, rfl⟩
  · exact (bind_of_ok (onPool_of_ok h₁)).trans ((bind_of_ok (onPool_of_ok h₂)).trans rfl)
  · show q₂.size ≤ _
    omega

/-- A declaration takes three texts. -/
theorem declare_succeeds (access : UInt16) {name descriptor : String} (code : Code)
    (hname : Text.ModifiedUtf8.encodedLength name ≤ Pool.maxTextLength)
    (hdescriptor : Text.ModifiedUtf8.encodedLength descriptor ≤ Pool.maxTextLength)
    (hroom : d.pool.size + 3 ≤ Pool.capacity) (hmethods : d.methods.size < maxMethods) :
    ∃ e, declare access name descriptor code d = .ok () e ∧ e.pool.size ≤ d.pool.size + 3 ∧
      e.methods.size = d.methods.size + 1 := by
  have hshort : Text.ModifiedUtf8.encodedLength "Code" ≤ Pool.maxTextLength := by cbv
  obtain ⟨i, q₁, h₁, hsize₁⟩ := Pool.addText_succeeds hshort d.pool (by omega)
  obtain ⟨j, q₂, h₂, hsize₂⟩ := Pool.addText_succeeds hname q₁ (by omega)
  obtain ⟨k, q₃, h₃, hsize₃⟩ := Pool.addText_succeeds hdescriptor q₂ (by omega)
  refine ⟨{ d with
    pool := q₃, codeName := i, methods := d.methods.push ⟨access, j, k, code⟩ }, ?_, ?_, by simp⟩
  · refine (bind_of_ok (onPool_of_ok h₁)).trans ((bind_of_ok rfl).trans
      ((bind_of_ok (onPool_of_ok h₂)).trans ((bind_of_ok (onPool_of_ok h₃)).trans
        ((bind_of_ok rfl).trans ?_))))
    dsimp only
    rw [if_neg (by omega)]
    rfl
  · show q₃.size ≤ _
    omega

variable {access : UInt16} {descriptor : String} {t : MethodType} {slots : Nat} {v : α}

/-- The stages of a declaration that succeeds. -/
theorem method_eq_ok {name : String} : method access name descriptor body d = .ok v e ↔
    ∃ t slots code q, MethodType.parse descriptor = .ok t ∧ parameterSlots access t = .ok slots ∧
      assemble slots body d.pool = .ok (v, code) q ∧
      declare access name descriptor code { d with pool := q } = .ok () e := by
  constructor
  · intro h
    obtain ⟨t, m, hparse, h⟩ := bind_eq_ok.mp h
    obtain ⟨hread, rfl⟩ := ofExcept_eq_ok.mp hparse
    obtain ⟨slots, m, hslots, h⟩ := bind_eq_ok.mp h
    obtain ⟨hcounted, rfl⟩ := ofExcept_eq_ok.mp hslots
    obtain ⟨⟨w, code⟩, m, hassemble, h⟩ := bind_eq_ok.mp h
    obtain ⟨hassembled, hm⟩ := onPool_eq_ok hassemble
    obtain ⟨⟨⟩, n, hdeclare, hreturn⟩ := bind_eq_ok.mp h
    cases hreturn
    rw [hm] at hdeclare
    exact ⟨t, slots, code, _, hread, hcounted, hassembled, hdeclare⟩
  · rintro ⟨t, slots, code, q, hread, hcounted, hassembled, hdeclare⟩
    unfold method
    rw [hread]
    refine (bind_of_ok rfl).trans ?_
    rw [hcounted]
    exact (bind_of_ok rfl).trans ((bind_of_ok (onPool_of_ok hassembled)).trans
      ((bind_of_ok hdeclare).trans rfl))

/-- A declaration succeeds if its body does, and there is room for its texts and for one more
method. -/
theorem method_succeeds {a : Assembler} {code : Code} (access : UInt16) (name : String)
    (hparse : MethodType.parse descriptor = .ok t) (hslots : parameterSlots access t = .ok slots)
    (hname : Text.ModifiedUtf8.encodedLength name ≤ Pool.maxTextLength)
    (hdescriptor : Text.ModifiedUtf8.encodedLength descriptor ≤ Pool.maxTextLength)
    (hbody : body (start d.pool slots) = .ok v a)
    (hfinish : a.finish = .ok code) (hroom : a.pool.size + 3 ≤ Pool.capacity)
    (hmethods : d.methods.size < maxMethods) :
    ∃ e, method access name descriptor body d = .ok v e ∧ e.pool.size ≤ a.pool.size + 3 ∧
      e.methods.size = d.methods.size + 1 := by
  have hassembled : assemble slots body d.pool = .ok (v, code) a.pool := by
    simp only [assemble, hbody, hfinish]
  obtain ⟨e, hdeclare, hsize, hcount⟩ := declare_succeeds (d := { d with pool := a.pool }) access
    code hname hdescriptor hroom hmethods
  exact ⟨e, method_eq_ok.mpr ⟨t, slots, code, _, hparse, hslots, hassembled, hdeclare⟩, hsize,
    hcount⟩

/-- A method that cannot be assembled is not declared, and leaves its constants behind. -/
theorem method_refuses {cause : Fault} {q : Pool} (access : UInt16) (name : String)
    (hparse : MethodType.parse descriptor = .ok t) (hslots : parameterSlots access t = .ok slots)
    (hassembled : assemble slots body d.pool = .error cause q) :
    method access name descriptor body d = .error cause { d with pool := q } := by
  have hpool : onPool (assemble slots body) d = .error cause { d with pool := q } := by
    simp only [onPool, hassembled]
  unfold method
  rw [hparse]
  refine (bind_of_ok rfl).trans ?_
  rw [hslots]
  exact (bind_of_ok rfl).trans (bind_of_error hpool)

end ClassDraft

/-- The body of a method: whatever it does, it reaches its assembler through requests alone. -/
structure Body (α : Type) where
  run : Asm α
  byRequests : Respects Reaches run

/-- The code that a body produces for a method of a class with this pool, if it does: what is
finished after the body ran on a fresh assembler. -/
def Body.code? {α : Type} (body : Body α) (access : UInt16) (descriptor : String) (pool : Pool) :
    Option Code :=
  match MethodType.parse descriptor with
  | .error _ => none
  | .ok m =>
    match body.run (Assembler.start pool (ClassDraft.entrySlots access m)) with
    | .ok _ a => a.finish.toOption
    | .error _ _ => none

theorem Body.code?_of_finish {α : Type} {body : Body α} {access : UInt16} {descriptor : String}
    {pool : Pool} {m : MethodType} {v : α} {a : Assembler} {code : Code}
    (hparse : MethodType.parse descriptor = .ok m)
    (hrun : body.run (start pool (ClassDraft.entrySlots access m)) = .ok v a)
    (hfinish : a.finish = .ok code) : body.code? access descriptor pool = some code := by
  simp only [Body.code?, hparse, hrun, hfinish, Except.toOption]

inductive DraftCall : Type 1 where
  | sourceFile (name : String)
  | method {α : Type} (access : UInt16) (name descriptor : String) (body : Body α)

namespace DraftCall

/-- The draft that a call leaves behind, whether it succeeds or fails. -/
def after (d : ClassDraft) : DraftCall → ClassDraft
  | .sourceFile name => leftBy (ClassDraft.setSourceFile name d)
  | .method access name descriptor body =>
    leftBy (ClassDraft.method access name descriptor body.run d)

/-- The method that a call declares if it succeeds. -/
def declares (d : ClassDraft) : DraftCall → Option Method
  | .sourceFile _ => none
  | .method access name descriptor body =>
    match ClassDraft.method access name descriptor body.run d with
    | .ok _ _ => some ⟨access, name, descriptor, body.code? access descriptor d.pool⟩
    | .error _ _ => none

/-- The source file after a call, if it was `found` before. -/
def names (d : ClassDraft) (found : Option String) : DraftCall → Option String
  | .sourceFile name =>
    match ClassDraft.setSourceFile name d with
    | .ok _ _ => some name
    | .error _ _ => found
  | .method _ _ _ _ => found

def afterAll (d : ClassDraft) (calls : List DraftCall) : ClassDraft :=
  calls.foldl after d

def declaresAll (d : ClassDraft) : List DraftCall → List Method
  | [] => []
  | c :: rest => (c.declares d).toList ++ declaresAll (c.after d) rest

/-- The source file after a sequence of calls, if it was `found` before. -/
def namesAll (d : ClassDraft) (found : Option String) : List DraftCall → Option String
  | [] => found
  | c :: rest => namesAll (c.after d) (c.names d found) rest

variable {d : ClassDraft} {methods : List Method} {source : Option String}

/-- One call: the draft stands for what it stood for before, and for what the call adds. -/
theorem after_records (c : DraftCall) (h : d.Records methods source) :
    (c.after d).Records (methods ++ (c.declares d).toList) (c.names d source) ∧
      ClassDraft.Keeps d (c.after d) ∧ ∀ m ∈ c.declares d, m.code.isSome := by
  cases c with
  | sourceFile name =>
    have hends := ClassDraft.setSourceFile_ends h.pool name
    simp only [after, names, declares, Option.toList_none, List.append_nil]
    cases hcall : ClassDraft.setSourceFile name d with
    | error e d' =>
      rw [hcall] at hends
      exact ⟨h.carried hends, hends.toKeeps, by simp⟩
    | ok v d' =>
      rw [hcall] at hends
      obtain ⟨m, attr, text, hm, rfl, hattr, htext⟩ := hends
      exact ⟨(h.carried hm).named hattr htext,
        ⟨hm.pool, hm.access, hm.thisClass, hm.superClass⟩, by simp⟩
  | method access name descriptor body =>
    have hends := ClassDraft.method_ends h.pool body.byRequests access name descriptor
    simp only [after, names, declares]
    cases hcall : ClassDraft.method access name descriptor body.run d with
    | error e d' =>
      rw [hcall] at hends
      simp only [Option.toList_none, List.append_nil]
      exact ⟨h.carried hends, hends.toKeeps, by simp⟩
    | ok v d' =>
      rw [hcall] at hends
      obtain ⟨n, i, j, t, code, p, hn, hroom, rfl, hcode, hi, hj, ht, hslots, hassembled, -⟩ :=
        hends
      have hbody : body.code? access descriptor d.pool = some code := by
        obtain ⟨a, hrun, hfinish, -⟩ := ClassDraft.assemble_eq_ok hassembled
        exact Body.code?_of_finish ht hrun hfinish
      have hfits := ClassDraft.fits_of_assemble body.byRequests hslots hassembled
      rw [← hn.methods] at hroom
      refine ⟨(h.carried hn).declared hroom hcode ⟨rfl, hi, hj, hbody, hfits⟩,
        ⟨hn.pool, hn.access, hn.thisClass, hn.superClass⟩, ?_⟩
      simp [hbody]

/-- The run of a history: by induction on its calls, each of which records what it declares or is
carried on. -/
theorem afterAll_records (calls : List DraftCall) (h : d.Records methods source) :
    (afterAll d calls).Records (methods ++ declaresAll d calls) (namesAll d source calls) ∧
      ClassDraft.Keeps d (afterAll d calls) ∧ ∀ m ∈ declaresAll d calls, m.code.isSome := by
  induction calls generalizing d methods source with
  | nil =>
    rw [declaresAll, List.append_nil]
    exact ⟨h, ClassDraft.keeps_lasting.refl d, by simp⟩
  | cons c calls ih =>
    obtain ⟨hrecords, hkeeps, hcode⟩ := after_records c h
    obtain ⟨hrecords', hkeeps', hcode'⟩ := ih hrecords
    rw [List.append_assoc] at hrecords'
    refine ⟨hrecords', ClassDraft.keeps_lasting.trans hkeeps hkeeps', ?_⟩
    intro m hm
    rcases List.mem_append.mp hm with hm | hm
    · exact hcode m (Option.mem_toList.mp hm)
    · exact hcode' m hm

theorem afterAll_append (d : ClassDraft) (calls more : List DraftCall) :
    afterAll d (calls ++ more) = afterAll (afterAll d calls) more :=
  List.foldl_append

theorem declaresAll_append (d : ClassDraft) (calls more : List DraftCall) :
    declaresAll d (calls ++ more) = declaresAll d calls ++ declaresAll (afterAll d calls) more := by
  induction calls generalizing d with
  | nil => rfl
  | cons c calls ih =>
    rw [List.cons_append, declaresAll, declaresAll, ih, List.append_assoc]
    rfl

/-- The class that a fresh draft is read back as after any calls, field by field. -/
theorem parse_afterAll (h : d.Records [] none) (calls : List DraftCall) :
    ∃ pool, pool.entries = (afterAll d calls).pool.entries ∧ d.pool.Extends pool ∧
      ClassFile.parse (afterAll d calls).bytes =
        .ok { minorVersion := 0, majorVersion := 49, pool, access := d.access,
              thisClass := d.thisClass, superClass := d.superClass,
              methods := declaresAll d calls, sourceFile := namesAll d none calls } := by
  obtain ⟨hrecords, hkeeps, -⟩ := afterAll_records calls h
  rw [List.nil_append] at hrecords
  obtain ⟨pool, hentries, hparse⟩ := ClassFile.parse_bytes hrecords
  rw [hkeeps.access, hkeeps.thisClass, hkeeps.superClass] at hparse
  refine ⟨pool, hentries, ?_, hparse⟩
  rw [Pool.Extends, hentries]
  exact hkeeps.pool.earlier

end DraftCall

open DraftCall

/-- Reading undoes writing, whatever calls a draft has seen. The class has the version, names and
access it was created with and the constants of the draft in their order; its methods are those of
the calls that succeeded, each with the code that its body produced; its source file is the one that
was named last. A method whose body fails, or whose parameters take more slots than 16 bits can
count, is declared by no call. -/
theorem parse_draft {name superName : String} {access : UInt16} {d : ClassDraft}
    (calls : List DraftCall) (hcreate : ClassDraft.create name superName access = .ok d) :
    ∃ c, ClassFile.parse (afterAll d calls).bytes = .ok c ∧
      (c.majorVersion = 49 ∧ c.minorVersion = 0) ∧
      c.pool.entries = (afterAll d calls).pool.entries ∧ c.access = access ∧
      c.name = .ok name ∧ c.superName = .ok superName ∧
      c.methods = declaresAll d calls ∧ (∀ m ∈ c.methods, m.code.isSome) ∧
      c.sourceFile = namesAll d none calls := by
  obtain ⟨hfresh, haccess, hname, hsuper⟩ := ClassDraft.create_eq_ok hcreate
  obtain ⟨pool, hentries, hlater, hparse⟩ := parse_afterAll hfresh calls
  obtain ⟨-, -, hcode⟩ := afterAll_records calls hfresh
  exact ⟨_, hparse, ⟨rfl, rfl⟩, hentries, haccess, Pool.classNameAt_mono hlater hname,
    Pool.classNameAt_mono hlater hsuper, rfl, hcode, rfl⟩

def stopping : Body Unit :=
  ⟨plain .ret, perform_reaches (.plain .ret)⟩

/-- The body that returns at once is declared in any small draft, with one byte of code. -/
theorem stopping_declared {d : ClassDraft} (hpool : d.pool.size ≤ 10) (hmethods : d.methods = #[]) :
    ∃ e, ClassDraft.method 8 "stop" "()V" stopping.run d = .ok () e ∧ e.pool.size ≤ 13 ∧
      stopping.code? 8 "()V" d.pool = some ⟨0, 0, [177]⟩ := by
  have hparse : MethodType.parse "()V" = .ok ⟨[], none⟩ := by cbv
  have hrun : stopping.run (start d.pool 0) =
      .ok () { start d.pool 0 with code := #[177], depth := none } := rfl
  have hroom : d.pool.size + 3 ≤ Pool.capacity := by
    rw [Pool.capacity]
    omega
  obtain ⟨e, he, hsize, -⟩ := ClassDraft.method_succeeds 8 "stop" hparse rfl (by cbv) (by cbv) hrun
    rfl hroom (by rw [hmethods]; decide)
  replace hsize : e.pool.size ≤ d.pool.size + 3 := hsize
  exact ⟨e, he, by omega, Body.code?_of_finish hparse hrun rfl⟩

/-- A history with a method that fails, between calls that succeed. -/
theorem parse_draft_failing :
    let calls : List DraftCall := [.sourceFile "First.txt", .method 8 "stop" "()V" stopping,
      .method 8 "fail" "()V" ⟨plain .pop, perform_reaches (.plain .pop)⟩, .sourceFile "Second.txt"]
    ∃ d c, ClassDraft.create "Main" "java/lang/Object" 0x21 = .ok d ∧
      ClassFile.parse (afterAll d calls).bytes = .ok c ∧ c.name = .ok "Main" ∧
      c.methods = [⟨8, "stop", "()V", some ⟨0, 0, [177]⟩⟩] ∧ c.sourceFile = some "Second.txt" := by
  intro calls
  have hcapacity : Pool.capacity = 65534 := rfl
  obtain ⟨d, hcreate, hsize, hcount⟩ :=
    ClassDraft.create_succeeds "Main" "java/lang/Object" 0x21 (by cbv) (by cbv)
  -- The draft after each of the calls.
  obtain ⟨e₁, h₁, hsize₁, hsame⟩ := ClassDraft.setSourceFile_succeeds (d := d)
    (show Text.ModifiedUtf8.encodedLength "First.txt" ≤ _ by cbv) (by omega)
  rw [Array.eq_empty_of_size_eq_zero hcount] at hsame
  obtain ⟨e₂, h₂, hsize₂, hcode⟩ := stopping_declared (d := e₁) (by omega) hsame
  have h₃ : ClassDraft.method 8 "fail" "()V" (plain .pop) e₂ = .error (.stackUnderflow 0) e₂ :=
    ClassDraft.method_refuses 8 "fail" (by cbv : MethodType.parse "()V" = .ok ⟨[], none⟩) rfl rfl
  obtain ⟨e₄, h₄, -⟩ := ClassDraft.setSourceFile_succeeds (d := e₂)
    (show Text.ModifiedUtf8.encodedLength "Second.txt" ≤ _ by cbv) (by omega)
  have hdeclares : declaresAll d calls = [⟨8, "stop", "()V", some ⟨0, 0, [177]⟩⟩] := by
    simp [calls, declaresAll, declares, DraftCall.after, h₁, h₂, h₃, hcode]
  have hnames : namesAll d none calls = some "Second.txt" := by
    simp [calls, namesAll, names, DraftCall.after, h₁, h₂, h₃, h₄]
  obtain ⟨c, hparse, -, -, -, hname, -, hdeclared, -, hsource⟩ := parse_draft calls hcreate
  exact ⟨d, c, hcreate, hparse, hname, hdeclared.trans hdeclares, hsource.trans hnames⟩

end StackGlyph
