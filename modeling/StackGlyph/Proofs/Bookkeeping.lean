import StackGlyph.Proofs.Depths
import StackGlyph.Proofs.Evolution

/-!
# Books that failures leave in order

A request that fails keeps what it did before it failed: an opcode byte without its operand, a label
bound at a depth that it then refuses, a depth changed for a call that is never completed. The books
of the assembler stay in order all the same. Every open jump has two bytes of its own in the code,
every label is bound within the code, and no known depth exceeds the greatest one. Resolving the
jumps therefore stays inside the code and touches nothing but their bytes.
-/
namespace StackGlyph

namespace Assembler

/-- The books of an assembler are in order. -/
structure Tidy (a : Assembler) : Prop where
  jumps : ∀ j ∈ a.jumps,
    j.patch = j.origin + 1 ∧ j.patch + 2 ≤ a.code.size ∧ j.label < a.labels.size
  /-- The jumps stand in the order of their bytes, of which no two jumps share any. -/
  apart : a.jumps.toList.Pairwise fun j k => j.patch + 2 ≤ k.patch
  labels : ∀ s ∈ a.labels, (∀ t ∈ s.offset, t ≤ a.code.size) ∧ ∀ d ∈ s.depth, d ≤ a.maxStack
  depth : ∀ d ∈ a.depth, d ≤ a.maxStack

/-- What every request guarantees of the assembler that it leaves behind. -/
structure Kept (a b : Assembler) : Prop where
  code : a.code.toList <+: b.code.toList
  maxStack : a.maxStack ≤ b.maxStack
  maxLocals : a.maxLocals ≤ b.maxLocals
  labels : a.labels.size ≤ b.labels.size
  bound : ∀ label t, labelOffset a label = some t → labelOffset b label = some t
  tidy : Tidy a → Tidy b

theorem kept_lasting : Lasting Kept where
  refl _ := ⟨List.prefix_rfl, Nat.le_refl _, Nat.le_refl _, Nat.le_refl _, fun _ _ h => h, id⟩
  trans h h' :=
    { code := h.code.trans h'.code
      maxStack := Nat.le_trans h.maxStack h'.maxStack
      maxLocals := Nat.le_trans h.maxLocals h'.maxLocals
      labels := Nat.le_trans h.labels h'.labels
      bound := fun label t ht => h'.bound label t (h.bound label t ht)
      tidy := h'.tidy ∘ h.tidy }

/-- A change that concerns neither labels nor jumps. The new depth has to be counted in. -/
theorem Kept.of_same {a b : Assembler} (hcode : a.code.toList <+: b.code.toList)
    (hlabels : b.labels = a.labels) (hjumps : b.jumps = a.jumps) (hstack : a.maxStack ≤ b.maxStack)
    (hlocals : a.maxLocals ≤ b.maxLocals) (hdepth : Tidy a → ∀ d ∈ b.depth, d ≤ b.maxStack) :
    Kept a b where
  code := hcode
  maxStack := hstack
  maxLocals := hlocals
  labels := Nat.le_of_eq (congrArg Array.size hlabels.symm)
  bound label t ht := by rwa [labelOffset, hlabels]
  tidy ha := by
    have hsize : a.code.size ≤ b.code.size := hcode.length_le
    refine ⟨?_, ?_, ?_, hdepth ha⟩
    · rw [hjumps, hlabels]
      intro j hj
      obtain ⟨hpatch, hinside, hlabel⟩ := ha.jumps j hj
      exact ⟨hpatch, by omega, hlabel⟩
    · rw [hjumps]
      exact ha.apart
    · rw [hlabels]
      intro s hs
      obtain ⟨hoffset, hknown⟩ := ha.labels s hs
      exact ⟨fun t ht => Nat.le_trans (hoffset t ht) hsize,
        fun d hd => Nat.le_trans (hknown d hd) hstack⟩

/-- An operation keeps the books in order from here. It appends at most `m` bytes if it succeeds and
at most `n` if it fails. -/
structure Keeps {α : Type} (m n : Nat) (x : Asm α) (a : Assembler) : Prop where
  ok : ∀ v b, x a = .ok v b → Kept a b ∧ b.code.size ≤ a.code.size + m
  error : ∀ e b, x a = .error e b → Kept a b ∧ b.code.size ≤ a.code.size + n

namespace Keeps

variable {α β : Type} {m n k l : Nat} {x : Asm α} {a b : Assembler}

theorem kept (h : Keeps m n x a) : Kept a (leftBy (x a)) := by
  cases hx : x a with
  | ok v b => exact (h.ok v b hx).1
  | error e b => exact (h.error e b hx).1

/-- An operation that appends nothing. -/
theorem of_kept (h : Kept a (leftBy (x a))) (hsize : (leftBy (x a)).code.size = a.code.size) :
    Keeps m n x a := by
  constructor
  · intro v b hx
    rw [hx] at h hsize
    exact ⟨h, Nat.le_trans (Nat.le_of_eq hsize) (Nat.le_add_right _ _)⟩
  · intro e b hx
    rw [hx] at h hsize
    exact ⟨h, Nat.le_trans (Nat.le_of_eq hsize) (Nat.le_add_right _ _)⟩

theorem of_unchanged (h : leftBy (x a) = a) : Keeps m n x a := by
  refine of_kept ?_ ?_
  · rw [h]
    exact kept_lasting.refl a
  · rw [h]

theorem of_ofExcept (x : Except Fault α) : Keeps m n (ofExcept x : Asm α) a := by
  cases x with
  | error e => exact of_unchanged rfl
  | ok v => exact of_unchanged rfl

theorem mono (h : Keeps m n x a) (hm : m ≤ k) (hn : n ≤ l) : Keeps k l x a where
  ok v b hb := ⟨(h.ok v b hb).1, Nat.le_trans (h.ok v b hb).2 (Nat.add_le_add_left hm _)⟩
  error e b hb := ⟨(h.error e b hb).1, Nat.le_trans (h.error e b hb).2 (Nat.add_le_add_left hn _)⟩

/-- After a first part that appended `m` bytes, the rest has the remaining ones. -/
theorem of_step {y : Asm α} (hkept : Kept a b) (hsize : b.code.size ≤ a.code.size + m)
    (hxy : x a = y b) (hy : Keeps k l y b) : Keeps (k + m) (l + m) x a := by
  constructor
  · intro v c hc
    obtain ⟨hkept', hsize'⟩ := hy.ok v c (hxy ▸ hc)
    exact ⟨kept_lasting.trans hkept hkept', by omega⟩
  · intro e c hc
    obtain ⟨hkept', hsize'⟩ := hy.error e c (hxy ▸ hc)
    exact ⟨kept_lasting.trans hkept hkept', by omega⟩

/-- The bytes that a failing sequence may leave are those of its first part and what the second part
may leave. -/
theorem bind {f : α → Asm β} (hx : Keeps m n x a) (hn : n ≤ l + m)
    (hf : ∀ v b, x a = .ok v b → Keeps k l (f v) b) : Keeps (k + m) (l + m) (x >>= f) a := by
  cases h : x a with
  | ok v b =>
    obtain ⟨hkept, hsize⟩ := hx.ok v b h
    exact of_step hkept hsize (bind_of_ok h) (hf v b h)
  | error e b =>
    obtain ⟨hkept, hsize⟩ := hx.error e b h
    have hfails : (x >>= f) a = .error e b := bind_of_error h
    constructor
    · intro v c hc
      rw [hfails] at hc
      cases hc
    · intro e' c hc
      rw [hfails] at hc
      cases hc
      exact ⟨hkept, by omega⟩

/-- A first part that appends nothing. -/
theorem silent_bind {f : α → Asm β} (hx : Keeps 0 0 x a)
    (hf : ∀ v b, x a = .ok v b → Keeps k l (f v) b) : Keeps k l (x >>= f) a :=
  hx.bind (Nat.zero_le _) hf

theorem ite {c : Prop} [Decidable c] {y : Asm α} (hx : Keeps m n x a) (hy : Keeps m n y a) :
    Keeps m n (if c then x else y) a := by
  split
  · exact hx
  · exact hy

end Keeps

/-! ## The parts of requests -/

section Parts

variable {m n : Nat} {a : Assembler}

theorem onPool_keeps {α : Type} (x : PoolM α) : Keeps m n (onPool x) a := by
  have hleft : leftBy (onPool x a) = { a with pool := leftBy (x a.pool) } := by
    unfold onPool
    dsimp only
    cases x a.pool <;> rfl
  refine .of_kept ?_ ?_
  · rw [hleft]
    exact .of_same List.prefix_rfl rfl rfl (Nat.le_refl _) (Nat.le_refl _) (·.depth)
  · rw [hleft]

/-- Appended bytes lie behind every offset that a label or a jump was given, so the books stay in
order. -/
theorem append_keeps (bytes : List UInt8) (h : bytes.length ≤ m) : Keeps m n (append bytes) a := by
  constructor
  · intro v b hb
    cases hb
    have hcode : (a.code ++ bytes).toList = a.code.toList ++ bytes := by simp
    refine ⟨.of_same ?_ rfl rfl (Nat.le_refl _) (Nat.le_refl _) (·.depth), ?_⟩
    · exact hcode ▸ List.prefix_append _ _
    · have hlength := congrArg List.length hcode
      rw [List.length_append] at hlength
      exact Nat.le_trans (Nat.le_of_eq hlength) (Nat.add_le_add_left h _)
  · intro e b hb
    cases hb

theorem adjust_keeps (delta : Int) (offset : Nat) : Keeps m n (adjust delta offset) a := by
  rcases adjust_cases delta offset a with ⟨e, h⟩ | h | ⟨d, -, h⟩
  · exact .of_unchanged (by rw [h, leftBy_error])
  · exact .of_unchanged (by rw [h, leftBy_ok])
  · refine .of_kept ?_ (by rw [h, leftBy_ok])
    rw [h, leftBy_ok]
    refine .of_same List.prefix_rfl rfl rfl (Nat.le_max_left _ _) (Nat.le_refl _) fun _ => ?_
    intro e he
    cases he
    exact Nat.le_max_right _ _

theorem emit_keeps (op : Opcode) (delta : Int) : Keeps 1 1 (emit op delta) a :=
  (append_keeps [op.byte] (Nat.le_refl 1)).bind (Nat.zero_le _) fun _ _ _ =>
    (Keeps.of_unchanged rfl).silent_bind fun _ _ _ => adjust_keeps _ _

/-- An opcode with operand bytes behind it fails with its opcode alone. -/
theorem emit_append_keeps (op : Opcode) (delta : Int) {bytes : List UInt8} (h : bytes.length ≤ m) :
    Keeps (m + 1) (n + 1) (do emit op delta; append bytes : Asm Unit) a :=
  (emit_keeps op delta).bind (Nat.le_add_left _ _) fun _ _ _ => append_keeps bytes h

theorem close_keeps (op : Opcode) : Keeps m n (close op) a := by
  refine .ite (.of_kept ?_ rfl) (.of_unchanged rfl)
  exact .of_same List.prefix_rfl rfl rfl (Nat.le_refl _) (Nat.le_refl _) fun _ => by
    rintro _ ⟨⟩

theorem useLocal_keeps (slot : UInt8) : Keeps m n (useLocal slot) a :=
  .of_kept (.of_same List.prefix_rfl rfl rfl (Nat.le_refl _) (Nat.le_max_left _ _) (·.depth)) rfl

/-- A change to the state of one label, which must be in order and keep the offset. -/
theorem kept_set (label : Nat) (state : LabelState)
    (hbound : ∀ t ∈ labelOffset a label, state.offset = some t)
    (hstate : Tidy a → (∀ t ∈ state.offset, t ≤ a.code.size) ∧ ∀ d ∈ state.depth, d ≤ a.maxStack) :
    Kept a { a with labels := a.labels.setIfInBounds label state } where
  code := List.prefix_rfl
  maxStack := Nat.le_refl _
  maxLocals := Nat.le_refl _
  labels := by simp
  bound l t ht := by
    rw [labelOffset, getD_setIfInBounds]
    split
    · next hl =>
      obtain ⟨rfl, -⟩ := hl
      exact hbound t ht
    · exact ht
  tidy ha := by
    refine ⟨?_, ha.apart, ?_, ha.depth⟩
    · intro j hj
      rw [Array.size_setIfInBounds]
      exact ha.jumps j hj
    · intro s hs
      rcases Array.mem_or_eq_of_mem_setIfInBounds hs with hs | rfl
      · exact ha.labels s hs
      · exact hstate ha

/-- What holds of the state of every label holds of that of a label that was never handed out. -/
theorem Tidy.label (h : Tidy a) (label : Nat) :
    (∀ t ∈ (a.labels.getD label {}).offset, t ≤ a.code.size) ∧
      ∀ d ∈ (a.labels.getD label {}).depth, d ≤ a.maxStack := by
  rw [Array.getD_eq_getD_getElem?]
  cases hs : a.labels[label]? with
  | none => exact ⟨by rintro _ ⟨⟩, by rintro _ ⟨⟩⟩
  | some s => exact h.labels s (Array.mem_of_getElem? hs)

/-- A label may be brought together with the depth that holds. -/
theorem mergeDepth_keeps (label : Nat) : Keeps m n (mergeDepth label a.depth) a := by
  rcases mergeDepth_cases label a.depth a with ⟨e, h⟩ | h | ⟨d, hd, h⟩
  · exact .of_unchanged (by rw [h, leftBy_error])
  · exact .of_unchanged (by rw [h, leftBy_ok])
  · refine .of_kept ?_ (by rw [h, leftBy_ok])
    rw [h, leftBy_ok]
    refine kept_set _ _ (fun t ht => ht) fun ha => ⟨(ha.label label).1, ?_⟩
    intro e he
    cases he
    exact ha.depth d hd

/-- The depth that results from merging the one that holds is counted in as well. -/
theorem merged_le {b : Assembler} {label : Nat} {merged : Option Nat}
    (h : mergeDepth label a.depth a = .ok merged b) (hb : Tidy b) :
    ∀ d ∈ merged, d ≤ b.maxStack := by
  rcases mergeDepth_cases label a.depth a with ⟨e, h'⟩ | h' | ⟨d, hd, h'⟩
  · rw [h'] at h
    cases h
  · rw [h'] at h
    cases h
    exact (hb.label label).2
  · rw [h'] at h
    cases h
    rw [← hd]
    exact hb.depth

/-- An open jump takes the two bytes that are appended for it. -/
theorem note_keeps {origin label : Nat} (horigin : a.code.size = origin + 1)
    (hlabel : label < a.labels.size) :
    Kept a { a with
      code := a.code ++ ([0, 0] : List UInt8)
      jumps := a.jumps.push ⟨origin, a.code.size, label⟩ } := by
  have hsize : (a.code ++ ([0, 0] : List UInt8)).size = a.code.size + 2 := by
    rw [← Array.length_toList, Array.toList_appendList, List.length_append, Array.length_toList]
    rfl
  refine ⟨?_, Nat.le_refl _, Nat.le_refl _, Nat.le_refl _, fun _ _ h => h, fun ha => ?_⟩
  · rw [Array.toList_appendList]
    exact List.prefix_append _ _
  · refine ⟨?_, ?_, ?_, ha.depth⟩
    · intro j hj
      rw [hsize]
      rcases Array.mem_push.mp hj with hj | rfl
      · obtain ⟨hpatch, hinside, hnamed⟩ := ha.jumps j hj
        exact ⟨hpatch, Nat.le_trans hinside (Nat.le_add_right _ _), hnamed⟩
      · exact ⟨horigin, Nat.le_refl _, hlabel⟩
    · -- All earlier jumps end where the code ended.
      rw [Array.toList_push, List.pairwise_append]
      refine ⟨ha.apart, List.pairwise_singleton _ _, ?_⟩
      intro j hj k hk
      obtain rfl := List.mem_singleton.mp hk
      exact (ha.jumps j (Array.mem_toList_iff.mp hj)).2.1
    · intro s hs
      rw [hsize]
      obtain ⟨hoffset, hknown⟩ := ha.labels s hs
      exact ⟨fun t ht => Nat.le_trans (hoffset t ht) (Nat.le_add_right _ _), hknown⟩

end Parts

/-! ## Requests -/

section Requests

variable {a : Assembler}

theorem loadConstant_keeps (v : Int32) : Keeps 5 3 (loadConstant v) a :=
  (onPool_keeps _).silent_bind fun _ _ _ => .ite
    (emit_append_keeps _ _ (by decide : 1 ≤ 4)) (emit_append_keeps _ _ (by decide : 2 ≤ 4))

theorem pushInt_keeps (v : Int32) : Keeps 5 3 (pushInt v) a := by
  unfold pushInt
  split
  · exact (emit_keeps _ _).mono (by decide) (by decide)
  · exact .ite (emit_append_keeps _ _ (by decide : 1 ≤ 4))
      (.ite (emit_append_keeps _ _ (by decide : 2 ≤ 4)) (loadConstant_keeps v))

/-- Loads and stores alike. -/
theorem access_keeps (short : List Opcode) (long : Opcode) (delta : Int) (slot : UInt8) :
    Keeps 5 3 (do
      match short[slot.toNat]? with
      | some op => emit op delta
      | none => do
        emit long delta
        append [slot]
      useLocal slot : Asm Unit) a := by
  cases short[slot.toNat]? with
  | some op => exact (emit_keeps _ _).bind (by decide) fun _ _ _ => useLocal_keeps slot
  | none =>
    exact (emit_keeps _ _).bind (by decide) fun _ _ _ =>
      (append_keeps [slot] (Nat.le_refl 1)).bind (Nat.zero_le _) fun _ _ _ => useLocal_keeps slot

theorem call_keeps (kind : CallKind) (owner name descriptor : String) :
    Keeps 5 3 (call kind owner name descriptor) a := by
  refine Keeps.silent_bind (.of_ofExcept _) fun t _ _ => ?_
  refine Keeps.silent_bind (.of_ofExcept _) fun slots _ _ => ?_
  refine (onPool_keeps _).silent_bind fun i _ _ => ?_
  refine (Keeps.of_unchanged rfl).silent_bind fun b _ _ => ?_
  refine .ite (.of_unchanged rfl) ?_
  refine (emit_keeps _ _).bind (by decide) fun _ _ _ => ?_
  -- Only the count of the arguments is missing if there are too many of them.
  refine (append_keeps (Word.bytes16 i) (Nat.le_refl 2)).bind (Nat.zero_le _) fun _ _ _ => ?_
  exact .ite (.ite (.of_unchanged rfl) (append_keeps _ (Nat.le_refl 2))) (.of_unchanged rfl)

/-- A label is handed out without an offset, and there is nothing to be wrong about it. -/
theorem newLabel_keeps {m n : Nat} : Keeps m n newLabel a := by
  have hsize : a.labels.size ≤ (a.labels.push {}).size := by simp
  refine .of_kept ⟨List.prefix_rfl, Nat.le_refl _, Nat.le_refl _, hsize, ?_, fun ha => ?_⟩ rfl
  · intro label t ht
    exact ((Request.performed_newLabel (a := a) rfl).2.2.2 label).trans ht
  · refine ⟨?_, ha.apart, ?_, ha.depth⟩
    · intro j hj
      obtain ⟨hpatch, hinside, hlabel⟩ := ha.jumps j hj
      exact ⟨hpatch, hinside, Nat.lt_of_lt_of_le hlabel hsize⟩
    · intro s hs
      rcases Array.mem_push.mp hs with hs | rfl
      · exact ha.labels s hs
      · exact ⟨by rintro _ ⟨⟩, by rintro _ ⟨⟩⟩

/-- A jump is noted at the offset of its opcode, with room for its distance right behind it. -/
theorem jump_keeps {op : Opcode} {label : Nat} (hlabel : label < a.labels.size) :
    Keeps 5 3 (jump op label) a := by
  refine .ite (.of_unchanged rfl) ?_
  refine (Keeps.of_unchanged rfl).silent_bind fun b _ hget => ?_
  cases hget
  refine (emit_keeps _ _).bind (by decide) fun _ m hemit => ?_
  refine (Keeps.of_unchanged rfl).silent_bind fun c _ hget => ?_
  cases hget
  refine (mergeDepth_keeps label).silent_bind fun _ n hmerge => ?_
  refine (Keeps.of_unchanged rfl).silent_bind fun c _ hget => ?_
  cases hget
  obtain ⟨hcode, -, -, hsize, -⟩ := Request.mergeDepth_offsets hmerge
  have hemitted := appends_of_emit hemit
  have hpatch : n.code.size = a.code.size + 1 := by
    have hlength := congrArg List.length hemitted.code
    rwa [Array.length_toList, List.length_append, Array.length_toList, ← hcode] at hlength
  have hnamed : label < n.labels.size := by rwa [hsize, hemitted.labels]
  exact .of_step (m := 2) (note_keeps hpatch hnamed) (by simp) rfl (close_keeps op)

/-- A label is bound to the end of the code, which is never beyond it. -/
theorem bind_keeps (label : Nat) : Keeps 5 3 (Assembler.bind label) a := by
  refine (Keeps.of_unchanged rfl).silent_bind fun b _ hget => ?_
  cases hget
  dsimp only
  split
  · exact .of_unchanged rfl
  · next hfree =>
    have hset := kept_set (a := a) label { a.labels.getD label {} with offset := some a.code.size }
      (fun t ht => by simp_all [labelOffset])
      (fun ha => ⟨fun t ht => Nat.le_of_eq (Option.some.inj ht).symm, (ha.label label).2⟩)
    refine Keeps.silent_bind (.of_kept hset rfl) fun _ b _ => ?_
    refine (Keeps.of_unchanged rfl).silent_bind fun c _ hget => ?_
    cases hget
    refine (mergeDepth_keeps label).silent_bind fun merged c hmerge => ?_
    refine .of_kept ?_ rfl
    exact .of_same List.prefix_rfl rfl rfl (Nat.le_refl _) (Nat.le_refl _) (merged_le hmerge)

end Requests

end Assembler

namespace Request

open Assembler

/-- The step over requests: each appends at most five bytes, and at most three before it fails. -/
theorem perform_keeps {r : Request} {a : Assembler}
    (howned : ∀ label ∈ r.label?, label < a.labels.size) : Keeps 5 3 r.perform a := by
  cases r with
  | plain op =>
    rw [perform]
    rcases plain_cases op with ⟨delta, -, -, h⟩ | h
    · rw [h]
      exact (emit_keeps _ _).bind (by decide) fun _ _ _ => close_keeps op
    · rw [h]
      exact .of_unchanged rfl
  | load slot => exact access_keeps _ _ _ slot
  | store slot => exact access_keeps _ _ _ slot
  | pushInt v => exact pushInt_keeps v
  | loadConstant v => exact loadConstant_keeps v
  | onType op className =>
    rw [perform]
    rcases onType_cases op className with ⟨-, h⟩ | ⟨-, h⟩
    · rw [h]
      exact (onPool_keeps _).silent_bind fun _ _ _ => emit_append_keeps _ _ (by decide : 2 ≤ 4)
    · rw [h]
      exact .of_unchanged rfl
  | getStatic owner name descriptor =>
    exact Keeps.silent_bind (.of_ofExcept _) fun _ _ _ =>
      (onPool_keeps _).silent_bind fun _ _ _ => emit_append_keeps _ _ (by decide : 2 ≤ 4)
  | call kind owner name descriptor => exact call_keeps kind owner name descriptor
  | newLabel => exact newLabel_keeps.silent_bind fun _ _ _ => .of_unchanged (x := pure ()) rfl
  | jump op label => exact jump_keeps (howned label rfl)
  | bind label => exact bind_keeps label

/-- Every label that the requests name was handed out before they name it. -/
def Owned (a : Assembler) (rs : List Request) : Prop :=
  ∀ s ∈ history a rs, ∀ label ∈ s.1.label?, label < s.2.labels.size

/-- What each request guarantees, all of them guarantee together, those that fail included. -/
theorem performEach_kept {rs : List Request} {a : Assembler} (howned : Owned a rs) :
    Kept a (performEach rs a) := by
  induction rs generalizing a with
  | nil => exact kept_lasting.refl a
  | cons r rs ih =>
    obtain ⟨hr, hrs⟩ := List.forall_mem_cons.mp howned
    exact kept_lasting.trans (perform_keeps hr).kept (ih hrs)

end Request

namespace Assembler

theorem tidy_start (pool : Pool) (slots : Nat) : Tidy (start pool slots) where
  jumps := by simp [start]
  apart := List.Pairwise.nil
  labels := by simp [start]
  depth := by simp [start]

/-- Resolving jumps leaves all bytes alone but those behind their opcodes. -/
theorem getElem?_of_resolved {labels : Array LabelState} {jumps : List Jump}
    {code code' : Array UInt8} {k : Nat} (h : jumps.foldlM (resolve labels) code = .ok code')
    (hk : ∀ j ∈ jumps, k ≠ j.patch ∧ k ≠ j.patch + 1) : code'[k]? = code[k]? := by
  induction jumps generalizing code with
  | nil =>
    cases h
    rfl
  | cons j jumps ih =>
    rw [List.foldlM_cons] at h
    obtain ⟨next, hj, h⟩ := except_bind_eq_ok.mp h
    obtain ⟨t, -, -, rfl⟩ := Request.resolve_eq_ok hj
    obtain ⟨⟨hhigh, hlow⟩, hrest⟩ := List.forall_mem_cons.mp hk
    rw [ih h hrest, Array.getElem?_setIfInBounds_ne hlow.symm,
      Array.getElem?_setIfInBounds_ne hhigh.symm]

end Assembler

open Request Assembler

/-- The books of an assembler are in order whatever it was asked for, and whatever of it failed.
Each open jump has the two bytes behind its opcode for itself; labels are bound within the code;
known depths are counted in; the parameters have their slots. Later requests only append, never
lower a limit and never move a label, and one that fails appends three bytes at most. So resolving
the jumps finds at each of them its bytes in the code and its label among the labels, and changes
those bytes only. -/
theorem books_in_order {pool : Pool} {slots : Nat} {rs : List Request}
    (howned : Owned (start pool slots) rs) :
    let a := performEach rs (start pool slots)
    (∀ j ∈ a.jumps, j.patch = j.origin + 1 ∧ j.patch + 2 ≤ a.code.size ∧ j.label < a.labels.size) ∧
    (a.jumps.toList.Pairwise fun j k => j.patch + 2 ≤ k.patch) ∧
    (∀ label, ∀ t ∈ (a.labels.getD label {}).offset, t ≤ a.code.size) ∧
    (∀ label, ∀ d ∈ (a.labels.getD label {}).depth, d ≤ a.maxStack) ∧
    (∀ d ∈ a.depth, d ≤ a.maxStack) ∧
    slots ≤ a.maxLocals ∧
    (∀ more, Owned a more →
      let b := performEach more a
      a.code.toList <+: b.code.toList ∧ a.maxStack ≤ b.maxStack ∧ a.maxLocals ≤ b.maxLocals ∧
        ∀ label t, labelOffset a label = some t → labelOffset b label = some t) ∧
    (∀ r e b, Owned a [r] → r.perform a = .error e b → b.code.size ≤ a.code.size + 3) ∧
    (∀ done j rest code, a.jumps.toList = done ++ j :: rest →
      done.foldlM (resolve a.labels) a.code = .ok code →
        j.patch + 2 ≤ code.size ∧ j.label < a.labels.size) ∧
    ∀ code, a.finish = .ok code → code.bytes.length = a.code.size ∧
      ∀ k, (∀ j ∈ a.jumps, k ≠ j.patch ∧ k ≠ j.patch + 1) → code.bytes[k]? = a.code[k]? := by
  intro a
  have hkept : Kept (start pool slots) a := performEach_kept howned
  have htidy : Tidy a := hkept.tidy (tidy_start pool slots)
  refine ⟨htidy.jumps, htidy.apart, fun label => (htidy.label label).1,
    fun label => (htidy.label label).2, htidy.depth, hkept.maxLocals, ?_, ?_, ?_, ?_⟩
  · intro more hmore b
    have hlater : Kept a b := performEach_kept hmore
    exact ⟨hlater.code, hlater.maxStack, hlater.maxLocals, hlater.bound⟩
  · intro r e b hr hfails
    exact ((perform_keeps (hr (r, a) (by simp [history]))).error e b hfails).2
  · intro done j rest code hjumps hdone
    obtain ⟨-, hinside, hlabel⟩ :=
      htidy.jumps j (Array.mem_toList_iff.mp (by rw [hjumps]; simp))
    rw [size_of_resolved hdone]
    exact ⟨hinside, hlabel⟩
  · intro code hfinish
    obtain ⟨bytes, hresolved, -, rfl⟩ := finish_eq_ok hfinish
    refine ⟨size_of_resolved hresolved, fun k hk => ?_⟩
    rw [Array.getElem?_toList]
    exact getElem?_of_resolved hresolved fun j hj => hk j (Array.mem_toList_iff.mp hj)

/-- A jump and a bind refused for their depth, a label bound twice and a pop too many. The refused
bind has left its label bound all the same, so that the first jump can be resolved. -/
theorem books_in_order_after_failures :
    let rs := [.newLabel, .newLabel, .pushInt 1, .jump .ifeq 0, .pushInt 1, .jump .goto 0, .bind 1,
      .bind 1, .bind 0, .plain .pop, .plain .pop]
    let a := performEach rs (start .empty 1)
    Owned (start .empty 1) rs ∧ a.jumps = #[⟨1, 2, 0⟩] ∧ labelOffset a 0 = some 6 ∧
      ∃ code, a.finish = .ok code ∧ code.bytes.length = 8 ∧
        ∀ k, k ≠ 2 → k ≠ 3 → code.bytes[k]? = a.code[k]? := by
  intro rs a
  have howned : Owned (start .empty 1) rs := by
    refine List.forall_iff_forall_mem.mp ?_
    refine ⟨?_, ?_, ?_, ?_, ?_, ?_, ?_, ?_, ?_, ?_, ?_⟩ <;> rintro _ ⟨⟩ <;> decide
  obtain ⟨-, -, -, -, -, -, -, -, -, hfinish⟩ := books_in_order howned
  have hjumps : a.jumps = #[⟨1, 2, 0⟩] := by decide
  have hdone : a.finish = .ok ⟨1, 1, [0x04, 0x99, 0, 5, 0x04, 0xa7, 0x57, 0x57]⟩ := by decide
  obtain ⟨hlength, hsame⟩ := hfinish _ hdone
  refine ⟨howned, hjumps, by decide, _, hdone, hlength, fun k hhigh hlow => hsame k fun j hj => ?_⟩
  obtain rfl : j = ⟨1, 2, 0⟩ := by simpa [hjumps] using (show j ∈ a.jumps from hj)
  exact ⟨hhigh, hlow⟩

end StackGlyph
