import StackGlyph.Proofs.Emission

/-!
# What no request disturbs

Requests only add constants to the pool and keep the limits of a method within their fields, whether
they succeed or fail. So does everything that reaches its assembler through requests alone, such as
the body of a method.
-/
namespace StackGlyph

namespace Assembler

/-- What any request guarantees, whether it succeeds or fails. -/
structure Evolves (a b : Assembler) : Prop where
  pool : a.pool.Grows b.pool
  maxStack : a.maxStack ≤ 65535 → b.maxStack ≤ 65535
  maxLocals : a.maxLocals ≤ 65535 → b.maxLocals ≤ 65535

theorem evolves_lasting : Lasting Evolves where
  refl a := ⟨Pool.grows_lasting.refl a.pool, id, id⟩
  trans h h' := ⟨Pool.grows_lasting.trans h.pool h'.pool, h'.maxStack ∘ h.maxStack,
    h'.maxLocals ∘ h.maxLocals⟩

/-- A change that concerns neither the pool nor the limits. -/
theorem Evolves.of_same {a b : Assembler} (hpool : b.pool = a.pool)
    (hstack : b.maxStack = a.maxStack) (hlocals : b.maxLocals = a.maxLocals) : Evolves a b where
  pool := by
    rw [hpool]
    exact Pool.grows_lasting.refl a.pool
  maxStack := by rw [hstack]; exact id
  maxLocals := by rw [hlocals]; exact id

/-- An operation on the pool appends no code and touches no label, and the pool it leaves has
grown. -/
theorem onPool_evolves {α : Type} {x : PoolM α} (hx : Respects Pool.Grows x) :
    Respects Evolves (onPool x) := by
  intro a
  have hpool := hx a.pool
  unfold onPool
  dsimp only
  split
  · next v q hq =>
    rw [hq] at hpool
    exact ⟨hpool, id, id⟩
  · next e q hq =>
    rw [hq] at hpool
    exact ⟨hpool, id, id⟩

theorem append_evolves (bytes : List UInt8) : Respects Evolves (append bytes) :=
  .modify fun _ => .of_same rfl rfl rfl

theorem adjust_evolves (delta : Int) (offset : Nat) : Respects Evolves (adjust delta offset) := by
  intro a
  rcases adjust_cases delta offset a with ⟨e, h⟩ | h | ⟨n, hn, h⟩
  · rw [h]
    exact evolves_lasting.refl a
  · rw [h]
    exact evolves_lasting.refl a
  · rw [h]
    exact ⟨Pool.grows_lasting.refl a.pool, fun hstack => Nat.max_le.mpr ⟨hstack, hn⟩, id⟩

theorem emit_evolves (op : Opcode) (delta : Int) : Respects Evolves (emit op delta) :=
  (append_evolves _).bind evolves_lasting fun _ =>
    (Respects.get evolves_lasting).bind evolves_lasting fun _ => adjust_evolves _ _

theorem emit_append_evolves (op : Opcode) (delta : Int) (bytes : List UInt8) :
    Respects Evolves (do emit op delta; append bytes : Asm Unit) :=
  (emit_evolves op delta).bind evolves_lasting fun _ => append_evolves bytes

theorem close_evolves (op : Opcode) : Respects Evolves (close op) :=
  .ite (.modify fun _ => .of_same rfl rfl rfl) (.pure evolves_lasting ())

theorem useLocal_evolves (slot : UInt8) : Respects Evolves (useLocal slot) := by
  refine .modify fun a => ⟨Pool.grows_lasting.refl a.pool, id, fun hlocals => ?_⟩
  have hslot := slot.toNat_lt
  show max a.maxLocals (slot.toNat + 1) ≤ 65535
  omega

theorem mergeDepth_evolves (label : Nat) (depth : Option Nat) :
    Respects Evolves (mergeDepth label depth) := by
  intro a
  rcases mergeDepth_cases label depth a with ⟨e, h⟩ | h | ⟨d, -, h⟩
  · rw [h]
    exact evolves_lasting.refl a
  · rw [h]
    exact evolves_lasting.refl a
  · rw [h]
    exact .of_same rfl rfl rfl

theorem loadConstant_evolves (v : Int32) : Respects Evolves (loadConstant v) :=
  (onPool_evolves (Pool.addInteger_grows v)).bind evolves_lasting fun _ =>
    .ite (emit_append_evolves _ _ _) (emit_append_evolves _ _ _)

theorem pushInt_evolves (v : Int32) : Respects Evolves (pushInt v) := by
  unfold pushInt
  split
  · exact emit_evolves _ _
  · exact .ite (emit_append_evolves _ _ _)
      (.ite (emit_append_evolves _ _ _) (loadConstant_evolves v))

/-- Loads and stores alike. -/
theorem access_evolves (short : List Opcode) (long : Opcode) (delta : Int) (slot : UInt8) :
    Respects Evolves (do
      match short[slot.toNat]? with
      | some op => emit op delta
      | none => do
        emit long delta
        append [slot]
      useLocal slot : Asm Unit) := by
  cases short[slot.toNat]? with
  | some op => exact (emit_evolves _ _).bind evolves_lasting fun _ => useLocal_evolves slot
  | none =>
    exact (emit_evolves _ _).bind evolves_lasting fun _ =>
      (append_evolves _).bind evolves_lasting fun _ => useLocal_evolves slot

theorem call_evolves (kind : CallKind) (owner name descriptor : String) :
    Respects Evolves (call kind owner name descriptor) := by
  refine (Respects.ofExcept evolves_lasting _).bind evolves_lasting fun m => ?_
  refine (Respects.ofExcept evolves_lasting _).bind evolves_lasting fun slots => ?_
  refine (onPool_evolves (Pool.addMember_grows _ _ _ _)).bind evolves_lasting fun i => ?_
  refine (Respects.get evolves_lasting).bind evolves_lasting fun a => ?_
  refine .ite (.throw evolves_lasting _) ?_
  refine (emit_evolves _ _).bind evolves_lasting fun _ => ?_
  refine (append_evolves _).bind evolves_lasting fun _ => ?_
  exact .ite (.ite (.throw evolves_lasting _) (append_evolves _)) (.pure evolves_lasting ())

theorem newLabel_evolves : Respects Evolves newLabel :=
  fun _ => .of_same rfl rfl rfl

theorem jump_evolves (op : Opcode) (label : Nat) : Respects Evolves (jump op label) := by
  refine .ite (.throw evolves_lasting _) ?_
  refine (Respects.get evolves_lasting).bind evolves_lasting fun a => ?_
  refine (emit_evolves _ _).bind evolves_lasting fun _ => ?_
  refine (Respects.get evolves_lasting).bind evolves_lasting fun b => ?_
  refine (mergeDepth_evolves _ _).bind evolves_lasting fun _ => ?_
  refine (Respects.get evolves_lasting).bind evolves_lasting fun c => ?_
  refine (append_evolves _).bind evolves_lasting fun _ => ?_
  refine (Respects.modify fun _ => .of_same rfl rfl rfl).bind evolves_lasting fun _ => ?_
  exact close_evolves op

theorem bind_evolves (label : Nat) : Respects Evolves (Assembler.bind label) := by
  refine (Respects.get evolves_lasting).bind evolves_lasting fun a => ?_
  refine .ite (.throw evolves_lasting _) ?_
  refine (Respects.modify fun _ => .of_same rfl rfl rfl).bind evolves_lasting fun _ => ?_
  refine (Respects.get evolves_lasting).bind evolves_lasting fun b => ?_
  refine (mergeDepth_evolves _ _).bind evolves_lasting fun _ => ?_
  exact .modify fun _ => .of_same rfl rfl rfl

end Assembler

namespace Request

open Assembler

/-- The step over requests, for the failing ones too: code and pool only grow, and labels only
learn. -/
theorem perform_evolves (r : Request) : Respects Evolves r.perform := by
  cases r with
  | plain op =>
    rw [perform]
    rcases plain_cases op with ⟨delta, -, -, h⟩ | h
    · rw [h]
      exact (emit_evolves _ _).bind evolves_lasting fun _ => close_evolves op
    · rw [h]
      exact .throw evolves_lasting _
  | load slot => exact access_evolves _ _ _ slot
  | store slot => exact access_evolves _ _ _ slot
  | pushInt v => exact pushInt_evolves v
  | loadConstant v => exact loadConstant_evolves v
  | onType op className =>
    rw [perform]
    rcases onType_cases op className with ⟨-, h⟩ | ⟨-, h⟩
    · rw [h]
      exact (onPool_evolves (Pool.addClass_grows className)).bind evolves_lasting fun _ =>
        emit_append_evolves _ _ _
    · rw [h]
      exact .throw evolves_lasting _
  | getStatic owner name descriptor =>
    exact (Respects.ofExcept evolves_lasting _).bind evolves_lasting fun _ =>
      (onPool_evolves (Pool.addMember_grows _ _ _ _)).bind evolves_lasting fun _ =>
        emit_append_evolves _ _ _
  | call kind owner name descriptor => exact call_evolves kind owner name descriptor
  | newLabel => exact newLabel_evolves.bind evolves_lasting fun _ => .pure evolves_lasting ()
  | jump op label => exact jump_evolves op label
  | bind label => exact bind_evolves label

/-- Performs requests in order; each goes on from what the one before left behind. -/
def performEach (rs : List Request) (a : Assembler) : Assembler :=
  rs.foldl (fun a r => leftBy (r.perform a)) a

/-- An assembler that requests lead to, successful ones or not. -/
def Reaches (a b : Assembler) : Prop :=
  ∃ rs, performEach rs a = b

theorem reaches_lasting : Lasting Reaches where
  refl _ := ⟨[], rfl⟩
  trans := by
    rintro a b c ⟨rs, rfl⟩ ⟨ss, rfl⟩
    exact ⟨rs ++ ss, List.foldl_append⟩

theorem perform_reaches (r : Request) : Respects Reaches r.perform :=
  fun _ => ⟨[r], rfl⟩

/-- What each request guarantees holds however many of them were made. -/
theorem Reaches.lift {R : Assembler → Assembler → Prop} {a b : Assembler} (hR : Lasting R)
    (hr : ∀ r : Request, Respects R r.perform) (h : Reaches a b) : R a b := by
  obtain ⟨rs, rfl⟩ := h
  induction rs generalizing a with
  | nil => exact hR.refl a
  | cons r rs ih => exact hR.trans (hr r a) ih

/-- Requests that all succeed lead where they lead one by one. -/
theorem performEach_of_performAll {rs : List Request} {a b : Assembler}
    (h : performAll rs a = .ok () b) : performEach rs a = b := by
  induction rs generalizing a with
  | nil =>
    cases h
    rfl
  | cons r rs ih =>
    obtain ⟨_, m, hr, hrs⟩ := bind_eq_ok.mp h
    rw [performEach, List.foldl_cons, hr]
    exact ih hrs

theorem performAll_reaches (rs : List Request) : Respects Reaches (performAll rs) := by
  induction rs with
  | nil => exact .pure reaches_lasting ()
  | cons r rs ih => exact (perform_reaches r).bind reaches_lasting fun _ => ih

theorem Reaches.evolves {a b : Assembler} (h : Reaches a b) : Evolves a b :=
  h.lift evolves_lasting perform_evolves

end Request

end StackGlyph
