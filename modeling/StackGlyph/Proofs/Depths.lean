import StackGlyph.Proofs.Gauges
import StackGlyph.Proofs.Linking

/-!
# What a request does to depths

Every request acts on depths in the same way. Its instruction, if it asks for one, changes a known
depth by a number that the request alone decides. The label that it names, if it names one, is
brought together with the depth there: if both are known they agree, and if one is known it holds
for both.
-/
namespace StackGlyph

theorem gauging_bind_eq_some {α β : Type} {x : Gauging α} {f : α → Gauging β} {g h : Gauge}
    {w : β} :
    (x >>= f) g = some (w, h) ↔ ∃ v m, x g = some (v, m) ∧ f v m = some (w, h) := by
  show (x g).bind (fun (v, m) => f v m) = some (w, h) ↔ _
  simp [Option.bind_eq_some_iff]

namespace Gauge

def labelDepth (g : Gauge) (label : Nat) : Option Nat :=
  (g.labels.getD label {}).depth

variable {g g' : Gauge}

/-- The inversion of a change of depth: it has no effect where the depth is unknown. -/
theorem adjust_cases {delta : Int} (h : adjust delta g = some ((), g')) :
    (g.depth = none ∧ g' = g) ∨
    ∃ d n : Nat, g.depth = some d ∧ (n : Int) = d + delta ∧
      g' = { g with depth := some n, maxStack := max g.maxStack n } := by
  unfold adjust at h
  split at h
  · next hdepth =>
    cases h
    exact .inl ⟨hdepth, rfl⟩
  · next d hdepth =>
    dsimp only at h
    split at h
    · cases h
    · next hlow =>
      split at h
      · cases h
      · cases h
        exact .inr ⟨d, ((d : Int) + delta).toNat, hdepth, by omega, rfl⟩

/-- What bringing a depth and that of a label together amounts to. -/
structure Meets (label : Nat) (depth merged : Option Nat) (g g' : Gauge) : Prop where
  same : g'.depth = g.depth ∧ g'.maxStack = g.maxStack ∧ g'.labels.size = g.labels.size
  merged : merged = (g.labelDepth label).or depth
  agree : ∀ e ∈ g.labelDepth label, ∀ n ∈ depth, e = n
  labels : ∀ l, g'.labelDepth l =
    if label = l ∧ l < g.labels.size then (g.labelDepth l).or depth else g.labelDepth l

/-- The four cases of a meeting, by what is known on either side; two known depths have to be the
same. -/
theorem meets_of_meet {label : Nat} {depth merged : Option Nat}
    (h : meet label depth g = some (merged, g')) : Meets label depth merged g g' := by
  unfold meet at h
  dsimp only at h
  -- A label whose depth is known, or that meets no depth, stays as it is.
  have hkept (l : Nat) (hkept : depth = none ∨ ∃ e, g.labelDepth label = some e) :
      g.labelDepth l =
        if label = l ∧ l < g.labels.size then (g.labelDepth l).or depth else g.labelDepth l := by
    split
    · next hl =>
      rcases hkept with hnone | ⟨e, he⟩
      · simp [hnone]
      · simp [← hl.1, he]
    · rfl
  split at h
  · next e n he =>
    replace he : g.labelDepth label = some e := he
    split at h
    · next heq =>
      cases h
      subst heq
      exact ⟨⟨rfl, rfl, rfl⟩, by simp [he], by simp [he], fun l => hkept l (.inr ⟨e, he⟩)⟩
    · cases h
  · next e he =>
    replace he : g.labelDepth label = some e := he
    cases h
    exact ⟨⟨rfl, rfl, rfl⟩, by simp [he], by simp, fun l => hkept l (.inl rfl)⟩
  · next n he =>
    replace he : g.labelDepth label = none := he
    cases h
    refine ⟨⟨rfl, rfl, by simp⟩, by simp [he], by simp [he], fun l => ?_⟩
    rw [labelDepth, Assembler.getD_setIfInBounds]
    split
    · next hl => simp [← hl.1, he]
    · rfl
  · next he =>
    replace he : g.labelDepth label = none := he
    cases h
    exact ⟨⟨rfl, rfl, rfl⟩, by simp [he], by simp, fun l => hkept l (.inl rfl)⟩

end Gauge

namespace Request

open Gauge

/-- By how much the instruction of a request changes the depth. A descriptor that cannot be read
gives no number, and neither does a label. -/
def delta? : Request → Option Int
  | .plain op | .onType op _ | .jump op _ => op.stackDelta
  | .load _ | .pushInt _ | .loadConstant _ => some 1
  | .store _ => some (-1)
  | .getStatic _ _ descriptor =>
    match FieldType.parse descriptor with
    | .ok t => some t.slots
    | .error _ => none
  | .call kind _ _ descriptor =>
    match MethodType.parse descriptor with
    | .ok m => some (m.resultSlots - (m.ownSlots + kind.receiverSlots : Nat))
    | .error _ => none
  | .newLabel | .bind _ => none

/-- Whether control never passes on behind a request. -/
def endsBlock : Request → Bool
  | .plain op | .jump op _ => op.endsBlock
  | _ => false

def label? : Request → Option Nat
  | .jump _ label | .bind label => some label
  | _ => none

/-- What a request that succeeds does to depths. `behind` is the depth behind its instruction, or
the depth that holds at the label that it binds. -/
structure Shifts (r : Request) (behind : Option Nat) (g g' : Gauge) : Prop where
  depth : g'.depth = if r.endsBlock then none else behind
  emitted : r.emits = true → ∃ delta, r.delta? = some delta ∧
    behind.map Int.ofNat = g.depth.map (Int.ofNat · + delta) ∧
    g'.maxStack = max g.maxStack (behind.getD 0)
  silent : r.emits = false → g'.maxStack = g.maxStack ∧
    behind = g.depth.or (r.label?.bind g.labelDepth)
  agree : ∀ label ∈ r.label?, ∀ e ∈ g.labelDepth label, ∀ n ∈ behind, e = n
  labels : ∀ label, g'.labelDepth label =
    if r.label? = some label ∧ label < g.labels.size then (g.labelDepth label).or behind
    else g.labelDepth label

variable {r : Request} {g m g' : Gauge}

/-- The depth behind an instruction. -/
theorem behind_of_adjust {delta : Int} (h : adjust delta g = some ((), m)) :
    m.depth.map Int.ofNat = g.depth.map (Int.ofNat · + delta) ∧
      m.maxStack = max g.maxStack (m.depth.getD 0) ∧ m.labels = g.labels := by
  rcases adjust_cases h with ⟨hnone, rfl⟩ | ⟨d, n, hd, hn, rfl⟩
  · simp [hnone]
  · simp [hd, hn]

/-- A request that only changes the depth, up to local slots. -/
theorem shifts_of_adjust {delta : Int} (hemits : r.emits = true) (hdelta : r.delta? = some delta)
    (hlabel : r.label? = none) (h : adjust delta g = some ((), m))
    (hdepth : g'.depth = if r.endsBlock then none else m.depth)
    (hstack : g'.maxStack = m.maxStack) (hlabels : g'.labels = m.labels) :
    Shifts r m.depth g g' := by
  obtain ⟨hbehind, hmax, hsame⟩ := behind_of_adjust h
  refine ⟨hdepth, fun _ => ⟨delta, hdelta, hbehind, hstack.trans hmax⟩, by simp [hemits],
    by simp [hlabel], fun label => ?_⟩
  simp [hlabel, labelDepth, hlabels, hsame]

theorem close_eq_some {op : Opcode} (h : close op m = some ((), g')) :
    g'.depth = (if op.endsBlock then none else m.depth) ∧ g'.maxStack = m.maxStack ∧
      g'.labels = m.labels := by
  unfold Gauge.close at h
  split at h
  · next hends =>
    cases h
    exact ⟨(if_pos hends).symm, rfl, rfl⟩
  · next hends =>
    cases h
    exact ⟨(if_neg hends).symm, rfl, rfl⟩

/-- A plain opcode either passes control on at the changed depth or forgets the depth. -/
theorem shifts_plain {op : Opcode} (h : measure (.plain op) g = some ((), g')) :
    ∃ behind, Shifts (.plain op) behind g g' := by
  rw [measure] at h
  cases hlayout : op.layout with
  | bare =>
    cases hdelta : op.stackDelta with
    | some delta =>
      rw [hlayout, hdelta] at h
      obtain ⟨_, m, hadjust, h⟩ := gauging_bind_eq_some.mp h
      obtain ⟨hdepth, hstack, hlabels⟩ := close_eq_some h
      exact ⟨_, shifts_of_adjust rfl hdelta rfl hadjust hdepth hstack hlabels⟩
    | none =>
      rw [hlayout, hdelta] at h
      cases h
  | _ =>
    rw [hlayout] at h
    cases h

/-- A call that can be measured has its arguments on the stack, in slots that can be counted. -/
theorem measure_call {kind : CallKind} {owner name descriptor : String}
    (h : measure (.call kind owner name descriptor) g = some ((), g')) :
    ∃ m, MethodType.parse descriptor = .ok m ∧ m.ownSlots ≤ 65535 ∧
      (∀ n, g.depth = some n → m.ownSlots + kind.receiverSlots ≤ n) ∧
      adjust (m.resultSlots - (m.ownSlots + kind.receiverSlots : Nat)) g = some ((), g') := by
  rw [measure] at h
  cases hparse : MethodType.parse descriptor with
  | error cause =>
    rw [hparse] at h
    cases h
  | ok m =>
    rw [hparse] at h
    dsimp only at h
    split at h
    · cases h
    · next hcounted =>
      obtain ⟨_, _, hget, h⟩ := gauging_bind_eq_some.mp h
      cases hget
      split at h
      · cases h
      · next hthere =>
        obtain ⟨_, _, hadjust, h⟩ := gauging_bind_eq_some.mp h
        split at h
        · cases h
        · cases h
          refine ⟨m, rfl, Nat.not_lt.mp hcounted, ?_, hadjust⟩
          intro n hn
          simpa [hn] using hthere

theorem shifts_call {kind : CallKind} {owner name descriptor : String}
    (h : measure (.call kind owner name descriptor) g = some ((), g')) :
    ∃ behind, Shifts (.call kind owner name descriptor) behind g g' := by
  obtain ⟨m, hparse, -, -, hadjust⟩ := measure_call h
  exact ⟨_, shifts_of_adjust rfl (by rw [delta?, hparse]) rfl hadjust rfl rfl rfl⟩

/-- A jump meets its label at the depth behind it; only the conditional ones go on from there. -/
theorem shifts_jump {op : Opcode} {label : Nat} (h : measure (.jump op label) g = some ((), g')) :
    ∃ behind, Shifts (.jump op label) behind g g' := by
  rw [measure] at h
  split at h
  · cases h
  · next hbranch =>
    have hdelta : op.stackDelta = some (op.stackDelta.getD 0) := by
      cases op <;> first | rfl | exact absurd rfl hbranch
    obtain ⟨_, m, hadjust, h⟩ := gauging_bind_eq_some.mp h
    obtain ⟨_, _, hget, h⟩ := gauging_bind_eq_some.mp h
    cases hget
    obtain ⟨merged, n, hmeet, h⟩ := gauging_bind_eq_some.mp h
    obtain ⟨hbehind, hmax, hsame⟩ := behind_of_adjust hadjust
    have hmeets := meets_of_meet hmeet
    obtain ⟨hdepth, hstack, hlabels⟩ := close_eq_some h
    have hlabelDepth (l : Nat) : m.labelDepth l = g.labelDepth l := by
      simp [labelDepth, hsame]
    refine ⟨m.depth, ?_, fun _ => ⟨_, hdelta, hbehind, ?_⟩, by simp [emits], ?_, fun l => ?_⟩
    · rw [hdepth, hmeets.same.1]
      rfl
    · rw [hstack, hmeets.same.2.1, hmax]
    · intro l hl
      cases hl
      rw [← hlabelDepth]
      exact hmeets.agree
    · have hmerged := hmeets.labels l
      rw [hlabelDepth, hsame] at hmerged
      simpa [labelDepth, hlabels, label?] using hmerged

/-- A label that is bound meets the depth of the instruction before, if control comes from there,
and passes on what it knows. -/
theorem shifts_bind {label : Nat} (h : measure (.bind label) g = some ((), g')) :
    ∃ behind, Shifts (.bind label) behind g g' := by
  rw [measure] at h
  obtain ⟨_, _, hget, h⟩ := gauging_bind_eq_some.mp h
  cases hget
  split at h
  · cases h
  · obtain ⟨_, m, hset, h⟩ := gauging_bind_eq_some.mp h
    cases hset
    obtain ⟨_, _, hget, h⟩ := gauging_bind_eq_some.mp h
    cases hget
    obtain ⟨merged, n, hmeet, h⟩ := gauging_bind_eq_some.mp h
    cases h
    have hmeets := meets_of_meet hmeet
    -- Noting that the label is bound changes no depth.
    have hlabelDepth (l : Nat) : labelDepth ⟨g.depth, g.maxStack, g.maxLocals,
        g.labels.setIfInBounds label ⟨true, (g.labels.getD label {}).depth⟩⟩ l =
        g.labelDepth l := by
      simp only [labelDepth, Assembler.getD_setIfInBounds]
      split
      · next hl => rw [hl.1]
      · rfl
    have hagree := hmeets.agree
    have hmerged := hmeets.merged
    rw [hlabelDepth] at hagree hmerged
    refine ⟨merged, rfl, by simp [emits], fun _ => ⟨hmeets.same.2.1, ?_⟩, ?_, fun l => ?_⟩
    · rw [hmerged]
      show _ = g.depth.or (g.labelDepth label)
      cases hlabel : g.labelDepth label with
      | none => simp
      | some e =>
        cases hdepth : g.depth with
        | none => simp
        | some d => simp [hagree e hlabel d hdepth]
    · intro l hl e he n hn
      cases hl
      rw [hmerged, Option.mem_def.mp he] at hn
      exact Option.some.inj hn
    · have hlabels := hmeets.labels l
      rw [hlabelDepth] at hlabels
      show n.labelDepth l = _
      rw [hlabels]
      simp only [label?, Option.some.injEq, Array.size_setIfInBounds]
      split
      · next hl =>
        rw [hmerged, ← hl.1]
        cases g.labelDepth label with
        | none => rfl
        | some e => rfl
      · rfl

/-- The specification of requests as far as depths go: a case for each. -/
theorem shifts (h : r.measure g = some ((), g')) : ∃ behind, Shifts r behind g g' := by
  cases r with
  | plain op => exact shifts_plain h
  | load slot =>
    obtain ⟨_, m, hadjust, h⟩ := gauging_bind_eq_some.mp h
    cases h
    exact ⟨_, shifts_of_adjust rfl rfl rfl hadjust rfl rfl rfl⟩
  | store slot =>
    obtain ⟨_, m, hadjust, h⟩ := gauging_bind_eq_some.mp h
    cases h
    exact ⟨_, shifts_of_adjust rfl rfl rfl hadjust rfl rfl rfl⟩
  | pushInt v => exact ⟨_, shifts_of_adjust rfl rfl rfl h rfl rfl rfl⟩
  | loadConstant v => exact ⟨_, shifts_of_adjust rfl rfl rfl h rfl rfl rfl⟩
  | onType op className =>
    rw [measure] at h
    split at h
    · next hop =>
      have hdelta : op.stackDelta = some (op.stackDelta.getD 0) := by
        rcases hop with rfl | rfl <;> rfl
      exact ⟨_, shifts_of_adjust rfl hdelta rfl h rfl rfl rfl⟩
    · cases h
  | getStatic owner name descriptor =>
    rw [measure] at h
    cases hparse : FieldType.parse descriptor with
    | error cause =>
      rw [hparse] at h
      cases h
    | ok t =>
      rw [hparse] at h
      exact ⟨_, shifts_of_adjust rfl (by rw [delta?, hparse]) rfl h rfl rfl rfl⟩
  | call kind owner name descriptor => exact shifts_call h
  | newLabel =>
    cases h
    refine ⟨g.depth, rfl, by simp [emits], by simp [label?], by simp [label?], fun l => ?_⟩
    simp only [labelDepth, Array.getD_eq_getD_getElem?, Array.getElem?_push]
    by_cases hl : l = g.labels.size
    · simp [hl, label?]
    · simp [hl, label?]
  | jump op label => exact shifts_jump h
  | bind label => exact shifts_bind h

end Request

end StackGlyph
