import Mathlib
import StackGlyph.Proofs.ActionEffects
import StackGlyph.Proofs.Invocations

/-!
# Limits only cut runs short

A limit on instructions or on the depth of calls changes nothing in a run that stays within it. An
instruction counts one, and no action touches the count, so a run under a limit on instructions goes
the way of the run without it until the count has passed the limit.
-/
namespace StackGlyph.Machine

variable {p : Program} {limits limits' : Limits}

/-! ## The count of instructions -/

theorem Touches.steps_eq {action : Action} {f : Frame} {s t : Store} {new : List Value}
    (h : Touches action f s new t) : t.steps = s.steps := by
  cases h <;> rfl

theorem Does.steps_eq {action : Action} {f : Frame} {s : Store}
    {r : EStateM.Result Trap Store Effect} (h : Does action f s r) : (leftBy r).steps = s.steps := by
  rcases r with ⟨_ | _ | _, t⟩ | ⟨e, t⟩
  · obtain ⟨new, htouches, -⟩ := h
    exact htouches.steps_eq
  · exact congrArg Store.steps h.1
  · exact congrArg Store.steps h
  · exact congrArg Store.steps h.1

/-- Every instruction counts one. -/
theorem steps_of_step {s : State} {i : LinkedInstruction} (h : s.next? = some i) :
    (step p limits s).store.steps = s.store.steps + 1 := by
  rcases allows_or_exceeds limits (s.store.steps + 1) with hallow | ⟨limit, hlimit, hlt⟩
  · rw [step_of_allows h hallow, store_follow, (execute_does _ _ _ _).steps_eq]
    rfl
  · rw [step_of_exceeds h hlimit hlt]
    rfl

theorem steps_of_step_le {s : State} {r : Progress} (h : step p limits s = r) :
    s.store.steps ≤ r.store.steps ∧ r.store.steps ≤ s.store.steps + 1 := by
  subst h
  cases h : s.next? with
  | none =>
    rw [step_of_next_none h]
    exact ⟨Nat.le_refl _, Nat.le_succ _⟩
  | some i =>
    rw [steps_of_step h]
    exact ⟨Nat.le_succ _, Nat.le_refl _⟩

theorem Ends.steps_le {s : State} {o : Outcome Unit} {t : Store} (h : Ends p limits s o t) :
    s.store.steps ≤ t.steps := by
  induction h with
  | returned h => exact (steps_of_step_le h).1
  | trapped h => exact (steps_of_step_le h).1
  | running h _ ih => exact Nat.le_trans (steps_of_step_le h).1 ih

/-! ## Wider limits -/

/-- A limit was in the way. -/
def Trap.IsLimit : Trap → Prop
  | .stepLimit _ | .callDepth _ => True
  | _ => False

/-- A method that could be entered, or could not for another reason than its depth, is entered alike
where more depth is allowed. -/
theorem enter_widen {depth : Nat} {name descriptor : String} {arguments : List Value}
    (hdepth : limits.maxCallDepth ≤ limits'.maxCallDepth)
    (h : ∀ e, enter p limits depth name descriptor arguments = .error e → ¬ e.IsLimit) :
    enter p limits' depth name descriptor arguments =
      enter p limits depth name descriptor arguments := by
  unfold enter at h ⊢
  by_cases hwithin : limits.maxCallDepth ≤ depth
  · rw [if_pos hwithin] at h
    exact absurd trivial (h _ rfl)
  · rw [if_neg hwithin, if_neg (by omega)]

/-- A call that was allowed is allowed under wider limits too, with the same frame. -/
theorem follow_widen {callers : List Frame} {r : EStateM.Result Trap Store Effect}
    (hdepth : limits.maxCallDepth ≤ limits'.maxCallDepth)
    (h : ∀ t e, follow p limits callers r = .trapped t e → ¬ e.IsLimit) :
    follow p limits' callers r = follow p limits callers r := by
  rcases r with ⟨_ | ⟨caller, name, descriptor, arguments⟩ | _, store⟩ | ⟨t, store⟩
  · rfl
  · simp only [follow] at h ⊢
    rw [enter_widen hdepth]
    intro e he
    rw [he] at h
    exact h store e rfl
  · rfl
  · rfl

/-- An instruction that no limit stopped leads to the same under wider limits. -/
theorem step_widen {s : State} (hallow : limits'.Allows (step p limits s).store.steps)
    (hdepth : limits.maxCallDepth ≤ limits'.maxCallDepth)
    (h : ∀ t e, step p limits s = .trapped t e → ¬ e.IsLimit) :
    step p limits' s = step p limits s := by
  cases hnext : s.next? with
  | none => rw [step_of_next_none hnext, step_of_next_none hnext]
  | some i =>
    rw [steps_of_step hnext] at hallow
    rcases allows_or_exceeds limits (s.store.steps + 1) with hwithin | ⟨limit, hlimit, hlt⟩
    · rw [step_of_allows hnext hwithin] at h ⊢
      rw [step_of_allows hnext hallow, follow_widen hdepth h]
    · exact absurd trivial (h _ _ (step_of_exceeds hnext hlimit hlt))

theorem step_widen_running {s s' : State} (h : step p limits s = .running s')
    (hallow : limits'.Allows s'.store.steps) (hdepth : limits.maxCallDepth ≤ limits'.maxCallDepth) :
    step p limits' s = .running s' := by
  rw [step_widen (by rwa [h]) hdepth (by simp [h]), h]

/-- A run that no limit stopped is the same under wider limits. -/
theorem Ends.widen {s : State} {o : Outcome Unit} {t : Store} (h : Ends p limits s o t)
    (hallow : limits'.Allows t.steps) (hdepth : limits.maxCallDepth ≤ limits'.maxCallDepth)
    (hlimit : ∀ e, o = .trapped e → ¬ e.IsLimit) : Ends p limits' s o t := by
  induction h with
  | returned h =>
    apply Ends.returned
    rw [step_widen (by rwa [h]) hdepth (by simp [h]), h]
  | @trapped s t e h =>
    apply Ends.trapped
    rw [step_widen (by rwa [h]) hdepth, h]
    intro t' e' he
    rw [h] at he
    cases he
    exact hlimit e rfl
  | running h rest ih =>
    exact .running (step_widen_running h (hallow.mono rest.steps_le) hdepth) (ih hallow hlimit)

/-! ## Tighter limits -/

section Cut

variable {s : State} {o : Outcome Unit} {t : Store} {limit : Nat}

/-- A run that counts anything executes an instruction. -/
theorem Ends.next_of_lt (h : Ends p limits s o t) (hlt : s.store.steps < t.steps) :
    ∃ i, s.next? = some i := by
  cases hnext : s.next? with
  | some i => exact ⟨i, rfl⟩
  | none =>
    cases h with
    | returned h => simp [step_of_next_none hnext] at h
    | trapped h =>
      rw [step_of_next_none hnext] at h
      cases h
      omega
    | running h _ => simp [step_of_next_none hnext] at h

/-- A run that has used up a limit is stopped by it at its next instruction. -/
theorem Ends.cut_here (h : Ends p limits s o t) (hstart : s.store.steps = limit)
    (hlt : limit < t.steps) :
    ∃ t', Ends p { limits with maxSteps := some limit } s (.trapped (.stepLimit limit)) t' ∧
      t'.steps = limit + 1 := by
  obtain ⟨i, hi⟩ := h.next_of_lt (hstart ▸ hlt)
  refine ⟨s.counted, .trapped (step_of_exceeds hi rfl (by omega)), ?_⟩
  rw [← hstart]
  rfl

/-- A run that takes more instructions than a limit allows is stopped by the limit, one instruction
behind it. -/
theorem Ends.cut (h : Ends p limits s o t) (hstart : s.store.steps ≤ limit) (hlt : limit < t.steps) :
    ∃ t', Ends p { limits with maxSteps := some limit } s (.trapped (.stepLimit limit)) t' ∧
      t'.steps = limit + 1 := by
  induction h with
  | returned h =>
    have hle := Nat.le_of_lt_succ (Nat.lt_of_lt_of_le hlt (steps_of_step_le h).2)
    exact (Ends.returned h).cut_here (Nat.le_antisymm hstart hle) hlt
  | trapped h =>
    have hle := Nat.le_of_lt_succ (Nat.lt_of_lt_of_le hlt (steps_of_step_le h).2)
    exact (Ends.trapped h).cut_here (Nat.le_antisymm hstart hle) hlt
  | @running s s' o t h rest ih =>
    rcases Nat.eq_or_lt_of_le hstart with heq | hwithin
    · exact (Ends.running h rest).cut_here heq hlt
    · have hle : s'.store.steps ≤ limit := Nat.le_trans (steps_of_step_le h).2 hwithin
      obtain ⟨t', hends, hsteps⟩ := ih hle hlt
      refine ⟨t', .running (step_widen_running h ?_ (Nat.le_refl _)) hends, hsteps⟩
      rintro _ ⟨⟩
      exact hle

end Cut

/-! ## Whole calls -/

namespace Invocation

variable {i : Invocation} {s t : Store} {o : Outcome Unit}

/-- A call that ended within its limits ends the same way under wider ones. -/
theorem call_widen (h : i.call p limits s = (o, t)) (ho : o ≠ .unfinished)
    (hlimit : ∀ e, o = .trapped e → ¬ e.IsLimit) (hallow : limits'.Allows t.steps)
    (hdepth : limits.maxCallDepth ≤ limits'.maxCallDepth) : i.call p limits' s = (o, t) := by
  rw [call_eq_iff ho] at h ⊢
  rcases h with ⟨e, henter, rfl, rfl⟩ | ⟨f, henter, hends⟩
  · refine .inl ⟨e, ?_, rfl, rfl⟩
    rw [enter, enter_widen hdepth]
    · exact henter
    · intro e' he'
      rw [enter, he'] at henter
      cases henter
      exact hlimit e rfl
  · refine .inr ⟨f, ?_, hends.widen hallow hdepth hlimit⟩
    rw [enter, enter_widen hdepth]
    · exact henter
    · intro e' he'
      rw [enter, he'] at henter
      cases henter

theorem call_cut {limit : Nat} (h : i.call p limits s = (o, t)) (ho : o ≠ .unfinished)
    (hstart : s.steps ≤ limit) (hlt : limit < t.steps) :
    ∃ t', i.call p { limits with maxSteps := some limit } s = (.trapped (.stepLimit limit), t') ∧
      t'.steps = limit + 1 := by
  rcases (call_eq_iff ho).mp h with ⟨e, henter, rfl, rfl⟩ | ⟨f, henter, hends⟩
  · exact absurd hlt (Nat.not_lt.mpr hstart)
  · obtain ⟨t', hends', hsteps⟩ := hends.cut hstart hlt
    exact ⟨t', (call_eq_iff (by simp)).mpr (.inr ⟨f, henter, hends'⟩), hsteps⟩

/-- A call that is over ended as its method did, or while its result was read back. -/
theorem call_of_perform {outcome : Outcome (List UInt16)}
    (h : i.perform p limits s = (outcome, t)) :
    ∃ o, i.call p limits s = (o, t) ∧ outcome = i.conclude (i.argument s.heap.size) o t := by
  rw [perform_eq] at h
  cases h
  exact ⟨_, rfl, rfl⟩

theorem perform_of_call (h : i.call p limits s = (o, t)) :
    i.perform p limits s = (i.conclude (i.argument s.heap.size) o t, t) := by
  rw [perform_eq, h]

end Invocation

/-- Limits only cut runs short. Whatever a class does, called once from outside: if neither limit
stops it, then it does the same under every limit on instructions that it keeps and every depth at
least as large, down to the store it leaves; and under every smaller limit on instructions it is
stopped by that limit, with one instruction more on its count. -/
theorem limits_cut_short (c : ClassFile) (i : Invocation) (limits : Limits)
    {outcome : Outcome (List UInt16)} {store : Store}
    (h : i.perform (Program.link c) limits {} = (outcome, store)) (hends : outcome ≠ .unfinished)
    (hsteps : ∀ limit, outcome ≠ .trapped (.stepLimit limit))
    (hdepth : ∀ depth, outcome ≠ .trapped (.callDepth depth)) :
    (∀ limits' : Limits, (∀ limit, limits'.maxSteps = some limit → store.steps ≤ limit) →
      limits.maxCallDepth ≤ limits'.maxCallDepth →
      i.perform (Program.link c) limits' {} = (outcome, store)) ∧
    ∀ limit < store.steps, ∃ store',
      i.perform (Program.link c) { limits with maxSteps := some limit } {} =
        (.trapped (.stepLimit limit), store') ∧ store'.steps = limit + 1 := by
  obtain ⟨o, hcall, rfl⟩ := Invocation.call_of_perform h
  have ho : o ≠ .unfinished := by
    rintro rfl
    exact hends rfl
  have hlimit : ∀ e, o = .trapped e → ¬ e.IsLimit := by
    rintro e rfl
    cases e with
    | stepLimit limit => exact absurd rfl (hsteps limit)
    | callDepth depth => exact absurd rfl (hdepth depth)
    | _ => exact id
  constructor
  · intro limits' hallow hwider
    exact Invocation.perform_of_call (Invocation.call_widen hcall ho hlimit hallow hwider)
  · intro limit hlt
    obtain ⟨t', hcut, hcount⟩ := Invocation.call_cut hcall ho (Nat.zero_le limit) hlt
    exact ⟨t', Invocation.perform_of_call hcut, hcount⟩

/-- A class whose main method calls another method twice. -/
def ticking : ClassFile where
  minorVersion := 0
  majorVersion := 49
  pool := { entries := #[.text "T", .type 1, .text "tick", .text "()V", .signature 3 4,
    .member .method 2 5] }
  access := 33
  thisClass := 2
  superClass := 0
  methods := [⟨9, "main", "([Ljava/lang/String;)V", some ⟨0, 1, [0xb8, 0, 6, 0xb8, 0, 6, 0xb1]⟩⟩,
    ⟨9, "tick", "()V", some ⟨1, 0, [0x04, 0x57, 0xb1]⟩⟩]
  sourceFile := none

theorem link_ticking : Program.link ticking = ⟨[
    ("main", "([Ljava/lang/String;)V", .ok ⟨"main", "([Ljava/lang/String;)V", 1,
      #[⟨0, .call 0 true (.ok (.own "tick" "()V"))⟩, ⟨3, .call 0 true (.ok (.own "tick" "()V"))⟩,
        ⟨6, .leave⟩]⟩),
    ("tick", "()V", .ok ⟨"tick", "()V", 0, #[⟨0, .push 1⟩, ⟨1, .pop⟩, ⟨2, .leave⟩]⟩)]⟩ := by
  cbv

/-- Nine instructions, two of them calls: they need a limit of nine and a depth of two. -/
theorem limits_cut_short_ticking :
    ∃ store : Store, store.steps = 9 ∧
      Invocation.main.perform (Program.link ticking) { maxSteps := none, maxCallDepth := 2 } {} =
        (.done [], store) ∧
      Invocation.main.perform (Program.link ticking) { maxSteps := some 9, maxCallDepth := 300 } {} =
        (.done [], store) ∧
      ∃ store', Invocation.main.perform (Program.link ticking)
        { maxSteps := some 8, maxCallDepth := 2 } {} = (.trapped (.stepLimit 8), store') ∧
        store'.steps = 9 := by
  have hcall : Invocation.main.call (Program.link ticking) ⟨none, 2⟩ {} =
      (.done (), { heap := #[.arguments], steps := 9 }) := by
    rw [link_ticking, Invocation.call_eq_iff (by simp)]
    refine .inr ⟨_, rfl, ?_⟩
    iterate 8 refine .running rfl ?_
    exact .returned rfl
  obtain ⟨hwider, hcut⟩ := limits_cut_short ticking .main ⟨none, 2⟩
    (Invocation.perform_of_call hcall) nofun nofun nofun
  refine ⟨_, rfl, Invocation.perform_of_call hcall, hwider _ ?_ (by decide), hcut 8 (by decide)⟩
  rintro _ ⟨⟩
  exact Nat.le_refl 9

end StackGlyph.Machine
