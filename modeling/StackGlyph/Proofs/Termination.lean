import Mathlib
import StackGlyph.Proofs.RunLimits

/-!
# A limit on instructions ends every run

Neither the place in the code nor the depth of calls tells how far a run has come: code may jump
back, and a call that returns leaves its caller where it was. What every instruction uses up is the
limit on instructions, whichever frame it is executed in. So under such a limit no run goes on
forever, however deep calls may go, and the count passes the limit by one instruction at most.
-/
namespace StackGlyph.Machine

variable {p : Program} {limits : Limits} {limit : Nat}

/-- An instruction after which a run goes on was counted and is within the limit. -/
theorem steps_of_running {s s' : State} (hlimit : limits.maxSteps = some limit)
    (h : step p limits s = .running s') :
    s'.store.steps = s.store.steps + 1 ∧ s'.store.steps ≤ limit := by
  cases hnext : s.next? with
  | none =>
    rw [step_of_next_none hnext] at h
    cases h
  | some i =>
    have hcount : s'.store.steps = s.store.steps + 1 :=
      calc s'.store.steps
        _ = (step p limits s).store.steps := by rw [h]; rfl
        _ = s.store.steps + 1 := steps_of_step hnext
    refine ⟨hcount, ?_⟩
    by_contra hbeyond
    rw [step_of_exceeds hnext hlimit (by omega)] at h
    cases h

/-- An instruction leads to a count of at most one more than the limit or the count before, and only
if the limit stops it to as much. -/
theorem steps_of_step_le_limit (hlimit : limits.maxSteps = some limit) (s : State) :
    (step p limits s).store.steps ≤ max s.store.steps limit + 1 ∧
      ((step p limits s).store.steps = max s.store.steps limit + 1 →
        step p limits s = .trapped s.counted (.stepLimit limit)) := by
  cases hnext : s.next? with
  | none =>
    rw [step_of_next_none hnext]
    have hsame : s.store.steps < max s.store.steps limit + 1 :=
      Nat.lt_succ_of_le (Nat.le_max_left _ _)
    exact ⟨hsame.le, fun hcount => absurd hcount hsame.ne⟩
  | some i =>
    rw [steps_of_step hnext]
    exact ⟨by omega, fun hcount => step_of_exceeds hnext hlimit (by omega)⟩

/-- The limit is used up by every instruction, so a run under it ends. -/
theorem exists_ends (hlimit : limits.maxSteps = some limit) (s : State) :
    ∃ o t, Ends p limits s o t := by
  induction hleft : limit - s.store.steps using Nat.strong_induction_on generalizing s with
  | _ left ih =>
    cases hstep : step p limits s with
    | returned t => exact ⟨_, _, .returned hstep⟩
    | trapped t e => exact ⟨_, _, .trapped hstep⟩
    | running s' =>
      obtain ⟨hcount, hwithin⟩ := steps_of_running hlimit hstep
      obtain ⟨o, t, hends⟩ := ih (limit - s'.store.steps) (by omega) s' rfl
      exact ⟨o, t, .running hstep hends⟩

/-- A run ends with a count of at most one more than the limit, and is stopped by the limit if it
comes to that. -/
theorem Ends.steps_le_limit {s : State} {o : Outcome Unit} {t : Store} (h : Ends p limits s o t)
    (hlimit : limits.maxSteps = some limit) :
    t.steps ≤ max s.store.steps limit + 1 ∧
      (t.steps = max s.store.steps limit + 1 → o = .trapped (.stepLimit limit)) := by
  induction h with
  | @returned s t h =>
    obtain ⟨hle, hstopped⟩ := steps_of_step_le_limit (p := p) hlimit s
    rw [h] at hle hstopped
    exact ⟨hle, fun hcount => absurd (hstopped hcount) (by simp)⟩
  | @trapped s t e h =>
    obtain ⟨hle, hstopped⟩ := steps_of_step_le_limit (p := p) hlimit s
    rw [h] at hle hstopped
    refine ⟨hle, fun hcount => ?_⟩
    cases hstopped hcount
    rfl
  | @running s s' o t h _ ih =>
    obtain ⟨hcount, hwithin⟩ := steps_of_running hlimit h
    have hsame : max s.store.steps limit = max s'.store.steps limit := by omega
    rwa [hsame]

theorem Ends.ne_unfinished {s : State} {o : Outcome Unit} {t : Store} (h : Ends p limits s o t) :
    o ≠ .unfinished := by
  induction h with
  | returned _ => simp
  | trapped _ => simp
  | running _ _ ih => exact ih

/-- A call from outside comes to an end, within the bounds of its run. -/
theorem Invocation.call_ends (hlimit : limits.maxSteps = some limit) (i : Invocation) (s : Store) :
    ∃ o t, i.call p limits s = (o, t) ∧ o ≠ .unfinished ∧ s.steps ≤ t.steps ∧
      t.steps ≤ max s.steps limit + 1 ∧
      (t.steps = max s.steps limit + 1 → o = .trapped (.stepLimit limit)) := by
  cases henter : i.enter p limits s with
  | error e =>
    refine ⟨.trapped e, i.prepare s, ?_, by simp, Nat.le_refl _, ?_, ?_⟩
    · exact (call_eq_iff (by simp)).mpr (.inl ⟨e, henter, rfl, rfl⟩)
    · exact Nat.le_succ_of_le (Nat.le_max_left _ _)
    · intro hbeyond
      have hsame : (i.prepare s).steps = s.steps := rfl
      omega
  | ok f =>
    obtain ⟨o, t, hends⟩ := exists_ends hlimit (p := p) ⟨i.prepare s, f, []⟩
    have ho := hends.ne_unfinished
    exact ⟨o, t, (call_eq_iff ho).mpr (.inr ⟨f, henter, hends⟩), ho, hends.steps_le,
      hends.steps_le_limit hlimit⟩

theorem Invocation.conclude_ne_unfinished {o : Outcome Unit} (ho : o ≠ .unfinished)
    (i : Invocation) (place : Nat) (t : Store) : i.conclude place o t ≠ .unfinished := by
  cases o with
  | done value => cases hread : i.readBack t.heap place <;> simp [conclude, hread]
  | trapped e => simp [conclude]
  | unfinished => exact absurd rfl ho

/-- Whatever a class does, called from outside under a limit on instructions and with any depth of
calls, on a machine in any state: the call comes to an end. The count never goes back and passes
what it was and the limit by one at most; and if it does, then the limit stopped the call. -/
theorem limit_ends_call (c : ClassFile) (i : Invocation) (limit depth : Nat) (s : Store) :
    let r := i.perform (Program.link c) { maxSteps := some limit, maxCallDepth := depth } s
    r.1 ≠ .unfinished ∧ s.steps ≤ r.2.steps ∧ r.2.steps ≤ max s.steps limit + 1 ∧
      (r.2.steps = max s.steps limit + 1 → r.1 = .trapped (.stepLimit limit)) := by
  intro r
  have hlimit : (Limits.mk (some limit) depth).maxSteps = some limit := rfl
  obtain ⟨o, t, hcall, ho, hlower, hupper, hstopped⟩ :=
    i.call_ends (p := Program.link c) hlimit s
  have hr : r = (i.conclude (i.argument s.heap.size) o t, t) := Invocation.perform_of_call hcall
  rw [hr]
  refine ⟨i.conclude_ne_unfinished ho _ t, hlower, hupper, fun hcount => ?_⟩
  rw [hstopped hcount]
  rfl

end StackGlyph.Machine
