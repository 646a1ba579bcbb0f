/-!
# Operations that fail and keep what they did

The operations on pools, assemblers and drafts return the state they leave behind, also when they
fail. Two views of them serve all later proofs: which states a success passes through, and which
relation holds between the first state and the last in any case.
-/
namespace StackGlyph

variable {ε σ α β : Type}

/-- The state that an operation leaves behind, whether or not it succeeded. -/
def leftBy : EStateM.Result ε σ α → σ
  | .ok _ s => s
  | .error _ s => s

@[simp] theorem leftBy_ok (v : α) (s : σ) : leftBy (.ok v s : EStateM.Result ε σ α) = s := rfl

@[simp] theorem leftBy_error (e : ε) (s : σ) :
    leftBy (.error e s : EStateM.Result ε σ α) = s := rfl

/-- A sequence succeeds exactly if its first part does and its second does from there. -/
theorem bind_eq_ok {x : EStateM ε σ α} {f : α → EStateM ε σ β} {s t : σ} {w : β} :
    (x >>= f) s = .ok w t ↔ ∃ v m, x s = .ok v m ∧ f v m = .ok w t := by
  show EStateM.bind x f s = _ ↔ _
  unfold EStateM.bind
  cases hx : x s with
  | error e m => simp
  | ok v m =>
    constructor
    · intro h
      exact ⟨v, m, rfl, h⟩
    · rintro ⟨v', m', hv, h⟩
      cases hv
      exact h

theorem bind_of_ok {x : EStateM ε σ α} {f : α → EStateM ε σ β} {s m : σ} {v : α}
    (h : x s = .ok v m) : (x >>= f) s = f v m := by
  show EStateM.bind x f s = _
  simp only [EStateM.bind, h]

theorem bind_of_error {x : EStateM ε σ α} {f : α → EStateM ε σ β} {s m : σ} {e : ε}
    (h : x s = .error e m) : (x >>= f) s = .error e m := by
  show EStateM.bind x f s = _
  simp only [EStateM.bind, h]

/-- A sequence succeeds if and only if both of its parts do, the second on what the first gave. -/
theorem except_bind_eq_ok {x : Except ε α} {f : α → Except ε β} {w : β} :
    (x >>= f) = .ok w ↔ ∃ v, x = .ok v ∧ f v = .ok w := by
  cases x with
  | error e =>
    constructor
    · intro h
      cases h
    · rintro ⟨v, hv, -⟩
      cases hv
  | ok v =>
    constructor
    · intro h
      exact ⟨v, rfl, h⟩
    · rintro ⟨_, hv, h⟩
      cases hv
      exact h

/-- A result that is given from outside does not touch the state. -/
theorem ofExcept_eq_ok {x : Except ε α} {s t : σ} {v : α} :
    (ofExcept x : EStateM ε σ α) s = .ok v t ↔ x = .ok v ∧ s = t := by
  cases x with
  | error e =>
    constructor
    · intro h
      cases h
    · rintro ⟨h, -⟩
      cases h
  | ok w =>
    constructor
    · intro h
      cases h
      exact ⟨rfl, rfl⟩
    · rintro ⟨hv, rfl⟩
      cases hv
      rfl

/-- A relation that holds over any number of operations if it holds over each. -/
structure Lasting (R : σ → σ → Prop) : Prop where
  refl : ∀ s, R s s
  trans : ∀ {a b c}, R a b → R b c → R a c

/-- The state before an operation and the one left behind are related, success or not. -/
def Respects (R : σ → σ → Prop) (x : EStateM ε σ α) : Prop :=
  ∀ s, R s (leftBy (x s))

namespace Respects

variable {R : σ → σ → Prop}

theorem of_ok {x : EStateM ε σ α} (h : Respects R x) {s t : σ} {v : α} (hx : x s = .ok v t) :
    R s t := by
  have hr := h s
  rwa [hx] at hr

theorem pure (hR : Lasting R) (v : α) : Respects R (pure v : EStateM ε σ α) :=
  fun s => hR.refl s

theorem throw (hR : Lasting R) (e : ε) : Respects R (throw e : EStateM ε σ α) :=
  fun s => hR.refl s

theorem get (hR : Lasting R) : Respects R (get : EStateM ε σ σ) :=
  fun s => hR.refl s

theorem ofExcept (hR : Lasting R) (x : Except ε α) : Respects R (ofExcept x : EStateM ε σ α) := by
  intro s
  cases x with
  | error e => exact hR.refl s
  | ok v => exact hR.refl s

theorem modify {f : σ → σ} (h : ∀ s, R s (f s)) : Respects R (modify f : EStateM ε σ PUnit) :=
  h

/-- A lasting relation holds over a sequence: across both parts, or up to the one that fails. -/
theorem bind (hR : Lasting R) {x : EStateM ε σ α} {f : α → EStateM ε σ β} (hx : Respects R x)
    (hf : ∀ v, Respects R (f v)) : Respects R (x >>= f) := by
  intro s
  have hs := hx s
  cases h : x s with
  | error e m =>
    rw [bind_of_error h]
    rwa [h] at hs
  | ok v m =>
    rw [bind_of_ok h]
    rw [h] at hs
    exact hR.trans hs (hf v m)

theorem ite {c : Prop} [Decidable c] {x y : EStateM ε σ α} (hx : Respects R x)
    (hy : Respects R y) : Respects R (if c then x else y) := by
  split
  · exact hx
  · exact hy

end Respects

end StackGlyph
