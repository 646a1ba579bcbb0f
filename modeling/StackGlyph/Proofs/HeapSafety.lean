import Mathlib
import StackGlyph.Proofs.RunLimits
import StackGlyph.Proofs.StoreInvariant

/-!
# References never dangle

What an action keeps is kept by every instruction, and so along every history of calls from outside,
whichever of them fail. Lookups in the heap and among the arguments of a call therefore always find
something, and no answer tells of a reference that leads nowhere.
-/
namespace StackGlyph.Machine

variable {p : Program} {limits : Limits}

/-! ## Moments -/

/-- A machine between two calls from outside, or between two instructions of one. -/
inductive Moment where
  | idle (store : Store)
  | busy (state : State)

def Moment.store : Moment → Store
  | .idle store => store
  | .busy state => state.store

def Moment.frames : Moment → List Frame
  | .idle _ => []
  | .busy state => state.frame :: state.callers

def Progress.moment : Progress → Moment
  | .running state => .busy state
  | .returned store => .idle store
  | .trapped store _ => .idle store

/-- What happens next to a machine: a call from outside begins, or cannot, or an instruction of the
call under way is executed. -/
inductive Proceeds (p : Program) (limits : Limits) : Moment → Moment → Prop
  | begins (i : Invocation) {s : Store} {f : Frame} (h : i.enter p limits s = .ok f) :
      Proceeds p limits (.idle s) (.busy ⟨i.prepare s, f, []⟩)
  | refuses (i : Invocation) {s : Store} {e : Trap} (h : i.enter p limits s = .error e) :
      Proceeds p limits (.idle s) (.idle (i.prepare s))
  | steps (s : State) : Proceeds p limits (.busy s) (step p limits s).moment

/-- What a machine can come to by any history of calls. -/
abbrev Reaches (p : Program) (limits : Limits) : Moment → Moment → Prop :=
  Relation.ReflTransGen (Proceeds p limits)

structure Moment.Sound (m : Moment) : Prop where
  store : m.store.Sound
  frames : ∀ f ∈ m.frames, f.Sound m.store.heap.size

theorem Moment.sound_idle {s : Store} (h : s.Sound) : (Moment.idle s).Sound :=
  ⟨h, nofun⟩

theorem Moment.sound_busy {s : State} (hstore : s.store.Sound) (hframe : s.frame.Sound s.store.heap.size)
    (hcallers : ∀ f ∈ s.callers, f.Sound s.store.heap.size) : (Moment.busy s).Sound :=
  ⟨hstore, List.forall_mem_cons.mpr ⟨hframe, hcallers⟩⟩

theorem store_moment (r : Progress) : r.moment.store = r.store := by
  cases r <;> rfl

section Steps

variable {action : Action} {f : Frame} {s : Store} {callers : List Frame}
  {r : EStateM.Result Trap Store Effect}

theorem Does.later (h : Does action f s r) : s.Later (leftBy r) := by
  rcases r with ⟨_ | _ | _, t⟩ | ⟨e, t⟩
  · obtain ⟨new, htouches, -⟩ := h
    exact htouches.later
  · exact h.1 ▸ s.later_refl
  · exact h ▸ s.later_refl
  · exact h.1 ▸ s.later_refl

/-- What an action leads to is sound if it was begun in a sound state: a call hands over values of
the caller, and a return hands back one of its own. -/
theorem Does.follow_sound (hp : p.Sound) (haction : action.Sound) (hs : s.Sound)
    (hf : f.Sound s.heap.size) (hcallers : ∀ g ∈ callers, g.Sound s.heap.size)
    (h : Does action f s r) : (follow p limits callers r).moment.Sound := by
  rcases r with ⟨f' | ⟨caller, name, descriptor, arguments⟩ | _, t⟩ | ⟨e, t⟩
  · obtain ⟨new, htouches, hfollows⟩ := h
    have hsize := htouches.later.size
    apply Moment.sound_busy (htouches.sound haction hs hf)
    · exact (hf.mono hsize).follow hfollows (htouches.within hs)
    · exact fun g hg => (hcallers g hg).mono hsize
  · obtain ⟨rfl, hfollows, hargs⟩ := h
    simp only [follow]
    split
    · exact Moment.sound_idle hs
    · next frame hframe =>
      have hframe := enter_sound hp (fun v hv => hf.values v (.inl (hargs hv))) hframe
      exact Moment.sound_busy hs hframe
        (List.forall_mem_cons.mpr ⟨hf.follow hfollows (List.forall_mem_nil _), hcallers⟩)
  · cases h
    cases callers with
    | nil => exact Moment.sound_idle hs
    | cons frame callers =>
      obtain ⟨hframe, hcallers⟩ := List.forall_mem_cons.mp hcallers
      exact Moment.sound_busy hs hframe hcallers
  · obtain ⟨rfl, -⟩ := h
    exact Moment.sound_idle hs

theorem trap_of_enter {depth : Nat} {name descriptor : String} {arguments : List Value} {e : Trap}
    (hp : p.Sound) (h : enter p limits depth name descriptor arguments = .error e) :
    e.IsLinkage ∨ e.IsLimit := by
  rcases enter_eq_error h with rfl | hfind
  · exact .inr trivial
  · have hmethod := hp name descriptor
    rw [hfind] at hmethod
    exact .inl hmethod

end Steps

section Runs

variable {s : State} {m m' : Moment}

theorem later_counted (s : State) : s.store.Later s.counted :=
  { s.store.later_refl with steps := Nat.le_succ _ }

theorem Moment.Sound.counted (h : (Moment.busy s).Sound) : s.counted.Sound :=
  ⟨h.store.cells, h.store.output⟩

/-- The frame in which the next instruction is executed. -/
theorem Moment.Sound.ready (h : (Moment.busy s).Sound) :
    Frame.Sound s.counted.heap.size { s.frame with next := s.frame.next + 1 } :=
  have hframe := h.frames s.frame List.mem_cons_self
  ⟨hframe.values, hframe.slots, hframe.method⟩

theorem Moment.Sound.action (h : (Moment.busy s).Sound) {i : LinkedInstruction}
    (hnext : s.next? = some i) : i.action.Sound :=
  (h.frames s.frame List.mem_cons_self).method i (Array.mem_of_getElem? hnext)

/-- The step: an instruction keeps every reference within the heap, and no object becomes
another. -/
theorem step_sound (hp : p.Sound) (h : (Moment.busy s).Sound) :
    (step p limits s).moment.Sound ∧ s.store.Later (step p limits s).store := by
  cases hnext : s.next? with
  | none =>
    rw [step_of_next_none hnext]
    exact ⟨Moment.sound_idle h.store, s.store.later_refl⟩
  | some i =>
    rcases allows_or_exceeds limits (s.store.steps + 1) with hallow | ⟨limit, hlimit, hlt⟩
    · have hdoes := execute_does i.offset i.action { s.frame with next := s.frame.next + 1 } s.counted
      rw [step_of_allows hnext hallow, store_follow]
      exact ⟨hdoes.follow_sound hp (h.action hnext) h.counted h.ready
          fun g hg => h.frames g (List.mem_cons_of_mem _ hg),
        (later_counted s).trans hdoes.later⟩
    · rw [step_of_exceeds hnext hlimit hlt]
      exact ⟨Moment.sound_idle h.counted, later_counted s⟩

/-- A step in a sound state traps for what the program did or for a limit, not for a reference that
leads nowhere. -/
theorem trap_of_step (hp : p.Sound) (h : (Moment.busy s).Sound) {t : Store} {e : Trap}
    (htrap : step p limits s = .trapped t e) : e.Arises ∨ e.IsLimit := by
  rcases trapped_cases htrap with rfl | ⟨limit, rfl⟩ | ⟨i, hnext, hexecute⟩ | ⟨_, _, _, _, henter⟩
  · exact .inl trivial
  · exact .inr trivial
  · have hdoes := execute_does i.offset i.action { s.frame with next := s.frame.next + 1 } s.counted
    rw [hexecute] at hdoes
    obtain ⟨-, harises | haction⟩ := hdoes
    · exact .inl harises.arises
    · have hsound := h.action hnext
      rw [haction] at hsound
      exact .inl hsound.arises
  · exact (trap_of_enter hp henter).imp_left Trap.IsLinkage.arises

/-! ### Calls from outside -/

theorem size_appendList (heap : Array Object) (objects : List Object) :
    (heap ++ objects).size = heap.size + objects.length := by
  rw [← Array.length_toList, Array.toList_appendList, List.length_append, Array.length_toList]

/-- The argument of a call from outside is put at the end of the heap, and refers to boxes that were
put there before it. -/
theorem Invocation.prepare_sound {s : Store} (i : Invocation) (h : s.Sound) :
    (i.prepare s).Sound ∧ s.Later (i.prepare s) := by
  cases i with
  | main =>
    rw [prepare_main]
    exact ⟨h.push .arguments trivial nofun, later_push s.output? fun _ => id⟩
  | routine name units =>
    rw [prepare_routine]
    obtain ⟨hsound, hlater⟩ := append_chars h units
    refine ⟨hsound.push _ ?_ nofun, hlater.trans (later_push s.output? fun _ => id)⟩
    intro v hv
    obtain ⟨k, hk, rfl⟩ := List.mem_map.mp (List.mem_reverse.mp hv)
    have hlt := List.mem_range.mp hk
    simp only [Value.Within, size_appendList, List.length_map]
    omega

theorem Invocation.argument_lt (i : Invocation) (s : Store) :
    i.argument s.heap.size < (i.prepare s).heap.size := by
  rw [prepare, size_appendList]
  cases i <;> simp [argument, objects]

/-- A routine is called on a queue. -/
theorem Invocation.queue_of_routine (name : String) (units : List UInt16) (s : Store) :
    ∃ cells, ((routine name units).prepare s).heap[s.heap.size + units.length]? =
      some (.deque cells) := by
  rw [prepare_routine, Array.getElem?_push, size_appendList, List.length_map, if_pos rfl]
  exact ⟨_, rfl⟩

/-- Whatever happens next to a machine, it stays sound. -/
theorem proceeds_sound (hp : p.Sound) (h : m.Sound) (hproceeds : Proceeds p limits m m') :
    m'.Sound ∧ m.store.Later m'.store := by
  cases hproceeds with
  | @begins i s f henter =>
    obtain ⟨hsound, hlater⟩ := i.prepare_sound h.store
    have hargs : ∀ v ∈ [Value.ref (i.argument s.heap.size)], v.Within (i.prepare s).heap.size :=
      List.forall_mem_singleton.mpr (i.argument_lt s)
    exact ⟨Moment.sound_busy hsound (enter_sound hp hargs henter) nofun, hlater⟩
  | refuses i _ =>
    obtain ⟨hsound, hlater⟩ := i.prepare_sound h.store
    exact ⟨Moment.sound_idle hsound, hlater⟩
  | steps s =>
    rw [store_moment]
    exact step_sound hp h

theorem reaches_sound (hp : p.Sound) (h : m.Sound) (hreaches : Reaches p limits m m') :
    m'.Sound ∧ m.store.Later m'.store := by
  induction hreaches with
  | refl => exact ⟨h, m.store.later_refl⟩
  | tail _ hproceeds ih =>
    obtain ⟨hsound, hlater⟩ := ih
    obtain ⟨hsound', hlater'⟩ := proceeds_sound hp hsound hproceeds
    exact ⟨hsound', hlater.trans hlater'⟩

theorem Proceeds.of_step {r : Progress} (h : step p limits s = r) :
    Proceeds p limits (.busy s) r.moment :=
  h ▸ .steps s

theorem Ends.reaches {o : Outcome Unit} {t : Store} (h : Ends p limits s o t) :
    Reaches p limits (.busy s) (.idle t) := by
  induction h with
  | returned h => exact .single (.of_step h)
  | trapped h => exact .single (.of_step h)
  | running h _ ih => exact .head (.of_step h) ih

theorem Ends.trap (hp : p.Sound) {o : Outcome Unit} {t : Store} (h : Ends p limits s o t)
    (hs : (Moment.busy s).Sound) {e : Trap} (ho : o = .trapped e) : e.Arises ∨ e.IsLimit := by
  induction h with
  | returned _ => cases ho
  | trapped h =>
    cases ho
    exact trap_of_step hp hs h
  | running h _ ih =>
    exact ih (proceeds_sound hp hs (.of_step h)).1 ho

end Runs

/-! ## Answers -/

/-- What only a reference that leads nowhere, or an object that has become another, could cause. -/
def Trap.IsDangling : Trap → Prop
  | .unsupported .stackReplaced | .unsupported (.bareCell (.ref _)) => True
  | _ => False

theorem not_isDangling {e : Trap} (h : e.Arises ∨ e.IsLimit) : ¬ e.IsDangling := by
  intro hdangling
  unfold Trap.IsDangling at hdangling
  split at hdangling
  · exact h.elim id id
  · exact h.elim id id
  · exact hdangling

theorem cellUnit_error {heap : Array Object} {v : Value} {e : Trap} (hv : v.Within heap.size)
    (h : cellUnit heap v = .error e) : ¬ e.IsDangling := by
  cases v with
  | ref place =>
    obtain ⟨object, hobject⟩ : ∃ object, heap[place]? = some object :=
      ⟨_, Array.getElem?_eq_getElem hv⟩
    simp only [cellUnit, hobject] at h
    cases object <;> cases h <;> exact id
  | _ =>
    cases h
    exact id

/-- A loop that fails, fails with the error of one of its items. -/
theorem mapM_error {α β : Type} {g : α → Except Trap β} {xs : List α} {e : Trap}
    (h : xs.mapM g = .error e) : ∃ x ∈ xs, g x = .error e := by
  induction xs with
  | nil => cases h
  | cons x xs ih =>
    rw [List.mapM_cons] at h
    cases hx : g x with
    | error e' =>
      rw [hx] at h
      cases h
      exact ⟨x, List.mem_cons_self, hx⟩
    | ok y =>
      rw [hx] at h
      cases hxs : xs.mapM g with
      | error e' =>
        simp only [hxs, bind, Except.bind, Except.error.injEq] at h
        obtain ⟨x', hmem, hx'⟩ := ih (h ▸ hxs)
        exact ⟨x', List.mem_cons_of_mem _ hmem, hx'⟩
      | ok ys =>
        simp only [hxs, bind, Except.bind, pure, Except.pure, reduceCtorEq] at h

/-- The cells of a queue can be looked up, whatever they are. -/
theorem unitsOfDeque_error {s : Store} {place : Nat} {cells : List Value} {e : Trap} (hs : s.Sound)
    (hplace : s.heap[place]? = some (.deque cells)) (h : unitsOfDeque s.heap place = .error e) :
    ¬ e.IsDangling := by
  rw [unitsOfDeque, hplace] at h
  obtain ⟨v, hv, herror⟩ := mapM_error h
  exact cellUnit_error (hs.cells place _ hplace v (List.mem_reverse.mp hv)) herror

section Answers

variable {s t : Store} {i : Invocation}

theorem Invocation.call_reaches {o : Outcome Unit} (ho : o ≠ .unfinished)
    (h : i.call p limits s = (o, t)) : Reaches p limits (.idle s) (.idle t) := by
  rcases (call_eq_iff ho).mp h with ⟨e, henter, -, rfl⟩ | ⟨f, henter, hends⟩
  · exact .single (.refuses i henter)
  · exact .head (.begins i henter) hends.reaches

theorem Invocation.begins_sound (hp : p.Sound) (hs : s.Sound) {f : Frame}
    (h : i.enter p limits s = .ok f) : (Moment.busy ⟨i.prepare s, f, []⟩).Sound :=
  (proceeds_sound hp (Moment.sound_idle hs) (.begins i h)).1

theorem Invocation.call_trap (hp : p.Sound) (hs : s.Sound) {e : Trap}
    (h : i.call p limits s = (.trapped e, t)) : e.Arises ∨ e.IsLimit := by
  rcases (call_eq_iff (by simp)).mp h with ⟨e, henter, he, -⟩ | ⟨f, henter, hends⟩
  · cases he
    exact (trap_of_enter hp henter).imp_left Trap.IsLinkage.arises
  · exact hends.trap hp (begins_sound hp hs henter) rfl

theorem Invocation.call_later (hp : p.Sound) (hs : s.Sound)
    (h : i.call p limits s = (.done (), t)) : t.Sound ∧ (i.prepare s).Later t := by
  rcases (call_eq_iff (by simp)).mp h with ⟨e, -, he, -⟩ | ⟨f, henter, hends⟩
  · cases he
  · obtain ⟨hsound, hlater⟩ := reaches_sound hp (begins_sound hp hs henter) hends.reaches
    exact ⟨hsound.store, hlater⟩

/-- No answer tells of a reference that leads nowhere. -/
theorem Invocation.answer_not_isDangling (hp : p.Sound) (hs : s.Sound)
    {outcome : Outcome (List UInt16)} {e : Trap} (h : i.perform p limits s = (outcome, t))
    (he : outcome = .trapped e) : ¬ e.IsDangling := by
  obtain ⟨o, hcall, rfl⟩ := call_of_perform h
  cases o with
  | trapped e' =>
    cases he
    exact not_isDangling (call_trap hp hs hcall)
  | unfinished => cases he
  | done value =>
    obtain ⟨hsound, hlater⟩ := call_later hp hs hcall
    cases i with
    | main => cases he
    | routine name units =>
      obtain ⟨cells, hqueue⟩ := queue_of_routine name units s
      obtain ⟨cells', hqueue'⟩ := hlater.deque hqueue
      simp only [conclude, readBack, argument] at he
      split at he
      · cases he
      · next herror =>
        cases he
        exact unitsOfDeque_error hsound hqueue' herror

end Answers

/-! ## Every moment -/

/-- The lookups of an action in the heap and among the arguments of a call are in bounds. -/
def Action.InBounds (f : Frame) (s : Store) : Action → Prop
  | .output => ∀ place, s.output? = some place → place < s.heap.size
  | .cast _ => ∀ place, f.stack.head? = some (.ref place) → place < s.heap.size
  | .call count _ (.ok (.library routine)) =>
    -- The receiver is below the arguments.
    routine.reads ≤ count ∧ ∀ place, f.stack[count]? = some (.ref place) → place < s.heap.size
  | _ => True

/-- The next action of a sound state looks up nothing outside the heap. -/
theorem Moment.Sound.inBounds {s : State} (h : (Moment.busy s).Sound) {i : LinkedInstruction}
    (hnext : s.next? = some i) : i.action.InBounds s.frame s.store := by
  have hvalues := (h.frames s.frame List.mem_cons_self).values
  have haction := h.action hnext
  unfold Action.InBounds
  split
  · exact fun place hplace => h.store.output_lt hplace
  · exact fun place hplace => hvalues _ (.inl (List.mem_of_mem_head? hplace))
  · next heq =>
    rw [heq] at haction
    exact ⟨haction, fun place hplace => hvalues _ (.inl (List.mem_of_getElem? hplace))⟩
  · trivial

/-- What holds of a machine at one moment and from it on. -/
structure Moment.Safe (p : Program) (limits : Limits) (m : Moment) : Prop where
  store : m.store.Sound
  /-- Operands, local slots and so the arguments of calls refer to objects. -/
  values : ∀ f ∈ m.frames, ∀ v, f.Has v → v.Within m.store.heap.size
  slots : ∀ f ∈ m.frames, f.method.maxLocals ≤ f.locals.size
  /-- Whatever is called afterwards, objects stay what they are and the output stays printed. -/
  later : ∀ m', Reaches p limits m m' → m.store.Later m'.store
  lookups : ∀ s, m = .busy s → ∀ i, s.next? = some i → i.action.InBounds s.frame s.store
  /-- Any call from outside leads to such moments again, and its answer tells of no bad reference. -/
  answers : ∀ s, m = .idle s → ∀ (i : Invocation) outcome t, i.perform p limits s = (outcome, t) →
    (outcome ≠ .unfinished → Reaches p limits m (.idle t)) ∧
    ∀ e, outcome = .trapped e → ¬ e.IsDangling

/-- Along every history of calls of a class, whatever its code does and however they end, no
reference dangles. -/
theorem references_never_dangle (c : ClassFile) (limits : Limits) {m : Moment}
    (h : Reaches (Program.link c) limits (.idle {}) m) : m.Safe (Program.link c) limits := by
  have hp := link_sound c
  have hm := (reaches_sound hp (Moment.sound_idle empty_sound) h).1
  refine ⟨hm.store, fun f hf => (hm.frames f hf).values, fun f hf => (hm.frames f hf).slots,
    fun m' hreaches => (reaches_sound hp hm hreaches).2, ?_, ?_⟩
  · rintro s rfl i hnext
    exact hm.inBounds hnext
  · rintro s rfl i outcome t hperform
    refine ⟨fun hends => ?_, fun e he => Invocation.answer_not_isDangling hp hm.store hperform he⟩
    obtain ⟨o, hcall, rfl⟩ := Invocation.call_of_perform hperform
    apply Invocation.call_reaches _ hcall
    rintro rfl
    exact hends rfl

/-- A class whose main method prints a unit. -/
def printing : ClassFile where
  minorVersion := 0
  majorVersion := 49
  pool := { entries := #[.text "G", .type 1, .text "java/lang/System", .type 3, .text "out",
    .text "Ljava/io/PrintStream;", .signature 5 6, .member .field 4 7, .text "java/io/PrintStream",
    .type 9, .text "print", .text "(C)V", .signature 11 12, .member .method 10 13] }
  access := 33
  thisClass := 2
  superClass := 0
  methods := [⟨9, "main", "([Ljava/lang/String;)V",
    some ⟨2, 1, [0xb2, 0, 8, 0x10, 65, 0xb6, 0, 14, 0xb1]⟩⟩]
  sourceFile := none

theorem link_printing : Program.link printing = ⟨[
    ("main", "([Ljava/lang/String;)V", .ok ⟨"main", "([Ljava/lang/String;)V", 1,
      #[⟨0, .output⟩, ⟨3, .push 65⟩, ⟨5, .call 1 false (.ok (.library .print))⟩, ⟨8, .leave⟩]⟩)]⟩ := by
  cbv

/-- The unit is about to be printed: the standard output is under it, as the receiver. -/
theorem references_never_dangle_printing :
    ∃ s : State, s.frame.stack = [.int 65, .ref 1] ∧ s.store.heap = #[.arguments, .printStream] ∧
      Reaches (Program.link printing) {} (.idle {}) (.busy s) ∧
      (Moment.busy s).Safe (Program.link printing) {} := by
  have hreaches : Reaches (Program.link printing) {} (.idle {}) (.busy
      ⟨{ heap := #[.arguments, .printStream], output? := some 1, steps := 2 },
        ⟨⟨"main", "([Ljava/lang/String;)V", 1, #[⟨0, .output⟩, ⟨3, .push 65⟩,
          ⟨5, .call 1 false (.ok (.library .print))⟩, ⟨8, .leave⟩]⟩, 2, #[.ref 0], [.int 65, .ref 1], 0⟩,
        []⟩) := by
    rw [link_printing]
    exact .tail (.tail (.single (.begins .main rfl)) (.steps _)) (.steps _)
  exact ⟨_, rfl, rfl, hreaches, references_never_dangle printing {} hreaches⟩

end StackGlyph.Machine
