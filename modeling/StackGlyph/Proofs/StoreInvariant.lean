import Mathlib
import StackGlyph.Proofs.ActionEffects

/-!
# References and what keeps them

The code of a class is arbitrary, so operands can be of any kind. Still, every reference that a
frame or a queue holds can be the place of an object: objects are only added, each stays what it is,
and the standard output is the one object that the store remembers as such. Linking sees to what the
code itself must bring along, and an action keeps the rest by what it can do to a store and to a
frame.
-/
namespace StackGlyph.Machine

variable {p : Program} {limits : Limits}

/-! ## Stores -/

/-- A reference is the place of an object in a heap of this size. -/
def Value.Within (size : Nat) : Value → Prop
  | .ref place => place < size
  | _ => True

/-- The cells of a queue refer to objects of a heap of this size. -/
def Object.Within (size : Nat) : Object → Prop
  | .deque cells => ∀ v ∈ cells, v.Within size
  | _ => True

/-- What an object can be later on: the cells of a queue change and nothing else does. -/
def Object.Becomes : Object → Object → Prop
  | .deque _, .deque _ => True
  | object, object' => object' = object

structure Store.Sound (s : Store) : Prop where
  cells : ∀ (place : Nat) (object : Object), s.heap[place]? = some object → object.Within s.heap.size
  /-- The one standard output is where the store says. -/
  output : ∀ place : Nat, s.heap[place]? = some .printStream ↔ s.output? = some place

/-- A store can become another one. -/
structure Store.Later (s t : Store) : Prop where
  objects : ∀ (place : Nat) (object : Object), s.heap[place]? = some object →
    ∃ object', t.heap[place]? = some object' ∧ object.Becomes object'
  size : s.heap.size ≤ t.heap.size
  output : ∀ place, s.output? = some place → t.output? = some place
  /-- What was printed stays printed. -/
  printed : s.printed.toList <+: t.printed.toList
  steps : s.steps ≤ t.steps

theorem Value.Within.mono {v : Value} {size size' : Nat} (h : v.Within size) (hle : size ≤ size') :
    v.Within size' := by
  cases v with
  | ref place => exact Nat.lt_of_lt_of_le h hle
  | _ => trivial

theorem Object.Within.mono {object : Object} {size size' : Nat} (h : object.Within size)
    (hle : size ≤ size') : object.Within size' := by
  cases object with
  | deque cells => exact fun v hv => (h v hv).mono hle
  | _ => trivial

theorem Object.becomes_refl (object : Object) : object.Becomes object := by
  cases object <;> trivial

theorem Object.Becomes.trans {a b c : Object} (hab : a.Becomes b) (hbc : b.Becomes c) :
    a.Becomes c := by
  cases a with
  | deque cells =>
    cases b with
    | deque cells' => cases c <;> trivial
    | _ => cases hab
  | _ =>
    cases hab
    exact hbc

theorem Store.later_refl (s : Store) : s.Later s where
  objects _ object h := ⟨object, h, object.becomes_refl⟩
  size := Nat.le_refl _
  output _ h := h
  printed := List.prefix_refl _
  steps := Nat.le_refl _

theorem Store.Later.trans {r s t : Store} (h : r.Later s) (h' : s.Later t) : r.Later t where
  objects place object hobject := by
    obtain ⟨object', hobject', hbecomes⟩ := h.objects place object hobject
    obtain ⟨object'', hobject'', hbecomes'⟩ := h'.objects place object' hobject'
    exact ⟨object'', hobject'', hbecomes.trans hbecomes'⟩
  size := Nat.le_trans h.size h'.size
  output place hplace := h'.output place (h.output place hplace)
  printed := h.printed.trans h'.printed
  steps := Nat.le_trans h.steps h'.steps

/-- A queue stays a queue. -/
theorem Store.Later.deque {s t : Store} (h : s.Later t) {place : Nat} {cells : List Value}
    (hplace : s.heap[place]? = some (.deque cells)) :
    ∃ cells', t.heap[place]? = some (.deque cells') := by
  obtain ⟨object, hobject, hbecomes⟩ := h.objects place _ hplace
  cases object with
  | deque cells' => exact ⟨cells', hobject⟩
  | _ => cases hbecomes

theorem Store.Sound.output_lt {s : Store} (h : s.Sound) {place : Nat}
    (hplace : s.output? = some place) : place < s.heap.size :=
  (Array.getElem?_eq_some_iff.mp ((h.output place).mpr hplace)).1

theorem empty_sound : Store.Sound {} :=
  ⟨by simp, by simp⟩

/-! ### New objects -/

section Push

variable {s : Store} {object : Object}

theorem later_push (output? : Option Nat) (h : ∀ place, s.output? = some place → output? = some place) :
    s.Later { s with heap := s.heap.push object, output? } where
  objects place found hfound := by
    refine ⟨found, ?_, found.becomes_refl⟩
    have hlt := (Array.getElem?_eq_some_iff.mp hfound).1
    rw [Array.getElem?_push, if_neg (Nat.ne_of_lt hlt), hfound]
  size := by simp
  output := h
  printed := List.prefix_refl _
  steps := Nat.le_refl _

theorem within_push (h : s.Sound) (hobject : object.Within (s.heap.size + 1)) (place : Nat)
    (found : Object) (hfound : (s.heap.push object)[place]? = some found) :
    found.Within (s.heap.push object).size := by
  rw [Array.size_push]
  rw [Array.getElem?_push] at hfound
  split at hfound
  · cases hfound
    exact hobject
  · exact (h.cells place found hfound).mono (Nat.le_succ _)

/-- A new object goes to the end of the heap, where no reference led before. -/
theorem Store.Sound.push (h : s.Sound) (object : Object)
    (hobject : object.Within (s.heap.size + 1)) (hstream : object ≠ .printStream) :
    Store.Sound { s with heap := s.heap.push object } where
  cells := within_push h hobject
  output place := by
    have hold := h.output place
    rw [Array.getElem?_push]
    split
    · next heq =>
      subst heq
      rw [Array.getElem?_eq_none (Nat.le_refl _)] at hold
      simp only [reduceCtorEq, false_iff] at hold
      simp [hstream, hold]
    · exact hold

/-- The first request for the standard output puts it into the heap. -/
theorem Store.Sound.open (h : s.Sound) (hnone : s.output? = none) :
    Store.Sound { s with heap := s.heap.push .printStream, output? := some s.heap.size } where
  cells := within_push h trivial
  output place := by
    have hold := h.output place
    rw [hnone] at hold
    rw [Array.getElem?_push]
    split
    · next heq => simp [heq]
    · next hne => simp [hold, Ne.symm hne]

/-- Any number of objects without cells. -/
theorem append_chars (h : s.Sound) (units : List UInt16) :
    Store.Sound { s with heap := s.heap ++ units.map Object.char } ∧
      s.Later { s with heap := s.heap ++ units.map Object.char } := by
  induction units generalizing s with
  | nil => exact ⟨by simpa using h, by simpa using s.later_refl⟩
  | cons unit units ih =>
    rw [List.map_cons, Array.appendList_cons]
    obtain ⟨hsound, hlater⟩ := ih (h.push (.char unit) trivial nofun)
    exact ⟨hsound, (later_push s.output? fun _ => id).trans hlater⟩

end Push

/-! ### Cells of a queue -/

section SetCells

variable {s : Store} {queue : Nat} {cells cells' : List Value}

/-- Other cells in a queue are all that changes in this store. -/
theorem later_setCells (h : s.heap[queue]? = some (.deque cells)) :
    s.Later { s with heap := s.heap.setIfInBounds queue (.deque cells') } where
  objects place found hfound := by
    have hlt := (Array.getElem?_eq_some_iff.mp h).1
    rw [Array.getElem?_setIfInBounds]
    split
    · next heq =>
      subst heq
      rw [h] at hfound
      cases hfound
      exact ⟨.deque cells', rfl, trivial⟩
    · exact ⟨found, hfound, found.becomes_refl⟩
  size := by simp
  output _ := id
  printed := List.prefix_refl _
  steps := Nat.le_refl _

/-- Cells that refer to objects of the heap may be put into any queue of it. -/
theorem Store.Sound.setCells (h : s.Sound) (hqueue : s.heap[queue]? = some (.deque cells))
    (hcells : ∀ v ∈ cells', v.Within s.heap.size) :
    Store.Sound { s with heap := s.heap.setIfInBounds queue (.deque cells') } where
  cells place found hfound := by
    rw [Array.size_setIfInBounds]
    rw [Array.getElem?_setIfInBounds] at hfound
    split at hfound
    · split at hfound
      · cases hfound
        exact hcells
      · cases hfound
    · exact h.cells place found hfound
  output place := by
    rw [← h.output place, Array.getElem?_setIfInBounds]
    split
    · next heq =>
      subst heq
      rw [if_pos (Array.getElem?_eq_some_iff.mp hqueue).1, hqueue]
      simp
    · rfl

end SetCells

/-! ## Linked classes -/

/-- The number of arguments that a routine reads. -/
def Routine.reads : Routine → Nat
  | .push | .box | .print => 1
  | _ => 0

/-- Traps that linking leaves behind: a part of the class is missing, is faulty or is not known. -/
def Trap.IsLinkage : Trap → Prop
  | .fault _ | .noSuchMethod _ _ | .noCode _ _ | .unsupported (.constant _)
  | .unsupported (.field _ _) => True
  | _ => False

theorem Trap.IsLinkage.arises {e : Trap} (h : e.IsLinkage) : e.Arises := by
  unfold IsLinkage at h
  split at h
  all_goals trivial

/-- What linking makes sure of: new objects hold nothing, and a routine is called with the arguments
that it reads. -/
def Action.Sound : Action → Prop
  | .create object => object = .deque [] ∨ object = .plain
  | .call count _ (.ok (.library routine)) => routine.reads ≤ count
  | .trap e => e.IsLinkage
  | _ => True

def LinkedMethod.Sound (m : LinkedMethod) : Prop :=
  ∀ i ∈ m.instructions, i.action.Sound

/-- A method is sound, or there is none and execution says so. -/
def SoundlyLinked : Except Trap LinkedMethod → Prop
  | .ok m => m.Sound
  | .error e => e.IsLinkage

def Program.Sound (p : Program) : Prop :=
  ∀ name descriptor, SoundlyLinked (p.method name descriptor)

/-- The descriptor of a member tells how many arguments its routine gets. -/
theorem reads_ofMember_le {m : Member} {t : MethodType} (h : MethodType.parse m.descriptor = .ok t) :
    (Routine.ofMember m).reads ≤ t.params.length := by
  have hpush : MethodType.parse "(Ljava/lang/Object;)V" =
      .ok ⟨[⟨0, .object "java/lang/Object"⟩], none⟩ := by cbv
  have hbox : MethodType.parse "(C)Ljava/lang/Character;" =
      .ok ⟨[⟨0, .char⟩], some ⟨0, .object "java/lang/Character"⟩⟩ := by cbv
  have hprint : MethodType.parse "(C)V" = .ok ⟨[⟨0, .char⟩], none⟩ := by cbv
  have hone {d : String} {ty : FieldType} {ret : Option FieldType} (hd : m.descriptor = d)
      (hparse : MethodType.parse d = .ok ⟨[ty], ret⟩) : 1 ≤ t.params.length := by
    rw [hd, hparse] at h
    cases h
    exact Nat.le_refl 1
  unfold Routine.ofMember
  split
  case h_4 _ _ _ _ _ hd => exact hone hd hpush
  case h_5 _ _ _ _ _ hd => exact hone hd hpush
  case h_10 _ _ _ _ _ hd => exact hone hd hbox
  case h_12 _ _ _ _ _ hd => exact hone hd hprint
  all_goals exact Nat.zero_le _

/-- A routine reads no more arguments than the descriptor has by which it was found, and a call
hands over that many. -/
@[simp]
theorem linkCall_sound (c : ClassFile) (static : Bool) (i : UInt16) :
    (Program.linkCall c static i).Sound := by
  unfold Program.linkCall
  cases c.pool.memberAt i with
  | error cause => trivial
  | ok m =>
    cases hparse : MethodType.parse m.descriptor with
    | error cause => simp [hparse, Action.Sound, Trap.IsLinkage]
    | ok t =>
      simp only [hparse]
      cases c.name with
      | error cause => trivial
      | ok own =>
        simp only [Except.map]
        split
        · trivial
        · exact reads_ofMember_le hparse

@[simp]
theorem linkConstant_sound (c : ClassFile) (i : UInt16) : (Program.linkConstant c i).Sound := by
  unfold Program.linkConstant
  split <;> trivial

@[simp]
theorem linkField_sound (c : ClassFile) (i : UInt16) : (Program.linkField c i).Sound := by
  unfold Program.linkField
  split
  · trivial
  · split <;> trivial

theorem linkType_sound {action : String → Action} (c : ClassFile) (i : UInt16)
    (h : ∀ className, (action className).Sound) : (Program.linkType c i action).Sound := by
  unfold Program.linkType
  split
  · trivial
  · exact h _

@[simp]
theorem creation_sound (className : String) : (Program.creation className).Sound := by
  unfold Program.creation
  split
  · exact .inl rfl
  · exact .inr rfl

@[simp]
theorem castTo_sound (className : String) : (Program.castTo className).Sound :=
  trivial

theorem linkInstruction_sound (c : ClassFile) (all : Array Instruction) (i : Instruction) :
    (Program.linkInstruction c all i).Sound := by
  unfold Program.linkInstruction
  split <;> try trivial
  all_goals simp [linkType_sound]

theorem linkMethod_sound (c : ClassFile) (m : Method) : SoundlyLinked (Program.linkMethod c m) := by
  unfold Program.linkMethod
  split
  · trivial
  · split
    · trivial
    · next instructions _ =>
      intro linked hlinked
      obtain ⟨i, -, rfl⟩ := Array.mem_map.mp hlinked
      exact linkInstruction_sound c instructions i

theorem link_sound (c : ClassFile) : (Program.link c).Sound := by
  intro name descriptor
  unfold Program.method
  split
  · trivial
  · next found _ linked hfind =>
    obtain ⟨m, -, hm⟩ := List.mem_map.mp (List.mem_of_find?_eq_some hfind)
    cases hm
    exact linkMethod_sound c m

/-! ## Actions and frames -/

/-- The values of a frame refer to objects of a heap of this size, and its method is sound. -/
structure Frame.Sound (size : Nat) (f : Frame) : Prop where
  values : ∀ v, f.Has v → v.Within size
  /-- There is a slot for each local of the method. -/
  slots : f.method.maxLocals ≤ f.locals.size
  method : f.method.Sound

section Frames

variable {action : Action} {f f' : Frame} {s t : Store} {new : List Value} {size : Nat}

theorem Frame.Sound.mono (h : f.Sound size) {size' : Nat} (hle : size ≤ size') : f.Sound size' where
  values v hv := (h.values v hv).mono hle
  slots := h.slots
  method := h.method

theorem Frame.Sound.follow (h : f.Sound size) (hfollows : f'.Follows f new)
    (hnew : ∀ v ∈ new, v.Within size) : f'.Sound size where
  values v hv := (hfollows.values v hv).elim (h.values v) (hnew v)
  slots := by
    rw [hfollows.method, hfollows.slots]
    exact h.slots
  method := hfollows.method ▸ h.method

theorem Touches.later (h : Touches action f s new t) : s.Later t := by
  cases h with
  | nothing _ => exact s.later_refl
  | makes _ => exact later_push s.output? fun _ => id
  | opens h => exact later_push _ (by simp [h])
  | recalls _ => exact s.later_refl
  | takes h => exact later_setCells h
  | gives h _ => exact later_setCells h
  | prints unit =>
    exact { s.later_refl with printed := by simp }

/-- Whatever an action does to the store keeps it sound: it adds an object that holds nothing new,
or replaces cells by values that the frame had. -/
theorem Touches.sound (h : Touches action f s new t) (haction : action.Sound) (hs : s.Sound)
    (hf : f.Sound s.heap.size) : t.Sound := by
  cases h with
  | nothing _ => exact hs
  | makes h =>
    rcases h with rfl | ⟨unit, rfl⟩
    · rcases haction with rfl | rfl
      · exact hs.push (.deque []) nofun nofun
      · exact hs.push .plain trivial nofun
    · exact hs.push (.char unit) trivial nofun
  | opens h => exact hs.open h
  | recalls _ => exact hs
  | takes h =>
    exact hs.setCells h fun v hv => hs.cells _ _ h v (List.mem_cons_of_mem _ hv)
  | gives h hv =>
    refine hs.setCells h fun u hu => ?_
    rcases List.mem_cons.mp hu with rfl | hu
    · exact hf.values u hv
    · exact hs.cells _ _ h u hu
  | prints unit => exact ⟨hs.cells, hs.output⟩

/-- What an action brings to a frame refers to objects. -/
theorem Touches.within (h : Touches action f s new t) (hs : s.Sound) :
    ∀ v ∈ new, v.Within t.heap.size := by
  intro v hv
  cases h with
  | nothing h =>
    obtain ⟨n, rfl⟩ := h v hv
    trivial
  | makes _ =>
    obtain rfl := List.mem_singleton.mp hv
    simp [Value.Within]
  | opens _ =>
    obtain rfl := List.mem_singleton.mp hv
    simp [Value.Within]
  | recalls h =>
    obtain rfl := List.mem_singleton.mp hv
    exact hs.output_lt h
  | takes h =>
    obtain rfl := List.mem_singleton.mp hv
    rw [Array.size_setIfInBounds]
    exact hs.cells _ _ h v List.mem_cons_self
  | gives _ _ => cases hv
  | prints _ => cases hv

/-- A frame begins with the arguments of its call and otherwise with nulls. -/
theorem enter_sound {depth : Nat} {name descriptor : String} {arguments : List Value}
    (hp : p.Sound) (hargs : ∀ v ∈ arguments, v.Within size)
    (h : enter p limits depth name descriptor arguments = .ok f) : f.Sound size := by
  obtain ⟨method, hfind, rfl⟩ := enter_eq_ok h
  have hmethod := hp name descriptor
  rw [hfind] at hmethod
  refine ⟨fun v hv => ?_, by simp; omega, hmethod⟩
  rcases hv with hv | hv
  · cases hv
  · rw [List.mem_toArray, List.mem_append] at hv
    rcases hv with hv | hv
    · exact hargs v hv
    · rw [List.eq_of_mem_replicate hv]
      trivial

end Frames

end StackGlyph.Machine
