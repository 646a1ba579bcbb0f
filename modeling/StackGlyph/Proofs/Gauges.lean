import StackGlyph.Proofs.Decoding

/-!
# What the success of a request depends on

Apart from its constant, a request succeeds or fails by the depth of the operand stack and the
depths of the labels alone. A gauge is what an assembler knows of these. Requests act on gauges by
themselves, without bytes and without a pool, so that what a sequence of requests needs and leaves
behind can be computed.
-/
namespace StackGlyph

structure LabelGauge where
  bound : Bool := false
  depth : Option Nat := none
  deriving DecidableEq, Repr

structure Gauge where
  depth : Option Nat := some 0
  maxStack : Nat := 0
  maxLocals : Nat := 0
  labels : Array LabelGauge := #[]
  deriving DecidableEq, Repr

abbrev Gauging := StateT Gauge Option

namespace Gauge

/-- Changes a known depth, which has to stay within its bounds. -/
def adjust (delta : Int) : Gauging Unit := fun g =>
  match g.depth with
  | none => some ((), g)
  | some d =>
    let next := d + delta
    if next < 0 then none
    else if Assembler.maxDepth < next then none
    else some ((), { g with depth := some next.toNat, maxStack := max g.maxStack next.toNat })

def close (op : Opcode) : Gauging Unit :=
  if op.endsBlock then modify fun g => { g with depth := none } else pure ()

def useLocal (slot : UInt8) : Gauging Unit :=
  modify fun g => { g with maxLocals := max g.maxLocals (slot.toNat + 1) }

/-- Brings a depth and that of a label together: the depth that holds at the label. -/
def meet (label : Nat) (depth : Option Nat) : Gauging (Option Nat) := fun g =>
  let state := g.labels.getD label {}
  match state.depth, depth with
  | some expected, some found => if expected = found then some (some expected, g) else none
  | some expected, none => some (some expected, g)
  | none, some found =>
    some (some found,
      { g with labels := g.labels.setIfInBounds label { state with depth := some found } })
  | none, none => some (none, g)

end Gauge

def LabelState.gauge (s : LabelState) : LabelGauge :=
  ⟨s.offset.isSome, s.depth⟩

def Assembler.gauge (a : Assembler) : Gauge :=
  ⟨a.depth, a.maxStack, a.maxLocals, a.labels.map LabelState.gauge⟩

open Gauge in
def Request.measure : Request → Gauging Unit
  | .plain op =>
    match op.layout, op.stackDelta with
    | .bare, some delta => do
      adjust delta
      close op
    | _, _ => failure
  | .load slot => do
    adjust 1
    useLocal slot
  | .store slot => do
    adjust (-1)
    useLocal slot
  | .pushInt _ | .loadConstant _ => adjust 1
  | .onType op _ => if op = .new ∨ op = .checkcast then adjust (op.stackDelta.getD 0) else failure
  | .getStatic _ _ descriptor =>
    match FieldType.parse descriptor with
    | .error _ => failure
    | .ok t => adjust t.slots
  | .call kind _ _ descriptor =>
    match MethodType.parse descriptor with
    | .error _ => failure
    | .ok m =>
      if 65535 < m.ownSlots then failure
      else do
        let consumed := m.ownSlots + kind.receiverSlots
        if (← get).depth.any (· < consumed) then failure
        else
          adjust (m.resultSlots - consumed)
          if kind = .interface ∧ 255 < consumed then failure
  | .newLabel => modify fun g => { g with labels := g.labels.push {} }
  | .jump op label =>
    if !op.isBranch then failure
    else do
      adjust (op.stackDelta.getD 0)
      let _ ← meet label (← get).depth
      close op
  | .bind label => do
    let state := (← get).labels.getD label {}
    if state.bound then failure
    else
      modify fun g =>
        { g with labels := g.labels.setIfInBounds label { state with bound := true } }
      let depth ← meet label (← get).depth
      modify fun g => { g with depth }

namespace Assembler

variable {α β : Type} {x : Asm α} {f : Gauging α}

/-- What an operation ends with, seen by the gauge alone. -/
def Agrees : EStateM.Result Fault Assembler α → Option (α × Gauge) → Prop
  | .ok v b, seen => seen = some (v, b.gauge)
  | .error _ _, seen => seen = none

/-- An operation does to the gauge what `f` does, and fails exactly where `f` fails. -/
def Tracks (x : Asm α) (f : Gauging α) : Prop :=
  ∀ a, Agrees (x a) (f a.gauge)

/-- Sequences track: the second parts go on from gauges that agree. -/
theorem Tracks.bind {y : α → Asm β} {g : α → Gauging β} (hx : Tracks x f)
    (hy : ∀ v, Tracks (y v) (g v)) : Tracks (x >>= y) (f >>= g) := by
  intro a
  have hxa := hx a
  show Agrees ((x >>= y) a) ((f a.gauge).bind fun (v, s) => g v s)
  cases h : x a with
  | error e b =>
    rw [h] at hxa
    rw [bind_of_error h, hxa]
    rfl
  | ok v b =>
    rw [h] at hxa
    rw [bind_of_ok h, hxa]
    exact hy v b

theorem tracks_pure (v : α) : Tracks (pure v) (pure v) :=
  fun _ => rfl

theorem tracks_throw (e : Fault) : Tracks (throw e : Asm α) failure :=
  fun _ => rfl

theorem Tracks.ite {c : Prop} [Decidable c] {x y : Asm α} {f g : Gauging α} (hx : Tracks x f)
    (hy : Tracks y g) : Tracks (if c then x else y) (if c then f else g) := by
  split
  · exact hx
  · exact hy

/-- What is read from an assembler may be read from its gauge. -/
theorem tracks_get {y : Assembler → Asm α} {g : Gauge → Gauging α}
    (hy : ∀ a, Tracks (y a) (g a.gauge)) : Tracks (get >>= y) (get >>= g) :=
  fun a => hy a a

/-- What is read for the sake of a fault's text alone does not count. -/
theorem tracks_ignore {y : Assembler → Asm α} (hy : ∀ a, Tracks (y a) f) : Tracks (get >>= y) f :=
  fun a => hy a a

theorem tracks_modify {u : Assembler → Assembler} {m : Gauge → Gauge}
    (h : ∀ a, (u a).gauge = m a.gauge) : Tracks (modify u) (modify m) :=
  fun a => congrArg (fun g => some ((), g)) (h a).symm

/-- Nothing is seen of an operation that keeps the gauge, before others or after them. -/
theorem Tracks.before {x : Asm Unit} {y : Asm α} (hx : Tracks x (pure ())) (hy : Tracks y f) :
    Tracks (do x; y) f :=
  hx.bind fun _ => hy

theorem Tracks.and_then {x y : Asm Unit} {f : Gauging Unit} (hx : Tracks x f)
    (hy : Tracks y (pure ())) : Tracks (do x; y) f := by
  have h := hx.bind fun _ => hy
  rwa [bind_pure_comp, id_map'] at h

theorem append_tracks (bytes : List UInt8) : Tracks (append bytes) (pure ()) :=
  fun _ => rfl

/-- The change of a depth reads and writes the gauge alone, and fails at the same bounds. -/
theorem adjust_tracks (delta : Int) (offset : Nat) :
    Tracks (adjust delta offset) (Gauge.adjust delta) := by
  intro a
  obtain ⟨pool, code, depth, maxStack, maxLocals, labels, jumps⟩ := a
  cases depth with
  | none => rfl
  | some d =>
    simp only [adjust, Gauge.adjust, gauge]
    by_cases hlow : (d : Int) + delta < 0
    · rw [if_pos hlow, if_pos hlow]
      rfl
    · by_cases hhigh : (maxDepth : Int) < d + delta
      · rw [if_neg hlow, if_pos hhigh, if_neg hlow, if_pos hhigh]
        rfl
      · rw [if_neg hlow, if_neg hhigh, if_neg hlow, if_neg hhigh]
        rfl

theorem emit_tracks (op : Opcode) (delta : Int) : Tracks (emit op delta) (Gauge.adjust delta) :=
  (append_tracks _).before (tracks_ignore fun _ => adjust_tracks delta _)

theorem close_tracks (op : Opcode) : Tracks (close op) (Gauge.close op) :=
  .ite (tracks_modify fun _ => rfl) (tracks_pure ())

theorem useLocal_tracks (slot : UInt8) : Tracks (useLocal slot) (Gauge.useLocal slot) :=
  tracks_modify fun _ => rfl

theorem getD_gauge (a : Assembler) (label : Nat) :
    a.gauge.labels.getD label {} = (a.labels.getD label {}).gauge := by
  simp only [gauge, Array.getD_eq_getD_getElem?, Array.getElem?_map]
  cases a.labels[label]? with
  | none => rfl
  | some s => rfl

/-- A meeting with a label reads and writes the gauge alone. A label that was never handed out is
unknown to both sides. -/
theorem mergeDepth_tracks (label : Nat) (depth : Option Nat) :
    Tracks (mergeDepth label depth) (Gauge.meet label depth) := by
  intro a
  unfold mergeDepth Gauge.meet
  dsimp only
  rw [getD_gauge]
  show Agrees _ (match (a.labels.getD label {}).depth, depth with
    | some expected, some found => _
    | some expected, none => _
    | none, some found => _
    | none, none => _)
  cases (a.labels.getD label {}).depth with
  | some expected =>
    cases depth with
    | some found =>
      dsimp only
      split <;> rfl
    | none => rfl
  | none =>
    cases depth with
    | some found =>
      simp [Agrees, gauge, LabelState.gauge]
    | none => rfl

theorem emit_append_tracks (op : Opcode) (delta : Int) (bytes : List UInt8) :
    Tracks (do emit op delta; append bytes) (Gauge.adjust delta) :=
  (emit_tracks op delta).and_then (append_tracks bytes)

theorem plain_tracks (op : Opcode) : Tracks (plain op) (Request.measure (.plain op)) := by
  rw [Request.measure]
  unfold plain
  cases op.layout with
  | bare =>
    cases op.stackDelta with
    | some delta => exact (emit_tracks op delta).bind fun _ => close_tracks op
    | none => exact tracks_throw _
  | _ => exact tracks_throw _

/-- Loads and stores alike. -/
theorem access_tracks (short : List Opcode) (long : Opcode) (delta : Int) (slot : UInt8) :
    Tracks (do
      match short[slot.toNat]? with
      | some op => emit op delta
      | none => do
        emit long delta
        append [slot]
      useLocal slot) (do Gauge.adjust delta; Gauge.useLocal slot) := by
  cases short[slot.toNat]? with
  | some op => exact (emit_tracks op delta).bind fun _ => useLocal_tracks slot
  | none =>
    exact (emit_tracks long delta).bind fun _ =>
      (append_tracks [slot]).before (useLocal_tracks slot)

theorem newLabel_tracks : Tracks (discard newLabel) (Request.measure .newLabel) := by
  intro a
  show Agrees (.ok () _) (some ((), _))
  simp [Agrees, gauge, LabelState.gauge]

theorem jump_tracks (op : Opcode) (label : Nat) :
    Tracks (jump op label) (Request.measure (.jump op label)) := by
  rw [Request.measure]
  refine .ite (fun _ => rfl) (tracks_ignore fun _ =>
    (emit_tracks op _).bind fun _ => tracks_get fun a => ?_)
  have hnote (j : Jump) : Tracks (modify fun a => { a with jumps := a.jumps.push j }) (pure ()) :=
    fun _ => rfl
  exact (mergeDepth_tracks label a.depth).bind fun _ => tracks_ignore fun _ =>
    (append_tracks [0, 0]).before ((hnote _).before (close_tracks op))

theorem bind_tracks (label : Nat) :
    Tracks (Assembler.bind label) (Request.measure (.bind label)) := by
  rw [Request.measure]
  refine tracks_get fun a => ?_
  dsimp only
  rw [getD_gauge]
  refine .ite (fun _ => rfl) ?_
  refine (tracks_modify fun b => ?_).bind fun _ => tracks_get fun b =>
    (mergeDepth_tracks label b.depth).bind fun _ => tracks_modify fun _ => rfl
  simp [gauge, LabelState.gauge]

/-- After its constant, an operation is tracked; its constant may be refused. -/
theorem constant_agrees {add : PoolM UInt16} {rest : UInt16 → Asm Unit} {f : Gauging Unit}
    (hrest : ∀ i, Tracks (rest i) f) (a : Assembler) :
    Agrees ((onPool add >>= rest) a) (f a.gauge) ∨ ∃ e q, add a.pool = .error e q := by
  cases h : add a.pool with
  | error e q => exact .inr ⟨e, q, rfl⟩
  | ok i q =>
    have hpool : onPool add a = .ok i { a with pool := q } := by
      simp only [onPool, h]
    left
    rw [bind_of_ok hpool]
    exact hrest i { a with pool := q }

theorem loadConstant_agrees (v : Int32) (a : Assembler) :
    Agrees (loadConstant v a) (Gauge.adjust 1 a.gauge) ∨
      ∃ e q, Pool.addInteger v a.pool = .error e q := by
  refine constant_agrees (fun i => ?_) a
  split
  · exact emit_append_tracks _ _ _
  · exact emit_append_tracks _ _ _

/-- A call, once its descriptor is read and its constant has an index. -/
theorem call_tracks (kind : CallKind) (m : MethodType) (i : UInt16) :
    Tracks (do
      let a ← get
      if a.depth.any (· < m.ownSlots + kind.receiverSlots) then
        throw (.stackUnderflow a.code.size)
      emit kind.opcode (m.resultSlots - (m.ownSlots + kind.receiverSlots : Nat))
      append (Word.bytes16 i)
      if kind = .interface then
        if 255 < m.ownSlots + kind.receiverSlots then
          throw (.misused kind.opcode .tooManyArguments)
        append [(m.ownSlots + kind.receiverSlots).toUInt8, 0])
      (do
        if (← get).depth.any (· < m.ownSlots + kind.receiverSlots) then failure
        else
          Gauge.adjust (m.resultSlots - (m.ownSlots + kind.receiverSlots : Nat))
          if kind = .interface ∧ 255 < m.ownSlots + kind.receiverSlots then failure) := by
  refine tracks_get fun a => .ite (fun _ => rfl) ?_
  refine (emit_tracks _ _).bind fun _ => (append_tracks _).before ?_
  by_cases hkind : kind = .interface
  · rw [if_pos hkind]
    by_cases hmany : 255 < m.ownSlots + kind.receiverSlots
    · rw [if_pos hmany, if_pos ⟨hkind, hmany⟩]
      exact fun _ => rfl
    · rw [if_neg hmany, if_neg fun h => hmany h.2]
      exact append_tracks _
  · rw [if_neg hkind, if_neg fun h => hkind h.1]
    exact tracks_pure ()

theorem gauge_start (pool : Pool) (slots : Nat) :
    (start pool slots).gauge = { maxLocals := slots } := by
  simp [start, gauge]

end Assembler

namespace Request

open Assembler

/-- A request does what its gauge says, or its constant is refused. -/
theorem perform_agrees (r : Request) (a : Assembler) :
    Agrees (r.perform a) (r.measure a.gauge) ∨
      ∃ add e q, r.constant? = some add ∧ add a.pool = .error e q := by
  cases r with
  | plain op => exact .inl (plain_tracks op a)
  | load slot => exact .inl (access_tracks _ _ 1 slot a)
  | store slot => exact .inl (access_tracks _ _ (-1) slot a)
  | pushInt v =>
    rw [perform, Assembler.pushInt, measure]
    cases smallConstant? v.toInt with
    | some op => exact .inl (emit_tracks op 1 a)
    | none =>
      dsimp only
      by_cases hbyte : -128 ≤ v.toInt ∧ v.toInt ≤ 127
      · rw [if_pos hbyte]
        exact .inl (emit_append_tracks .bipush 1 _ a)
      · rw [if_neg hbyte]
        by_cases hword : -32768 ≤ v.toInt ∧ v.toInt ≤ 32767
        · rw [if_pos hword]
          exact .inl (emit_append_tracks .sipush 1 _ a)
        · rw [if_neg hword]
          rcases loadConstant_agrees v a with h | ⟨e, q, h⟩
          · exact .inl h
          · exact .inr ⟨_, e, q, if_neg hword, h⟩
  | loadConstant v =>
    rcases loadConstant_agrees v a with h | ⟨e, q, h⟩
    · exact .inl h
    · exact .inr ⟨_, e, q, rfl, h⟩
  | onType op className =>
    rw [perform, measure]
    rcases onType_cases op className with ⟨hop, heq⟩ | ⟨hop, heq⟩
    · rw [heq, if_pos hop]
      rcases constant_agrees (fun i => emit_append_tracks op _ (Word.bytes16 i)) a with
        h | ⟨e, q, h⟩
      · exact .inl h
      · exact .inr ⟨_, e, q, rfl, h⟩
    · rw [heq, if_neg hop]
      exact .inl rfl
  | getStatic owner name descriptor =>
    rw [perform, Assembler.getStatic, measure]
    cases FieldType.parse descriptor with
    | error cause => exact .inl rfl
    | ok t =>
      rcases constant_agrees (fun i => emit_append_tracks .getstatic t.slots (Word.bytes16 i)) a
        with h | ⟨e, q, h⟩
      · exact .inl h
      · exact .inr ⟨_, e, q, rfl, h⟩
  | call kind owner name descriptor =>
    rw [perform, Assembler.call, measure]
    cases MethodType.parse descriptor with
    | error cause => exact .inl rfl
    | ok m =>
      have hread : (ofExcept (.ok m) : Asm MethodType) a = .ok m a := rfl
      rw [bind_of_ok hread]
      dsimp only
      have hcount := MethodType.paramSlots_eq m
      by_cases hover : 65535 < m.ownSlots
      · rw [if_neg (Nat.not_le.mpr hover)] at hcount
        rw [hcount, if_pos hover]
        exact .inl rfl
      · rw [if_pos (Nat.not_lt.mp hover)] at hcount
        rw [hcount, if_neg hover]
        rcases constant_agrees (fun i => call_tracks kind m i) a with h | ⟨e, q, h⟩
        · exact .inl h
        · exact .inr ⟨_, e, q, rfl, h⟩
  | newLabel => exact .inl (newLabel_tracks a)
  | jump op label => exact .inl (jump_tracks op label a)
  | bind label => exact .inl (bind_tracks label a)

def measureAll : List Request → Gauging Unit
  | [] => pure ()
  | r :: rest => do
    r.measure
    measureAll rest

variable {r : Request} {rs : List Request} {a b : Assembler} {g g' : Gauge}

theorem measureAll_cons (h : r.measure g = some ((), g')) :
    measureAll (r :: rs) g = measureAll rs g' := by
  show (r.measure g).bind (fun (_, s) => measureAll rs s) = _
  rw [h]
  rfl

/-- A run in two parts goes on from the gauge that its first part leaves. -/
theorem measureAll_append (h : measureAll rs g = some ((), g')) (ss : List Request) :
    measureAll (rs ++ ss) g = measureAll ss g' := by
  induction rs generalizing g with
  | nil =>
    cases h
    rfl
  | cons r rs ih =>
    cases hr : r.measure g with
    | none =>
      replace h : (r.measure g).bind (fun (_, s) => measureAll rs s) = some ((), g') := h
      rw [hr] at h
      cases h
    | some result =>
      obtain ⟨⟨⟩, m⟩ := result
      rw [measureAll_cons hr] at h
      rw [List.cons_append, measureAll_cons hr]
      exact ih h

theorem gauge_of_perform (h : r.perform a = .ok () b) : r.measure a.gauge = some ((), b.gauge) := by
  have hperformed := (performed h).pool
  rcases perform_agrees r a with hagrees | ⟨add, e, q, hadd, hrefused⟩
  · rw [h] at hagrees
    exact hagrees
  · rw [hadd] at hperformed
    simp only [hrefused] at hperformed
    cases hperformed

/-- The gauge after a run is computed from the requests. -/
theorem gauge_of_performAll (h : performAll rs a = .ok () b) :
    measureAll rs a.gauge = some ((), b.gauge) := by
  induction rs generalizing a with
  | nil =>
    cases h
    rfl
  | cons r rs ih =>
    obtain ⟨m, hr, hrs⟩ := performAll_cons.mp h
    rw [measureAll_cons (gauge_of_perform hr)]
    exact ih hrs

end Request

end StackGlyph
