import StackGlyph.Proofs.Drafting
import StackGlyph.Proofs.Gauges

/-!
# When requests and declarations succeed

With room in the pool and short texts, requests succeed exactly if they can be measured. Code whose
labels are bound and that is not too long can be finished, and a method with such code can be
declared.
-/
namespace StackGlyph

open Text.ModifiedUtf8 (encodedLength)

namespace Request

open Assembler

def texts : Request → List String
  | .onType _ className => [className]
  | .getStatic owner name descriptor | .call _ owner name descriptor => [owner, name, descriptor]
  | _ => []

/-- The texts of a request can stand in a pool. -/
def Short (r : Request) : Prop :=
  ∀ s ∈ r.texts, encodedLength s ≤ Pool.maxTextLength

variable {r : Request} {rs : List Request} {a b : Assembler} {g : Gauge} {add : PoolM UInt16}

/-- A constant needs at most six entries: a member with its class, its signature and their three
texts. -/
theorem constant_succeeds (hshort : r.Short) (hadd : r.constant? = some add) :
    Pool.Succeeds 6 add := by
  cases r with
  | pushInt v =>
    rw [constant?] at hadd
    split at hadd
    · cases hadd
    · cases hadd
      exact (Pool.add_succeeds rfl).mono (by decide)
  | loadConstant v =>
    cases hadd
    exact (Pool.add_succeeds rfl).mono (by decide)
  | onType op className =>
    cases hadd
    exact (Pool.addClass_succeeds (hshort _ (by simp [texts]))).mono (by decide)
  | getStatic owner name descriptor =>
    cases hadd
    exact Pool.addMember_succeeds _ (hshort _ (by simp [texts])) (hshort _ (by simp [texts]))
      (hshort _ (by simp [texts]))
  | call kind owner name descriptor =>
    cases hadd
    exact Pool.addMember_succeeds _ (hshort _ (by simp [texts])) (hshort _ (by simp [texts]))
      (hshort _ (by simp [texts]))
  | _ => cases hadd

/-- A request that can be measured succeeds if its constant can be had. -/
theorem perform_of_measure (h : r.measure a.gauge = some ((), g))
    (hconstant : ∀ add, r.constant? = some add → ∃ i q, add a.pool = .ok i q) :
    ∃ b, r.perform a = .ok () b ∧ b.gauge = g := by
  rcases perform_agrees r a with hagrees | ⟨add, e, q, hadd, hrefused⟩
  · cases hperform : r.perform a with
    | error e b =>
      rw [hperform, h] at hagrees
      cases hagrees
    | ok v b =>
      rw [hperform, h] at hagrees
      cases hagrees
      exact ⟨b, rfl, rfl⟩
  · obtain ⟨i, q', hgiven⟩ := hconstant add hadd
    rw [hgiven] at hrefused
    cases hrefused

/-- A request that can be measured and has room in the pool succeeds, with the gauge that was
measured. -/
theorem perform_succeeds (hshort : r.Short) (hroom : a.pool.size + 6 ≤ Pool.capacity)
    (h : r.measure a.gauge = some ((), g)) :
    ∃ b, r.perform a = .ok () b ∧ b.gauge = g ∧ b.pool.size ≤ a.pool.size + 6 := by
  obtain ⟨b, hb, hgauge⟩ := perform_of_measure h fun add hadd => by
    obtain ⟨i, q, hq, -⟩ := constant_succeeds hshort hadd a.pool hroom
    exact ⟨i, q, hq⟩
  refine ⟨b, hb, hgauge, ?_⟩
  have hpool := (performed hb).pool
  cases hadd : r.constant? with
  | none =>
    rw [hadd] at hpool
    dsimp only at hpool
    rw [hpool]
    omega
  | some add =>
    rw [hadd] at hpool
    obtain ⟨i, q, hq, hsize⟩ := constant_succeeds hshort hadd a.pool hroom
    dsimp only at hpool
    rw [hpool] at hq
    cases hq
    exact hsize

/-- Requests in order, with room for all their constants. -/
theorem performAll_succeeds (hshort : ∀ r ∈ rs, r.Short)
    (hroom : a.pool.size + 6 * rs.length ≤ Pool.capacity)
    (h : measureAll rs a.gauge = some ((), g)) :
    ∃ b, performAll rs a = .ok () b ∧ b.gauge = g ∧ b.pool.size ≤ a.pool.size + 6 * rs.length := by
  induction rs generalizing a with
  | nil =>
    cases h
    exact ⟨a, rfl, rfl, by simp⟩
  | cons r rs ih =>
    rw [List.length_cons] at hroom ⊢
    obtain ⟨⟨⟨⟩, g'⟩, hr, hrs⟩ := Option.bind_eq_some_iff.mp h
    obtain ⟨m, hm, rfl, hsize⟩ := perform_succeeds (hshort r (by simp)) (by omega) hr
    obtain ⟨b, hb, hgauge, hsize'⟩ := ih (fun r hr => hshort r (by simp [hr])) (by omega) hrs
    exact ⟨b, performAll_cons.mpr ⟨m, hm, hb⟩, hgauge, by omega⟩

/-! ## Finishing -/

theorem length_encode_le (i : Instruction) : i.encode.length ≤ 5 := by
  unfold Instruction.encode
  split
  all_goals try split
  all_goals simp [Word.bytes16]

/-- A run appends at most five bytes for each request. -/
theorem size_of_performAll (h : performAll rs a = .ok () b) :
    a.code.size ≤ b.code.size ∧ b.code.size ≤ a.code.size + 5 * rs.length := by
  induction rs generalizing a with
  | nil =>
    cases h
    simp
  | cons r rs ih =>
    obtain ⟨m, hr, hrs⟩ := performAll_cons.mp h
    have hsize := size_of_performed (performed hr)
    have hopen : (openBytes (r, a)).length ≤ 5 := by
      unfold openBytes
      cases instruction? (fun _ => a.code.size) (r, a) with
      | none => simp
      | some i => exact length_encode_le i
    have hrest := ih hrs
    rw [List.length_cons]
    omega

/-- A request of a run finds no more code than there is at the end. -/
theorem size_of_mem (h : performAll rs a = .ok () b) {s : Served} (hs : s ∈ history a rs) :
    s.2.code.size ≤ b.code.size := by
  induction rs generalizing a with
  | nil => cases hs
  | cons r rs ih =>
    obtain ⟨m, hr, hrs⟩ := performAll_cons.mp h
    rw [history_cons hr] at hs
    rcases List.mem_cons.mp hs with rfl | hs
    · exact (size_of_performAll h).1
    · exact ih hrs hs

theorem jump?_eq_some {s : Served} {j : Jump} (h : jump? s = some j) :
    ∃ op, s.1 = .jump op j.label ∧ j.origin = s.2.code.size := by
  obtain ⟨r, a⟩ := s
  cases r with
  | jump op label =>
    cases h
    exact ⟨op, rfl, rfl⟩
  | _ => cases h

/-- Jumps are resolved one by one; each needs its label bound within reach, whatever was written
before. -/
theorem resolve_succeeds {labels : Array LabelState} {jumps : List Jump} (code : Array UInt8)
    (h : ∀ j ∈ jumps, ∃ t, (labels.getD j.label {}).offset = some t ∧
      (-32768 ≤ (t : Int) - j.origin ∧ (t : Int) - j.origin ≤ 32767)) :
    ∃ code', jumps.foldlM (resolve labels) code = .ok code' := by
  induction jumps generalizing code with
  | nil => exact ⟨code, rfl⟩
  | cons j jumps ih =>
    obtain ⟨t, ht, hreach⟩ := h j (by simp)
    obtain ⟨next, hnext⟩ : ∃ next, resolve labels code j = .ok next := by
      simp only [resolve, ht, if_pos hreach]
      exact ⟨_, rfl⟩
    rw [List.foldlM_cons, hnext]
    exact ih next fun k hk => h k (by simp [hk])

/-- Code that is not too long can be finished if the labels that jumps lead to are bound and, should
there be any, no jump can be too far. -/
theorem finish_succeeds {pool : Pool} {slots : Nat}
    (h : performAll rs (start pool slots) = .ok () a) (hsize : a.code.size ≤ maxCodeLength)
    (hjumps : ∀ op label, .jump op label ∈ rs →
      (a.gauge.labels.getD label {}).bound = true ∧ a.code.size ≤ 32767) :
    ∃ code, a.finish = .ok code ∧ code.bytes.length = a.code.size := by
  have hreach : ∀ j ∈ a.jumps.toList, ∃ t, (a.labels.getD j.label {}).offset = some t ∧
      (-32768 ≤ (t : Int) - j.origin ∧ (t : Int) - j.origin ≤ 32767) := by
    intro j hj
    rw [jumps_of_performAll h] at hj
    obtain ⟨s, hs, hjump⟩ := List.mem_filterMap.mp hj
    obtain ⟨op, hrequest, horigin⟩ := jump?_eq_some hjump
    obtain ⟨hbound, hshort⟩ := hjumps op j.label (hrequest ▸ mem_of_mem_history hs)
    rw [getD_gauge] at hbound
    obtain ⟨t, ht⟩ := Option.isSome_iff_exists.mp hbound
    -- Both ends of the jump lie within the code, which is shorter than the longest jump.
    have htarget : t ≤ a.code.size := by
      rcases boundAt_of_labelOffset h ht with ⟨hbefore, -⟩ | hin
      · cases hbefore
      · obtain ⟨s', hs', rfl⟩ := mem_of_boundAt hin
        exact size_of_mem h hs'
    have hsource := size_of_mem h hs
    exact ⟨t, ht, by omega, by omega⟩
  obtain ⟨code, hcode⟩ := resolve_succeeds a.code hreach
  have hsame := size_of_resolved hcode
  refine ⟨⟨a.maxStack, a.maxLocals, code.toList⟩, ?_, by simpa using hsame⟩
  show (a.jumps.toList.foldlM (resolve a.labels) a.code >>= fun code => _) = _
  rw [hcode]
  exact if_neg (by omega)

/-- Code without jumps is refused only for its length. -/
theorem finish_refuses {pool : Pool} {slots : Nat}
    (h : performAll rs (start pool slots) = .ok () a) (hsize : maxCodeLength < a.code.size)
    (hjumps : ∀ op label, .jump op label ∉ rs) : a.finish = .error (.codeTooLarge a.code.size) := by
  have hnone : a.jumps.toList = [] := by
    rw [jumps_of_performAll h]
    refine List.filterMap_eq_nil_iff.mpr fun s hs => ?_
    cases hjump : jump? s with
    | none => rfl
    | some j =>
      obtain ⟨op, hrequest, -⟩ := jump?_eq_some hjump
      exact absurd (hrequest ▸ mem_of_mem_history hs) (hjumps op j.label)
  rw [finish, hnone]
  exact if_pos hsize

end Request

/-! ## Declaring -/

namespace ClassDraft

open Request Assembler

variable {d : ClassDraft}

/-- A method whose body is a script can be declared if the script can be measured, its jumps lead to
labels that are bound, and there is room. -/
theorem script_succeeds {body : Asm Unit} {rs : List Request} {descriptor : String} {t : MethodType}
    {slots : Nat} {g : Gauge} (access : UInt16) (name : String)
    (hparse : MethodType.parse descriptor = .ok t) (hslots : parameterSlots access t = .ok slots)
    (hname : encodedLength name ≤ Pool.maxTextLength)
    (hdescriptor : encodedLength descriptor ≤ Pool.maxTextLength)
    (hrun : body (start d.pool slots) = performAll rs (start d.pool slots))
    (hmeasure : measureAll rs { maxLocals := slots } = some ((), g))
    (hshort : ∀ r ∈ rs, r.Short) (hlength : 5 * rs.length ≤ 32767)
    (hjumps : ∀ op label, .jump op label ∈ rs → (g.labels.getD label {}).bound = true)
    (hroom : d.pool.size + 6 * rs.length + 3 ≤ Pool.capacity)
    (hmethods : d.methods.size < maxMethods) :
    ∃ e, method access name descriptor body d = .ok () e ∧
      e.pool.size ≤ d.pool.size + 6 * rs.length + 3 ∧ e.methods.size = d.methods.size + 1 := by
  rw [← gauge_start d.pool] at hmeasure
  obtain ⟨a, ha, rfl, hpool⟩ := performAll_succeeds hshort
    (show d.pool.size + 6 * rs.length ≤ Pool.capacity by omega) hmeasure
  replace hpool : a.pool.size ≤ d.pool.size + 6 * rs.length := hpool
  have hsize : a.code.size ≤ 0 + 5 * rs.length := (size_of_performAll ha).2
  obtain ⟨code, hfinish, -⟩ := finish_succeeds ha (by rw [maxCodeLength]; omega)
    fun op label hjump => ⟨hjumps op label hjump, by omega⟩
  obtain ⟨e, he, hsize, hcount⟩ := method_succeeds access name hparse hslots hname hdescriptor
    (hrun.trans ha) hfinish (by omega) hmethods
  exact ⟨e, he, by omega, hcount⟩

end ClassDraft

end StackGlyph
