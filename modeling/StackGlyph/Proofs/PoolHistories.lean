import Mathlib
import StackGlyph.Proofs.PoolGrowth

/-!
# Histories of a constant pool

A pool begins empty or with given entries and passes through any sequence of calls, raw additions
and references among them, of which some may fail half way. Its entries and its index of first
positions stay in step all the time. So a reference leads to what it was asked for, from the moment
it was handed out on, and no two different references ever share an index.
-/
namespace StackGlyph

/-- What a pool can be asked to refer to, by names and values alone. -/
inductive Reference where
  | text (s : String)
  | integer (v : Int32)
  | type (name : String)
  | signature (name descriptor : String)
  | member (kind : MemberKind) (owner name descriptor : String)
  deriving DecidableEq, Repr

/-- Finds a reference in a pool or adds what it needs, and gives its index. -/
def Reference.add : Reference → PoolM UInt16
  | .text s => Pool.addText s
  | .integer v => Pool.addInteger v
  | .type name => Pool.addClass name
  | .signature name descriptor => Pool.addSignature name descriptor
  | .member kind owner name descriptor => Pool.addMember kind owner name descriptor

inductive PoolCall where
  /-- To add a constant as it stands, whatever its indices lead to. -/
  | add (c : Constant)
  | refer (r : Reference)
  deriving DecidableEq, Repr

namespace PoolCall

def perform : PoolCall → PoolM UInt16
  | .add c => Pool.add c
  | .refer r => r.add

def afterAll (p : Pool) (calls : List PoolCall) : Pool :=
  calls.foldl (fun p call => leftBy (call.perform p)) p

theorem afterAll_append (p : Pool) (calls more : List PoolCall) :
    afterAll p (calls ++ more) = afterAll (afterAll p calls) more :=
  List.foldl_append

end PoolCall

open PoolCall

/-! ## What every call keeps -/

/-- Whatever additions keep, all references keep, for they are made of additions. -/
theorem Reference.respects {R : Pool → Pool → Prop} (hR : Lasting R)
    (hadd : ∀ c, Respects R (Pool.add c)) (r : Reference) : Respects R r.add := by
  have hclass (name : String) : Respects R (Pool.addClass name) :=
    (hadd _).bind hR fun _ => hadd _
  have hsignature (name descriptor : String) : Respects R (Pool.addSignature name descriptor) :=
    (hadd _).bind hR fun _ => (hadd _).bind hR fun _ => hadd _
  cases r with
  | text s => exact hadd _
  | integer v => exact hadd _
  | type name => exact hclass name
  | signature name descriptor => exact hsignature name descriptor
  | member kind owner name descriptor =>
    exact (hclass owner).bind hR fun _ => (hsignature name descriptor).bind hR fun _ => hadd _

theorem PoolCall.afterAll_respects {R : Pool → Pool → Prop} (hR : Lasting R)
    (hadd : ∀ c, Respects R (Pool.add c)) (p : Pool) (calls : List PoolCall) :
    R p (afterAll p calls) := by
  induction calls generalizing p with
  | nil => exact hR.refl p
  | cons call calls ih =>
    have hcall : Respects R call.perform := by
      cases call with
      | add c => exact hadd c
      | refer r => exact r.respects hR hadd
    exact hR.trans (hcall p) (ih _)

theorem PoolCall.afterAll_grows (p : Pool) (calls : List PoolCall) : p.Grows (afterAll p calls) :=
  afterAll_respects Pool.grows_lasting Pool.add_grows p calls

namespace Pool

/-- A pool in which no constant stands twice. -/
structure Distinct (p : Pool) : Prop extends p.Sound where
  nodup : p.entries.toList.Nodup

theorem distinct_empty : Distinct empty :=
  ⟨sound_empty, List.nodup_nil⟩

theorem mem_firstIndex {p : Pool} (hp : p.Sound) {c : Constant} :
    c ∈ p.firstIndex ↔ c ∈ p.entries := by
  rw [Std.HashMap.mem_iff_isSome_getElem?, hp.indexed, Option.isSome_map, List.isSome_idxOf?,
    Array.mem_toList_iff]

theorem firstIndex_eq_none {p : Pool} (hp : p.Sound) {c : Constant} :
    p.firstIndex[c]? = none ↔ c ∉ p.entries := by
  rw [← mem_firstIndex hp, Std.HashMap.mem_iff_isSome_getElem?, Bool.not_eq_true,
    Option.isSome_eq_false_iff, Option.isNone_iff_eq_none]

/-- Only a constant that is not there yet is appended, so that none comes to stand twice. -/
theorem add_distinct (c : Constant) :
    Respects (fun p q => p.Distinct → q.Distinct) (add c) := by
  intro p hp
  have hgrows := add_grows c p
  refine ⟨hgrows.sound hp.toSound, ?_⟩
  rcases add_cases c p with ⟨i, -, h⟩ | ⟨e, -, h⟩ | ⟨hnew, -, -, h⟩
  · rw [h]
    exact hp.nodup
  · rw [h]
    exact hp.nodup
  · rw [h]
    have habsent : c ∉ p.entries := (firstIndex_eq_none hp.toSound).mp hnew
    rw [leftBy_ok, pushed, Array.toList_push, List.nodup_append]
    refine ⟨hp.nodup, List.nodup_singleton c, ?_⟩
    rintro d hd _ hc rfl
    rw [List.mem_singleton] at hc
    exact habsent (hc ▸ Array.mem_toList_iff.mp hd)

theorem afterAll_distinct {p : Pool} (hp : p.Distinct) (calls : List PoolCall) :
    (afterAll p calls).Distinct :=
  afterAll_respects (R := fun p q => p.Distinct → q.Distinct) ⟨fun _ => id, fun h h' => h' ∘ h⟩
    add_distinct p calls hp

/-! ## Pools of given entries -/

/-- The index of the first positions in a list of entries, as it is filled: with the next index. -/
def indexAll (entries : List Constant) : UInt16 × Std.HashMap Constant UInt16 :=
  entries.foldl (fun (next, index) c => (next + 1, index.insertIfNew c next)) (1, ∅)

theorem indexAll_concat (entries : List Constant) (c : Constant) :
    indexAll (entries ++ [c]) =
      ((indexAll entries).1 + 1, (indexAll entries).2.insertIfNew c (indexAll entries).1) :=
  List.foldl_concat _ _ _ _

theorem next_indexAll (entries : List Constant) :
    (indexAll entries).1 = (entries.length + 1).toUInt16 := by
  induction entries using List.reverseRecOn with
  | nil => rfl
  | append_singleton entries c ih =>
    rw [indexAll_concat, ih, List.length_append, List.length_singleton]
    simp [Nat.toUInt16, UInt16.ofNat_add]

/-- The first occurrence of a constant wins. -/
theorem getElem?_indexAll (entries : List Constant) (d : Constant) :
    (indexAll entries).2[d]? = (entries.idxOf? d).map fun k => (k + 1).toUInt16 := by
  induction entries using List.reverseRecOn with
  | nil => simp [indexAll]
  | append_singleton entries c ih =>
    rw [indexAll_concat, next_indexAll, Std.HashMap.getElem?_insertIfNew, idxOf?_concat]
    by_cases hcd : c = d
    · subst hcd
      have hmem : c ∈ (indexAll entries).2 ↔ (entries.idxOf? c).isSome := by
        rw [Std.HashMap.mem_iff_isSome_getElem?, ih, Option.isSome_map]
      cases hfound : entries.idxOf? c with
      | none => simp [hmem, hfound]
      | some k =>
        rw [hfound] at ih
        rw [if_neg (by simp [hmem, hfound]), ih, Option.some_or]
    · simp [hcd, ih]

/-- The index of given entries is filled from the front, so that of equal ones the first counts. -/
theorem sound_ofEntries {entries : Array Constant} {p : Pool} (h : ofEntries entries = .ok p) :
    p.Sound := by
  unfold ofEntries at h
  split at h
  · cases h
  · next hfits =>
    cases h
    constructor
    · intro c
      rw [← Array.foldl_toList]
      exact getElem?_indexAll entries.toList c
    · exact Nat.le_of_not_lt hfits

theorem entries_of_ofEntries {entries : Array Constant} {p : Pool}
    (h : ofEntries entries = .ok p) : p.entries = entries := by
  unfold ofEntries at h
  split at h
  · cases h
  · cases h
    rfl

/-- The pools with which a history begins: the empty one, and those of given entries. -/
def Initial (p : Pool) : Prop :=
  p = empty ∨ ∃ entries, ofEntries entries = .ok p

theorem Initial.sound {p : Pool} (h : p.Initial) : p.Sound := by
  rcases h with rfl | ⟨entries, hentries⟩
  · exact sound_empty
  · exact sound_ofEntries hentries

/-! ## The index of first positions -/

def positions (p : Pool) (c : Constant) : Set Nat :=
  { n | 0 < n ∧ p.entries[n - 1]? = some c }

/-- In a sound pool a constant is indexed under the first of its positions. -/
theorem isLeast_of_firstIndex {p : Pool} (hp : p.Sound) {c : Constant} {i : UInt16}
    (h : p.firstIndex[c]? = some i) : IsLeast (p.positions c) i.toNat := by
  rw [hp.indexed] at h
  obtain ⟨k, hk, rfl⟩ := Option.map_eq_some_iff.mp h
  obtain ⟨hlt, hc, hfirst⟩ := List.idxOf?_eq_some_iff.mp hk
  have hfits := hp.fits
  unfold capacity at hfits
  have hsize : k < p.size := hlt
  rw [Word.toNat_toUInt16 (by omega)]
  constructor
  · refine ⟨Nat.succ_pos k, ?_⟩
    rw [Nat.add_sub_cancel, ← Array.getElem?_toList, List.getElem?_eq_getElem hlt, hc]
  · rintro n ⟨hpos, hn⟩
    rw [← Array.getElem?_toList] at hn
    obtain ⟨hbound, hn⟩ := List.getElem?_eq_some_iff.mp hn
    by_contra hless
    exact hfirst (n - 1) (by omega) hn

/-- An addition leaves a constant that is present where it is, and appends one that is absent. -/
theorem entries_of_add {c : Constant} {p q : Pool} {i : UInt16} (hp : p.Sound)
    (h : add c p = .ok i q) :
    q.entries = if c ∈ p.entries then p.entries else p.entries.push c := by
  rcases add_cases c p with ⟨j, hj, h'⟩ | ⟨e, -, h'⟩ | ⟨hnew, -, -, h'⟩
  · rw [h'] at h
    cases h
    have hpresent : c ∈ p.entries := by
      rw [← mem_firstIndex hp, Std.HashMap.mem_iff_isSome_getElem?, hj]
      rfl
    rw [if_pos hpresent]
  · rw [h'] at h
    cases h
  · rw [h'] at h
    cases h
    rw [if_neg ((firstIndex_eq_none hp).mp hnew)]
    rfl

theorem eq_of_add_error {c : Constant} {p q : Pool} {e : Fault} (h : add c p = .error e q) :
    q = p := by
  rcases add_cases c p with ⟨j, -, h'⟩ | ⟨e', -, h'⟩ | ⟨-, -, -, h'⟩
  all_goals
    rw [h'] at h
    cases h
  rfl

/-- Entries and index stay in step along every history. The index holds exactly the constants that
occur, each under its first position; entries are only ever appended; an addition that fails changes
nothing, and one that succeeds gives an index that leads to its constant, which it appends only if
it was absent. If the pool began empty, no constant stands twice and all of them can be counted. -/
theorem index_of_history {p : Pool} (hp : p.Initial) (calls : List PoolCall) :
    let q := afterAll p calls
    (∀ c, c ∈ q.firstIndex ↔ c ∈ q.entries) ∧
    (∀ c i, q.firstIndex[c]? = some i → IsLeast (q.positions c) i.toNat) ∧
    (∀ more, q.Extends (afterAll p (calls ++ more))) ∧
    (∀ c e r, add c q = .error e r → r = q) ∧
    (∀ c i r, add c q = .ok i r → r.get? i = some c ∧
      r.entries = if c ∈ q.entries then q.entries else q.entries.push c) ∧
    (p = empty → q.entries.toList.Nodup ∧ q.size ≤ 65534) := by
  intro q
  have hq : q.Sound := (afterAll_grows p calls).sound hp.sound
  refine ⟨fun c => mem_firstIndex hq, fun c i => isLeast_of_firstIndex hq, ?_, ?_, ?_, ?_⟩
  · intro more
    rw [afterAll_append]
    exact (afterAll_grows q more).earlier
  · intro c e r hadd
    exact eq_of_add_error hadd
  · intro c i r hadd
    exact ⟨get?_of_add hq hadd, entries_of_add hq hadd⟩
  · rintro rfl
    exact ⟨(afterAll_distinct distinct_empty calls).nodup, hq.fits⟩

/-- A pool that began with a text given twice has it under its first position, whatever is added. -/
theorem index_of_history_twice :
    ∃ p, ofEntries #[.text "A", .type 1, .text "A"] = .ok p ∧
      let q := afterAll p [.refer (.type "A"), .refer (.member .method "A" "f" "()V")]
      .text "A" ∈ q.firstIndex ∧ ∀ i, q.firstIndex[Constant.text "A"]? = some i → i = 1 := by
  obtain ⟨p, hp⟩ : ∃ p, ofEntries #[.text "A", .type 1, .text "A"] = .ok p := ⟨_, rfl⟩
  refine ⟨p, hp, ?_⟩
  intro q
  obtain ⟨hmem, hleast, -⟩ := index_of_history (.inr ⟨_, hp⟩)
    [.refer (.type "A"), .refer (.member .method "A" "f" "()V")]
  have hfirst : q.entries[0]? = some (.text "A") := by
    have hentries : p.entries = #[.text "A", .type 1, .text "A"] := by
      cases hp
      rfl
    obtain ⟨rest, hrest⟩ := (afterAll_grows p _).earlier
    rw [← Array.getElem?_toList, ← hrest, hentries]
    rfl
  refine ⟨(hmem _).mpr (Array.mem_of_getElem? hfirst), ?_⟩
  intro i hi
  obtain ⟨⟨hpositive, -⟩, hlower⟩ := hleast _ i hi
  have hle : i.toNat ≤ 1 := hlower ⟨Nat.one_pos, hfirst⟩
  apply UInt16.toNat_inj.mp
  exact Nat.le_antisymm hle hpositive

end Pool

namespace Reference

/-! ## References in every later pool -/

/-- What a reference leads to when its index is looked up. -/
def FoundAt (p : Pool) (i : UInt16) : Reference → Prop
  | .text s => p.textAt i = .ok s
  | .integer v => p.get? i = some (.integer v)
  | .type name => p.classNameAt i = .ok name
  | .signature name descriptor => p.signatureAt i = .ok (name, descriptor)
  | .member kind owner name descriptor =>
    p.memberAt i = .ok ⟨owner, name, descriptor⟩ ∧ ∃ j k, p.get? i = some (.member kind j k)

/-- The reference that an index stands for, as far as the look-ups can tell. -/
def at? (p : Pool) (i : UInt16) : Option Reference :=
  match p.get? i with
  | some (.text s) => some (.text s)
  | some (.integer v) => some (.integer v)
  | some (.type _) => (p.classNameAt i).toOption.map .type
  | some (.signature _ _) => (p.signatureAt i).toOption.map fun s => .signature s.1 s.2
  | some (.member kind _ _) =>
    (p.memberAt i).toOption.map fun m => .member kind m.owner m.name m.descriptor
  | _ => none

/-- A reference is recovered from its index: the kinds of constants are told apart by what stands
there. -/
theorem at?_of_foundAt {p : Pool} {i : UInt16} {r : Reference} (h : r.FoundAt p i) :
    at? p i = some r := by
  cases r with
  | text s =>
    have hs := Pool.textAt_eq_ok.mp h
    simp only [at?, hs]
  | integer v =>
    replace h : p.get? i = some (.integer v) := h
    simp only [at?, h]
  | type name =>
    replace h : p.classNameAt i = .ok name := h
    have hc := h
    unfold Pool.classNameAt at hc
    split at hc
    · next j hj =>
      simp only [at?, hj, h]
      rfl
    · cases hc
  | signature name descriptor =>
    replace h : p.signatureAt i = .ok (name, descriptor) := h
    have hc := h
    unfold Pool.signatureAt at hc
    split at hc
    · next j k hj =>
      simp only [at?, hj, h]
      rfl
    · cases hc
  | member kind owner name descriptor =>
    obtain ⟨h, j, k, hj⟩ := h
    simp only [at?, hj, h]
    rfl

theorem foundAt_of_add {p q later : Pool} {r : Reference} {i : UInt16} (hp : p.Sound)
    (h : r.add p = .ok i q) (hlater : q.Extends later) : r.FoundAt later i := by
  cases r with
  | text s => exact Pool.textAt_of_addText hp h hlater
  | integer v => exact Pool.get?_of_addInteger hp h hlater
  | type name => exact Pool.classNameAt_of_addClass hp h hlater
  | signature name descriptor => exact Pool.signatureAt_of_addSignature hp h hlater
  | member kind owner name descriptor =>
    exact ⟨Pool.memberAt_of_addMember hp h hlater, Pool.get?_of_addMember hp h hlater⟩

theorem add_repeats (r : Reference) : Pool.Repeats r.add := by
  cases r with
  | text s => exact Pool.add_repeats _
  | integer v => exact Pool.add_repeats _
  | type name => exact Pool.addClass_repeats name
  | signature name descriptor => exact Pool.addSignature_repeats name descriptor
  | member kind owner name descriptor => exact Pool.addMember_repeats kind owner name descriptor

/-- In a history from the empty pool, the call at this position asks for a reference and is given an
index. -/
def GivenAt (calls : List PoolCall) (k : Nat) (r : Reference) (i : UInt16) : Prop :=
  calls[k]? = some (.refer r) ∧ ∃ q, r.add (afterAll .empty (calls.take k)) = .ok i q

section Histories

variable {calls : List PoolCall} {k l n : Nat} {r r' : Reference} {i i' : UInt16}

theorem sound_after (calls : List PoolCall) : (afterAll .empty calls).Sound :=
  (afterAll_grows .empty calls).sound Pool.sound_empty

/-- What a call that is given an index leaves behind lasts. -/
theorem GivenAt.lasts (h : GivenAt calls k r i) (hk : k < n) :
    ∃ q, r.add (afterAll .empty (calls.take k)) = .ok i q ∧
      q.Extends (afterAll .empty (calls.take n)) := by
  obtain ⟨hcall, q, hadd⟩ := h
  obtain ⟨hlt, hcall⟩ := List.getElem?_eq_some_iff.mp hcall
  obtain ⟨j, rfl⟩ := Nat.exists_eq_add_of_le hk
  have hnext : afterAll .empty (calls.take (k + 1)) = q := by
    rw [List.take_succ_eq_append_getElem hlt, hcall, afterAll_append]
    show leftBy (r.add (afterAll .empty (calls.take k))) = q
    rw [hadd, leftBy_ok]
  refine ⟨q, hadd, ?_⟩
  rw [List.take_add, afterAll_append, hnext]
  exact (afterAll_grows _ _).earlier

theorem GivenAt.foundAt (h : GivenAt calls k r i) (hk : k < n) :
    r.FoundAt (afterAll .empty (calls.take n)) i := by
  obtain ⟨q, hadd, hlater⟩ := h.lasts hk
  exact foundAt_of_add (sound_after _) hadd hlater

/-- The later of two calls is given the index of the earlier exactly if it asks for the same. -/
theorem GivenAt.eq_iff_of_lt (h : GivenAt calls k r i) (h' : GivenAt calls l r' i') (hkl : k < l) :
    i = i' ↔ r = r' := by
  constructor
  · rintro rfl
    have hfound := at?_of_foundAt (h.foundAt (Nat.lt_succ_of_lt hkl))
    have hfound' := at?_of_foundAt (h'.foundAt (Nat.lt_succ_self l))
    exact Option.some.inj (hfound.symm.trans hfound')
  · rintro rfl
    obtain ⟨q, hadd, hlater⟩ := h.lasts hkl
    obtain ⟨-, q', hadd'⟩ := h'
    have hagain := r.add_repeats _ q _ i (sound_after _) hadd hlater (sound_after _)
    rw [hagain] at hadd'
    cases hadd'
    rfl

end Histories

/-- In every history of a pool that began empty, an index that was given for a reference leads to
what was asked for, at once and after all further calls; and two calls, wherever they stand, are
given the same index exactly if they ask for the same reference. -/
theorem references_resolve {calls : List PoolCall} {k : Nat} {r : Reference} {i : UInt16}
    (h : GivenAt calls k r i) :
    (∀ n, k < n → r.FoundAt (afterAll .empty (calls.take n)) i) ∧
    ∀ l r' i', GivenAt calls l r' i' → (i = i' ↔ r = r') := by
  refine ⟨fun n hn => h.foundAt hn, ?_⟩
  intro l r' i' h'
  rcases Nat.lt_trichotomy k l with hkl | rfl | hlk
  · exact h.eq_iff_of_lt h' hkl
  · obtain ⟨hcall, q, hadd⟩ := h
    obtain ⟨hcall', q', hadd'⟩ := h'
    obtain rfl : r = r' := by simpa using hcall.symm.trans hcall'
    rw [hadd] at hadd'
    cases hadd'
    exact iff_of_true rfl rfl
  · rw [eq_comm, h'.eq_iff_of_lt h hlk, eq_comm]

/-- A class that is asked for twice, with a raw constant and a member of the class in between. -/
theorem references_resolve_between :
    let calls : List PoolCall := [.refer (.type "A"), .add (.string 9),
      .refer (.member .method "A" "f" "()V"), .refer (.type "A")]
    ∃ i j, GivenAt calls 0 (.type "A") i ∧ GivenAt calls 2 (.member .method "A" "f" "()V") j ∧
      GivenAt calls 3 (.type "A") i ∧ i ≠ j ∧
      (afterAll .empty calls).classNameAt i = .ok "A" ∧
      (afterAll .empty calls).memberAt j = .ok ⟨"A", "f", "()V"⟩ := by
  intro calls
  have hroom (p : Pool) (n : Nat) (hp : p.size ≤ 9) (hn : n ≤ 6) : p.size + n ≤ Pool.capacity := by
    unfold Pool.capacity
    omega
  have hclassShort : Text.ModifiedUtf8.encodedLength "A" ≤ Pool.maxTextLength := by cbv
  have hnameShort : Text.ModifiedUtf8.encodedLength "f" ≤ Pool.maxTextLength := by cbv
  have hdescriptorShort : Text.ModifiedUtf8.encodedLength "()V" ≤ Pool.maxTextLength := by cbv
  obtain ⟨i, p₁, h₁, hsize₁⟩ :=
    Pool.addClass_succeeds hclassShort .empty (hroom _ 2 (by decide) (by decide))
  replace hsize₁ : p₁.size ≤ 2 := hsize₁
  obtain ⟨s, p₂, h₂, hsize₂⟩ :=
    Pool.add_succeeds (c := .string 9) rfl p₁ (hroom _ 1 (by omega) (by decide))
  obtain ⟨j, p₃, h₃, hsize₃⟩ := Pool.addMember_succeeds .method hclassShort hnameShort
    hdescriptorShort p₂ (hroom _ 6 (by omega) (by decide))
  obtain ⟨i', p₄, h₄, -⟩ :=
    Pool.addClass_succeeds hclassShort p₃ (hroom _ 2 (by omega) (by decide))
  have hafter₂ : afterAll .empty (calls.take 2) = p₂ := by
    show leftBy (Pool.add (.string 9) (leftBy (Pool.addClass "A" .empty))) = p₂
    rw [h₁, leftBy_ok, h₂, leftBy_ok]
  have hafter₃ : afterAll .empty (calls.take 3) = p₃ := by
    show leftBy (Pool.addMember .method "A" "f" "()V" (afterAll .empty (calls.take 2))) = p₃
    rw [hafter₂, h₃, leftBy_ok]
  have hfirst : GivenAt calls 0 (.type "A") i := ⟨rfl, p₁, h₁⟩
  have hmember : GivenAt calls 2 (.member .method "A" "f" "()V") j := ⟨rfl, p₃, hafter₂ ▸ h₃⟩
  have hagain : GivenAt calls 3 (.type "A") i' := ⟨rfl, p₄, hafter₃ ▸ h₄⟩
  obtain ⟨hclass, hunique⟩ := references_resolve hfirst
  obtain rfl : i = i' := (hunique 3 _ i' hagain).mpr rfl
  refine ⟨i, j, hfirst, hmember, hagain, ?_, hclass 4 (by decide), ?_⟩
  · intro heq
    cases (hunique 2 _ j hmember).mp heq
  · exact ((references_resolve hmember).1 4 (by decide)).1

end Reference

end StackGlyph
