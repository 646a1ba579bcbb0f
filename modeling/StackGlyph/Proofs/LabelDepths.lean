import StackGlyph.Proofs.Completion
import StackGlyph.Proofs.Evolution
import StackGlyph.Proofs.Flow

/-!
# Labels bound at one place

Several labels may be bound at one place. They expect the same depth there, the one that the
assembler goes on with, provided that a depth was known when each of them was bound. A label that is
bound where no control arrives, before any jump told its depth, is the exception: nothing is noted
for it, and neither another label bound there nor the code behind it makes up for that. The first
jump back to it decides its depth alone.
-/
namespace StackGlyph

open Request Assembler

/-- A label was bound where no control arrives, before any jump told its depth. -/
def BoundUnknown (calls : List Served) (label : Nat) : Prop :=
  ∃ s ∈ calls, s.1 = .bind label ∧ s.2.depth = none ∧ (s.2.labels.getD label {}).depth = none

theorem BoundUnknown.mono {calls more : List Served} {label : Nat} (h : BoundUnknown calls label)
    (hmore : calls ⊆ more) : BoundUnknown more label := by
  obtain ⟨s, hs, hbound⟩ := h
  exact ⟨s, hmore hs, hbound⟩

theorem Assembler.labelDepth_gauge (a : Assembler) (label : Nat) :
    a.gauge.labelDepth label = (a.labels.getD label {}).depth := by
  rw [Gauge.labelDepth, getD_gauge]
  rfl

/-- Labels agree after these calls as far as depths were known. -/
structure Concordant (calls : List Served) (a : Assembler) : Prop where
  inside : ∀ label t, labelOffset a label = some t → t ≤ a.code.size
  unknown : ∀ label t, labelOffset a label = some t → (a.labels.getD label {}).depth = none →
    BoundUnknown calls label
  /-- A label that is bound where the code ends has the depth that holds there. -/
  here : ∀ label m, labelOffset a label = some a.code.size →
    (a.labels.getD label {}).depth = some m → a.depth = some m
  agree : ∀ k l t m n, labelOffset a k = some t → labelOffset a l = some t →
    (a.labels.getD k {}).depth = some m → (a.labels.getD l {}).depth = some n →
      m = n ∨ BoundUnknown calls k ∨ BoundUnknown calls l

section Steps

variable {calls : List Served} {a b : Assembler} {r : Request}

theorem concordant_start (pool : Pool) (slots : Nat) : Concordant [] (start pool slots) := by
  have hnone (label : Nat) : labelOffset (start pool slots) label = none := rfl
  refine ⟨?_, ?_, ?_, ?_⟩ <;> simp [hnone]

/-- A request that emits leaves all labels behind. A depth noted for a bound label now, by a jump
back to it, was not known when it was bound. -/
theorem Concordant.emitted (hc : Concordant calls a) (h : r.perform a = .ok () b)
    (hemits : r.emits = true) (hgrown : a.code.size < b.code.size) :
    Concordant (calls ++ [(r, a)]) b := by
  have hoffsets (label : Nat) : labelOffset b label = labelOffset a label := by
    rw [(performed h).offsets, if_neg]
    rintro ⟨rfl, -⟩
    cases hemits
  have hsettled (label n : Nat) (hn : (a.labels.getD label {}).depth = some n) :
      (b.labels.getD label {}).depth = some n := by
    rw [← labelDepth_gauge] at hn ⊢
    exact (settles_of_perform h).depths label n hn
  have hmore : calls ⊆ calls ++ [(r, a)] := List.subset_append_left _ _
  -- A depth that is known now was known before, or the label was bound without one.
  have hbefore (label t n : Nat) (ht : labelOffset a label = some t)
      (hn : (b.labels.getD label {}).depth = some n) :
      (a.labels.getD label {}).depth = some n ∨ BoundUnknown calls label := by
    cases hknown : (a.labels.getD label {}).depth with
    | none => exact .inr (hc.unknown label t ht hknown)
    | some e =>
      rw [hsettled label e hknown] at hn
      exact .inl hn
  refine ⟨?_, ?_, ?_, ?_⟩
  · intro label t ht
    rw [hoffsets] at ht
    exact Nat.le_trans (hc.inside label t ht) (Nat.le_of_lt hgrown)
  · intro label t ht hnone
    rw [hoffsets] at ht
    cases hknown : (a.labels.getD label {}).depth with
    | none => exact (hc.unknown label t ht hknown).mono hmore
    | some e =>
      rw [hsettled label e hknown] at hnone
      cases hnone
  · intro label m ht
    rw [hoffsets] at ht
    exact absurd (hc.inside label _ ht) (Nat.not_le_of_lt hgrown)
  · intro k l t m n hk hl hm hn
    rw [hoffsets] at hk hl
    rcases hbefore k t m hk hm with hm | hk'
    · rcases hbefore l t n hl hn with hn | hl'
      · exact (hc.agree k l t m n hk hl hm hn).imp_right (Or.imp (·.mono hmore) (·.mono hmore))
      · exact .inr (.inr (hl'.mono hmore))
    · exact .inr (.inl (hk'.mono hmore))

/-- A label that is bound after a request that emits nothing was bound before, and keeps its depth,
or is bound now, and has the depth that holds. -/
theorem bound_of_silent {label t : Nat} (h : r.perform a = .ok () b) (hsilent : r.emits = false)
    (ht : labelOffset b label = some t) :
    (labelOffset a label = some t ∧
      (b.labels.getD label {}).depth = (a.labels.getD label {}).depth) ∨
    (t = a.code.size ∧ r = .bind label ∧ (b.labels.getD label {}).depth = b.depth ∧
      (b.depth = none → a.depth = none ∧ (a.labels.getD label {}).depth = none)) := by
  obtain ⟨behind, hshifts⟩ := shifts_of_perform h
  have hbehind := (hshifts.silent hsilent).2
  have hlabels := hshifts.labels label
  have hsize : a.gauge.labels.size = a.labels.size := by simp [Assembler.gauge]
  rw [labelDepth_gauge, labelDepth_gauge, hsize] at hlabels
  rw [(performed h).offsets] at ht
  split at ht
  · next hbind =>
    obtain ⟨rfl, howned⟩ := hbind
    have hdepth : b.depth = behind := hshifts.depth
    have hunknown (hnone : behind = none) :
        a.depth = none ∧ (a.labels.getD label {}).depth = none := by
      rw [hbehind] at hnone
      obtain ⟨hdepth, hlabel⟩ := Option.or_eq_none_iff.mp hnone
      exact ⟨hdepth, (labelDepth_gauge a label).symm.trans hlabel⟩
    refine .inr ⟨(Option.some.inj ht).symm, rfl, ?_, hdepth ▸ hunknown⟩
    rw [hdepth]
    cases hknown : behind with
    | some n => exact (labelDepth_gauge b label) ▸ labelDepth_of_behind hshifts rfl howned hknown
    | none => rw [hlabels, if_pos ⟨rfl, howned⟩, (hunknown hknown).2, hknown, Option.or_none]
  · next hother =>
    refine .inl ⟨ht, ?_⟩
    rw [hlabels, if_neg]
    rintro ⟨hnames, howned⟩
    refine hother ⟨?_, howned⟩
    cases r with
    | bind l => exact congrArg Request.bind (Option.some.inj hnames)
    | newLabel => cases hnames
    | _ => cases hsilent

/-- A request that emits nothing may bind a label. Its depth and the depths of all labels bound here
are the depth that holds. -/
theorem Concordant.silent (hc : Concordant calls a) (h : r.perform a = .ok () b)
    (hsilent : r.emits = false) (hsame : b.code.size = a.code.size) :
    Concordant (calls ++ [(r, a)]) b := by
  have hmore : calls ⊆ calls ++ [(r, a)] := List.subset_append_left _ _
  have hhere (label m : Nat) (ht : labelOffset b label = some b.code.size)
      (hm : (b.labels.getD label {}).depth = some m) : b.depth = some m := by
    rcases bound_of_silent h hsilent ht with ⟨ha, hkept⟩ | ⟨-, -, hdepth, -⟩
    · rw [hsame] at ha
      rw [hkept] at hm
      exact depth_of_silent h hsilent (hc.here label m ha hm)
    · exact hdepth.symm.trans hm
  refine ⟨?_, ?_, hhere, ?_⟩
  · intro label t ht
    rw [hsame]
    rcases bound_of_silent h hsilent ht with ⟨ha, -⟩ | ⟨rfl, -⟩
    · exact hc.inside label t ha
    · exact Nat.le_refl _
  · intro label t ht hnone
    rcases bound_of_silent h hsilent ht with ⟨ha, hkept⟩ | ⟨-, hbind, hdepth, hunknown⟩
    · exact (hc.unknown label t ha (hkept ▸ hnone)).mono hmore
    · exact ⟨(r, a), by simp, hbind, hunknown (hdepth.symm.trans hnone)⟩
  · intro k l t m n hk hl hm hn
    -- If one of the two is bound now, both have the depth that holds.
    have htogether (ht : t = a.code.size) : m = n := by
      rw [ht, ← hsame] at hk hl
      exact Option.some.inj ((hhere k m hk hm).symm.trans (hhere l n hl hn))
    rcases bound_of_silent h hsilent hk with ⟨hk', hkeptk⟩ | ⟨ht, -⟩
    · rcases bound_of_silent h hsilent hl with ⟨hl', hkeptl⟩ | ⟨ht, -⟩
      · have hagree := hc.agree k l t m n hk' hl' (hkeptk ▸ hm) (hkeptl ▸ hn)
        exact hagree.imp_right (Or.imp (·.mono hmore) (·.mono hmore))
      · exact .inl (htogether ht)
    · exact .inl (htogether ht)

/-- A run of requests that succeed. -/
theorem Concordant.run {rs : List Request} (hc : Concordant calls a)
    (h : performAll rs a = .ok () b) : Concordant (calls ++ history a rs) b := by
  induction rs generalizing calls a with
  | nil =>
    cases h
    rw [history, List.append_nil]
    exact hc
  | cons r rs ih =>
    obtain ⟨m, hr, hrs⟩ := performAll_cons.mp h
    have hstep : Concordant (calls ++ [(r, a)]) m := by
      rcases emits_cases (fun _ => 0) (performed hr) with ⟨hsilent, -, hsame⟩ | ⟨hemits, hgrown, -⟩
      · exact hc.silent hr hsilent hsame
      · exact hc.emitted hr hemits hgrown
    have hrest := ih hstep hrs
    rwa [List.append_assoc, List.singleton_append, ← history_cons hr] at hrest

end Steps

/-- Labels that are bound at one place and whose depths are known agree on the depth, unless one of
them was bound where no control arrives, before any jump told its depth. They agree, with the
assembler's depth as well, as long as nothing was emitted there. -/
theorem labels_at_one_place_agree {pool : Pool} {slots : Nat} {rs : List Request} {a : Assembler}
    {k l t m n : Nat} (h : performAll rs (start pool slots) = .ok () a)
    (hk : labelOffset a k = some t) (hl : labelOffset a l = some t)
    (hm : (a.labels.getD k {}).depth = some m) (hn : (a.labels.getD l {}).depth = some n) :
    (m = n ∨ BoundUnknown (history (start pool slots) rs) k ∨
      BoundUnknown (history (start pool slots) rs) l) ∧
    (t = a.code.size → m = n ∧ a.depth = some m) := by
  have hc : Concordant (history (start pool slots) rs) a := (concordant_start pool slots).run h
  refine ⟨hc.agree k l t m n hk hl hm hn, ?_⟩
  rintro rfl
  have hdepth := hc.here k m hk hm
  exact ⟨Option.some.inj (hdepth.symm.trans (hc.here l n hl hn)), hdepth⟩

/-- Two labels bound at one place, the first with the depth of a jump to it and the second with that
of the first. -/
theorem labels_at_one_place_agree_twice :
    let rs := [.newLabel, .newLabel, .pushInt 1, .jump .goto 0, .bind 0, .bind 1]
    ∃ a, performAll rs (start .empty 0) = .ok () a ∧ labelOffset a 0 = some 4 ∧
      labelOffset a 1 = some 4 ∧ (a.labels.getD 0 {}).depth = some 1 ∧
      (a.labels.getD 1 {}).depth = some 1 ∧ a.depth = some 1 := by
  intro rs
  have hmeasure : measureAll rs (start .empty 0).gauge =
      some ((), ⟨some 1, 1, 0, #[⟨true, some 1⟩, ⟨true, some 1⟩]⟩) := by decide +kernel
  obtain ⟨a, ha, -⟩ := performAll_succeeds (by simp [rs, Short, texts]) (by decide) hmeasure
  obtain rfl : performEach rs (start .empty 0) = a := performEach_of_performAll ha
  have hk : labelOffset (performEach rs (start .empty 0)) 0 = some 4 := by decide
  have hl : labelOffset (performEach rs (start .empty 0)) 1 = some 4 := by decide
  have hm : ((performEach rs (start .empty 0)).labels.getD 0 {}).depth = some 1 := by decide
  have hn : ((performEach rs (start .empty 0)).labels.getD 1 {}).depth = some 1 := by decide
  exact ⟨_, ha, hk, hl, hm, hn, ((labels_at_one_place_agree ha hk hl hm hn).2 (by decide)).2⟩

/-- A label is bound where no control arrives, then another one to which a jump leads with one
operand. A jump back to the first with two operands is accepted: the code is a loop that pushes
without end, and its greatest depth is given as two. -/
theorem labels_at_one_place_differ :
    let rs := [.newLabel, .newLabel, .pushInt 1, .jump .goto 0, .bind 1, .bind 0, .pushInt 1,
      .jump .goto 1]
    ∃ a, performAll rs (start .empty 0) = .ok () a ∧ labelOffset a 0 = some 4 ∧
      labelOffset a 1 = some 4 ∧ (a.labels.getD 0 {}).depth = some 1 ∧
      (a.labels.getD 1 {}).depth = some 2 ∧
      a.finish = .ok ⟨2, 0, [0x04, 0xa7, 0, 3, 0x04, 0xa7, 0xff, 0xff]⟩ := by
  intro rs
  have hmeasure : measureAll rs (start .empty 0).gauge =
      some ((), ⟨none, 2, 0, #[⟨true, some 1⟩, ⟨true, some 2⟩]⟩) := by decide +kernel
  obtain ⟨a, ha, -⟩ := performAll_succeeds (by simp [rs, Short, texts]) (by decide) hmeasure
  obtain rfl : performEach rs (start .empty 0) = a := performEach_of_performAll ha
  exact ⟨_, ha, by decide⟩

end StackGlyph
