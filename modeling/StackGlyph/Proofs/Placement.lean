import StackGlyph.Bytecode.Instruction

/-!
# Finding the instruction at an offset

Halving finds the instruction that starts at an offset wherever instructions stand by ascending
offset. What it finds starts there in any case; that it misses nothing is what the order is for.
-/
namespace StackGlyph.Instruction

/-- Instructions stand by ascending offset. -/
def Ascending (is : List Instruction) : Prop :=
  is.Pairwise fun i j => i.offset < j.offset

variable {all : Array Instruction} {target low high k l : Nat} {i j : Instruction}

theorem Ascending.offset_lt (h : Ascending all.toList) (hk : all[k]? = some i)
    (hl : all[l]? = some j) (hkl : k < l) : i.offset < j.offset := by
  rw [← Array.getElem?_toList] at hk hl
  obtain ⟨hklt, rfl⟩ := List.getElem?_eq_some_iff.mp hk
  obtain ⟨hllt, rfl⟩ := List.getElem?_eq_some_iff.mp hl
  exact List.pairwise_iff_getElem.mp h k l hklt hllt hkl

theorem Ascending.place_le (h : Ascending all.toList) (hk : all[k]? = some i)
    (hl : all[l]? = some j) (hle : i.offset ≤ j.offset) : k ≤ l := by
  refine Nat.le_of_not_lt fun hlt => ?_
  have hless := h.offset_lt hl hk hlt
  omega

/-- At most one instruction starts at an offset. -/
theorem Ascending.place_eq (h : Ascending all.toList) (hk : all[k]? = some i)
    (hl : all[l]? = some j) (hsame : i.offset = j.offset) : k = l :=
  Nat.le_antisymm (h.place_le hk hl (by omega)) (h.place_le hl hk (by omega))

theorem Ascending.place_lt (h : Ascending all.toList) (hk : all[k]? = some i)
    (hl : all[l]? = some j) (hless : i.offset < j.offset) : k < l := by
  refine Nat.lt_of_not_le fun hle => ?_
  rcases Nat.lt_or_eq_of_le hle with hlt | rfl
  · have hmore := h.offset_lt hl hk hlt
    omega
  · rw [hk] at hl
    cases hl
    exact Nat.lt_irrefl _ hless

theorem offset_of_placeBetween (h : placeBetween all target low high = some k) :
    ∃ i, all[k]? = some i ∧ i.offset = target := by
  fun_induction placeBetween all target low high with
  | case1 low high hrange middle hnone => cases h
  | case2 low high hrange middle i hi hfound =>
    obtain rfl := Option.some.inj h
    exact ⟨i, hi, hfound⟩
  | case3 low high hrange middle i hi hne hbelow ih => exact ih h
  | case4 low high hrange middle i hi hne habove ih => exact ih h
  | case5 low high hempty => cases h

/-- Each halving keeps the half in which the instruction stands. -/
theorem placeBetween_of_offset (hall : Ascending all.toList) (hk : all[k]? = some j)
    (htarget : j.offset = target) (hlow : low ≤ k) (hhigh : k < high) (hsize : high ≤ all.size) :
    placeBetween all target low high = some k := by
  fun_induction placeBetween all target low high with
  | case1 low high hrange middle hnone =>
    have hbeyond : all.size ≤ middle := Array.getElem?_eq_none_iff.mp hnone
    have hmiddle : middle = low + (high - low) / 2 := rfl
    omega
  | case2 low high hrange middle i hi hfound =>
    rw [hall.place_eq hi hk (hfound.trans htarget.symm)]
  | case3 low high hrange middle i hi hne hbelow ih =>
    exact ih (hall.place_lt hi hk (by omega)) hhigh hsize
  | case4 low high hrange middle i hi hne habove ih =>
    have hmiddle : middle = low + (high - low) / 2 := rfl
    exact ih hlow (hall.place_lt hk hi (by omega)) (by omega)
  | case5 low high hempty => omega

/-- The search finds an instruction exactly where it starts. -/
theorem place?_eq_some (hall : Ascending all.toList) :
    place? all target = some k ↔ ∃ i, all[k]? = some i ∧ i.offset = target := by
  constructor
  · exact offset_of_placeBetween
  · rintro ⟨i, hi, htarget⟩
    obtain ⟨hlt, -⟩ := Array.getElem?_eq_some_iff.mp hi
    exact placeBetween_of_offset hall hi htarget (Nat.zero_le k) hlt (Nat.le_refl _)

/-- Halving finds what going through all instructions finds. -/
theorem place?_eq_findIdx? (hall : Ascending all.toList) :
    place? all target = all.findIdx? (·.offset == target) := by
  cases hfound : all.findIdx? (·.offset == target) with
  | some k =>
    obtain ⟨hlt, hoffset, -⟩ := Array.findIdx?_eq_some_iff_getElem.mp hfound
    exact (place?_eq_some hall).mpr ⟨_, Array.getElem?_eq_getElem hlt, eq_of_beq hoffset⟩
  | none =>
    cases hplace : place? all target with
    | none => rfl
    | some k =>
      obtain ⟨i, hi, hoffset⟩ := (place?_eq_some hall).mp hplace
      have hno := Array.findIdx?_eq_none_iff.mp hfound i (Array.mem_of_getElem? hi)
      exact absurd hoffset (by simpa using hno)

end StackGlyph.Instruction
