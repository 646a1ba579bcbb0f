import StackGlyph.Pool.Basic
import StackGlyph.Proofs.Effects
import StackGlyph.Proofs.Words

/-!
# How constant pools grow

Operations on a pool only append entries, whether they succeed or fail. In a sound pool the index
of first positions says exactly where each constant stands, so an index that was handed out leads
to its constant, then and in every later pool. Look-ups that follow several indices inherit this.
-/
namespace StackGlyph.Pool

open Text.ModifiedUtf8 (encodedLength)

/-- The index of first positions agrees with the entries, and the entries fit a 16-bit count. -/
structure Sound (p : Pool) : Prop where
  indexed : ∀ c, p.firstIndex[c]? = (p.entries.toList.idxOf? c).map fun k => (k + 1).toUInt16
  fits : p.size ≤ capacity

/-- Every text is short enough for its 16-bit length. -/
def TextsFit (p : Pool) : Prop :=
  ∀ s, Constant.text s ∈ p.entries → encodedLength s ≤ maxTextLength

def Extends (p q : Pool) : Prop :=
  p.entries.toList <+: q.entries.toList

/-- What any operation on a pool guarantees. -/
structure Grows (p q : Pool) : Prop where
  earlier : p.Extends q
  sound : p.Sound → q.Sound
  textsFit : p.TextsFit → q.TextsFit

theorem Extends.refl (p : Pool) : p.Extends p :=
  List.prefix_rfl

theorem Extends.trans {p q r : Pool} (h : p.Extends q) (h' : q.Extends r) : p.Extends r :=
  List.IsPrefix.trans h h'

theorem Extends.of_entries {p q : Pool} (h : q.entries = p.entries) : p.Extends q :=
  ⟨[], by rw [h, List.append_nil]⟩

theorem grows_lasting : Lasting Grows where
  refl p := ⟨Extends.refl p, id, id⟩
  trans h h' := ⟨h.earlier.trans h'.earlier, h'.sound ∘ h.sound, h'.textsFit ∘ h.textsFit⟩

theorem sound_empty : Sound empty where
  indexed c := by simp [empty]
  fits := by simp [empty, size]

theorem textsFit_empty : TextsFit empty := by
  simp [TextsFit, empty]

/-- The pool that a successful addition of a new constant leaves behind. -/
def pushed (c : Constant) (p : Pool) : Pool :=
  { entries := p.entries.push c
    firstIndex := p.firstIndex.insert c (p.size + 1).toUInt16 }

/-- All that an addition can do: find the constant, refuse it, or append it. -/
theorem add_cases (c : Constant) (p : Pool) :
    (∃ i, p.firstIndex[c]? = some i ∧ add c p = .ok i p) ∨
    (∃ e, (capacity ≤ p.size ∨ overlong? c ≠ none) ∧ add c p = .error e p) ∨
    (p.firstIndex[c]? = none ∧ p.size < capacity ∧ overlong? c = none ∧
      add c p = .ok (p.size + 1).toUInt16 (pushed c p)) := by
  unfold add
  cases hi : p.firstIndex[c]? with
  | some i => exact .inl ⟨i, rfl, rfl⟩
  | none =>
    right
    by_cases hfull : capacity ≤ p.size
    · exact .inl ⟨.poolFull (p.size + 1), .inl hfull, if_pos hfull⟩
    · cases hlong : overlong? c with
      | some n => exact .inl ⟨.textTooLong n, .inr (by simp), if_neg hfull⟩
      | none => exact .inr ⟨rfl, by omega, rfl, if_neg hfull⟩

theorem extends_pushed (c : Constant) (p : Pool) : p.Extends (pushed c p) := by
  simp [Extends, pushed]

theorem size_pushed (c : Constant) (p : Pool) : (pushed c p).size = p.size + 1 := by
  simp [size, pushed]

theorem idxOf?_concat (entries : List Constant) (c d : Constant) :
    (entries ++ [c]).idxOf? d =
      (entries.idxOf? d).or (if c == d then some entries.length else none) := by
  rw [List.idxOf?, List.findIdx?_append]
  simp [List.findIdx?_singleton]

/-- Appending a constant that is absent keeps the index of first positions exact. -/
theorem sound_pushed {c : Constant} {p : Pool} (hp : p.Sound) (hnew : p.firstIndex[c]? = none)
    (hroom : p.size < capacity) : (pushed c p).Sound where
  indexed := by
    intro d
    have habsent : p.entries.toList.idxOf? c = none := by
      simpa [hp.indexed c] using hnew
    simp only [pushed, Array.toList_push, idxOf?_concat, Std.HashMap.getElem?_insert]
    by_cases hcd : c = d
    · subst hcd
      simp [habsent, size]
    · simp [hcd, hp.indexed d]
  fits := by
    rw [size_pushed]
    omega

theorem textsFit_pushed {c : Constant} {p : Pool} (hp : p.TextsFit) (hshort : overlong? c = none) :
    (pushed c p).TextsFit := by
  intro s hs
  rcases Array.mem_push.mp hs with hold | hnew
  · exact hp s hold
  · subst hnew
    simpa [overlong?] using hshort

theorem add_grows (c : Constant) : Respects Grows (add c) := by
  intro p
  rcases add_cases c p with ⟨i, -, h⟩ | ⟨e, -, h⟩ | ⟨hnew, hroom, hshort, h⟩
  · rw [h]
    exact grows_lasting.refl p
  · rw [h]
    exact grows_lasting.refl p
  · rw [h]
    exact ⟨extends_pushed c p, fun hp => sound_pushed hp hnew hroom,
      fun hp => textsFit_pushed hp hshort⟩

theorem addText_grows (s : String) : Respects Grows (addText s) :=
  add_grows _

theorem addInteger_grows (v : Int32) : Respects Grows (addInteger v) :=
  add_grows _

theorem addClass_grows (name : String) : Respects Grows (addClass name) :=
  (addText_grows name).bind grows_lasting fun _ => add_grows _

theorem addSignature_grows (name descriptor : String) :
    Respects Grows (addSignature name descriptor) :=
  (addText_grows name).bind grows_lasting fun _ =>
    (addText_grows descriptor).bind grows_lasting fun _ => add_grows _

theorem addMember_grows (kind : MemberKind) (owner name descriptor : String) :
    Respects Grows (addMember kind owner name descriptor) :=
  (addClass_grows owner).bind grows_lasting fun _ =>
    (addSignature_grows name descriptor).bind grows_lasting fun _ => add_grows _

/-! ## Indices that were handed out -/

theorem get?_mono {p q : Pool} {i : UInt16} {c : Constant} (h : p.Extends q)
    (hc : p.get? i = some c) : q.get? i = some c := by
  unfold get? at *
  split at hc
  · cases hc
  · next hi =>
    rw [if_neg hi, ← Array.getElem?_toList]
    rw [← Array.getElem?_toList] at hc
    obtain ⟨hlt, -⟩ := List.getElem?_eq_some_iff.mp hc
    obtain ⟨later, hlater⟩ := h
    rw [← hlater, List.getElem?_append_left hlt, hc]

theorem get?_of_toNat {p : Pool} {i : UInt16} {k : Nat} (h : i.toNat = k + 1) :
    p.get? i = p.entries[k]? := by
  have hne : i ≠ 0 := by
    rintro rfl
    simp at h
  rw [get?, if_neg hne, h, Nat.add_sub_cancel]

/-- An index that an addition gave leads to the constant. -/
theorem get?_of_add {c : Constant} {p q : Pool} {i : UInt16} (hp : p.Sound)
    (h : add c p = .ok i q) : q.get? i = some c := by
  -- Indices stay below 65536, so that no word wraps.
  have hfits := hp.fits
  unfold capacity at hfits
  rcases add_cases c p with ⟨j, hj, h'⟩ | ⟨e, -, h'⟩ | ⟨-, hroom, -, h'⟩
  · rw [h'] at h
    cases h
    rw [hp.indexed c] at hj
    obtain ⟨k, hk, rfl⟩ := Option.map_eq_some_iff.mp hj
    obtain ⟨hlt, hget, -⟩ := List.findIdx?_eq_some_iff_getElem.mp hk
    have hsize : k < p.size := hlt
    rw [get?_of_toNat (Word.toNat_toUInt16 (by omega)), ← Array.getElem?_toList,
      List.getElem?_eq_getElem hlt]
    simpa using hget
  · rw [h'] at h
    cases h
  · rw [h'] at h
    cases h
    unfold capacity at hroom
    rw [get?_of_toNat (Word.toNat_toUInt16 (by omega))]
    simp [pushed, size]

theorem textAt_eq_ok {p : Pool} {i : UInt16} {s : String} :
    p.textAt i = .ok s ↔ p.get? i = some (.text s) := by
  unfold textAt
  constructor
  · intro h
    split at h
    · next found => cases h; exact found
    · cases h
  · intro h
    rw [h]

theorem textAt_mono {p q : Pool} {i : UInt16} {s : String} (h : p.Extends q)
    (hs : p.textAt i = .ok s) : q.textAt i = .ok s :=
  textAt_eq_ok.mpr (get?_mono h (textAt_eq_ok.mp hs))

theorem classNameAt_of_get? {p : Pool} {i j : UInt16} {name : String}
    (hi : p.get? i = some (.type j)) (hj : p.textAt j = .ok name) : p.classNameAt i = .ok name := by
  rw [classNameAt, hi]
  exact hj

theorem classNameAt_mono {p q : Pool} {i : UInt16} {name : String} (h : p.Extends q)
    (hn : p.classNameAt i = .ok name) : q.classNameAt i = .ok name := by
  unfold classNameAt at hn
  split at hn
  · next j hi => exact classNameAt_of_get? (get?_mono h hi) (textAt_mono h hn)
  · cases hn

theorem signatureAt_of_get? {p : Pool} {i j k : UInt16} {name descriptor : String}
    (hi : p.get? i = some (.signature j k)) (hj : p.textAt j = .ok name)
    (hk : p.textAt k = .ok descriptor) : p.signatureAt i = .ok (name, descriptor) := by
  rw [signatureAt, hi]
  simp only [hj, hk]
  rfl

theorem memberAt_of_get? {p : Pool} {kind : MemberKind} {i j k : UInt16}
    {owner name descriptor : String} (hi : p.get? i = some (.member kind j k))
    (hj : p.classNameAt j = .ok owner) (hk : p.signatureAt k = .ok (name, descriptor)) :
    p.memberAt i = .ok ⟨owner, name, descriptor⟩ := by
  rw [memberAt, hi]
  simp only [hj, hk]
  rfl

/-! ## What successful operations refer to, in every later pool -/

section Resolution

variable {p q r : Pool} {i : UInt16}

theorem get?_of_addInteger {v : Int32} (hp : p.Sound) (h : addInteger v p = .ok i q)
    (hr : q.Extends r) : r.get? i = some (.integer v) :=
  get?_mono hr (get?_of_add hp h)

theorem textAt_of_addText {s : String} (hp : p.Sound) (h : addText s p = .ok i q)
    (hr : q.Extends r) : r.textAt i = .ok s :=
  textAt_eq_ok.mpr (get?_mono hr (get?_of_add hp h))

theorem classNameAt_of_addClass {name : String} (hp : p.Sound) (h : addClass name p = .ok i q)
    (hr : q.Extends r) : r.classNameAt i = .ok name := by
  obtain ⟨j, m, htext, htype⟩ := bind_eq_ok.mp h
  have hm := (addText_grows name).of_ok htext
  have hq := (add_grows _).of_ok htype
  exact classNameAt_of_get? (get?_mono hr (get?_of_add (hm.sound hp) htype))
    (textAt_of_addText hp htext (hq.earlier.trans hr))

theorem signatureAt_of_addSignature {name descriptor : String} (hp : p.Sound)
    (h : addSignature name descriptor p = .ok i q) (hr : q.Extends r) :
    r.signatureAt i = .ok (name, descriptor) := by
  obtain ⟨j, m, hname, h⟩ := bind_eq_ok.mp h
  obtain ⟨k, n, hdesc, h⟩ := bind_eq_ok.mp h
  have hm := (addText_grows name).of_ok hname
  have hn := (addText_grows descriptor).of_ok hdesc
  have hq := (add_grows _).of_ok h
  exact signatureAt_of_get? (get?_mono hr (get?_of_add (hn.sound (hm.sound hp)) h))
    (textAt_of_addText hp hname ((hn.earlier.trans hq.earlier).trans hr))
    (textAt_of_addText (hm.sound hp) hdesc (hq.earlier.trans hr))

theorem get?_of_addMember {kind : MemberKind} {owner name descriptor : String} (hp : p.Sound)
    (h : addMember kind owner name descriptor p = .ok i q) (hr : q.Extends r) :
    ∃ j k, r.get? i = some (.member kind j k) := by
  obtain ⟨j, m, howner, h⟩ := bind_eq_ok.mp h
  obtain ⟨k, n, hsig, h⟩ := bind_eq_ok.mp h
  have hm := (addClass_grows owner).of_ok howner
  have hn := (addSignature_grows name descriptor).of_ok hsig
  exact ⟨j, k, get?_mono hr (get?_of_add (hn.sound (hm.sound hp)) h)⟩

theorem memberAt_of_addMember {kind : MemberKind} {owner name descriptor : String} (hp : p.Sound)
    (h : addMember kind owner name descriptor p = .ok i q) (hr : q.Extends r) :
    r.memberAt i = .ok ⟨owner, name, descriptor⟩ := by
  obtain ⟨j, m, howner, h⟩ := bind_eq_ok.mp h
  obtain ⟨k, n, hsig, h⟩ := bind_eq_ok.mp h
  have hm := (addClass_grows owner).of_ok howner
  have hn := (addSignature_grows name descriptor).of_ok hsig
  have hq := (add_grows _).of_ok h
  exact memberAt_of_get? (get?_mono hr (get?_of_add (hn.sound (hm.sound hp)) h))
    (classNameAt_of_addClass hp howner ((hn.earlier.trans hq.earlier).trans hr))
    (signatureAt_of_addSignature (hm.sound hp) hsig (hq.earlier.trans hr))

end Resolution

/-! ## Operations that succeed where there is room -/

/-- With room for `n` entries an operation succeeds, and takes no more of it. -/
def Succeeds {α : Type} (n : Nat) (x : PoolM α) : Prop :=
  ∀ p, p.size + n ≤ capacity → ∃ v q, x p = .ok v q ∧ q.size ≤ p.size + n

theorem Succeeds.pure {α : Type} (v : α) : Succeeds 0 (pure v) :=
  fun p _ => ⟨v, p, rfl, Nat.le_refl _⟩

theorem Succeeds.bind {α β : Type} {m n : Nat} {x : PoolM α} {f : α → PoolM β}
    (hx : Succeeds m x) (hf : ∀ v, Succeeds n (f v)) : Succeeds (m + n) (x >>= f) := by
  intro p hroom
  obtain ⟨v, q, hq, hsize⟩ := hx p (by omega)
  obtain ⟨w, r, hr, hsize'⟩ := hf v q (by omega)
  exact ⟨w, r, by rw [bind_of_ok hq, hr], by omega⟩

theorem Succeeds.mono {α : Type} {m n : Nat} {x : PoolM α} (hx : Succeeds m x) (hmn : m ≤ n) :
    Succeeds n x := by
  intro p hroom
  obtain ⟨v, q, hq, hsize⟩ := hx p (by omega)
  exact ⟨v, q, hq, by omega⟩

theorem add_succeeds {c : Constant} (hshort : overlong? c = none) : Succeeds 1 (add c) := by
  intro p hroom
  rcases add_cases c p with ⟨i, -, h⟩ | ⟨e, hwhy | hwhy, -⟩ | ⟨-, -, -, h⟩
  · exact ⟨i, p, h, by omega⟩
  · omega
  · exact absurd hshort hwhy
  · exact ⟨_, _, h, Nat.le_of_eq (size_pushed c p)⟩

theorem addText_succeeds {s : String} (hshort : encodedLength s ≤ maxTextLength) :
    Succeeds 1 (addText s) :=
  add_succeeds (by rw [overlong?, if_neg (by omega)])

theorem addClass_succeeds {name : String} (hshort : encodedLength name ≤ maxTextLength) :
    Succeeds 2 (addClass name) :=
  (addText_succeeds hshort).bind fun _ => add_succeeds rfl

theorem addSignature_succeeds {name descriptor : String}
    (hname : encodedLength name ≤ maxTextLength)
    (hdescriptor : encodedLength descriptor ≤ maxTextLength) :
    Succeeds 3 (addSignature name descriptor) :=
  (addText_succeeds hname).bind fun _ =>
    (addText_succeeds hdescriptor).bind fun _ => add_succeeds rfl

theorem addMember_succeeds (kind : MemberKind) {owner name descriptor : String}
    (howner : encodedLength owner ≤ maxTextLength) (hname : encodedLength name ≤ maxTextLength)
    (hdescriptor : encodedLength descriptor ≤ maxTextLength) :
    Succeeds 6 (addMember kind owner name descriptor) :=
  (addClass_succeeds howner).bind fun _ =>
    (addSignature_succeeds hname hdescriptor).bind fun _ => add_succeeds rfl

/-- A text that is too long was never added, and is refused for its length. -/
theorem addText_refuses {p : Pool} {s : String} (hp : p.Sound) (htexts : p.TextsFit)
    (hroom : p.size < capacity) (hlong : maxTextLength < encodedLength s) :
    addText s p = .error (.textTooLong (encodedLength s)) p := by
  have habsent : p.entries.toList.idxOf? (.text s) = none := by
    refine List.idxOf?_eq_none_iff.mpr fun hmem => ?_
    have hshort := htexts s (Array.mem_toList_iff.mp hmem)
    omega
  have hnone : p.firstIndex[Constant.text s]? = none := by
    rw [hp.indexed, habsent]
    rfl
  have hoverlong : overlong? (.text s) = some (encodedLength s) := by
    rw [overlong?, if_pos hlong]
  simp only [addText, add, hnone, hoverlong, if_neg (Nat.not_le.mpr hroom)]

/-! ## Adding again -/

/-- A constant keeps its first index in every pool that extends one which has it. -/
theorem firstIndex_mono {p q : Pool} {c : Constant} {i : UInt16} (hp : p.Sound) (hq : q.Sound)
    (h : p.Extends q) (hc : p.firstIndex[c]? = some i) : q.firstIndex[c]? = some i := by
  obtain ⟨rest, hrest⟩ := h
  rw [hp.indexed] at hc
  obtain ⟨k, hk, hi⟩ := Option.map_eq_some_iff.mp hc
  have hsame : q.entries.toList.idxOf? c = some k := by
    rw [← hrest, List.idxOf?, List.findIdx?_append]
    rw [List.idxOf?] at hk
    rw [hk]
    rfl
  rw [hq.indexed, hsame]
  exact congrArg some hi

/-- What an operation added once, it finds again in every later pool. -/
def Repeats {α : Type} (x : PoolM α) : Prop :=
  ∀ p q r v, p.Sound → x p = .ok v q → q.Extends r → r.Sound → x r = .ok v r

/-- A constant that was added once is found again, at the same index, and the pool stays as it
is. -/
theorem add_repeats (c : Constant) : Repeats (add c) := by
  intro p q r i hp hadd hlater hr
  have hq := ((add_grows c).of_ok hadd).sound hp
  have hfound : q.firstIndex[c]? = some i := by
    rcases add_cases c p with ⟨j, hj, h⟩ | ⟨e, -, h⟩ | ⟨-, -, -, h⟩
    · rw [h] at hadd
      cases hadd
      exact hj
    · rw [h] at hadd
      cases hadd
    · rw [h] at hadd
      cases hadd
      simp [pushed]
  have hagain := firstIndex_mono hq hr hlater hfound
  simp only [add, hagain]

theorem Repeats.bind {α β : Type} {x : PoolM α} {f : α → PoolM β} (hx : Repeats x)
    (hxg : Respects Grows x) (hf : ∀ v, Repeats (f v)) (hfg : ∀ v, Respects Grows (f v)) :
    Repeats (x >>= f) := by
  intro p q r w hp hbind hlater hr
  obtain ⟨v, m, hm, hq⟩ := bind_eq_ok.mp hbind
  have hmq := ((hfg v).of_ok hq).earlier
  rw [bind_of_ok (hx p m r v hp hm (hmq.trans hlater) hr)]
  exact hf v m q r w ((hxg.of_ok hm).sound hp) hq hlater hr

theorem addClass_repeats (name : String) : Repeats (addClass name) :=
  (add_repeats _).bind (add_grows _) (fun _ => add_repeats _) fun _ => add_grows _

theorem addSignature_repeats (name descriptor : String) : Repeats (addSignature name descriptor) :=
  (add_repeats _).bind (add_grows _)
    (fun _ => (add_repeats _).bind (add_grows _) (fun _ => add_repeats _) fun _ => add_grows _)
    fun _ => (add_grows _).bind grows_lasting fun _ => add_grows _

theorem addMember_repeats (kind : MemberKind) (owner name descriptor : String) :
    Repeats (addMember kind owner name descriptor) :=
  (addClass_repeats owner).bind (addClass_grows owner)
    (fun _ => (addSignature_repeats name descriptor).bind (addSignature_grows name descriptor)
      (fun _ => add_repeats _) fun _ => add_grows _)
    fun _ => (addSignature_grows name descriptor).bind grows_lasting fun _ => add_grows _

end StackGlyph.Pool
