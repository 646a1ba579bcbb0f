import Mathlib
import StackGlyph.Proofs.PoolHistories
import StackGlyph.Proofs.TextLanguage
import StackGlyph.Proofs.Truncation

/-!
# Pools that were read and are written again

A pool that was read need not be one that this library would build: entries may stand in it twice,
indices may lead nowhere, and texts may be encoded in more bytes than they need. It can be written
all the same. The entries fit the count, because a count told how many there were, and each text
fits its length, because writing it takes no more bytes than were read.
-/
namespace StackGlyph.Reader

open Text.ModifiedUtf8 (encodedLength)

variable {α : Type}

theorem pure_eq_ok {v w : α} {c c' : Cursor} :
    (pure v : Reader α) c = .ok (w, c') ↔ v = w ∧ c = c' := by
  show Except.ok (v, c) = _ ↔ _
  simp

theorem ofExcept_eq_ok {x : Except Fault α} {c c' : Cursor} {v : α} :
    (ofExcept x : Reader α) c = .ok (v, c') ↔ x = .ok v ∧ c = c' := by
  cases x with
  | error e =>
    show Except.error e = _ ↔ _
    simp
  | ok w =>
    show Except.ok (w, c) = _ ↔ _
    simp

/-- A text that was read from a pool fits the length with which it is written. -/
theorem fits_of_constant {index : Nat} {c c' : Cursor} {s : String}
    (h : constant index c = .ok (.text s, c')) : encodedLength s ≤ Pool.maxTextLength := by
  have hone {γ : Type} {f : γ → Constant} (hf : ∀ a, f a ≠ .text s) {r : Reader γ} {c : Cursor} :
      (do return f (← r)) c ≠ .ok (.text s, c') := by
    intro h
    obtain ⟨a, m, -, h⟩ := bind_eq_ok.mp h
    exact hf a (pure_eq_ok.mp h).1
  have htwo {f : UInt16 → UInt16 → Constant} (hf : ∀ i j, f i j ≠ .text s) {c : Cursor} :
      (do return f (← word) (← word)) c ≠ .ok (.text s, c') := by
    intro h
    obtain ⟨i, m, -, h⟩ := bind_eq_ok.mp h
    exact hone (hf i) h
  obtain ⟨tag, c, -, h⟩ := bind_eq_ok.mp h
  split at h
  · obtain ⟨size, c, -, h⟩ := bind_eq_ok.mp h
    obtain ⟨encoded, c, htake, h⟩ := bind_eq_ok.mp h
    cases hdecode : Text.ModifiedUtf8.decode encoded with
    | error cause =>
      rw [hdecode] at h
      cases h
    | ok text =>
      rw [hdecode] at h
      cases h
      have hle := Text.ModifiedUtf8.length_of_decode hdecode
      have hsize : size.toNat < 0x10000 := size.toNat_lt
      rw [Text.ModifiedUtf8.length_encode, (length_of_take htake).1] at hle
      unfold Pool.maxTextLength
      omega
  -- No other tag gives a text.
  split at h
  · exact absurd h (hone (by simp))
  split at h
  · exact absurd h (hone (by simp))
  split at h
  · exact absurd h (hone (by simp))
  split at h
  · exact absurd h (htwo (by simp))
  split at h
  · exact absurd h (htwo (by simp))
  split at h
  · exact absurd h (htwo (by simp))
  split at h
  · exact absurd h (htwo (by simp))
  · cases h

/-- What holds of every item that can be read holds of all that are collected. -/
theorem collect_forall {item : Nat → Reader α} {P : α → Prop}
    (hitem : ∀ turn c v c', item turn c = .ok (v, c') → P v) {n turn : Nat} {found : Array α}
    {c c' : Cursor} {vs : List α} (hfound : ∀ v ∈ found.toList, P v)
    (h : collect item turn found n c = .ok (vs, c')) : ∀ v ∈ vs, P v := by
  induction n generalizing turn found c with
  | zero =>
    cases h
    exact hfound
  | succ n ih =>
    obtain ⟨v, m, hv, h⟩ := bind_eq_ok.mp h
    refine ih ?_ h
    intro w hw
    rw [Array.toList_push, List.mem_append, List.mem_singleton] at hw
    rcases hw with hw | rfl
    · exact hfound w hw
    · exact hitem turn c w m hv

/-- A pool that was read can be written. -/
theorem pool_fits {c c' : Cursor} {p : Pool} (h : pool c = .ok (p, c')) :
    p.Sound ∧ p.TextsFit := by
  obtain ⟨count, m, -, h⟩ := bind_eq_ok.mp h
  obtain ⟨entries, m, hentries, h⟩ := bind_eq_ok.mp h
  obtain ⟨hpool, -⟩ := ofExcept_eq_ok.mp h
  refine ⟨Pool.sound_ofEntries hpool, ?_⟩
  have htexts : ∀ k ∈ entries, ∀ s, k = .text s → encodedLength s ≤ Pool.maxTextLength := by
    refine collect_forall ?_ (by simp) hentries
    rintro turn c _ m hread s rfl
    exact fits_of_constant hread
  intro s hs
  rw [Pool.entries_of_ofEntries hpool, List.mem_toArray] at hs
  exact htexts (.text s) hs s rfl

/-- A pool that was read, whatever it holds, is written as bytes that are read back to the last one,
whatever follows them. This gives the same entries in the same order, and these are written as the
same bytes. -/
theorem pool_stable {c c' : Cursor} {p : Pool} (h : pool c = .ok (p, c')) :
    ∃ q, (∀ rest offset, pool ⟨p.bytes ++ rest, offset⟩ =
        .ok (q, ⟨rest, offset + p.bytes.length⟩)) ∧
      q.entries = p.entries ∧ q.bytes = p.bytes := by
  obtain ⟨hsound, htexts⟩ := pool_fits h
  obtain ⟨q, hentries, hreads⟩ := reads_pool hsound htexts
  refine ⟨q, hreads, hentries, ?_⟩
  rw [Pool.bytes, Pool.bytes, Pool.size, Pool.size, hentries]

/-- A text in more bytes than it needs, the same text again, and twice a class whose name is
nowhere: the text is shortened, all else stays. -/
theorem pool_stable_foreign :
    ∃ p q, pool ⟨[0, 5, 1, 0, 2, 0xC1, 0x81, 1, 0, 1, 0x41, 7, 0xFF, 0xFF, 7, 0xFF, 0xFF], 0⟩ =
        .ok (p, ⟨[], 17⟩) ∧
      p.bytes = [0, 5, 1, 0, 1, 0x41, 1, 0, 1, 0x41, 7, 0xFF, 0xFF, 7, 0xFF, 0xFF] ∧
      pool ⟨p.bytes, 0⟩ = .ok (q, ⟨[], p.bytes.length⟩) ∧
      q.entries = p.entries ∧ q.bytes = p.bytes := by
  obtain ⟨p, hp, hentries⟩ :=
    @ofEntries_eq_ok #[.text "A", .text "A", .type 0xFFFF, .type 0xFFFF] (by decide)
  have hread : pool ⟨[0, 5, 1, 0, 2, 0xC1, 0x81, 1, 0, 1, 0x41, 7, 0xFF, 0xFF, 7, 0xFF, 0xFF], 0⟩ =
      .ok (p, ⟨[], 17⟩) := by
    show (ofExcept (Pool.ofEntries #[.text "A", .text "A", .type 0xFFFF, .type 0xFFFF]) :
      Reader Pool) ⟨[], 17⟩ = _
    rw [hp]
    rfl
  obtain ⟨q, hagain, hsame, hbytes⟩ := pool_stable hread
  have hagain := hagain [] 0
  rw [List.append_nil, Nat.zero_add] at hagain
  refine ⟨p, q, hread, ?_, hagain, hsame, hbytes⟩
  rw [Pool.bytes, Pool.size, hentries]
  rfl

end StackGlyph.Reader
