import Mathlib
import StackGlyph.Proofs.StablePools

/-!
# Which pools can be written

A pool is written with a count of its entries and a length for each of its texts, both of 16 bits.
Calls keep to these limits whatever they are asked for, and so does the list of entries with which a
pool begins, as far as their number goes. Only the texts in that list are taken as they are: with
one that is too long, the bytes of the pool mean something else.
-/
namespace StackGlyph.Pool

open PoolCall Text.ModifiedUtf8

/-- Every text of the second pool is short enough to be written, or stood in the first. -/
def TextsFitSince (p q : Pool) : Prop :=
  ∀ s, .text s ∈ q.entries → encodedLength s ≤ maxTextLength ∨ .text s ∈ p.entries

theorem textsFitSince_lasting : Lasting TextsFitSince where
  refl _ _ hs := .inr hs
  trans h h' s hs := by
    rcases h' s hs with hfits | hs
    · exact .inl hfits
    · exact h s hs

/-- A text is measured before it is appended, and one that is found was there. -/
theorem add_textsFitSince (c : Constant) : Respects TextsFitSince (add c) := by
  intro p
  rcases add_cases c p with ⟨i, -, h⟩ | ⟨e, -, h⟩ | ⟨-, -, hshort, h⟩
  · rw [h]
    exact textsFitSince_lasting.refl p
  · rw [h]
    exact textsFitSince_lasting.refl p
  · rw [h, leftBy_ok]
    intro s hs
    rw [pushed, Array.mem_push] at hs
    rcases hs with hs | rfl
    · exact .inr hs
    · left
      simpa [overlong?] using hshort

theorem afterAll_textsFitSince (p : Pool) (calls : List PoolCall) :
    p.TextsFitSince (afterAll p calls) :=
  afterAll_respects textsFitSince_lasting add_textsFitSince p calls

/-- Along every history there are at most 65534 entries, and no call brings in a text of more than
65535 bytes. So the bytes of the pool, whatever follows them, are read back as its entries if all
texts with which it began are short enough; and if they are read back so at all, then these are. -/
theorem written_of_history {p : Pool} (hp : p.Initial) (calls : List PoolCall) :
    let q := afterAll p calls
    q.size ≤ 65534 ∧
    (∀ s, .text s ∈ q.entries → 65535 < (encode s).length → .text s ∈ p.entries) ∧
    ((∀ s, .text s ∈ p.entries → (encode s).length ≤ 65535) →
      ∃ q', q'.entries = q.entries ∧ ∀ rest offset,
        Reader.pool ⟨q.bytes ++ rest, offset⟩ = .ok (q', ⟨rest, offset + q.bytes.length⟩)) ∧
    (∀ rest offset q' c, Reader.pool ⟨q.bytes ++ rest, offset⟩ = .ok (q', c) →
      q'.entries = q.entries → ∀ s, .text s ∈ p.entries → (encode s).length ≤ 65535) := by
  intro q
  have hgrows : p.Grows q := afterAll_grows p calls
  have hsound : q.Sound := hgrows.sound hp.sound
  refine ⟨hsound.fits, ?_, ?_, ?_⟩
  · intro s hs hlong
    rw [length_encode] at hlong
    exact (afterAll_textsFitSince p calls s hs).resolve_left hlong.not_ge
  · intro hshort
    have htexts : p.TextsFit := by
      intro s hs
      rw [← length_encode]
      exact hshort s hs
    exact Reader.reads_pool hsound (hgrows.textsFit htexts)
  · intro rest offset q' c hread hentries s hs
    have hmem : .text s ∈ q'.entries := by
      rw [hentries, ← Array.mem_toList_iff]
      exact hgrows.earlier.subset (Array.mem_toList_iff.mpr hs)
    rw [length_encode]
    exact (Reader.pool_fits hread).2 s hmem

def manyX (n : Nat) : String :=
  .ofList (List.replicate n 'x')

theorem encode_manyX (n : Nat) : encode (manyX n) = List.replicate n 0x78 := by
  have hunits : Text.Utf16.units (manyX n) = List.replicate n 0x78 := by
    rw [Text.Utf16.units, manyX, String.toList_ofList, List.flatMap_replicate]
    exact List.flatten_replicate_singleton
  rw [encode, hunits, List.flatMap_replicate]
  exact List.flatten_replicate_singleton

theorem bytes_manyX (n : Nat) : Constant.bytes (.text (manyX n)) =
    1 :: (Word.bytes16 n.toUInt16 ++ List.replicate n 0x78) := by
  simp only [Constant.bytes, Constant.tag, encode_manyX, List.length_replicate]

/-- A pool of given entries that is asked for a text that is too long and for a class. -/
theorem written_of_history_refused :
    ∃ p q', ofEntries #[.text "A", .type 1, .type 1] = .ok p ∧
      let q := afterAll p [.add (.text (manyX 65536)), .refer (.type "B")]
      q'.entries = q.entries ∧ ∀ rest offset,
        Reader.pool ⟨q.bytes ++ rest, offset⟩ = .ok (q', ⟨rest, offset + q.bytes.length⟩) := by
  obtain ⟨p, hp, hentries⟩ :=
    @Reader.ofEntries_eq_ok #[.text "A", .type 1, .type 1] (by decide)
  obtain ⟨-, -, hback, -⟩ := written_of_history (.inr ⟨_, hp⟩)
    [.add (.text (manyX 65536)), .refer (.type "B")]
  obtain ⟨q', hsame, hread⟩ := hback (by
    intro s hs
    rw [hentries] at hs
    obtain rfl : s = "A" := by simpa using hs
    decide)
  exact ⟨p, q', hp, hsame, hread⟩

/-- A text of one byte more than can be written is refused when it is added and accepted in a list
of entries. The bytes of that pool begin with the pool of an empty text. -/
theorem long_text_given :
    addText (manyX 65536) .empty = .error (.textTooLong 65536) .empty ∧
    ∃ p q', ofEntries #[.text (manyX 65536)] = .ok p ∧ q'.entries = #[.text ""] ∧
      Reader.pool ⟨p.bytes, 0⟩ = .ok (q', ⟨List.replicate 65536 0x78, 5⟩) := by
  have hlength : encodedLength (manyX 65536) = 65536 := by
    rw [← length_encode, encode_manyX, List.length_replicate]
  constructor
  · have hrefused := addText_refuses sound_empty textsFit_empty (s := manyX 65536) (by decide)
      (by rw [hlength]; decide)
    rwa [hlength] at hrefused
  · obtain ⟨p, hp, hentries⟩ := @Reader.ofEntries_eq_ok #[.text (manyX 65536)] (by decide)
    obtain ⟨e, he, hempty⟩ := @Reader.ofEntries_eq_ok #[.text ""] (by decide)
    have hfits : e.TextsFit := by
      intro s hs
      rw [hempty] at hs
      obtain rfl : s = "" := by simpa using hs
      decide
    obtain ⟨q', hsame, hread⟩ := Reader.reads_pool (sound_ofEntries he) hfits
    have hbytes : p.bytes = e.bytes ++ List.replicate 65536 0x78 := by
      rw [bytes, bytes, size, size, hentries, hempty, List.flatMap_singleton, bytes_manyX]
      rfl
    have hshort : e.bytes.length = 5 := by
      rw [bytes, size, hempty]
      rfl
    refine ⟨p, q', hp, hsame.trans hempty, ?_⟩
    rw [hbytes, hread, hshort]

end StackGlyph.Pool
