import Mathlib
import StackGlyph.Console.Session

/-!
# The grammar of class names

A text names a class exactly if it is a sequence of segments joined by dots. The internal form joins
the same segments by slashes, and no segment holds either, so each form can be turned into the other
character by character. The name that a source file lends to its class is one segment, whatever the
file is called: what is said here of letters and capitals is only that they are no separators.
-/
namespace StackGlyph

namespace ClassName

/-- The characters that stand in no segment: the dot between segments and those that have a meaning
in class files. -/
def reserved : List Char := ['.', '/', ';', '[']

/-- Segments that name a class. -/
structure WellFormed (segments : List String) : Prop where
  ne_nil : segments ≠ []
  ne_empty : ∀ s ∈ segments, s ≠ ""
  plain : ∀ s ∈ segments, ∀ c ∈ s.toList, c ∉ reserved

/-- The character with one separator put in another's place. -/
def exchange (old new c : Char) : Char :=
  if c = old then new else c

theorem mem_reserved {c : Char} : c ∈ reserved ↔ c = '.' ∨ isForbidden c = true := by
  simp [reserved, isForbidden, or_assoc]

/-! ## Splitting and joining -/

section Joined

variable {α : Type} {x : α}

/-- A piece is made of characters of the text and lacks the separator. -/
theorem mem_of_mem_splitOn [DecidableEq α] {text piece : List α} (h : piece ∈ text.splitOn x) :
    x ∉ piece ∧ piece ⊆ text := by
  induction text generalizing piece with
  | nil =>
    rw [List.splitOn_nil, List.mem_singleton] at h
    simp [h]
  | cons c text ih =>
    rw [List.splitOn_cons_eq_if_modifyHead] at h
    obtain ⟨first, rest, hsplit⟩ := List.exists_cons_of_ne_nil (List.splitOn_ne_nil x text)
    rw [hsplit] at h ih
    split at h
    · rcases List.mem_cons.mp h with rfl | h
      · simp
      · exact ⟨(ih h).1, List.subset_cons_of_subset c (ih h).2⟩
    · next hc =>
      rcases List.mem_cons.mp h with rfl | h
      · have hfirst := ih List.mem_cons_self
        have hne : x ≠ c := fun heq => hc (by simp [heq])
        exact ⟨by simp [hne, hfirst.1], List.cons_subset_cons c hfirst.2⟩
      · have hpiece := ih (List.mem_cons_of_mem first h)
        exact ⟨hpiece.1, List.subset_cons_of_subset c hpiece.2⟩

/-- A character of joined pieces is the separator or comes from one of them. -/
theorem mem_joined {c : α} {pieces : List (List α)} (h : c ∈ [x].intercalate pieces) :
    c = x ∨ ∃ piece ∈ pieces, c ∈ piece := by
  induction pieces with
  | nil => simp at h
  | cons piece pieces ih =>
    cases pieces with
    | nil => exact .inr ⟨piece, List.mem_cons_self, by simpa using h⟩
    | cons next pieces =>
      rw [List.intercalate_cons_cons, List.mem_append, List.mem_append, List.mem_singleton] at h
      rcases h with (h | h) | h
      · exact .inr ⟨piece, List.mem_cons_self, h⟩
      · exact .inl h
      · rcases ih h with hx | ⟨other, hother, hc⟩
        · exact .inl hx
        · exact .inr ⟨other, List.mem_cons_of_mem piece hother, hc⟩

theorem map_joined (f : α → α) (pieces : List (List α)) :
    ([x].intercalate pieces).map f = [f x].intercalate (pieces.map (List.map f)) := by
  induction pieces with
  | nil => simp
  | cons piece pieces ih =>
    cases pieces with
    | nil => simp
    | cons next pieces =>
      rw [List.map_cons, List.map_cons, List.intercalate_cons_cons, List.intercalate_cons_cons,
        ← List.map_cons, ← ih]
      simp

end Joined

/-! ## The two forms -/

variable {text : String} {segments : List String} {name : ClassName}

/-- A text is accepted exactly if its pieces between the dots are not empty and it holds no
forbidden character. -/
theorem parse_eq_ok :
    parse text = .ok name ↔
      [] ∉ text.toList.splitOn '.' ∧ (∀ c ∈ text.toList, isForbidden c = false) ∧
      name = ⟨(text.toList.splitOn '.').map String.ofList⟩ := by
  constructor
  · intro h
    dsimp only [parse] at h
    split at h
    · cases h
    split at h
    · cases h
    · next hpieces =>
      split at h
      · cases h
      · next hallowed =>
        cases h
        exact ⟨by simpa using hpieces, by simpa using hallowed, rfl⟩
  · rintro ⟨hpieces, hallowed, rfl⟩
    have hempty : text.isEmpty = false := by
      rw [Bool.eq_false_iff, ne_eq, String.isEmpty_iff]
      rintro rfl
      exact hpieces (by simp)
    have hsegments : (text.toList.splitOn '.').any List.isEmpty = false := by
      rw [List.any_eq_false]
      intro piece hpiece hnone
      exact hpieces (List.isEmpty_iff.mp hnone ▸ hpiece)
    have hforbidden : text.toList.any isForbidden = false := by
      simpa using hallowed
    simp [parse, hempty, hsegments, hforbidden]

/-- An accepted name is the dotted form of what it names. -/
theorem dotted_of_parse (h : parse text = .ok name) : name.dotted = text := by
  obtain ⟨-, -, rfl⟩ := parse_eq_ok.mp h
  apply String.toList_inj.mp
  rw [dotted, String.toList_intercalate, List.map_map]
  simp only [Function.comp_def, String.toList_ofList, List.map_id']
  exact List.intercalate_splitOn '.'

theorem splitOn_dotted (h : WellFormed segments) :
    (".".intercalate segments).toList.splitOn '.' = segments.map String.toList := by
  rw [String.toList_intercalate]
  apply List.splitOn_intercalate
  · intro piece hpiece hdot
    obtain ⟨s, hs, rfl⟩ := List.mem_map.mp hpiece
    exact h.plain s hs '.' hdot (by decide)
  · simpa using h.ne_nil

/-- Well-formed segments are read back from their dotted form, which splits where they were
joined. -/
theorem parse_dotted (h : WellFormed segments) :
    parse (".".intercalate segments) = .ok ⟨segments⟩ := by
  rw [parse_eq_ok, splitOn_dotted h]
  refine ⟨?_, ?_, by simp [Function.comp_def]⟩
  · intro hnone
    obtain ⟨s, hs, hempty⟩ := List.mem_map.mp hnone
    exact h.ne_empty s hs (String.toList_eq_nil_iff.mp hempty)
  · intro c hc
    rw [String.toList_intercalate] at hc
    rcases mem_joined hc with rfl | ⟨piece, hpiece, hc⟩
    · decide
    · obtain ⟨s, hs, rfl⟩ := List.mem_map.mp hpiece
      have hplain := h.plain s hs c hc
      rw [mem_reserved, not_or] at hplain
      simpa using hplain.2

/-- What is read is well-formed: every check of a segment was passed. -/
theorem wellFormed_of_parse (h : parse text = .ok name) : WellFormed name.segments := by
  obtain ⟨hpieces, hallowed, rfl⟩ := parse_eq_ok.mp h
  refine ⟨by simp, ?_, ?_⟩
  · intro s hs hempty
    obtain ⟨piece, hpiece, rfl⟩ := List.mem_map.mp hs
    rw [String.ofList_eq_empty_iff] at hempty
    exact hpieces (hempty ▸ hpiece)
  · intro s hs c hc hreserved
    obtain ⟨piece, hpiece, rfl⟩ := List.mem_map.mp hs
    rw [String.toList_ofList] at hc
    obtain ⟨hdot, hsubset⟩ := mem_of_mem_splitOn hpiece
    rcases mem_reserved.mp hreserved with rfl | hforbidden
    · exact hdot hc
    · rw [hallowed c (hsubset hc)] at hforbidden
      cases hforbidden

/-- Segments joined by one separator become those joined by another if the first is exchanged for
the second throughout: no segment holds the first. -/
theorem map_exchange (h : WellFormed segments) {old new : Char} (hold : old ∈ reserved) :
    ([old].intercalate (segments.map String.toList)).map (exchange old new) =
      [new].intercalate (segments.map String.toList) := by
  have hkeeps : ∀ s ∈ segments, s.toList.map (exchange old new) = s.toList := by
    intro s hs
    calc
      s.toList.map (exchange old new) = s.toList.map id := by
        apply List.map_congr_left
        intro c hc
        apply if_neg
        rintro rfl
        exact h.plain s hs c hc hold
      _ = s.toList := List.map_id _
  rw [map_joined, exchange, if_pos rfl, List.map_map]
  congr 1
  exact List.map_congr_left hkeeps

theorem internal_of_parse (h : parse text = .ok name) :
    name.internal = text.map (exchange '.' '/') := by
  apply String.toList_inj.mp
  rw [← dotted_of_parse h, dotted, internal, String.toList_map, String.toList_intercalate,
    String.toList_intercalate]
  have hdot : '.' ∈ reserved := by decide
  exact (map_exchange (wellFormed_of_parse h) hdot).symm

theorem text_of_internal (h : parse text = .ok name) :
    name.internal.map (exchange '/' '.') = text := by
  apply String.toList_inj.mp
  rw [← dotted_of_parse h, dotted, internal, String.toList_map, String.toList_intercalate,
    String.toList_intercalate]
  have hslash : '/' ∈ reserved := by decide
  exact map_exchange (wellFormed_of_parse h) hslash

end ClassName

/-! ## The names of files -/

namespace Text

/-- An alphabet whose capitals and name characters can stand in a segment. -/
structure Alphabet.Suits (alphabet : Alphabet) : Prop where
  capital : ∀ c, alphabet.isLetter c = true → ∀ d ∈ alphabet.capital c, d ∉ ClassName.reserved
  nameChar : ∀ c ∈ ClassName.reserved, alphabet.isNameChar c = false

def reservedCodes : List Nat := [0x2e, 0x2f, 0x3b, 0x5b]

theorem toNat_mem_reservedCodes {c : Char} (h : c ∈ ClassName.reserved) :
    c.toNat ∈ reservedCodes := by
  have hcodes : ClassName.reserved.map Char.toNat = reservedCodes := by decide
  rw [← hcodes]
  exact List.mem_map_of_mem h

theorem ofNat_not_mem {n : Nat} (h : n ∉ reservedCodes) : Char.ofNat n ∉ ClassName.reserved := by
  intro hmem
  have hcode := toNat_mem_reservedCodes hmem
  rw [Char.toNat_ofNat] at hcode
  split at hcode
  · exact h hcode
  · exact absurd hcode (by decide)

theorem expansions_clear : ∀ e ∈ expansions, ∀ n ∈ e.2, n ∉ reservedCodes := by
  decide +kernel

/-- No run of the table leads across one of the reserved characters. -/
theorem caseRuns_clear :
    ∀ r ∈ caseRuns, ∀ n ∈ reservedCodes,
      ¬((r.first : Int) + r.shift ≤ n ∧ (n : Int) ≤ r.last + r.shift) := by
  decide +kernel

theorem CaseRun.shifted_not_mem {r : CaseRun} {n : Nat} (hr : r ∈ caseRuns)
    (hn : r.covers n = true) : (n + r.shift).toNat ∉ reservedCodes := by
  intro hmem
  have hpos : ∀ code ∈ reservedCodes, 0 < code := by decide
  have hclear := caseRuns_clear r hr _ hmem
  have hcode := hpos _ hmem
  simp only [covers, Bool.and_eq_true, decide_eq_true_eq] at hn
  omega

/-- None of the reserved characters is a letter or a numeral. -/
theorem isAlphanumeric_reserved {c : Char} (h : c ∈ ClassName.reserved) :
    isAlphanumeric c = false := by
  have hletters : ∀ n ∈ reservedCodes, withinMarks alphabeticMarks n = false := by
    -- Part by part the table is short enough for the kernel to count.
    simp only [withinMarks, alphabeticMarks, List.countP_append]
    decide +kernel
  have hnumerals : ∀ n ∈ reservedCodes, withinMarks numericMarks n = false := by
    simp only [withinMarks, numericMarks, List.countP_append]
    decide +kernel
  have hcode := toNat_mem_reservedCodes h
  simp [isAlphanumeric, isAlphabetic, hletters _ hcode, hnumerals _ hcode]

/-- No letter has a reserved character in its upper case: none is in the table of expansions, no
case run leads to one, and a letter that stays itself is not reserved. -/
theorem upperCase_not_mem {c d : Char} (hletter : isAlphabetic c = true) (h : d ∈ upperCase c) :
    d ∉ ClassName.reserved := by
  unfold upperCase at h
  split at h
  · next codes hcodes =>
    obtain ⟨n, hn, rfl⟩ := List.mem_map.mp h
    obtain ⟨before, after, htable, -⟩ := List.lookup_eq_some_iff.mp hcodes
    exact ofNat_not_mem (expansions_clear (c.toNat, codes) (by simp [htable]) n hn)
  split at h
  · next run hrun =>
    rw [List.mem_singleton] at h
    subst h
    have hcovers := List.find?_some hrun
    exact ofNat_not_mem (CaseRun.shifted_not_mem (List.mem_of_find?_eq_some hrun) hcovers)
  · rw [List.mem_singleton] at h
    subst h
    intro hmem
    have hname := isAlphanumeric_reserved hmem
    simp [isAlphanumeric, hletter] at hname

theorem unicode_suits : Alphabet.unicode.Suits where
  capital _ hletter _ hd := upperCase_not_mem hletter hd
  nameChar _ hc := isAlphanumeric_reserved hc

end Text

namespace ClassName

variable {alphabet : Text.Alphabet}

/-- No character is adapted to a reserved one. -/
theorem adapt_plain (h : alphabet.Suits) {first : Bool} {c d : Char}
    (hd : d ∈ adapt alphabet first c) : d ∉ reserved := by
  unfold adapt at hd
  split at hd
  · next hletter =>
    rw [Bool.and_eq_true] at hletter
    exact h.capital c hletter.2 d hd
  split at hd
  · next hname =>
    rw [List.mem_singleton] at hd
    subst hd
    intro hreserved
    rw [h.nameChar d hreserved, Bool.false_or, Bool.or_eq_true, beq_iff_eq, beq_iff_eq] at hname
    rcases hname with rfl | rfl <;> exact absurd hreserved (by decide)
  split at hd
  · cases hd
  · rw [List.mem_singleton] at hd
    subst hd
    decide

/-- A text that is one segment and has no digit at its front. -/
structure Lendable (text : String) : Prop where
  ne_empty : text ≠ ""
  plain : ∀ c ∈ text.toList, c ∉ reserved
  head : ∀ c ∈ text.toList.head?, c.isDigit = false

theorem fallback_lendable : Lendable fallback where
  ne_empty := by simp [fallback]
  plain := by simp [fallback, reserved]
  head := by simp [fallback]

/-- Whatever a file is called, its name suggests one that is a segment by itself and has no digit at
its front. -/
theorem ofStem_lendable (h : alphabet.Suits) (stem : List Char) :
    Lendable (ofStem alphabet stem) := by
  -- `adapt` lets through no reserved character, and the last check catches a digit at the front.
  have hplain (c : Char) (rest : List Char) :
      ∀ d ∈ adapt alphabet true c ++ rest.flatMap (adapt alphabet false), d ∉ reserved := by
    intro d hd
    rcases List.mem_append.mp hd with hd | hd
    · exact adapt_plain h hd
    · obtain ⟨other, -, hd⟩ := List.mem_flatMap.mp hd
      exact adapt_plain h hd
  cases stem with
  | nil => exact fallback_lendable
  | cons c rest =>
    dsimp only [ofStem]
    split
    · exact fallback_lendable
    · next hname =>
      rw [Bool.or_eq_true, not_or] at hname
      refine ⟨?_, ?_, ?_⟩
      · simpa using hname.1
      · simpa using hplain c rest
      · simpa [Option.any_eq_true] using hname.2

theorem Lendable.parse_eq {text : String} (h : Lendable text) : parse text = .ok ⟨[text]⟩ := by
  have hsegments : WellFormed [text] := by
    refine ⟨by simp, ?_, ?_⟩
    · simpa using h.ne_empty
    · simpa using h.plain
  exact parse_dotted hsegments

/-! ## Accepted and lent names -/

/-- A text is accepted exactly if it is a sequence of well-formed segments joined by dots, and it
names these segments. The internal form joins them by slashes: it is the text with a slash for each
dot, the text is it with a dot for each slash, and so different accepted texts have different
internal forms. Whatever input there is, the name that it lends is accepted as a single segment, the
same in both forms, and begins with no digit; of the alphabet, only what `Suits` says is used. -/
theorem accepted_names :
    (∀ text segments, parse text = .ok ⟨segments⟩ ↔
      WellFormed segments ∧ text = ".".intercalate segments) ∧
    (∀ text name, parse text = .ok name →
      name.dotted = text ∧ name.internal = "/".intercalate name.segments ∧
      name.internal = text.map (exchange '.' '/') ∧
      name.internal.map (exchange '/' '.') = text) ∧
    (∀ text text' name name', parse text = .ok name → parse text' = .ok name' →
      text ≠ text' → name.internal ≠ name'.internal) ∧
    (∀ alphabet : Text.Alphabet, alphabet.Suits → ∀ input : Option String,
      let lent := Console.defaultName alphabet input
      ∃ name, parse lent = .ok name ∧ name.segments = [lent] ∧
        name.dotted = lent ∧ name.internal = lent ∧
        ∀ c ∈ lent.toList.head?, c.isDigit = false) := by
  refine ⟨?_, ?_, ?_, ?_⟩
  · intro text segments
    constructor
    · intro h
      exact ⟨wellFormed_of_parse h, (dotted_of_parse h).symm⟩
    · rintro ⟨hsegments, rfl⟩
      exact parse_dotted hsegments
  · intro text name h
    exact ⟨dotted_of_parse h, rfl, internal_of_parse h, text_of_internal h⟩
  · intro text text' name name' h h' hne hsame
    apply hne
    rw [← text_of_internal h, ← text_of_internal h', hsame]
  · intro alphabet halphabet input lent
    have hlent : Lendable lent := ofStem_lendable halphabet _
    exact ⟨⟨[lent]⟩, hlent.parse_eq, rfl, String.intercalate_singleton,
      String.intercalate_singleton, hlent.head⟩

/-- A name in three segments, and a file whose first letter is replaced by two capitals. -/
theorem accepted_names_sharp :
    parse "jp.example.Hello" = .ok ⟨["jp", "example", "Hello"]⟩ ∧
      Text.Alphabet.unicode.Suits ∧
      Console.defaultName .unicode (some "src/ß.9.kmr") = "SS_9" ∧
      ∃ name, parse "SS_9" = .ok name ∧ name.internal = "SS_9" := by
  obtain ⟨hgrammar, -, -, hlent⟩ := accepted_names
  have hletter : Text.isAlphabetic 'ß' = true := by
    simp only [Text.isAlphabetic, Text.withinMarks, Text.alphabeticMarks, List.countP_append]
    decide +kernel
  have hdot : Text.isAlphanumeric '.' = false := Text.isAlphanumeric_reserved (by decide)
  have hdigit : Text.isAlphanumeric '9' = true := by
    simp only [Text.isAlphanumeric, Text.isAlphabetic, Text.withinMarks, Text.alphabeticMarks,
      Text.numericMarks, List.countP_append]
    decide +kernel
  have hcapital : Text.upperCase 'ß' = ['S', 'S'] := by decide +kernel
  have hname : Console.defaultName .unicode (some "src/ß.9.kmr") = "SS_9" := by
    have hstem : Console.defaultName .unicode (some "src/ß.9.kmr") =
        ofStem .unicode ['ß', '.', '9'] := by
      rfl
    rw [hstem]
    simp [ofStem, adapt, Text.Alphabet.unicode, hletter, hdot, hdigit, hcapital]
  obtain ⟨name, hparse, -, -, hinternal, -⟩ :=
    hlent .unicode Text.unicode_suits (some "src/ß.9.kmr")
  rw [hname] at hparse hinternal
  have hsegments : WellFormed ["jp", "example", "Hello"] :=
    ⟨by simp, by simp, by simp [reserved]⟩
  have hhello := (hgrammar _ _).mpr ⟨hsegments, rfl⟩
  exact ⟨hhello, Text.unicode_suits, hname, name, hparse, hinternal⟩

end ClassName

end StackGlyph
