import Mathlib
import StackGlyph.Descriptor

/-!
# The grammar of descriptors

Reading undoes writing, and reads nothing else: a text is read as a type exactly if it is the
descriptor of that type and the names in it can stand in a descriptor. Since the descriptor is given
by the type, no text has two readings. The statements about readers leave open what follows, so that
they compose from element types over parameters to whole methods.
-/
namespace StackGlyph

namespace ElementType

/-- A class name can stand in a descriptor: it is not empty and lacks the semicolon that ends it. -/
def Proper : ElementType → Prop
  | .object name => name ≠ "" ∧ ';' ∉ name.toList
  | _ => True

theorem toList_descriptor_object (name : String) :
    (object name).descriptor.toList = 'L' :: (name.toList ++ [';']) := by
  simp [descriptor]

/-- The first letter of a descriptor opens no array and does not end the parameters. -/
theorem descriptor_head (t : ElementType) :
    ∃ c rest, t.descriptor.toList = c :: rest ∧ c ≠ '[' ∧ c ≠ ')' := by
  cases t with
  | object name => exact ⟨'L', _, toList_descriptor_object name, by decide, by decide⟩
  | _ => exact ⟨_, [], rfl, by decide, by decide⟩

/-- A name reaches to the first semicolon. -/
theorem read?_object {name : List Char} (hne : name ≠ []) (hname : ';' ∉ name)
    (rest : List Char) :
    read? ('L' :: (name ++ ';' :: rest)) = some (.object (String.ofList name), rest) := by
  have hall : ∀ c ∈ name, (c != ';') = true := by
    intro c hc
    rw [bne_iff_ne]
    rintro rfl
    exact hname hc
  have htake : (name ++ ';' :: rest).takeWhile (· != ';') = name := by
    rw [List.takeWhile_append_of_pos hall, List.takeWhile_cons_of_neg (by decide),
      List.append_nil]
  have hdrop : (name ++ ';' :: rest).dropWhile (· != ';') = ';' :: rest := by
    rw [List.dropWhile_append_of_pos hall, List.dropWhile_cons_of_neg (by decide)]
  rw [read?, htake, hdrop]
  cases name with
  | nil => exact absurd rfl hne
  | cons c more => rfl

theorem read?_descriptor {t : ElementType} (ht : t.Proper) (rest : List Char) :
    read? (t.descriptor.toList ++ rest) = some (t, rest) := by
  cases t with
  | object name =>
    obtain ⟨hne, hname⟩ := ht
    have hlist : name.toList ≠ [] := by
      intro h
      exact hne (String.toList_inj.mp h)
    rw [toList_descriptor_object, List.cons_append, List.append_assoc, List.singleton_append,
      read?_object hlist hname, String.ofList_toList]
  | _ => rfl

/-- A text cut at its first semicolon. -/
theorem name_of_cut {body name after : List Char} {d : Char}
    (htake : body.takeWhile (· != ';') = name) (hdrop : body.dropWhile (· != ';') = d :: after) :
    ';' ∉ name ∧ body = name ++ ';' :: after := by
  constructor
  · intro hmem
    rw [← htake] at hmem
    exact absurd (List.mem_takeWhile_imp hmem) (by decide)
  · have hsemicolon : d = ';' := by
      have hstop := List.head?_dropWhile_not (· != ';') body
      rw [hdrop] at hstop
      simpa using hstop
    rw [← hsemicolon, ← htake, ← hdrop, List.takeWhile_append_dropWhile]

/-- What is read as an element type is its descriptor, letter by letter, and a class name ends at
the first semicolon. -/
theorem descriptor_of_read? {text rest : List Char} {t : ElementType}
    (h : read? text = some (t, rest)) : t.Proper ∧ text = t.descriptor.toList ++ rest := by
  unfold read? at h
  split at h
  case h_9 body =>
    split at h
    · next c name d after htake hdrop =>
      cases h
      obtain ⟨hname, rfl⟩ := name_of_cut htake hdrop
      refine ⟨⟨?_, ?_⟩, ?_⟩
      · intro hempty
        have hlist := String.toList_inj.mpr hempty
        rw [String.toList_ofList] at hlist
        cases hlist
      · rw [String.toList_ofList]
        exact hname
      · simp [toList_descriptor_object]
    · cases h
  case h_10 => cases h
  all_goals
    cases h
    exact ⟨trivial, rfl⟩

theorem read?_eq_some {text rest : List Char} {t : ElementType} :
    read? text = some (t, rest) ↔ t.Proper ∧ text = t.descriptor.toList ++ rest := by
  constructor
  · exact descriptor_of_read?
  · rintro ⟨ht, rfl⟩
    exact read?_descriptor ht rest

end ElementType

namespace FieldType

def Proper (t : FieldType) : Prop :=
  t.element.Proper

theorem toList_descriptor (t : FieldType) :
    t.descriptor.toList = List.replicate t.dims '[' ++ t.element.descriptor.toList := by
  rw [descriptor, String.toList_append, String.toList_ofList]

theorem descriptor_head (t : FieldType) :
    ∃ c rest, t.descriptor.toList = c :: rest ∧ c ≠ ')' := by
  rw [toList_descriptor]
  cases t.dims with
  | zero =>
    obtain ⟨c, rest, hlist, -, hclose⟩ := t.element.descriptor_head
    exact ⟨c, rest, hlist, hclose⟩
  | succ n => exact ⟨'[', _, rfl, by decide⟩

/-- A descriptor is read back from the head of any text: brackets are counted first, then the
element type follows. -/
theorem read_descriptor {t : FieldType} (ht : t.Proper) (rest : List Char) :
    read (t.descriptor.toList ++ rest) = .ok (t, rest) := by
  have hall : ∀ c ∈ List.replicate t.dims '[', (c == '[') = true := by
    intro c hc
    rw [beq_iff_eq]
    exact (List.mem_replicate.mp hc).2
  obtain ⟨c, more, hlist, hbracket, -⟩ := t.element.descriptor_head
  have htake : (t.descriptor.toList ++ rest).takeWhile (· == '[') = List.replicate t.dims '[' := by
    rw [toList_descriptor, List.append_assoc, List.takeWhile_append_of_pos hall, hlist,
      List.cons_append, List.takeWhile_cons_of_neg (by simpa using hbracket), List.append_nil]
  have hdrop : (t.descriptor.toList ++ rest).dropWhile (· == '[') =
      t.element.descriptor.toList ++ rest := by
    rw [toList_descriptor, List.append_assoc, List.dropWhile_append_of_pos hall, hlist,
      List.cons_append, List.dropWhile_cons_of_neg (by simpa using hbracket)]
  rw [read, htake, hdrop, ElementType.read?_descriptor ht, List.length_replicate]

/-- The converse: what is read was a descriptor, and the rest is untouched. -/
theorem descriptor_of_read {text rest : List Char} {t : FieldType}
    (h : read text = .ok (t, rest)) : t.Proper ∧ text = t.descriptor.toList ++ rest := by
  unfold read at h
  split at h
  · next element after hread =>
    cases h
    obtain ⟨hproper, hdrop⟩ := ElementType.read?_eq_some.mp hread
    refine ⟨hproper, ?_⟩
    have hbrackets : text.takeWhile (· == '[') =
        List.replicate (text.takeWhile (· == '[')).length '[' := by
      refine List.eq_replicate_iff.mpr ⟨rfl, ?_⟩
      intro c hc
      simpa using List.mem_takeWhile_imp hc
    rw [toList_descriptor, ← hbrackets, List.append_assoc, ← hdrop,
      List.takeWhile_append_dropWhile]
  · cases h

theorem read_eq_ok {text rest : List Char} {t : FieldType} :
    read text = .ok (t, rest) ↔ t.Proper ∧ text = t.descriptor.toList ++ rest := by
  constructor
  · exact descriptor_of_read
  · rintro ⟨ht, rfl⟩
    exact read_descriptor ht rest

theorem parse_eq_ok {text : String} {t : FieldType} :
    parse text = .ok t ↔ t.Proper ∧ text = t.descriptor := by
  have hread := @read_eq_ok text.toList [] t
  rw [List.append_nil, String.toList_inj] at hread
  rw [← hread, parse]
  split
  · next t' hok => simp [hok]
  · next t' c more hok => simp [hok]
  · next body herror => simp [herror]

end FieldType

namespace MethodType

/-- All class names in a method type can stand in a descriptor. -/
structure Proper (m : MethodType) : Prop where
  params : ∀ t ∈ m.params, t.Proper
  result : ∀ t ∈ m.result, t.Proper

/-- One turn of the loop over the parameters, from `text` to `rest`: the closing parenthesis is not
reached, and one type is read. -/
def Turn (rest text : List Char) : Prop :=
  text.head? ≠ some ')' ∧ ∃ t, FieldType.read text = .ok (t, rest)

/-- The loop takes no endless row of turns, since each leaves a shorter text. -/
theorem turn_wellFounded : WellFounded Turn := by
  refine Subrelation.wf ?_ (measure List.length).wf
  rintro rest text ⟨-, t, ht⟩
  exact FieldType.length_of_read ht

theorem readParams_close (found : Array FieldType) (rest : List Char) :
    readParams found (')' :: rest) = some (found.toList, rest) := by
  rw [readParams]
  rfl

/-- One turn of the loop over the parameters. -/
theorem readParams_turn {found : Array FieldType} {text rest : List Char} {t : FieldType}
    (hclose : text.head? ≠ some ')') (ht : FieldType.read text = .ok (t, rest)) :
    readParams found text = readParams (found.push t) rest := by
  rw [readParams, if_neg hclose]
  split
  · next t' rest' ht' =>
    rw [ht] at ht'
    cases ht'
    rfl
  · next herror =>
    rw [ht] at herror
    cases herror

/-- The whole loop, by induction on the parameters that are still to be read. -/
theorem readParams_descriptors {params : List FieldType} (hparams : ∀ t ∈ params, t.Proper)
    (found : Array FieldType) (rest : List Char) :
    readParams found (params.flatMap (·.descriptor.toList) ++ ')' :: rest) =
      some (found.toList ++ params, rest) := by
  induction params generalizing found with
  | nil =>
    rw [List.flatMap_nil, List.nil_append, List.append_nil, readParams_close]
  | cons t params ih =>
    obtain ⟨c, more, hlist, hclose⟩ := t.descriptor_head
    have hhead (after : List Char) : (t.descriptor.toList ++ after).head? ≠ some ')' := by
      rw [hlist]
      simpa using hclose
    rw [List.flatMap_cons, List.append_assoc, readParams_turn (hhead _)
      (FieldType.read_descriptor (hparams t List.mem_cons_self) _),
      ih fun t ht => hparams t (List.mem_cons_of_mem _ ht)]
    simp

/-- The converse for the loop, by induction on its recursion: each turn took one descriptor off the
text. -/
theorem descriptors_of_readParams {found : Array FieldType} {text rest : List Char}
    {all : List FieldType} (h : readParams found text = some (all, rest)) :
    ∃ params, all = found.toList ++ params ∧ (∀ t ∈ params, t.Proper) ∧
      text = params.flatMap (·.descriptor.toList) ++ ')' :: rest := by
  fun_induction readParams found text with
  | case1 found text hclose =>
    obtain ⟨more, rfl⟩ := List.head?_eq_some_iff.mp hclose
    cases h
    exact ⟨[], (List.append_nil _).symm, by simp, rfl⟩
  | case2 found text hclose t after hread _ ih =>
    obtain ⟨params, rfl, hparams, rfl⟩ := ih h
    obtain ⟨ht, rfl⟩ := FieldType.read_eq_ok.mp hread
    refine ⟨t :: params, by simp, ?_, by simp⟩
    intro t' ht'
    rcases List.mem_cons.mp ht' with rfl | hmem
    · exact ht
    · exact hparams t' hmem
  | case3 found text hclose e hread => cases h

/-- The result is `V` or one field descriptor, with nothing behind it. -/
theorem readResult?_eq_some {text : List Char} {result : Option FieldType} :
    readResult? text = some result ↔ (∀ t ∈ result, t.Proper) ∧
      text = ((result.map FieldType.descriptor).getD "V").toList := by
  cases result with
  | none =>
    unfold readResult?
    split
    · next hvoid => simp [hvoid]
    · next hvoid =>
      split
      · simpa using hvoid
      · simpa using hvoid
  | some t =>
    have hread := @FieldType.read_eq_ok text [] t
    rw [List.append_nil] at hread
    simp only [Option.mem_some_iff, forall_eq', Option.map_some, Option.getD_some]
    rw [← hread, readResult?]
    split
    · next hvoid =>
      have hnone : FieldType.read ['V'] = .error ['V'] := rfl
      simp [hvoid, hnone]
    · split
      · next t' hok => simp [hok]
      · next hother => simpa using hother t

theorem toList_descriptor (m : MethodType) :
    m.descriptor.toList = '(' :: (m.params.flatMap (·.descriptor.toList) ++
      ')' :: ((m.result.map FieldType.descriptor).getD "V").toList) := by
  simp [descriptor, String.toList_join, List.flatMap_map]

/-- A method descriptor is read if and only if it is one, so that reading and writing are inverse to
each other. -/
theorem parse?_eq_some {text : List Char} {m : MethodType} :
    parse? text = some m ↔ m.Proper ∧ text = m.descriptor.toList := by
  rw [toList_descriptor]
  constructor
  · intro h
    unfold parse? at h
    split at h
    · next body =>
      obtain ⟨⟨params, rest⟩, hparams, h⟩ := Option.bind_eq_some_iff.mp h
      obtain ⟨result, hresult, h⟩ := Option.bind_eq_some_iff.mp h
      cases h
      obtain ⟨params, rfl, hproper, rfl⟩ := descriptors_of_readParams hparams
      obtain ⟨hproper', rfl⟩ := readResult?_eq_some.mp hresult
      exact ⟨⟨hproper, hproper'⟩, rfl⟩
    · cases h
  · rintro ⟨⟨hparams, hresult⟩, rfl⟩
    have hread := readParams_descriptors hparams #[]
      ((m.result.map FieldType.descriptor).getD "V").toList
    simp only [parse?, hread, Option.bind_eq_bind, Option.bind_some, List.nil_append,
      readResult?_eq_some.mpr ⟨hresult, rfl⟩]
    rfl

theorem parse_eq_ok {text : String} {m : MethodType} :
    parse text = .ok m ↔ m.Proper ∧ text = m.descriptor := by
  rw [← String.toList_inj, ← parse?_eq_some, parse]
  split
  · next m' hsome => simp [hsome]
  · next hnone => simp [hnone]

end MethodType

/-- What is read exactly as it is written has one reading. -/
theorem injOn_of_parse {α : Type} {parse : String → Except Fault α} {write : α → String}
    {Proper : α → Prop} (h : ∀ text v, parse text = .ok v ↔ Proper v ∧ text = write v) :
    Set.InjOn write { v | Proper v } := by
  intro v hv w hw heq
  have hread := (h (write v) v).mpr ⟨hv, rfl⟩
  rw [(h (write v) w).mpr ⟨hw, heq⟩] at hread
  cases hread
  rfl

/-- Descriptors are read exactly as they are written. A text is accepted as a field or method type
if and only if it is the descriptor of that type and its names are proper; a text that is no method
descriptor is reported as a whole. So no two types share a descriptor, and the loop over the
parameters ends on every text. -/
theorem descriptor_grammar :
    (∀ text t, FieldType.parse text = .ok t ↔ t.Proper ∧ text = t.descriptor) ∧
    (∀ text m, MethodType.parse text = .ok m ↔ m.Proper ∧ text = m.descriptor) ∧
    (∀ text, (∃ m, MethodType.parse text = .ok m) ∨
      MethodType.parse text = .error (.badDescriptor text)) ∧
    Set.InjOn FieldType.descriptor { t | t.Proper } ∧
    Set.InjOn MethodType.descriptor { m | m.Proper } ∧
    WellFounded MethodType.Turn := by
  refine ⟨fun _ _ => FieldType.parse_eq_ok, fun _ _ => MethodType.parse_eq_ok, ?_,
    injOn_of_parse fun _ _ => FieldType.parse_eq_ok,
    injOn_of_parse fun _ _ => MethodType.parse_eq_ok, MethodType.turn_wellFounded⟩
  intro text
  unfold MethodType.parse
  cases MethodType.parse? text.toList with
  | none => exact .inr rfl
  | some m => exact .inl ⟨m, rfl⟩

/-- A class name may hold parentheses, brackets and letters of any alphabet. -/
theorem descriptor_grammar_brackets :
    MethodType.parse "([[L)(é[;J)[Z" =
      .ok ⟨[⟨2, .object ")(é["⟩, ⟨0, .long⟩], some ⟨1, .boolean⟩⟩ := by
  refine (descriptor_grammar.2.1 _ _).mpr ⟨⟨?_, ?_⟩, by decide⟩
  · simp [FieldType.Proper, ElementType.Proper]
  · simp [FieldType.Proper, ElementType.Proper]

end StackGlyph
