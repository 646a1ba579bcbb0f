import Mathlib.Data.List.Forall2
import StackGlyph.ClassFile.Draft
import StackGlyph.ClassFile.Reader
import StackGlyph.Proofs.PoolGrowth
import StackGlyph.Proofs.Texts

/-!
# Reading what was written

A reader is paired with the bytes that it consumes and the value that it gives, whatever follows
them. The pairing composes as the readers do, from single words up to the bytes of a whole draft.
-/
namespace StackGlyph

/-- The limits and the size of a method's code fit the fields in which they are written. -/
structure Code.Fits (c : Code) : Prop where
  maxStack : c.maxStack ≤ 65535
  maxLocals : c.maxLocals ≤ 65535
  bytes : c.bytes.length ≤ 65535

/-- What a drafted method is read back as, from a given pool. -/
structure DraftMethod.Describes (pool : Pool) (m : DraftMethod) (method : Method) : Prop where
  access : method.access = m.access
  name : pool.textAt m.name = .ok method.name
  descriptor : pool.textAt m.descriptor = .ok method.descriptor
  code : method.code = some m.code
  fits : m.code.Fits

theorem DraftMethod.Describes.mono {p q : Pool} {m : DraftMethod} {method : Method}
    (h : m.Describes p method) (hpq : p.Extends q) : m.Describes q method :=
  { h with
    name := Pool.textAt_mono hpq h.name
    descriptor := Pool.textAt_mono hpq h.descriptor }

/-- What the note of a source file is read back as, from a given pool. -/
def SourceNamed (pool : Pool) : Option (UInt16 × UInt16) → Option String → Prop
  | none, none => True
  | some (attr, text), some source =>
    pool.textAt attr = .ok "SourceFile" ∧ pool.textAt text = .ok source
  | _, _ => False

theorem SourceNamed.mono {p q : Pool} {note : Option (UInt16 × UInt16)} {source : Option String}
    (h : SourceNamed p note source) (hpq : p.Extends q) : SourceNamed q note source := by
  match note, source, h with
  | none, none, _ => trivial
  | some _, some _, ⟨hattr, htext⟩ => exact ⟨Pool.textAt_mono hpq hattr, Pool.textAt_mono hpq htext⟩

/-- A draft stands for these methods and this source file, and can be written. -/
structure ClassDraft.Records (d : ClassDraft) (methods : List Method) (source : Option String) :
    Prop where
  pool : d.pool.Sound
  texts : d.pool.TextsFit
  count : d.methods.size ≤ maxMethods
  methods : List.Forall₂ (DraftMethod.Describes d.pool) d.methods.toList methods
  codeName : d.methods.size ≠ 0 → d.pool.textAt d.codeName = .ok "Code"
  source : SourceNamed d.pool d.sourceFile source

namespace Reader

variable {α β : Type}

/-- A reader that stands before these bytes consumes just them; its value may depend on the
offset. -/
def ReadsAt (r : Reader α) (bytes : List UInt8) (value : Nat → α) : Prop :=
  ∀ rest offset, r ⟨bytes ++ rest, offset⟩ = .ok (value offset, ⟨rest, offset + bytes.length⟩)

/-- A reader that stands before these bytes consumes just them and gives `value`. -/
def Reads (r : Reader α) (bytes : List UInt8) (value : α) : Prop :=
  ReadsAt r bytes fun _ => value

theorem ReadsAt.bind {r : Reader α} {f : α → Reader β} {x y : List UInt8} {v : Nat → α} {w : β}
    (hr : ReadsAt r x v) (hf : ∀ offset, Reads (f (v offset)) y w) :
    Reads (r >>= f) (x ++ y) w := by
  intro rest offset
  show StateT.bind r f ⟨x ++ y ++ rest, offset⟩ = _
  rw [List.append_assoc]
  simp only [StateT.bind, hr (y ++ rest) offset]
  show f (v offset) ⟨y ++ rest, offset + x.length⟩ = _
  rw [hf offset rest (offset + x.length), List.length_append, Nat.add_assoc]

theorem Reads.bind {r : Reader α} {f : α → Reader β} {x y : List UInt8} {v : α} {w : β}
    (hr : Reads r x v) (hf : Reads (f v) y w) : Reads (r >>= f) (x ++ y) w :=
  ReadsAt.bind hr fun _ => hf

theorem reads_pure (v : α) : Reads (pure v) [] v := by
  intro rest offset
  rfl

theorem reads_ofExcept {x : Except Fault α} {v : α} (h : x = .ok v) : Reads (ofExcept x) [] v := by
  subst h
  exact reads_pure v

/-- A reader that consumes nothing, followed by another. -/
theorem Reads.skip {r : Reader α} {f : α → Reader β} {x : List UInt8} {v : α} {w : β}
    (hr : Reads r [] v) (hf : Reads (f v) x w) : Reads (r >>= f) x w :=
  hr.bind hf

/-- A reader followed by one that consumes nothing. -/
theorem Reads.and_then {r : Reader α} {f : α → Reader β} {x : List UInt8} {v : α} {w : β}
    (hr : Reads r x v) (hf : Reads (f v) [] w) : Reads (r >>= f) x w := by
  simpa using hr.bind hf

theorem Reads.map {r : Reader α} {x : List UInt8} {v : α} (hr : Reads r x v) (f : α → β) :
    Reads (f <$> r) x (f v) := by
  intro rest offset
  show StateT.map f r ⟨x ++ rest, offset⟩ = _
  simp only [StateT.map, hr rest offset]
  rfl

theorem reads_byte (b : UInt8) : Reads byte [b] b := by
  intro rest offset
  rfl

theorem reads_word (w : UInt16) : Reads word (Word.bytes16 w) w := by
  obtain ⟨a, b, hbytes, hjoin⟩ := Word.bytes16_join w
  intro rest offset
  simp only [hbytes, List.cons_append, List.nil_append, word, hjoin]
  rfl

theorem reads_doubleWord (w : UInt32) : Reads doubleWord (Word.bytes32 w) w := by
  obtain ⟨a, b, c, d, hbytes, hjoin⟩ := Word.bytes32_join w
  intro rest offset
  simp only [hbytes, List.cons_append, List.nil_append, doubleWord, hjoin]
  rfl

theorem reads_take {n : Nat} {bytes : List UInt8} (h : bytes.length = n) :
    Reads (take n) bytes bytes := by
  subst h
  intro rest offset
  simp [take, List.splitAt_eq]

theorem reads_take_none {n : Nat} (h : n = 0) : Reads (take n) [] [] :=
  reads_take h.symm

/-- Items in a row, written one behind the other. -/
theorem reads_collect {γ : Type} (item : Nat → Reader α) {write : γ → List UInt8} {xs : List γ}
    {vs : List α} (h : List.Forall₂ (fun x v => ∀ turn, Reads (item turn) (write x) v) xs vs)
    (turn : Nat) (found : Array α) :
    Reads (collect item turn found xs.length) (xs.flatMap write) (found.toList ++ vs) := by
  induction h generalizing turn found with
  | nil =>
    rw [List.append_nil]
    exact reads_pure _
  | @cons x v xs vs hx hxs ih =>
    rw [List.flatMap_cons, List.length_cons, collect]
    refine (hx turn).bind ?_
    have hrest := ih (turn + 1) (found.push v)
    rwa [Array.toList_push, List.append_assoc] at hrest

theorem reads_many {γ : Type} {item : Reader α} {write : γ → List UInt8} {xs : List γ}
    {vs : List α} (h : List.Forall₂ (fun x v => Reads item (write x) v) xs vs) :
    Reads (many xs.length item) (xs.flatMap write) vs :=
  reads_collect (fun _ => item) (h.imp fun _ _ hx _ => hx) 0 #[]

theorem Reads.discard {r : Reader α} {x : List UInt8} {v : α} (hr : Reads r x v) :
    Reads (discard r) x () :=
  hr.map fun _ => ()

/-! ## Constants -/

/-- A constant is read back, a text if its length can be written. -/
theorem reads_constant {c : Constant}
    (h : ∀ s, c = .text s → Text.ModifiedUtf8.encodedLength s ≤ Pool.maxTextLength) (index : Nat) :
    Reads (constant index) c.bytes c := by
  unfold constant
  cases c with
  | text s =>
    refine (reads_byte 1).bind ?_
    have hfits : (Text.ModifiedUtf8.encode s).length < 0x10000 := by
      have hlength := h s rfl
      rw [Pool.maxTextLength] at hlength
      rw [Text.ModifiedUtf8.length_encode]
      omega
    rw [if_pos rfl]
    refine (reads_word _).bind ?_
    rw [Word.toNat_toUInt16 hfits]
    refine (reads_take rfl).and_then ?_
    rw [Text.ModifiedUtf8.decode_encode]
    exact reads_pure _
  | integer v =>
    refine (reads_byte 3).bind ?_
    rw [if_neg (by decide), if_pos rfl]
    exact (reads_doubleWord v.toUInt32).and_then (reads_pure _)
  | type i =>
    refine (reads_byte 7).bind ?_
    rw [if_neg (by decide), if_neg (by decide), if_pos rfl]
    exact (reads_word i).and_then (reads_pure _)
  | string i =>
    refine (reads_byte 8).bind ?_
    rw [if_neg (by decide), if_neg (by decide), if_neg (by decide), if_pos rfl]
    exact (reads_word i).and_then (reads_pure _)
  | member kind i j =>
    have hpair (f : UInt16 → UInt16 → Constant) : Reads (do return f (← word) (← word))
        (Word.bytes16 i ++ Word.bytes16 j) (f i j) :=
      (reads_word i).bind ((reads_word j).and_then (reads_pure _))
    cases kind with
    | field =>
      refine (reads_byte 9).bind ?_
      rw [if_neg (by decide), if_neg (by decide), if_neg (by decide), if_neg (by decide),
        if_pos rfl]
      exact hpair (.member .field)
    | method =>
      refine (reads_byte 10).bind ?_
      rw [if_neg (by decide), if_neg (by decide), if_neg (by decide), if_neg (by decide),
        if_neg (by decide), if_pos rfl]
      exact hpair (.member .method)
    | interfaceMethod =>
      refine (reads_byte 11).bind ?_
      rw [if_neg (by decide), if_neg (by decide), if_neg (by decide), if_neg (by decide),
        if_neg (by decide), if_neg (by decide), if_pos rfl]
      exact hpair (.member .interfaceMethod)
  | signature i j =>
    refine (reads_byte 12).bind ?_
    rw [if_neg (by decide), if_neg (by decide), if_neg (by decide), if_neg (by decide),
      if_neg (by decide), if_neg (by decide), if_neg (by decide), if_pos rfl]
    exact (reads_word i).bind ((reads_word j).and_then (reads_pure _))

theorem ofEntries_eq_ok {entries : Array Constant} (h : entries.size ≤ Pool.capacity) :
    ∃ q, Pool.ofEntries entries = .ok q ∧ q.entries = entries := by
  rw [Pool.ofEntries, if_neg (by omega)]
  exact ⟨_, rfl, rfl⟩

/-- The entries of a pool are read back. -/
theorem reads_pool {p : Pool} (hp : p.Sound) (htexts : p.TextsFit) :
    ∃ q, q.entries = p.entries ∧ Reads pool p.bytes q := by
  obtain ⟨q, hq, hentries⟩ := ofEntries_eq_ok hp.fits
  have hread : ∀ c ∈ p.entries.toList, ∀ turn, Reads (constant turn) c.bytes c := by
    intro c hc turn
    refine reads_constant ?_ turn
    rintro s rfl
    exact htexts s (Array.mem_toList_iff.mp hc)
  refine ⟨q, hentries, ?_⟩
  have hcount : (p.size + 1).toUInt16.toNat = p.size + 1 := by
    have hfits := hp.fits
    rw [Pool.capacity] at hfits
    exact Word.toNat_toUInt16 (by omega)
  unfold pool Pool.bytes
  refine (reads_word _).bind ?_
  rw [hcount, Nat.add_sub_cancel, Pool.size, ← Array.length_toList]
  exact (reads_collect constant (List.forall₂_same.mpr hread) 1 #[]).and_then (reads_ofExcept hq)

/-! ## Methods -/

theorem bind_of_ok {r : Reader α} {f : α → Reader β} {c c' : Cursor} {v : α}
    (h : r c = .ok (v, c')) : (r >>= f) c = f v c' := by
  show StateT.bind r f c = _
  simp only [StateT.bind, h]
  rfl

/-- An attribute is read as its name and a cursor over its content. -/
theorem readsAt_attr {name : UInt16 → Except Fault α} {i : UInt16} {a : α}
    (content : List UInt8) (hname : name i = .ok a) (hsize : content.length < 0x100000000) :
    ReadsAt (attr name) (Word.bytes16 i ++ Word.bytes32 content.length.toUInt32 ++ content)
      fun offset => (a, ⟨content, offset + 6⟩) := by
  intro rest offset
  have hlength : (Word.bytes16 i ++ Word.bytes32 content.length.toUInt32 ++ content).length =
      6 + content.length := by
    simp only [List.length_append, Word.length_bytes16, Word.length_bytes32]
  rw [hlength, ← Nat.add_assoc]
  rw [List.append_assoc, List.append_assoc, attr, bind_of_ok (reads_word i _ offset), hname,
    bind_of_ok (r := ofExcept (.ok a)) rfl, bind_of_ok (reads_doubleWord _ _ _),
    bind_of_ok (r := get) rfl, Word.toNat_toUInt32 hsize, bind_of_ok (reads_take rfl _ _)]
  rfl

def codeContent (c : Code) : List UInt8 :=
  Word.bytes16 c.maxStack.toUInt16 ++ (Word.bytes16 c.maxLocals.toUInt16 ++
    (Word.bytes32 c.bytes.length.toUInt32 ++ (c.bytes ++ (Word.bytes16 0 ++ Word.bytes16 0))))

theorem reads_skipAttributes : Reads skipAttributes (Word.bytes16 0) () := by
  have hnone : Reads (many 0 (attr fun _ => .ok ())) [] [] := reads_pure []
  exact (reads_word 0).and_then hnone.discard

/-- Limits, code, no handlers and no attributes are read in the order in which they are written. -/
theorem reads_code {c : Code} (h : c.Fits) : Reads code (codeContent c) c := by
  have hstack : c.maxStack.toUInt16.toNat = c.maxStack :=
    Word.toNat_toUInt16 (Nat.lt_succ_of_le h.maxStack)
  have hlocals : c.maxLocals.toUInt16.toNat = c.maxLocals :=
    Word.toNat_toUInt16 (Nat.lt_succ_of_le h.maxLocals)
  have hsize : c.bytes.length.toUInt32.toNat = c.bytes.length := by
    have hbytes := h.bytes
    exact Word.toNat_toUInt32 (by omega)
  refine (reads_word _).bind ((reads_word _).bind ((reads_doubleWord _).bind ?_))
  rw [hstack, hlocals, hsize]
  refine (reads_take rfl).bind ((reads_word 0).bind ?_)
  exact (reads_take_none rfl).discard.skip (reads_skipAttributes.and_then (reads_pure c))

/-- The code is the only attribute of a method, and it is known by its name in the pool. -/
theorem reads_methodAttributes {pool : Pool} {codeName : UInt16} {c : Code} (h : c.Fits)
    (hcode : pool.textAt codeName = .ok "Code") :
    Reads (methodAttributes pool none 1)
      (Word.bytes16 codeName ++ Word.bytes32 (codeContent c).length.toUInt32 ++ codeContent c)
      (some c) := by
  have hsize : (codeContent c).length < 0x100000000 := by
    have hbytes := h.bytes
    simp only [codeContent, List.length_append, Word.length_bytes16, Word.length_bytes32]
    omega
  rw [← List.append_nil (_ ++ codeContent c)]
  refine (readsAt_attr _ hcode hsize).bind fun offset => ?_
  dsimp only
  rw [if_pos rfl]
  have hcontent := reads_code h [] (offset + 6)
  rw [List.append_nil] at hcontent
  exact (reads_ofExcept hcontent).bind (reads_pure _)

/-- A method is read as what the draft describes, if the name of its attribute can be looked up. -/
theorem reads_method {pool : Pool} {m : DraftMethod} {method : Method} {codeName : UInt16}
    (h : m.Describes pool method) (hcode : pool.textAt codeName = .ok "Code") :
    Reads (Reader.method pool) (ClassDraft.methodBytes codeName m) method := by
  have hlength : (codeContent m.code).length = 12 + m.code.bytes.length := by
    simp only [codeContent, List.length_append, Word.length_bytes16, Word.length_bytes32]
    omega
  have hbytes : ClassDraft.methodBytes codeName m =
      Word.bytes16 m.access ++ (Word.bytes16 m.name ++ (Word.bytes16 m.descriptor ++
        (Word.bytes16 1 ++ (Word.bytes16 codeName ++
          Word.bytes32 (codeContent m.code).length.toUInt32 ++ codeContent m.code)))) := by
    rw [hlength]
    simp only [ClassDraft.methodBytes, codeContent, List.append_assoc]
  obtain ⟨access, name, descriptor, code⟩ := method
  obtain ⟨haccess, hname, hdescriptor, hc, hfits⟩ := h
  dsimp only at haccess hname hdescriptor hc
  subst haccess hc
  rw [hbytes]
  refine (reads_word _).bind ((reads_word _).bind ?_)
  refine (reads_ofExcept hname).bind ((reads_word _).bind ((reads_ofExcept hdescriptor).bind ?_))
  exact (reads_word 1).bind ((reads_methodAttributes hfits hcode).and_then (reads_pure _))

/-! ## Classes -/

/-- The name of the source file is looked up through its attribute. -/
theorem reads_sourceFile {pool : Pool} {attr text : UInt16} {source : String}
    (hattr : pool.textAt attr = .ok "SourceFile") (htext : pool.textAt text = .ok source) :
    Reads (classAttributes pool none 1) (Word.bytes16 attr ++ Word.bytes32 2 ++ Word.bytes16 text)
      (some source) := by
  obtain ⟨a, b, hbytes, hjoin⟩ := Word.bytes16_join text
  rw [← List.append_nil (_ ++ Word.bytes16 text)]
  refine (readsAt_attr (Word.bytes16 text) hattr (by simp)).bind fun offset => ?_
  dsimp only
  rw [hbytes]
  refine (reads_ofExcept ?_).bind (reads_pure _)
  rw [hjoin]
  exact htext

theorem reads_classAttributes {pool : Pool} {note : Option (UInt16 × UInt16)}
    {source : Option String} (h : SourceNamed pool note source) :
    Reads (do classAttributes pool none (← word).toNat) (ClassDraft.attributeBytes note)
      source := by
  match note, source, h with
  | none, none, _ => exact (reads_word 0).and_then (reads_pure none)
  | some (attr, text), some source, ⟨hattr, htext⟩ =>
    rw [ClassDraft.attributeBytes, List.append_assoc, List.append_assoc]
    refine (reads_word 1).bind ?_
    rw [← List.append_assoc]
    exact reads_sourceFile hattr htext

/-- The count, then the methods one by one, as the draft records them. -/
theorem reads_methods {d : ClassDraft} {methods : List Method} {source : Option String}
    {pool : Pool} (h : d.Records methods source) (hpool : d.pool.Extends pool) :
    Reads (do many (← word).toNat (Reader.method pool)) (Word.bytes16 d.methods.size.toUInt16 ++
      d.methods.toList.flatMap (ClassDraft.methodBytes d.codeName)) methods := by
  have hcount : d.methods.size.toUInt16.toNat = d.methods.toList.length := by
    have hle := h.count
    rw [ClassDraft.maxMethods] at hle
    rw [Word.toNat_toUInt16 (by omega), Array.length_toList]
  refine (reads_word _).bind ?_
  rw [hcount]
  refine reads_many ?_
  by_cases hempty : d.methods.size = 0
  · have hmethods := h.methods
    rw [Array.toList_eq_nil_iff.mpr (Array.size_eq_zero_iff.mp hempty)] at hmethods ⊢
    cases hmethods
    exact .nil
  · refine h.methods.imp fun m method hm => ?_
    exact reads_method (hm.mono hpool) (Pool.textAt_mono hpool (h.codeName hempty))

/-- A draft is read back as what it stands for. -/
theorem reads_classFile {d : ClassDraft} {methods : List Method} {source : Option String}
    (h : d.Records methods source) :
    ∃ pool, pool.entries = d.pool.entries ∧ Reads classFile d.bytes
      { minorVersion := 0, majorVersion := 49, pool, access := d.access, thisClass := d.thisClass,
        superClass := d.superClass, methods, sourceFile := source } := by
  obtain ⟨pool, hentries, hpool⟩ := reads_pool h.pool h.texts
  have hsame : d.pool.Extends pool := .of_entries hentries
  refine ⟨pool, hentries, ?_⟩
  have hbytes : d.bytes =
      Word.bytes32 ClassFile.magic ++ (Word.bytes16 0 ++ (Word.bytes16 49 ++ (d.pool.bytes ++
        (Word.bytes16 d.access ++ (Word.bytes16 d.thisClass ++ (Word.bytes16 d.superClass ++
          (Word.bytes16 0 ++ (Word.bytes16 0 ++ ((Word.bytes16 d.methods.size.toUInt16 ++
            d.methods.toList.flatMap (ClassDraft.methodBytes d.codeName)) ++
              ClassDraft.attributeBytes d.sourceFile))))))))) := by
    simp only [ClassDraft.bytes, ClassFile.writtenMinor, ClassFile.writtenMajor, List.append_assoc]
  rw [hbytes]
  refine (reads_doubleWord _).bind ?_
  rw [if_neg (by simp)]
  refine (reads_word 0).bind ((reads_word 49).bind (hpool.bind ((reads_word _).bind
    ((reads_word _).bind ((reads_word _).bind ((reads_word 0).bind ?_))))))
  refine (reads_take_none rfl).discard.skip ((reads_word 0).bind ?_)
  refine (reads_pure (α := List Unit) []).discard.skip ?_
  rw [← bind_assoc]
  refine (reads_methods h hsame).bind ?_
  rw [← bind_assoc]
  exact (reads_classAttributes (h.source.mono hsame)).and_then (reads_pure _)

end Reader

/-- Reading the bytes of a draft gives what the draft stands for. -/
theorem ClassFile.parse_bytes {d : ClassDraft} {methods : List Method} {source : Option String}
    (h : d.Records methods source) :
    ∃ pool, pool.entries = d.pool.entries ∧ ClassFile.parse d.bytes = .ok
      { minorVersion := 0, majorVersion := 49, pool, access := d.access, thisClass := d.thisClass,
        superClass := d.superClass, methods, sourceFile := source } := by
  obtain ⟨pool, hentries, hreads⟩ := Reader.reads_classFile h
  have hread := hreads [] 0
  rw [List.append_nil] at hread
  refine ⟨pool, hentries, ?_⟩
  rw [ClassFile.parse, hread]
  rfl

end StackGlyph
