import Mathlib
import StackGlyph.Proofs.Drafting

/-!
# Input that ends too early

A reader that succeeds has consumed a first part of its input and looked at nothing behind it. Given
less than that part, it reports that the input ends, at a place inside what was given, and nothing
else. This passes from single bytes to whole classes, through contents that a second cursor reads.
The part that a class takes of the bytes of a draft is all of them.
-/
namespace StackGlyph

namespace Reader

variable {α β : Type}

theorem bind_of_error {r : Reader α} {f : α → Reader β} {c : Cursor} {e : Fault}
    (h : r c = .error e) : (r >>= f) c = .error e := by
  show StateT.bind r f c = _
  simp only [StateT.bind, h]
  rfl

/-- A reader that stands before the bytes `used` consumes just them. If it gets only a part of them,
it reports that the input ends in that part. -/
structure Consumes (r : Reader α) (offset : Nat) (used : List UInt8) (v : α) : Prop where
  whole : ∀ rest, r ⟨used ++ rest, offset⟩ = .ok (v, ⟨rest, offset + used.length⟩)
  cut : ∀ k < used.length, ∃ p ≤ offset + k, r ⟨used.take k, offset⟩ = .error (.truncated p)

theorem Consumes.nothing {r : Reader α} {offset : Nat} {v : α}
    (h : ∀ rest, r ⟨rest, offset⟩ = .ok (v, ⟨rest, offset⟩)) : Consumes r offset [] v where
  whole := h
  cut k hk := absurd hk (Nat.not_lt_zero k)

/-- Two readers in a row: input that ends in the first part is found there, otherwise the second
part finds it. -/
theorem Consumes.bind {r : Reader α} {f : α → Reader β} {offset : Nat} {x y : List UInt8} {v : α}
    {w : β} (hr : Consumes r offset x v) (hf : Consumes (f v) (offset + x.length) y w) :
    Consumes (r >>= f) offset (x ++ y) w where
  whole rest := by
    rw [List.append_assoc, bind_of_ok (hr.whole (y ++ rest)), hf.whole rest, List.length_append,
      Nat.add_assoc]
  cut k hk := by
    by_cases hfirst : k < x.length
    · obtain ⟨p, hp, herror⟩ := hr.cut k hfirst
      rw [List.take_append_of_le_length (Nat.le_of_lt hfirst)]
      exact ⟨p, hp, bind_of_error herror⟩
    · rw [List.length_append] at hk
      obtain ⟨p, hp, herror⟩ := hf.cut (k - x.length) (by omega)
      have htake : (x ++ y).take k = x ++ y.take (k - x.length) := by
        rw [List.take_append, List.take_of_length_le (by omega)]
      rw [htake, bind_of_ok (hr.whole _)]
      exact ⟨p, by omega, herror⟩

/-- What a reader finds at a cursor depends only on the bytes that it consumes, and it never reports
the end of the input beyond the end. -/
structure Measured (r : Reader α) (c : Cursor) : Prop where
  success : ∀ v c', r c = .ok (v, c') → ∃ used, c.rest = used ++ c'.rest ∧ Consumes r c.offset used v
  failure : ∀ p, r c = .error (.truncated p) → p ≤ c.offset + c.rest.length

theorem Measured.end_eq {r : Reader α} {c c' : Cursor} {v : α} (h : Measured r c)
    (hr : r c = .ok (v, c')) : c'.offset + c'.rest.length = c.offset + c.rest.length := by
  obtain ⟨used, hrest, hused⟩ := h.success v c' hr
  have hwhole := hused.whole c'.rest
  rw [← hrest] at hwhole
  have hoffset : c'.offset = c.offset + used.length := by
    have heq := hr.symm.trans hwhole
    simp only [Except.ok.injEq, Prod.mk.injEq, true_and] at heq
    rw [heq]
  rw [hoffset, hrest, List.length_append, Nat.add_assoc]

/-- What two readers in a row find depends on the bytes of both. The first tells where the second
stands. -/
theorem Measured.bind {r : Reader α} {f : α → Reader β} {c : Cursor} (hr : Measured r c)
    (hf : ∀ v c', r c = .ok (v, c') → Measured (f v) c') : Measured (r >>= f) c := by
  cases h : r c with
  | error e =>
    constructor
    · intro w c' hw
      rw [bind_of_error h] at hw
      cases hw
    · intro p hp
      rw [bind_of_error h] at hp
      cases hp
      exact hr.failure p h
  | ok result =>
    obtain ⟨v, m⟩ := result
    have hm := hf v m h
    constructor
    · intro w c' hw
      rw [bind_of_ok h] at hw
      obtain ⟨x, hx, hconsumes⟩ := hr.success v m h
      obtain ⟨y, hy, hconsumes'⟩ := hm.success w c' hw
      have hoffset : m.offset = c.offset + x.length := by
        have hend := hr.end_eq h
        rw [hx, List.length_append] at hend
        omega
      rw [hoffset] at hconsumes'
      exact ⟨x ++ y, by rw [hx, hy, List.append_assoc], hconsumes.bind hconsumes'⟩
    · intro p hp
      rw [bind_of_ok h] at hp
      rw [← hr.end_eq h]
      exact hm.failure p hp

/-! ## Single fields -/

theorem measured_pure (v : α) (c : Cursor) : Measured (pure v) c where
  success w c' h := by
    cases h
    exact ⟨[], rfl, .nothing fun _ => rfl⟩
  failure p h := by cases h

/-- Of the cursor only the offset may be asked for: the rest is not yet consumed. -/
theorem measured_offset {g : Nat → Reader β} {c : Cursor} (h : Measured (g c.offset) c) :
    Measured (get >>= fun m => g m.offset) c where
  success v c' hv := by
    obtain ⟨used, hrest, hused⟩ := h.success v c' hv
    exact ⟨used, hrest, ⟨hused.whole, hused.cut⟩⟩
  failure p hp := h.failure p hp

theorem measured_throw {e : Fault} (he : ∀ p, e ≠ .truncated p) (c : Cursor) :
    Measured (throw e : Reader α) c where
  success v c' h := by cases h
  failure p h := by
    cases h
    exact absurd rfl (he p)

/-- A result that is given from outside consumes nothing, but it may report an end of input of its
own. -/
theorem measured_ofExcept {x : Except Fault α} {c : Cursor}
    (hx : ∀ p, x = .error (.truncated p) → p ≤ c.offset + c.rest.length) :
    Measured (ofExcept x) c := by
  cases x with
  | error e =>
    constructor
    · intro v c' h
      cases h
    · intro p h
      cases h
      exact hx p rfl
  | ok v => exact measured_pure v c

/-- A reader that looks at a fixed number of bytes. -/
theorem measured_of_width {r : Reader α} (n : Nat)
    (hread : ∀ bytes : List UInt8, bytes.length = n → ∃ v, Reads r bytes v)
    (hshort : ∀ rest offset, rest.length < n → r ⟨rest, offset⟩ = .error (.truncated offset))
    (c : Cursor) : Measured r c := by
  obtain ⟨bytes, offset⟩ := c
  by_cases hn : bytes.length < n
  · have herror := hshort bytes offset hn
    constructor
    · intro v c' h
      rw [herror] at h
      cases h
    · intro p h
      rw [herror] at h
      cases h
      exact Nat.le_add_right _ _
  · have hlength : (bytes.take n).length = n := by
      rw [List.length_take]
      omega
    obtain ⟨v, hv⟩ := hread (bytes.take n) hlength
    have hresult := hv (bytes.drop n) offset
    rw [List.take_append_drop] at hresult
    constructor
    · intro w c' h
      rw [hresult] at h
      cases h
      refine ⟨bytes.take n, (List.take_append_drop n bytes).symm, fun rest => hv rest offset, ?_⟩
      intro k hk
      refine ⟨offset, Nat.le_add_right _ _, hshort _ offset ?_⟩
      rw [List.length_take]
      omega
    · intro p h
      rw [hresult] at h
      cases h

theorem measured_take (n : Nat) (c : Cursor) : Measured (take n) c := by
  refine measured_of_width n (fun bytes h => ⟨bytes, reads_take h⟩) ?_ c
  intro rest offset h
  simp only [take, List.splitAt_eq, List.length_take]
  rw [if_neg (by omega)]

theorem measured_byte (c : Cursor) : Measured byte c := by
  apply measured_of_width 1
  · intro bytes h
    obtain ⟨a, rfl⟩ := List.length_eq_one_iff.mp h
    exact ⟨a, reads_byte a⟩
  · intro rest offset h
    rw [List.length_eq_zero_iff.mp (Nat.lt_one_iff.mp h)]
    rfl

theorem measured_word (c : Cursor) : Measured word c := by
  apply measured_of_width 2
  · intro bytes h
    obtain ⟨a, b, rfl⟩ := List.length_eq_two.mp h
    exact ⟨Word.join16 a b, fun _ _ => rfl⟩
  · intro rest offset h
    rcases rest with _ | ⟨a, _ | ⟨b, rest⟩⟩
    · rfl
    · rfl
    · simp only [List.length_cons] at h
      omega

/-- Four bytes are there, or the end of the input is reported whichever of them is missing. -/
theorem measured_doubleWord (c : Cursor) : Measured doubleWord c := by
  apply measured_of_width 4
  · intro bytes h
    obtain ⟨a, b, d, e, rfl⟩ : ∃ a b d e, bytes = [a, b, d, e] := by
      rcases bytes with _ | ⟨a, _ | ⟨b, _ | ⟨d, _ | ⟨e, _ | ⟨_, _⟩⟩⟩⟩⟩ <;>
        simp only [List.length_nil, List.length_cons] at h
      · omega
      · omega
      · omega
      · omega
      · exact ⟨a, b, d, e, rfl⟩
      · omega
    exact ⟨Word.join32 a b d e, fun _ _ => rfl⟩
  · intro rest offset h
    rcases rest with _ | ⟨a, _ | ⟨b, _ | ⟨d, _ | ⟨e, rest⟩⟩⟩⟩
    · rfl
    · rfl
    · rfl
    · rfl
    · simp only [List.length_cons] at h
      omega

/-! ## Fields in a row -/

theorem Measured.map {r : Reader α} {c : Cursor} (hr : Measured r c) (f : α → β) :
    Measured (f <$> r) c := by
  rw [map_eq_pure_bind]
  exact hr.bind fun v m _ => measured_pure (f v) m

theorem Measured.discard {r : Reader α} {c : Cursor} (hr : Measured r c) :
    Measured (discard r) c :=
  hr.map fun _ => ()

theorem measured_collect {item : Nat → Reader α} (hitem : ∀ turn c, Measured (item turn) c)
    (n turn : Nat) (found : Array α) (c : Cursor) : Measured (collect item turn found n) c := by
  induction n generalizing turn found c with
  | zero => exact measured_pure _ c
  | succ n ih => exact (hitem turn c).bind fun v m _ => ih (turn + 1) (found.push v) m

theorem measured_many {item : Reader α} (hitem : ∀ c, Measured item c) (n : Nat) (c : Cursor) :
    Measured (many n item) c :=
  measured_collect (fun _ => hitem) n 0 #[] c

/-- A constant is told by its tag; the cases are those of the tags. -/
theorem measured_constant (index : Nat) (c : Cursor) : Measured (constant index) c := by
  have hone {γ : Type} {f : γ → Constant} {r : Reader γ} (hr : ∀ c, Measured r c) (c : Cursor) :
      Measured (do return f (← r)) c :=
    (hr c).bind fun v m _ => measured_pure (f v) m
  have htwo (f : UInt16 → UInt16 → Constant) (c : Cursor) :
      Measured (do return f (← word) (← word)) c :=
    (measured_word c).bind fun _ m _ => hone measured_word m
  refine (measured_byte c).bind fun tag c _ => ?_
  split
  · refine (measured_word c).bind fun n c _ => (measured_take _ c).bind fun encoded c _ => ?_
    split
    · exact measured_pure _ c
    · exact measured_throw (by simp) c
  split
  · exact hone measured_doubleWord c
  split
  · exact hone measured_word c
  split
  · exact hone measured_word c
  split
  · exact htwo _ c
  split
  · exact htwo _ c
  split
  · exact htwo _ c
  split
  · exact htwo _ c
  · exact measured_throw (by simp) c

theorem measured_pool (c : Cursor) : Measured pool c := by
  refine (measured_word c).bind fun count c _ => ?_
  refine (measured_collect measured_constant _ _ _ c).bind fun entries c _ => ?_
  refine measured_ofExcept fun p hp => ?_
  rw [Pool.ofEntries] at hp
  split at hp <;> cases hp

/-! ## Attributes -/

/-- The look-up of a name never reports the end of the input. -/
theorem textAt_ne_truncated (pool : Pool) (i : UInt16) (p : Nat) :
    pool.textAt i ≠ .error (.truncated p) := by
  unfold Pool.textAt
  split <;> simp

theorem measured_textAt (pool : Pool) (i : UInt16) (c : Cursor) :
    Measured (ofExcept (pool.textAt i)) c :=
  measured_ofExcept fun p hp => absurd hp (textAt_ne_truncated pool i p)

theorem measured_attr {name : UInt16 → Except Fault α}
    (hname : ∀ i p, name i ≠ .error (.truncated p)) (c : Cursor) : Measured (attr name) c := by
  refine (measured_word c).bind fun i c _ => ?_
  refine (measured_ofExcept fun p hp => absurd hp (hname i p)).bind fun a c _ => ?_
  refine (measured_doubleWord c).bind fun size c _ => ?_
  refine measured_offset
    (g := fun start => take size.toNat >>= fun content => pure (a, (⟨content, start⟩ : Cursor))) ?_
  exact (measured_take _ c).bind fun content c _ => measured_pure _ c

theorem bind_eq_ok {r : Reader α} {f : α → Reader β} {c c' : Cursor} {w : β} :
    (r >>= f) c = .ok (w, c') ↔ ∃ v m, r c = .ok (v, m) ∧ f v m = .ok (w, c') := by
  cases h : r c with
  | error e =>
    rw [bind_of_error h]
    simp
  | ok result =>
    obtain ⟨v, m⟩ := result
    rw [bind_of_ok h]
    simp

theorem length_of_take {n : Nat} {c c' : Cursor} {bytes : List UInt8}
    (h : take n c = .ok (bytes, c')) : bytes.length = n ∧ c'.offset = c.offset + n := by
  simp only [take, List.splitAt_eq] at h
  split at h
  · next hlength =>
    cases h
    exact ⟨hlength, rfl⟩
  · cases h

/-- The content of an attribute ends where the attribute does. -/
theorem attr_content {name : UInt16 → Except Fault α} {c c' content : Cursor} {a : α}
    (h : attr name c = .ok ((a, content), c')) :
    content.offset + content.rest.length = c'.offset := by
  obtain ⟨i, _, -, h⟩ := bind_eq_ok.mp h
  obtain ⟨b, _, -, h⟩ := bind_eq_ok.mp h
  obtain ⟨size, _, -, h⟩ := bind_eq_ok.mp h
  obtain ⟨_, _, hget, h⟩ := bind_eq_ok.mp h
  cases hget
  obtain ⟨taken, _, htake, h⟩ := bind_eq_ok.mp h
  cases h
  obtain ⟨hlength, hoffset⟩ := length_of_take htake
  rw [hlength, hoffset]

theorem measured_skipAttributes (c : Cursor) : Measured skipAttributes c :=
  (measured_word c).bind fun _ c _ =>
    (measured_many (measured_attr (by simp)) _ c).discard

theorem measured_code (c : Cursor) : Measured code c := by
  refine (measured_word c).bind fun maxStack c _ => (measured_word c).bind fun maxLocals c _ => ?_
  refine (measured_doubleWord c).bind fun size c _ => (measured_take _ c).bind fun bytes c _ => ?_
  refine (measured_word c).bind fun handlers c _ => (measured_take _ c).discard.bind fun _ c _ => ?_
  exact (measured_skipAttributes c).bind fun _ c _ => measured_pure _ c

theorem measured_field (c : Cursor) : Measured field c :=
  (measured_take 6 c).discard.bind fun _ c _ => measured_skipAttributes c

/-- The loop over the attributes of a method, by induction on their number. An attribute's content
is read apart, and its end is counted from where the content starts. -/
theorem measured_methodAttributes (pool : Pool) (n : Nat) (found : Option Code) (c : Cursor) :
    Measured (methodAttributes pool found n) c := by
  induction n generalizing found c with
  | zero => exact measured_pure found c
  | succ n ih =>
    refine (measured_attr (textAt_ne_truncated pool) c).bind ?_
    rintro ⟨name, content⟩ c hattr
    dsimp only
    split
    · -- The second cursor ends where the first one stands now.
      have hinner : ∀ p, code content = .error (.truncated p) → p ≤ c.offset + c.rest.length := by
        intro p hp
        have hle := (measured_code content).failure p hp
        rw [attr_content hattr] at hle
        omega
      exact (measured_ofExcept hinner).bind fun result c _ => ih (some result.1) c
    · exact ih found c

theorem measured_method (pool : Pool) (c : Cursor) : Measured (method pool) c := by
  refine (measured_word c).bind fun access c _ => (measured_word c).bind fun name c _ => ?_
  refine (measured_textAt pool name c).bind fun name c _ => ?_
  refine (measured_word c).bind fun descriptor c _ => ?_
  refine (measured_textAt pool descriptor c).bind fun descriptor c _ => ?_
  refine (measured_word c).bind fun count c _ => ?_
  exact (measured_methodAttributes pool _ none c).bind fun code c _ => measured_pure _ c

theorem measured_classAttributes (pool : Pool) (n : Nat) (found : Option String) (c : Cursor) :
    Measured (classAttributes pool found n) c := by
  induction n generalizing found c with
  | zero => exact measured_pure found c
  | succ n ih =>
    refine (measured_attr (textAt_ne_truncated pool) c).bind ?_
    rintro ⟨name, content⟩ c -
    dsimp only
    split
    · exact (measured_textAt pool _ c).bind fun source c _ => ih (some source) c
    · exact ih found c

/-- A class file is read part by part, with each part measured where the one before has stopped. -/
theorem measured_classFile (c : Cursor) : Measured classFile c := by
  refine (measured_doubleWord c).bind fun magic c _ => ?_
  split
  · exact (measured_throw (by simp) c).bind fun _ c h => by cases h
  refine (measured_word c).bind fun minor c _ => (measured_word c).bind fun major c _ => ?_
  refine (measured_pool c).bind fun pool c _ => (measured_word c).bind fun access c _ => ?_
  refine (measured_word c).bind fun own c _ => (measured_word c).bind fun parent c _ => ?_
  refine (measured_word c).bind fun interfaces c _ => (measured_take _ c).discard.bind fun _ c _ => ?_
  refine (measured_word c).bind fun fields c _ => ?_
  refine (measured_many measured_field _ c).discard.bind fun _ c _ => ?_
  refine (measured_word c).bind fun count c _ => ?_
  refine (measured_many (measured_method pool) _ c).bind fun methods c _ => ?_
  refine (measured_word c).bind fun attributes c _ => ?_
  exact (measured_classAttributes pool _ none c).bind fun source c _ => measured_pure _ c

end Reader

open DraftCall

/-- These are the bytes of a draft after some sequence of calls. -/
def Drafted (bytes : List UInt8) : Prop :=
  ∃ name superName access d calls, ClassDraft.create name superName access = .ok d ∧
    bytes = (afterAll d calls).bytes

theorem Drafted.reads {bytes : List UInt8} (h : Drafted bytes) :
    ∃ c, Reader.Reads Reader.classFile bytes c := by
  obtain ⟨name, superName, access, d, calls, hcreate, rfl⟩ := h
  obtain ⟨hrecords, -⟩ := afterAll_records calls (ClassDraft.create_eq_ok hcreate).1
  obtain ⟨_, -, hreads⟩ := Reader.reads_classFile hrecords
  exact ⟨_, hreads⟩

namespace ClassFile

theorem parse_eq_ok {bytes : List UInt8} {c : ClassFile} :
    parse bytes = .ok c ↔ ∃ m, Reader.classFile ⟨bytes, 0⟩ = .ok (c, m) := by
  unfold parse
  cases h : Reader.classFile ⟨bytes, 0⟩ with
  | error e => simp [bind, Except.bind]
  | ok result => simp [bind, Except.bind, pure, Except.pure, Prod.ext_iff]

theorem parse_eq_error {bytes : List UInt8} {e : Fault} :
    parse bytes = .error e ↔ Reader.classFile ⟨bytes, 0⟩ = .error e := by
  unfold parse
  cases h : Reader.classFile ⟨bytes, 0⟩ with
  | error e => simp [bind, Except.bind]
  | ok result => simp [bind, Except.bind, pure, Except.pure]

/-- A class is a first part of the bytes that it is read from. Any less of them is reported as input
that ends too early, at a place in what is left, and whatever follows makes no difference. The bytes
of a draft are such a part as a whole. And the end of the input is never reported beyond the end. -/
theorem parse_truncation (bytes : List UInt8) :
    (∀ c, parse bytes = .ok c → ∃ m ≤ bytes.length,
      (∀ k < m, ∃ p ≤ k, parse (bytes.take k) = .error (.truncated p)) ∧
      (∀ x, parse (bytes.take m ++ x) = .ok c) ∧ (Drafted bytes → m = bytes.length)) ∧
    ∀ p, parse bytes = .error (.truncated p) → p ≤ bytes.length := by
  have hmeasured := Reader.measured_classFile ⟨bytes, 0⟩
  constructor
  · intro c hc
    obtain ⟨m, hread⟩ := parse_eq_ok.mp hc
    obtain ⟨used, hrest, hused⟩ := hmeasured.success c m hread
    dsimp only at hrest hused
    have htake : bytes.take used.length = used := by rw [hrest, List.take_left]
    refine ⟨used.length, ?_, ?_, ?_, ?_⟩
    · rw [hrest, List.length_append]
      exact Nat.le_add_right _ _
    · intro k hk
      obtain ⟨p, hp, herror⟩ := hused.cut k hk
      refine ⟨p, by omega, parse_eq_error.mpr ?_⟩
      rw [hrest, List.take_append_of_le_length (Nat.le_of_lt hk)]
      exact herror
    · intro x
      rw [htake]
      exact parse_eq_ok.mpr ⟨_, hused.whole x⟩
    · intro hdrafted
      obtain ⟨c', hreads⟩ := hdrafted.reads
      have hall := hreads [] 0
      rw [List.append_nil, hread] at hall
      cases hall
      rw [hrest, List.append_nil]
  · intro p hp
    have hle := hmeasured.failure p (parse_eq_error.mp hp)
    dsimp only at hle
    omega

/-- A class with a method and a source file, cut anywhere and continued in any way. -/
theorem parse_truncation_method :
    let calls : List DraftCall := [.method 8 "stop" "()V" stopping, .sourceFile "Main.txt"]
    ∃ d c, ClassDraft.create "Main" "java/lang/Object" 0x21 = .ok d ∧
      let bytes := (afterAll d calls).bytes
      parse bytes = .ok c ∧ c.methods = [⟨8, "stop", "()V", some ⟨0, 0, [177]⟩⟩] ∧
        c.sourceFile = some "Main.txt" ∧
        (∀ k < bytes.length, ∃ p ≤ k, parse (bytes.take k) = .error (.truncated p)) ∧
        ∀ x, parse (bytes ++ x) = .ok c := by
  intro calls
  have hcapacity : Pool.capacity = 65534 := rfl
  obtain ⟨d, hcreate, hsize, hcount⟩ :=
    ClassDraft.create_succeeds "Main" "java/lang/Object" 0x21 (by cbv) (by cbv)
  obtain ⟨e, hmethod, hsize', hcode⟩ := stopping_declared (d := d) (by omega)
    (Array.eq_empty_of_size_eq_zero hcount)
  obtain ⟨f, hnamed, -⟩ := ClassDraft.setSourceFile_succeeds (d := e)
    (show Text.ModifiedUtf8.encodedLength "Main.txt" ≤ _ by cbv) (by omega)
  have hdeclares : declaresAll d calls = [⟨8, "stop", "()V", some ⟨0, 0, [177]⟩⟩] := by
    simp [calls, declaresAll, declares, hmethod, hcode]
  have hnames : namesAll d none calls = some "Main.txt" := by
    simp [calls, namesAll, names, DraftCall.after, hmethod, hnamed]
  obtain ⟨pool, -, -, hparse⟩ := parse_afterAll (ClassDraft.create_eq_ok hcreate).1 calls
  have hdrafted : Drafted (afterAll d calls).bytes := ⟨_, _, _, d, calls, hcreate, rfl⟩
  obtain ⟨m, -, hcut, hlonger, hm⟩ := (parse_truncation _).1 _ hparse
  rw [hm hdrafted] at hcut hlonger
  rw [List.take_length] at hlonger
  exact ⟨d, _, hcreate, hparse, hdeclares, hnames, hcut, hlonger⟩

end ClassFile

end StackGlyph
