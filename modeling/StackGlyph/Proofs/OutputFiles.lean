import Mathlib
import StackGlyph.Proofs.Compiling
import StackGlyph.Proofs.NameGrammar

/-!
# Where class files are written

A compilation into a directory ends with its only write, so one that fails has written nothing. The
name of the file comes from the name of the class: no name that is accepted holds a slash, and none
leads to the directory itself or out of it. So the path of the file, however the directory is
spelled, leads to a place right below the directory, and different classes have different places.
-/
namespace StackGlyph

namespace FileTree

variable {t : FileTree} {start place : Place} {directory name path : String}

/-! ## Writing -/

/-- A way to write that either stores the whole content at the place that the path leads to or fails
without effect. -/
structure AllOrNothing (write : Writer) : Prop where
  stores {path : String} {bytes : List UInt8} {t t' : FileTree} :
    write path bytes t = .ok () t' → ∃ place, t.locate path = .ok place ∧ t' = t.put place bytes
  fails {path : String} {bytes : List UInt8} {t t' : FileTree} {cause : FileFault} :
    write path bytes t = .error cause t' → t' = t

/-- The tree changes in the last step of a write, when nothing can fail any more. -/
theorem write_allOrNothing : AllOrNothing write where
  stores h := by
    unfold write at h
    split at h
    · cases h
    · next place hlocate =>
      split at h
      · cases h
      · cases h
        exact ⟨place, hlocate, rfl⟩
  fails h := by
    unfold write at h
    split at h
    · cases h
      rfl
    · split at h
      · cases h
        rfl
      · cases h

theorem lookup_filter_ne {place other : Place} (h : other ≠ place)
    (files : List (Place × List UInt8)) :
    (files.filter (·.1 ≠ place)).lookup other = files.lookup other := by
  induction files with
  | nil => rfl
  | cons file files ih =>
    obtain ⟨key, bytes⟩ := file
    by_cases hkey : key = place
    · have hother : (other == key) = false := beq_eq_false_iff_ne.mpr (hkey ▸ h)
      rw [List.filter_cons_of_neg (by simpa using hkey), ih, List.lookup_cons, hother]
    · rw [List.filter_cons_of_pos (by simpa using hkey), List.lookup_cons, List.lookup_cons, ih]

/-- A file that is put into a tree is the only one that differs. -/
theorem content?_put (t : FileTree) (place other : Place) (bytes : List UInt8) :
    (t.put place bytes).content? other = if other = place then some bytes else t.content? other := by
  unfold put content?
  rw [List.lookup_cons]
  split
  · next hother => rw [if_pos (beq_iff_eq.mp hother)]
  · next hother =>
    have hne : other ≠ place := beq_eq_false_iff_ne.mp hother
    rw [if_neg hne, lookup_filter_ne hne]

/-! ## Paths -/

/-- Names are followed in two stretches as in one. -/
theorem follow_append (t : FileTree) (start : Place) (names more : List String) :
    t.follow start (names ++ more) =
      (t.follow start names).bind fun place => t.follow place more := by
  induction names generalizing start with
  | nil => rfl
  | cons name names ih =>
    rw [List.cons_append, follow, follow]
    split
    · rfl
    split
    · exact ih start
    split
    · exact ih start.dropLast
    split
    · rfl
    · exact ih (start ++ [name])

/-- A name that stands for nothing but itself. -/
structure Proper (name : String) : Prop where
  ne_empty : name ≠ ""
  ne_dot : name ≠ "."
  ne_dots : name ≠ ".."
  slash_not_mem : '/' ∉ name.toList

theorem follow_empty (h : t.follow start [""] = .ok place) : start = place := by
  rw [follow] at h
  split at h
  · cases h
  · cases h
    rfl

theorem follow_proper (hname : Proper name) (hstart : t.hasDirectory start = true)
    (h : t.follow start [name] = .ok place) : place = start ++ [name] := by
  have hempty : (name.isEmpty || decide (name = ".")) = false := by
    simp [hname.ne_empty, hname.ne_dot]
  rw [follow, hstart, hempty, if_neg (by simp), if_neg (by simp), if_neg hname.ne_dots] at h
  split at h
  · cases h
  · cases h
    rfl

def names (path : List Char) : List String :=
  (path.splitOn '/').map String.ofList

theorem names_append (path more : List Char) :
    names (path ++ '/' :: more) = names path ++ names more := by
  rw [names, List.splitOn_append_cons_self, List.map_append]
  rfl

theorem names_proper (h : Proper name) : names name.toList = [name] := by
  rw [names, List.splitOn_eq_singleton h.slash_not_mem, List.map_singleton, String.ofList_toList]

/-- The inversion of a path that leads somewhere: it is not empty, and its names were followed from
the top or from the current place. -/
theorem locate_eq_ok (h : t.locate path = .ok place) :
    path.toList ≠ [] ∧
      t.follow (if path.toList.head? = some '/' then [] else t.here) (names path.toList) =
        .ok place := by
  dsimp only [locate] at h
  split at h
  · cases h
  split at h
  · cases h
  split at h
  · cases h
  · next hempty => exact ⟨by simpa using hempty, h⟩

/-- The path of a name in a directory is the directory, a slash, which may be its last character
already, and the name. -/
theorem toList_join (h : directory.toList ≠ []) (name : String) :
    ∃ front, (join directory name).toList = front ++ '/' :: name.toList ∧
      (directory.toList = front ∨ directory.toList = front ++ ['/']) := by
  have hempty : directory.isEmpty = false := by
    rw [Bool.eq_false_iff, ne_eq, String.isEmpty_iff]
    rintro rfl
    exact h rfl
  unfold join
  rw [hempty, Bool.false_or]
  split
  · next hlast =>
    obtain ⟨front, hfront⟩ := List.getLast?_eq_some_iff.mp (of_decide_eq_true hlast)
    refine ⟨front, ?_, .inr hfront⟩
    rw [String.toList_append, hfront, List.append_assoc]
    rfl
  · refine ⟨directory.toList, ?_, .inl rfl⟩
    rw [String.toList_append, String.toList_append, List.append_assoc]
    rfl

/-- The path of a proper name in a directory leads to the place of that name right below it. -/
theorem locate_join (hname : Proper name) (hdirectory : t.locate directory = .ok start)
    (hstart : t.hasDirectory start = true) (h : t.locate (join directory name) = .ok place) :
    place = start ++ [name] := by
  obtain ⟨hne, hdirectory⟩ := locate_eq_ok hdirectory
  obtain ⟨-, h⟩ := locate_eq_ok h
  obtain ⟨front, hjoin, hfront⟩ := toList_join hne name
  -- Both paths start at the same place, and a slash at the end leads nowhere else.
  have hhead : (join directory name).toList.head? = directory.toList.head? := by
    rw [hjoin]
    rcases hfront with hfront | hfront
    · rw [hfront] at hne ⊢
      rw [List.head?_append_of_ne_nil _ hne]
    · rw [hfront, List.head?_append, List.head?_append]
      rfl
  generalize hroot : (if directory.toList.head? = some '/' then [] else t.here) = root at hdirectory
  rw [hhead, hroot, hjoin, names_append, names_proper hname, follow_append] at h
  have hreached : t.follow root (names front) = .ok start := by
    rcases hfront with hfront | hfront
    · rwa [hfront] at hdirectory
    · rw [hfront, names_append, follow_append] at hdirectory
      obtain ⟨reached, hreached, hlast⟩ := except_bind_eq_ok.mp hdirectory
      rwa [← follow_empty hlast]
  rw [hreached] at h
  exact follow_proper hname hstart h

end FileTree

/-! ## Names -/

namespace ClassName

variable {text : String} {name : ClassName}

/-- The file of an accepted name is called by that name, and by a proper one. -/
theorem fileName_of_parse (h : parse text = .ok name) :
    name.fileName = text ++ ".class" ∧ FileTree.Proper (text ++ ".class") := by
  refine ⟨by rw [fileName, dotted_of_parse h], ?_⟩
  have hlong : 6 ≤ (text ++ ".class").toList.length := by
    rw [String.toList_append, List.length_append]
    exact Nat.le_add_left 6 _
  have hshort {other : String} (hother : other.toList.length < 6) : text ++ ".class" ≠ other := by
    intro heq
    rw [heq] at hlong
    omega
  refine ⟨hshort (by decide), hshort (by decide), hshort (by decide), ?_⟩
  have hslash : '/' ∉ text.toList := fun hslash => by
    cases (parse_eq_ok.mp h).2.1 '/' hslash
  rw [String.toList_append, List.mem_append, not_or]
  exact ⟨hslash, by decide⟩

end ClassName

/-! ## Compiling into a directory -/

namespace Compile

open FileTree

variable {write : Writer} {settings : Settings} {source : List Char} {name directory path : String}
  {t t' : FileTree} {c : CompiledClass}

theorem fileName_of_compile (h : compile settings source name = .ok c) :
    c.name.fileName = name ++ ".class" ∧ Proper (name ++ ".class") := by
  have hname := nameOf_of_compile h
  unfold nameOf at hname
  split at hname
  · next hparse =>
    cases hname
    exact ClassName.fileName_of_parse hparse
  · cases hname

/-- A compilation into a directory succeeds exactly if there is the directory, the compilation
succeeds, and its file can be written. -/
theorem compileVia_eq_ok :
    compileVia write settings source name directory t = .ok (path, c) t' ↔
      t.isDirectory directory = true ∧ compile settings source name = .ok c ∧
        path = join directory (name ++ ".class") ∧ write path c.bytes t = .ok () t' := by
  constructor
  · intro h
    dsimp only [compileVia] at h
    split at h
    · cases h
    · next hdirectory =>
      split at h
      · cases h
      · next c hcompile =>
        split at h
        · cases h
        · next hwrite =>
          cases h
          have hfile := (fileName_of_compile hcompile).1
          exact ⟨by simpa using hdirectory, hcompile, by rw [hfile], hwrite⟩
  · rintro ⟨hdirectory, hcompile, rfl, hwrite⟩
    rw [compileVia, if_neg (by simp [hdirectory]), hcompile]
    simp only [(fileName_of_compile hcompile).1, hwrite]

/-- What a compilation that fails leaves behind is what its write left behind, if it came to
that. -/
theorem tree_of_error (hwrite : AllOrNothing write) {e : CompileError}
    (h : compileVia write settings source name directory t = .error e t') : t' = t := by
  dsimp only [compileVia] at h
  split at h
  · cases h
    rfl
  split at h
  · cases h
    rfl
  split at h
  · next hfails =>
    cases h
    exact hwrite.fails hfails
  · cases h

/-- The place of the file that a compilation writes. -/
theorem place_of_ok (hwrite : AllOrNothing write)
    (h : compileVia write settings source name directory t = .ok (path, c) t') :
    ∃ place, t.locate directory = .ok place ∧ t.hasDirectory place = true ∧
      t.locate path = .ok (place ++ [name ++ ".class"]) ∧
      t' = t.put (place ++ [name ++ ".class"]) c.bytes := by
  obtain ⟨hdirectory, hcompile, rfl, hstored⟩ := compileVia_eq_ok.mp h
  obtain ⟨place', hlocate, rfl⟩ := hwrite.stores hstored
  unfold isDirectory at hdirectory
  split at hdirectory
  · next place hplace =>
    obtain rfl := locate_join (fileName_of_compile hcompile).2 hplace hdirectory hlocate
    exact ⟨place, hplace, hdirectory, hlocate, rfl⟩
  · cases hdirectory

/-- A compilation into a directory is all or nothing, and it stays in the directory. A target that
is no directory is an error whatever the name and the program are. After an error the tree is as it
was. After a success one place of the tree has other content, right below the directory: it is
called by the dotted name and `.class`, which is no name for the directory itself or one above it,
and holds the bytes of the compiled class. A write that succeeds makes a success, and different
names never lead to the same place. -/
theorem compile_stays_in_directory {write : Writer} (hwrite : AllOrNothing write)
    (settings : Settings) (source : List Char) (name directory : String) (t : FileTree) :
    let file := name ++ ".class"
    let r := compileVia write settings source name directory t
    (t.isDirectory directory = false → r = .error (.notADirectory directory) t) ∧
    (∀ e t', r = .error e t' → t' = t) ∧
    (∀ path c t', r = .ok (path, c) t' →
      compile settings source name = .ok c ∧ path = join directory file ∧
      '/' ∉ file.toList ∧ file ≠ "." ∧ file ≠ ".." ∧
      ∃ place, t.locate directory = .ok place ∧ t.hasDirectory place = true ∧
        t.locate path = .ok (place ++ [file]) ∧
        t'.here = t.here ∧ t'.directories = t.directories ∧
        ∀ other, t'.content? other =
          if other = place ++ [file] then some c.bytes else t.content? other) ∧
    (∀ c t', t.isDirectory directory = true → compile settings source name = .ok c →
      write (join directory file) c.bytes t = .ok () t' → r = .ok (join directory file, c) t') ∧
    (∀ settings' source' name' directory' u path path' c c' t' u', r = .ok (path, c) t' →
      compileVia write settings' source' name' directory' u = .ok (path', c') u' →
      name' ≠ name → u.locate path' ≠ t.locate path) := by
  intro file r
  refine ⟨?_, ?_, ?_, ?_, ?_⟩
  · intro hdirectory
    show compileVia write settings source name directory t = _
    rw [compileVia, hdirectory]
    rfl
  · intro e t' h
    exact tree_of_error hwrite h
  · intro path c t' h
    obtain ⟨-, hcompile, hpath, -⟩ := compileVia_eq_ok.mp h
    have hfile := (fileName_of_compile hcompile).2
    refine ⟨hcompile, hpath, hfile.slash_not_mem, hfile.ne_dot, hfile.ne_dots, ?_⟩
    obtain ⟨place, hplace, hexists, hlocate, rfl⟩ := place_of_ok hwrite h
    exact ⟨place, hplace, hexists, hlocate, rfl, rfl, fun other => content?_put t _ other c.bytes⟩
  · intro c t' hdirectory hcompile hstored
    exact compileVia_eq_ok.mpr ⟨hdirectory, hcompile, rfl, hstored⟩
  · intro settings' source' name' directory' u path path' c c' t' u' h h' hne hsame
    obtain ⟨place, -, -, hlocate, -⟩ := place_of_ok hwrite h
    obtain ⟨place', -, -, hlocate', -⟩ := place_of_ok hwrite h'
    rw [hlocate, hlocate'] at hsame
    injection hsame with hsame
    have hfile : name' ++ ".class" = name ++ ".class" :=
      List.singleton_inj.mp (List.append_inj_right' hsame rfl)
    apply hne
    rw [← String.toList_inj, String.toList_append, String.toList_append] at hfile
    exact String.toList_inj.mp (List.append_cancel_right hfile)

/-- A file that is there is replaced, the one beside it stays as it is. -/
theorem compile_stays_in_directory_replacing :
    let t : FileTree :=
      { here := ["work"], directories := [["work"], ["work", "out"]],
        files := [(["work", "out", "demo.Main.class"], [1]), (["work", "out", "Other.class"], [2])] }
    ∃ c t', compile {} ['|'] "demo.Main" = .ok c ∧
      compileVia FileTree.write {} ['|'] "demo.Main" "out/" t =
        .ok ("out/demo.Main.class", c) t' ∧
      t'.content? ["work", "out", "demo.Main.class"] = some c.bytes ∧
      t'.content? ["work", "out", "Other.class"] = some [2] ∧
      compileVia FileTree.write {} ['|'] "demo.Main" "out/none" t =
        .error (.notADirectory "out/none") t := by
  intro t
  obtain ⟨c, hcompile, -⟩ := compile_demo ['|'] (by decide)
  have hlocate : t.locate "out/demo.Main.class" = .ok ["work", "out", "demo.Main.class"] := rfl
  have hwrite : FileTree.write "out/demo.Main.class" c.bytes t =
      .ok () (t.put ["work", "out", "demo.Main.class"] c.bytes) := by
    simp only [FileTree.write, hlocate]
    rfl
  obtain ⟨-, -, hplace, hstored, -⟩ :=
    compile_stays_in_directory write_allOrNothing {} ['|'] "demo.Main" "out/" t
  obtain ⟨hnone, -⟩ :=
    compile_stays_in_directory write_allOrNothing {} ['|'] "demo.Main" "out/none" t
  have hok := hstored c _ rfl hcompile hwrite
  obtain ⟨-, -, -, -, -, place, hdirectory, -, -, -, -, hcontent⟩ := hplace _ _ _ hok
  have hout : t.locate "out/" = .ok ["work", "out"] := rfl
  obtain rfl : ["work", "out"] = place := by
    rw [hout] at hdirectory
    injection hdirectory
  exact ⟨c, _, hcompile, hok, hcontent _, hcontent _, hnone rfl⟩

end Compile

end StackGlyph
