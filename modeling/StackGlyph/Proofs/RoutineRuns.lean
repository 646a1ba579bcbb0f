import Mathlib
import StackGlyph.Proofs.Cells
import StackGlyph.Proofs.Linking
import StackGlyph.Proofs.Scripts

/-!
# What the routines do

A linked routine goes through a fixed list of actions. On a queue that holds a stack of cells, these
actions do to the stack what the command means, in a number of instructions that depends on the
height of the stack alone; if the command lacks cells, they raise an exception. `hello` is by
induction over the units of the greeting, the loop of `print` by induction over the cells.
-/
namespace StackGlyph

open Machine

/-- The instructions that the routine of a command takes on a stack of the given height. -/
def Command.cost : Command → Nat → Nat
  | .dup, _ => 7
  | .hello, _ => 55
  | .not, _ => 12
  | .rot, _ => 21
  | .xor, _ => 14
  | .print, height => 4 + 10 * height

/-- The instruction of its routine, counted from one, at which a command that lacks cells takes one
more from a stack of the given height. -/
def Command.shortfall : Command → Nat → Nat
  | .xor, 0 => 4
  | .xor, _ => 8
  | .rot, height => 3 + 3 * height
  | _, _ => 3

namespace Routines

/-! ## The actions of each routine -/

def popUnitActions : List Action :=
  [libraryCall 0 .pop, .cast .character, libraryCall 0 .unbox]

def pushUnitActions : List Action :=
  [boxCall, libraryCall 1 .push]

def helloUnitActions (unit : UInt16) : List Action :=
  .dup :: .push (Int32.ofNat unit.toNat) :: pushUnitActions

/-- The loop of `print` leads from its end to its first action, or out of it to the last. -/
def printActions (target : Nat → Nat) : List Action :=
  .load 0 :: libraryCall 0 .isEmpty :: .branch .nonzero (target 1) (some 10) :: .output ::
    .load 0 :: popUnitActions ++
    [libraryCall 1 .print, .branch .always (target 0) (some 0), .leave]

/-- The actions of a command's routine; `target` tells the offsets of labels, which only traps
show. -/
def actions (target : Nat → Nat) : Command → List Action
  | .dup => [.load 0, .dup, libraryCall 0 .pop, .dup2, libraryCall 1 .push, libraryCall 1 .push,
      .leave]
  | .hello => .load 0 :: (Text.Utf16.units greeting).reverse.flatMap helloUnitActions ++
      [.pop, .leave]
  | .not => .load 0 :: .dup :: popUnitActions ++
      .negate :: .push 255 :: .add :: .narrow :: pushUnitActions ++ [.leave]
  | .rot => .load 0 :: [1, 2, 3].flatMap (fun slot => [.dup, libraryCall 0 .pop, .store slot]) ++
      [1, 3, 2].flatMap (fun slot => [.dup, .load slot, libraryCall 1 .push]) ++ [.pop, .leave]
  | .xor => .load 0 :: .dup :: .dup :: popUnitActions ++ .swap :: popUnitActions ++
      .xor :: pushUnitActions ++ [.leave]
  | .print => printActions target

section Linked

open Request

variable {own : String} {target : Nat → Nat} {place : Nat → Option Nat}

theorem action?_popCell :
    popCellRequest.action? own target place = some (libraryCall 0 .pop) := by
  have h : MethodType.parse "()Ljava/lang/Object;" =
      .ok ⟨[], some ⟨0, .object "java/lang/Object"⟩⟩ := by cbv
  simp only [popCellRequest, action?, callAction, h]
  rfl

theorem action?_pushCell :
    pushCellRequest.action? own target place = some (libraryCall 1 .push) := by
  have h : MethodType.parse "(Ljava/lang/Object;)V" =
      .ok ⟨[⟨0, .object "java/lang/Object"⟩], none⟩ := by cbv
  simp only [pushCellRequest, action?, callAction, h]
  rfl

theorem filterMap_popUnitScript :
    popUnitScript.filterMap (action? own target place) = popUnitActions := by
  have h : MethodType.parse "()C" = .ok ⟨[], some ⟨0, .char⟩⟩ := by cbv
  have hunbox : action? own target place (.call .virtual characterClass "charValue" "()C") =
      some (libraryCall 0 .unbox) := by
    simp only [action?, callAction, h]
    rfl
  have hcast : action? own target place (.onType .checkcast characterClass) =
      some (.cast .character) := rfl
  simp only [popUnitScript, List.filterMap_cons, List.filterMap_nil, action?_popCell, hcast, hunbox]
  rfl

/-- Boxing goes to the library, unless the class itself takes the place of the class of boxes. -/
theorem filterMap_pushUnitScript (hown : own ≠ characterClass) :
    pushUnitScript.filterMap (action? own target place) = pushUnitActions := by
  have h : MethodType.parse "(C)Ljava/lang/Character;" =
      .ok ⟨[⟨0, .char⟩], some ⟨0, .object "java/lang/Character"⟩⟩ := by cbv
  have hbox : action? own target place
      (.call .static characterClass "valueOf" "(C)Ljava/lang/Character;") = some boxCall := by
    simp only [action?, callAction, h]
    simp [hown]
    rfl
  simp only [pushUnitScript, List.filterMap_cons, List.filterMap_nil, action?_pushCell, hbox]
  rfl

theorem filterMap_helloUnits (hown : own ≠ characterClass) (units : List UInt16) :
    (units.flatMap helloUnitScript).filterMap (action? own target place) =
      units.flatMap helloUnitActions := by
  rw [List.filterMap_flatMap]
  refine List.flatMap_congr fun unit _ => ?_
  show Action.dup :: Action.push (Int32.ofNat unit.toNat) ::
    pushUnitScript.filterMap (action? own target place) = _
  rw [filterMap_pushUnitScript hown]
  rfl

/-- The places of the two labels of `print`. -/
theorem filterMap_printScript :
    (script .print).filterMap (action? own target fun label => placeOf label (script .print)) =
      printActions target := by
  have h : MethodType.parse "()Z" = .ok ⟨[], some ⟨0, .boolean⟩⟩ := by cbv
  have h' : MethodType.parse "(C)V" = .ok ⟨[⟨0, .char⟩], none⟩ := by cbv
  have hempty (place : Nat → Option Nat) :
      action? own target place (.call .interface dequeClass "isEmpty" "()Z") =
        some (libraryCall 0 .isEmpty) := by
    simp only [action?, callAction, h]
    rfl
  have hprint (place : Nat → Option Nat) :
      action? own target place (.call .virtual "java/io/PrintStream" "print" "(C)V") =
        some (libraryCall 1 .print) := by
    simp only [action?, callAction, h']
    rfl
  generalize hplace : (fun label => placeOf label (script .print)) = place
  have htop : place 0 = some 0 := by rw [← hplace]; rfl
  have hdone : place 1 = some 10 := by rw [← hplace]; rfl
  simp only [script, printScript, List.filterMap_cons, List.filterMap_append,
    filterMap_popUnitScript, hempty, hprint, List.filterMap_nil]
  simp only [action?, htop, hdone]
  rfl

/-- What a routine links to. -/
theorem filterMap_script (hown : own ≠ characterClass) (c : Command) :
    (script c).filterMap (action? own target fun label => placeOf label (script c)) =
      actions target c := by
  cases c with
  | dup =>
    simp only [script, List.filterMap_cons, List.filterMap_nil, action?_popCell, action?_pushCell]
    rfl
  | print => exact filterMap_printScript
  | hello =>
    simp only [script, List.filterMap_append, List.filterMap_cons, List.filterMap_nil,
      filterMap_helloUnits hown]
    rfl
  | not =>
    simp only [script, List.filterMap_append, List.filterMap_cons, List.filterMap_nil,
      filterMap_popUnitScript, filterMap_pushUnitScript hown]
    rfl
  | rot =>
    simp only [script, List.filterMap_append, List.filterMap_cons, List.filterMap_nil,
      List.filterMap_flatMap, action?_popCell, action?_pushCell]
    rfl
  | xor =>
    simp only [script, List.filterMap_append, List.filterMap_cons, List.filterMap_nil,
      filterMap_popUnitScript, filterMap_pushUnitScript hown]
    rfl

/-- Only `print` has jumps: one to its first action, one to its last. -/
theorem script_lands (c : Command) : Lands (script c) := by
  intro op label hjump
  cases c with
  | print =>
    have hlabel : label = 0 ∨ label = 1 := by
      simp [script, printScript, popUnitScript, popCellRequest] at hjump
      omega
    rcases hlabel with rfl | rfl
    · exact ⟨0, rfl, by decide⟩
    · exact ⟨10, rfl, by decide⟩
  | hello => simp [script, helloUnitScript, pushUnitScript, pushCellRequest] at hjump
  | _ =>
    simp [script, popUnitScript, popCellRequest, pushUnitScript, pushCellRequest] at hjump

end Linked

/-! ## Their runs -/

section Runs

variable {p : Program} {limits : Limits} {c : Activation} {locals : Array Value} {w : World}
  {queue : Nat} {units units' printed : List UInt16} {x y z : UInt16} {ahead : List Action}
  {stack : List Value} {target : Nat → Nat}

theorem moves_popUnit {v : Value} {cells : List Value} (hcells : w.HasCells queue (v :: cells))
    (hv : w.Boxed v x) :
    Moves p limits c 3 ⟨popUnitActions ++ ahead, locals, .ref queue :: stack, w⟩
      ⟨ahead, locals, unitValue x :: stack, w.setCells queue cells⟩ := by
  have hv' := hv.keeps (World.keeps_setCells hcells cells)
  exact (moves_popCell hcells).trans ((moves_cast hv').trans (moves_unbox hv'))

theorem moves_pushUnit {cells : List Value} (hcells : w.HasCells queue cells) :
    Moves p limits c 2 ⟨pushUnitActions ++ ahead, locals, unitValue x :: .ref queue :: stack, w⟩
      ⟨ahead, locals, stack, (w.box x).setCells queue (.ref w.heap.size :: cells)⟩ :=
  (moves_box x).trans (moves_pushCell (hcells.box x) (World.boxed_new w x).ne_null)

/-- A queue to which a new box was added holds one more unit. -/
theorem holds_pushUnit {cells : List Value} (htidy : w.Tidy) (hcells : w.HasCells queue cells)
    (hboxed : List.Forall₂ w.Boxed cells units) :
    ((w.box x).setCells queue (.ref w.heap.size :: cells)).Holds queue (x :: units) :=
  (htidy.keeps (World.keeps_box w x) rfl).holds_set (hcells.box x)
    (.cons (World.boxed_new w x) (hboxed.imp fun _ _ hv => hv.keeps (World.keeps_box w x)))

/-- The front of a queue that holds a cell. -/
theorem holds_cons (h : w.Holds queue (x :: units)) :
    w.Tidy ∧ ∃ v cells, w.HasCells queue (v :: cells) ∧ w.Boxed v x ∧
      List.Forall₂ w.Boxed cells units := by
  obtain ⟨⟨_, hcells, hboxed⟩, htidy⟩ := h
  obtain ⟨v, cells, hv, hrest, rfl⟩ := List.forall₂_cons_right_iff.mp hboxed
  exact ⟨htidy, v, cells, hcells, hv, hrest⟩

theorem dup_moves (hqueue : locals[0]? = some (.ref queue)) (h : w.Holds queue (x :: units)) :
    ∃ w', w'.Holds queue (x :: x :: units) ∧ w'.printed = w.printed ∧
      ∀ c, Moves p limits c 6 ⟨actions target .dup, locals, [], w⟩ ⟨[.leave], locals, [], w'⟩ := by
  obtain ⟨htidy, v, cells, hcells, hv, hrest⟩ := holds_cons h
  have hpop := hcells.set cells
  refine ⟨_, ?_, ?_, fun c => (moves_load hqueue).trans (moves_dup.trans
    ((moves_popCell hcells).trans (moves_dup2.trans ((moves_pushCell hpop hv.ne_null).trans
      (moves_pushCell (hpop.set (v :: cells)) hv.ne_null)))))⟩
  · simp only [World.setCells_setCells]
    exact htidy.holds_set hcells (.cons hv (.cons hv hrest))
  · simp

/-- A negated unit and 255, added and narrowed, give the difference in 16 bits. -/
theorem moves_complement :
    Moves p limits c 4
      ⟨.negate :: .push 255 :: .add :: .narrow :: ahead, locals, unitValue x :: stack, w⟩
      ⟨ahead, locals, unitValue (255 - x) :: stack, w⟩ := by
  have h : (-(Int32.ofNat x.toNat) + 255).toUInt32.toUInt16 = 255 - x := by
    apply UInt16.toBitVec_inj.mp
    simp
    bv_omega
  unfold unitValue
  rw [← h]
  exact moves_negate.trans ((moves_push 255).trans (moves_add.trans moves_narrow))

theorem moves_xorUnits :
    Moves p limits c 1 ⟨.xor :: ahead, locals, unitValue y :: unitValue x :: stack, w⟩
      ⟨ahead, locals, unitValue (x ^^^ y) :: stack, w⟩ := by
  have h : Int32.ofNat x.toNat ^^^ Int32.ofNat y.toNat = Int32.ofNat (x ^^^ y).toNat := by
    apply Int32.toBitVec_inj.mp
    simp
  unfold unitValue
  rw [← h]
  exact moves_xor

theorem not_moves (hqueue : locals[0]? = some (.ref queue)) (h : w.Holds queue (x :: units)) :
    ∃ w', w'.Holds queue ((255 - x) :: units) ∧ w'.printed = w.printed ∧
      ∀ c, Moves p limits c 11 ⟨actions target .not, locals, [], w⟩ ⟨[.leave], locals, [], w'⟩ := by
  obtain ⟨htidy, v, cells, hcells, hv, hrest⟩ := holds_cons h
  have hkeeps := World.keeps_setCells hcells cells
  refine ⟨_, ?_, ?_, fun c => (moves_load hqueue).trans (moves_dup.trans
    ((moves_popUnit hcells hv).trans (moves_complement.trans
      (moves_pushUnit (hcells.set cells)))))⟩
  · exact holds_pushUnit (htidy.keeps hkeeps rfl) (hcells.set cells)
      (hrest.imp fun _ _ hu => hu.keeps hkeeps)
  · simp

/-- Both operands are popped and unboxed before the result is boxed and pushed. -/
theorem xor_moves (hqueue : locals[0]? = some (.ref queue)) (h : w.Holds queue (x :: y :: units)) :
    ∃ w', w'.Holds queue ((x ^^^ y) :: units) ∧ w'.printed = w.printed ∧
      ∀ c, Moves p limits c 13 ⟨actions target .xor, locals, [], w⟩ ⟨[.leave], locals, [], w'⟩ := by
  obtain ⟨htidy, v, _, hcells, hv, htail⟩ := holds_cons h
  obtain ⟨u, cells, hu, hrest, rfl⟩ := List.forall₂_cons_right_iff.mp htail
  have hfirst := World.keeps_setCells hcells (u :: cells)
  have hpop := hcells.set (u :: cells)
  have hsecond := World.keeps_setCells hpop cells
  refine ⟨_, ?_, ?_, fun c => (moves_load hqueue).trans (moves_dup.trans (moves_dup.trans
    ((moves_popUnit hcells hv).trans (moves_swap.trans
      ((moves_popUnit hpop (hu.keeps hfirst)).trans (moves_xorUnits.trans
        (moves_pushUnit (hpop.set cells))))))))⟩
  · exact holds_pushUnit ((htidy.keeps hfirst rfl).keeps hsecond rfl) (hpop.set cells)
      (hrest.imp fun _ _ hv => (hv.keeps hfirst).keeps hsecond)
  · simp

theorem moves_takeCell (slot : Nat) {v : Value} {cells : List Value}
    (hcells : w.HasCells queue (v :: cells)) (hslot : slot < locals.size) :
    Moves p limits c 3
      ⟨.dup :: libraryCall 0 .pop :: .store slot :: ahead, locals, .ref queue :: stack, w⟩
      ⟨ahead, locals.setIfInBounds slot v, .ref queue :: stack, w.setCells queue cells⟩ :=
  moves_dup.trans ((moves_popCell hcells).trans (moves_store hslot))

theorem moves_giveCell (slot : Nat) {v : Value} {cells : List Value}
    (hcells : w.HasCells queue cells) (hv : v ≠ .null) (hslot : locals[slot]? = some v) :
    Moves p limits c 3
      ⟨.dup :: .load slot :: libraryCall 1 .push :: ahead, locals, .ref queue :: stack, w⟩
      ⟨ahead, locals, .ref queue :: stack, w.setCells queue (v :: cells)⟩ :=
  moves_dup.trans ((moves_load hslot).trans (moves_pushCell hcells hv))

/-- The three top cells pass through slots 1 to 3, the former top in the first of them. -/
theorem rot_moves (hqueue : locals[0]? = some (.ref queue)) (hsize : 4 ≤ locals.size)
    (h : w.Holds queue (x :: y :: z :: units)) :
    ∃ w' locals', w'.Holds queue (y :: z :: x :: units) ∧ w'.printed = w.printed ∧
      ∀ c, Moves p limits c 20 ⟨actions target .rot, locals, [], w⟩
        ⟨[.leave], locals', [], w'⟩ := by
  obtain ⟨htidy, v₁, _, hcells, hv₁, htail⟩ := holds_cons h
  obtain ⟨v₂, _, hv₂, htail', rfl⟩ := List.forall₂_cons_right_iff.mp htail
  obtain ⟨v₃, cells, hv₃, hrest, rfl⟩ := List.forall₂_cons_right_iff.mp htail'
  let locals₁ := locals.setIfInBounds 1 v₁
  let locals₂ := locals₁.setIfInBounds 2 v₂
  let locals₃ := locals₂.setIfInBounds 3 v₃
  have hsize₁ : 2 < locals₁.size := by simp [locals₁]; omega
  have hsize₂ : 3 < locals₂.size := by simp [locals₂, locals₁]; omega
  have hslot₁ : locals₃[1]? = some v₁ := by
    simp [locals₃, locals₂, locals₁, Array.getElem?_setIfInBounds]; omega
  have hslot₂ : locals₃[2]? = some v₂ := by
    simp [locals₃, locals₂, locals₁, Array.getElem?_setIfInBounds]; omega
  have hslot₃ : locals₃[3]? = some v₃ := by
    simp [locals₃, locals₂, locals₁, Array.getElem?_setIfInBounds]; omega
  have hpop₁ := hcells.set (v₂ :: v₃ :: cells)
  have hpop₂ := hpop₁.set (v₃ :: cells)
  have hpop₃ := hpop₂.set cells
  have hpush₁ := hpop₃.set (v₁ :: cells)
  have hpush₃ := hpush₁.set (v₃ :: v₁ :: cells)
  refine ⟨_, locals₃, ?_, ?_, fun c => (moves_load hqueue).trans
    ((moves_takeCell 1 hcells (by omega)).trans ((moves_takeCell 2 hpop₁ hsize₁).trans
      ((moves_takeCell 3 hpop₂ hsize₂).trans ((moves_giveCell 1 hpop₃ hv₁.ne_null hslot₁).trans
        ((moves_giveCell 3 hpush₁ hv₃.ne_null hslot₃).trans
          ((moves_giveCell 2 hpush₃ hv₂.ne_null hslot₂).trans moves_pop))))))⟩
  · -- Six replacements of the cells amount to the last one.
    simp only [World.setCells_setCells]
    exact htidy.holds_set hcells (.cons hv₂ (.cons hv₃ (.cons hv₁ hrest)))
  · simp

/-- Units that are pushed one by one lie in reverse order, by induction on them. -/
theorem moves_helloUnits (us : List UInt16) (h : w.Holds queue units) :
    ∃ w', w'.Holds queue (us.reverse ++ units) ∧ w'.printed = w.printed ∧
      ∀ (c : Activation) (ahead : List Action), Moves p limits c (4 * us.length)
        ⟨us.flatMap helloUnitActions ++ ahead, locals, .ref queue :: stack, w⟩
        ⟨ahead, locals, .ref queue :: stack, w'⟩ := by
  induction us generalizing w units with
  | nil => exact ⟨w, h, rfl, fun _ _ => .refl _⟩
  | cons u us ih =>
    obtain ⟨⟨cells, hcells, hboxed⟩, htidy⟩ := h
    obtain ⟨w', hholds, hprinted, hmoves⟩ := ih (holds_pushUnit (x := u) htidy hcells hboxed)
    refine ⟨w', ?_, ?_, fun c ahead => ?_⟩
    · rw [List.reverse_cons, List.append_assoc]
      exact hholds
    · rw [hprinted]
      simp
    · rw [List.length_cons, show 4 * (us.length + 1) = 1 + (1 + (2 + 4 * us.length)) by omega]
      exact moves_dup.trans ((moves_push _).trans ((moves_pushUnit hcells).trans (hmoves c ahead)))

theorem hello_moves (hqueue : locals[0]? = some (.ref queue)) (h : w.Holds queue units) :
    ∃ w', w'.Holds queue (Text.Utf16.units greeting ++ units) ∧ w'.printed = w.printed ∧
      ∀ c, Moves p limits c 54 ⟨actions target .hello, locals, [], w⟩
        ⟨[.leave], locals, [], w'⟩ := by
  have hlength : (Text.Utf16.units greeting).reverse.length = 13 := by decide +kernel
  obtain ⟨w', hholds, hprinted, hmoves⟩ :=
    moves_helloUnits (Text.Utf16.units greeting).reverse h
  rw [List.reverse_reverse] at hholds
  rw [hlength] at hmoves
  exact ⟨w', hholds, hprinted, fun c => (moves_load hqueue).trans ((hmoves c _).trans moves_pop)⟩

/-- One turn of the loop of `print` takes a cell and prints it. -/
theorem print_turn (hqueue : locals[0]? = some (.ref queue)) (h : w.Holds queue (x :: units)) :
    ∃ w', w'.Holds queue units ∧ w'.printed = w.printed.push x ∧
      ∀ c, Ahead c.method 0 (printActions target) →
        Moves p limits c 10 ⟨printActions target, locals, [], w⟩
          ⟨printActions target, locals, [], w'⟩ := by
  obtain ⟨htidy, v, cells, hcells, hv, hrest⟩ := holds_cons h
  have hv := hv.keeps w.keeps_withOutput
  have hcells' := hcells.withOutput
  have hplace := World.keeps_setCells hcells' cells _ _ htidy.outputPlace (by simp)
  have hholds := htidy.withOutput.holds_set hcells'
    (hrest.imp fun _ _ hu => hu.keeps w.keeps_withOutput)
  refine ⟨(w.withOutput.setCells queue cells).print x, ⟨hholds.cells, hholds.tidy⟩, ?_,
    fun c hall => (moves_load hqueue).trans ((moves_isEmpty hcells).trans (moves_past.trans
      (moves_output.trans ((moves_load hqueue).trans ((moves_popUnit hcells' hv).trans
        ((moves_print hplace).trans (moves_to hall (.inl ⟨rfl, rfl⟩))))))))⟩
  simp [World.print]

/-- The loop of `print` runs once for each cell. -/
theorem print_moves (hqueue : locals[0]? = some (.ref queue)) (h : w.Holds queue units) :
    ∃ w', w'.Holds queue [] ∧ w'.printed = w.printed ++ units.toArray ∧
      ∀ c, Ahead c.method 0 (printActions target) →
        Moves p limits c (10 * units.length + 3) ⟨printActions target, locals, [], w⟩
          ⟨[.leave], locals, [], w'⟩ := by
  induction units generalizing w with
  | nil =>
    obtain ⟨cells, hcells, hboxed⟩ := h.cells
    cases List.forall₂_nil_right_iff.mp hboxed
    exact ⟨w, h, by simp, fun c hall => (moves_load hqueue).trans ((moves_isEmpty hcells).trans
      (moves_to hall (.inr ⟨rfl, rfl⟩)))⟩
  | cons u units ih =>
    obtain ⟨w₁, hholds₁, hprinted₁, hturn⟩ := print_turn hqueue h
    obtain ⟨w₂, hholds₂, hprinted₂, hmoves⟩ := ih hholds₁
    refine ⟨w₂, hholds₂, ?_, fun c hall => ?_⟩
    · rw [hprinted₂, hprinted₁]
      simp
    · rw [List.length_cons,
        show 10 * (units.length + 1) + 3 = 10 + (10 * units.length + 3) by omega]
      exact (hturn c hall).trans (hmoves c hall)

/-- A routine does to the queue what its command means, at the command's cost. -/
theorem actions_move (target : Nat → Nat) (command : Command)
    (hqueue : locals[0]? = some (.ref queue))
    (hsize : command = .rot → 4 ≤ locals.size) (h : w.Holds queue units)
    (happly : command.apply units = some (units', printed)) :
    ∃ n w' locals', n + 1 = command.cost units.length ∧ w'.Holds queue units' ∧
      w'.printed = w.printed ++ printed.toArray ∧
      ∀ c, Ahead c.method 0 (actions target command) →
        Moves p limits c n ⟨actions target command, locals, [], w⟩ ⟨[.leave], locals', [], w'⟩ := by
  unfold Command.apply at happly
  split at happly
  all_goals cases happly
  · obtain ⟨w', hholds, hprinted, hmoves⟩ := dup_moves hqueue h
    exact ⟨6, w', locals, rfl, hholds, by simp [hprinted], fun c _ => hmoves c⟩
  · obtain ⟨w', hholds, hprinted, hmoves⟩ := hello_moves hqueue h
    exact ⟨54, w', locals, rfl, hholds, by simp [hprinted], fun c _ => hmoves c⟩
  · obtain ⟨w', hholds, hprinted, hmoves⟩ := not_moves hqueue h
    exact ⟨11, w', locals, rfl, hholds, by simp [hprinted], fun c _ => hmoves c⟩
  · obtain ⟨w', locals', hholds, hprinted, hmoves⟩ := rot_moves hqueue (hsize rfl) h
    exact ⟨20, w', locals', rfl, hholds, by simp [hprinted], fun c _ => hmoves c⟩
  · obtain ⟨w', hholds, hprinted, hmoves⟩ := xor_moves hqueue h
    exact ⟨13, w', locals, rfl, hholds, by simp [hprinted], fun c _ => hmoves c⟩
  · obtain ⟨w', hholds, hprinted, hmoves⟩ := print_moves hqueue h
    exact ⟨_, w', locals, by simp only [Command.cost]; omega, hholds, hprinted, hmoves⟩

theorem hasCells_nil (h : w.Holds queue []) : w.HasCells queue [] := by
  obtain ⟨cells, hcells, hboxed⟩ := h.cells
  cases List.forall₂_nil_right_iff.mp hboxed
  exact hcells

/-- Where the routine of a command finds out that a stack of the given height is too low. -/
def lackingSite (target : Nat → Nat) (command : Command) (height : Nat) (m : LinkedMethod) : Site :=
  m.siteBefore ((actions target command).length - command.shortfall height)

/-- The second cell is asked for once the first is popped, so that the trap is found at either. -/
theorem xor_raises (hqueue : locals[0]? = some (.ref queue)) (h : w.Holds queue units)
    (hlack : units.length < 2) :
    ∃ w', w'.printed = w.printed ∧ ∀ c, Raises p limits c (Command.shortfall .xor units.length)
      ⟨actions target .xor, locals, [], w⟩
      (.raised .noSuchElement (lackingSite target .xor units.length c.method)) w' := by
  have hload (c : Activation) : Moves p limits c 3 ⟨actions target .xor, locals, [], w⟩ _ :=
    (moves_load hqueue).trans (moves_dup.trans moves_dup)
  match units, h with
  | [], h => exact ⟨_, rfl, fun c => (hload c).raises (raises_popCell (hasCells_nil h))⟩
  | [x], h =>
    obtain ⟨htidy, v, cells, hcells, hv, hrest⟩ := holds_cons h
    cases List.forall₂_nil_right_iff.mp hrest
    exact ⟨w.setCells queue [], rfl, fun c => (hload c).raises ((moves_popUnit hcells hv).raises
      (moves_swap.raises (raises_popCell (hcells.set []))))⟩

/-- The three pops stand behind each other, and the height tells which of them fails. -/
theorem rot_raises (hqueue : locals[0]? = some (.ref queue)) (hsize : 4 ≤ locals.size)
    (h : w.Holds queue units) (hlack : units.length < 3) :
    ∃ w', w'.printed = w.printed ∧ ∀ c, Raises p limits c (Command.shortfall .rot units.length)
      ⟨actions target .rot, locals, [], w⟩
      (.raised .noSuchElement (lackingSite target .rot units.length c.method)) w' := by
  have hload (c : Activation) : Moves p limits c 1 ⟨actions target .rot, locals, [], w⟩ _ :=
    moves_load hqueue
  match units, h with
  | [], h =>
    exact ⟨_, rfl, fun c => (hload c).raises (moves_dup.raises (raises_popCell (hasCells_nil h)))⟩
  | [x], h =>
    obtain ⟨htidy, v, cells, hcells, hv, hrest⟩ := holds_cons h
    cases List.forall₂_nil_right_iff.mp hrest
    exact ⟨w.setCells queue [], rfl, fun c => (hload c).raises
      ((moves_takeCell 1 hcells (by omega)).raises
        (moves_dup.raises (raises_popCell (hcells.set []))))⟩
  | [x, y], h =>
    obtain ⟨htidy, v, _, hcells, hv, htail⟩ := holds_cons h
    obtain ⟨u, cells, hu, hrest, rfl⟩ := List.forall₂_cons_right_iff.mp htail
    cases List.forall₂_nil_right_iff.mp hrest
    have hpop := hcells.set [u]
    exact ⟨(w.setCells queue [u]).setCells queue [], rfl, fun c => (hload c).raises
      ((moves_takeCell 1 hcells (by omega)).raises ((moves_takeCell 2 hpop (by simp; omega)).raises
        (moves_dup.raises (raises_popCell (hpop.set [])))))⟩

/-- A routine that lacks cells has not spent its cost. -/
theorem shortfall_le_cost {command : Command} (happly : command.apply units = none) :
    command.shortfall units.length ≤ command.cost units.length := by
  match command, units, happly with
  | .dup, [], _ => decide
  | .not, [], _ => decide
  | .xor, [], _ => decide
  | .xor, [_], _ => simp [Command.shortfall, Command.cost]
  | .rot, [], _ => decide
  | .rot, [_], _ => simp [Command.shortfall, Command.cost]
  | .rot, [_, _], _ => simp [Command.shortfall, Command.cost]

/-- A routine that lacks cells raises an exception where it takes one cell too many; nothing was
printed before. -/
theorem actions_raise (target : Nat → Nat) (command : Command)
    (hqueue : locals[0]? = some (.ref queue))
    (hsize : command = .rot → 4 ≤ locals.size) (h : w.Holds queue units)
    (happly : command.apply units = none) :
    ∃ w', w'.printed = w.printed ∧ ∀ c, Raises p limits c (command.shortfall units.length)
      ⟨actions target command, locals, [], w⟩
      (.raised .noSuchElement (lackingSite target command units.length c.method)) w' := by
  cases command with
  | dup =>
    cases units with
    | nil =>
      exact ⟨_, rfl, fun c => (moves_load hqueue).raises (moves_dup.raises
        (raises_popCell (hasCells_nil h)))⟩
    | cons x units => cases happly
  | print => cases happly
  | hello => cases happly
  | not =>
    cases units with
    | nil =>
      exact ⟨_, rfl, fun c => (moves_load hqueue).raises (moves_dup.raises
        (raises_popCell (hasCells_nil h)))⟩
    | cons x units => cases happly
  | rot =>
    refine rot_raises hqueue (hsize rfl) h ?_
    match units, happly with
    | [], _ => decide
    | [_], _ => simp
    | [_, _], _ => simp
  | xor =>
    refine xor_raises hqueue h ?_
    match units, happly with
    | [], _ => decide
    | [_], _ => simp

end Runs

end Routines

end StackGlyph
