import StackGlyph.Glyph.MainMethod
import StackGlyph.Proofs.Decoding
import StackGlyph.Proofs.Evolution

/-!
# The requests behind each routine

The body of a routine, and that of a main method, is a fixed sequence of requests. What a body does
when it succeeds is what these requests do in order; whether it succeeds or not, it reaches its
assembler through requests alone.
-/
namespace StackGlyph

open Request Assembler

/-- A part of a body is a fixed sequence of requests. -/
def Performs (x : Asm Unit) (rs : List Request) : Prop :=
  x = performAll rs

namespace Performs

variable {x y : Asm Unit} {rs ss : List Request}

theorem run {a : Assembler} (h : Performs x rs) : x a = performAll rs a :=
  congrFun h a

theorem reaches (h : Performs x rs) : Respects Reaches x := by
  rw [h]
  exact performAll_reaches rs

theorem request (r : Request) : Performs r.perform [r] :=
  (bind_pure_unit (x := r.perform)).symm

theorem append (hx : Performs x rs) (hy : Performs y ss) : Performs (do x; y) (rs ++ ss) := by
  rw [hx, hy]
  exact (performAll_append_eq rs ss).symm

theorem cons (r : Request) (hy : Performs y ss) : Performs (do r.perform; y) (r :: ss) :=
  (request r).append hy

theorem forM {α : Type} {f : α → Asm Unit} {g : α → List Request} (h : ∀ v, Performs (f v) (g v))
    (vs : List α) : Performs (vs.forM f) (vs.flatMap g) := by
  induction vs with
  | nil => rfl
  | cons v vs ih => exact (h v).append ih

end Performs

namespace Routines

def popCellRequest : Request :=
  .call .interface dequeClass "pop" "()Ljava/lang/Object;"

def pushCellRequest : Request :=
  .call .interface dequeClass "push" "(Ljava/lang/Object;)V"

def popUnitScript : List Request :=
  [popCellRequest, .onType .checkcast characterClass,
    .call .virtual characterClass "charValue" "()C"]

def pushUnitScript : List Request :=
  [.call .static characterClass "valueOf" "(C)Ljava/lang/Character;", pushCellRequest]

def helloUnitScript (unit : UInt16) : List Request :=
  .plain .dup :: .pushInt (Int32.ofNat unit.toNat) :: pushUnitScript

def printScript (top done : Nat) : List Request :=
  .bind top :: .load 0 :: .call .interface dequeClass "isEmpty" "()Z" :: .jump .ifne done ::
    .getStatic "java/lang/System" "out" "Ljava/io/PrintStream;" :: .load 0 :: popUnitScript ++
    [.call .virtual "java/io/PrintStream" "print" "(C)V", .jump .goto top, .bind done, .plain .ret]

def script : Command → List Request
  | .dup => [.load 0, .plain .dup, popCellRequest, .plain .dup2, pushCellRequest, pushCellRequest,
      .plain .ret]
  | .hello => .load 0 :: (Text.Utf16.units greeting).reverse.flatMap helloUnitScript ++
      [.plain .pop, .plain .ret]
  | .not => .load 0 :: .plain .dup :: popUnitScript ++
      .plain .ineg :: .pushInt 255 :: .plain .iadd :: .plain .i2c :: pushUnitScript ++ [.plain .ret]
  | .rot => .load 0 :: [1, 2, 3].flatMap (fun slot => [.plain .dup, popCellRequest, .store slot]) ++
      [1, 3, 2].flatMap (fun slot => [.plain .dup, .load slot, pushCellRequest]) ++
      [.plain .pop, .plain .ret]
  | .xor => .load 0 :: .plain .dup :: .plain .dup :: popUnitScript ++
      .plain .swap :: popUnitScript ++ .plain .ixor :: pushUnitScript ++ [.plain .ret]
  | .print => .newLabel :: .newLabel :: printScript 0 1

theorem popUnit_performs : Performs popUnit popUnitScript :=
  .cons popCellRequest (.cons (.onType .checkcast characterClass)
    (.request (.call .virtual characterClass "charValue" "()C")))

theorem pushUnit_performs : Performs pushUnit pushUnitScript :=
  .cons (.call .static characterClass "valueOf" "(C)Ljava/lang/Character;")
    (.request pushCellRequest)

theorem dup_performs : Performs dup (script .dup) :=
  .cons (.load 0) (.cons (.plain .dup) (.cons popCellRequest (.cons (.plain .dup2)
    (.cons pushCellRequest (.cons pushCellRequest (.request (.plain .ret)))))))

theorem hello_performs : Performs hello (script .hello) := by
  have hunit (unit : UInt16) : Performs (do
      plain .dup
      pushInt (Int32.ofNat unit.toNat)
      pushUnit) (helloUnitScript unit) :=
    .cons (.plain .dup) (.cons (.pushInt (Int32.ofNat unit.toNat)) pushUnit_performs)
  exact .cons (.load 0) ((Performs.forM hunit _).append
    (.cons (.plain .pop) (.request (.plain .ret))))

theorem not_performs : Performs not (script .not) :=
  .cons (.load 0) (.cons (.plain .dup) (popUnit_performs.append (.cons (.plain .ineg)
    (.cons (.pushInt 255) (.cons (.plain .iadd) (.cons (.plain .i2c)
      (pushUnit_performs.append (.request (.plain .ret)))))))))

/-- Two loops over the slots 1 to 3, in the orders in which they are filled and read. -/
theorem rot_performs : Performs rot (script .rot) := by
  have htake (slot : UInt8) : Performs (do
      plain .dup
      popCell
      store slot) [.plain .dup, popCellRequest, .store slot] :=
    .cons (.plain .dup) (.cons popCellRequest (.request (.store slot)))
  have hgive (slot : UInt8) : Performs (do
      plain .dup
      load slot
      pushCell) [.plain .dup, .load slot, pushCellRequest] :=
    .cons (.plain .dup) (.cons (.load slot) (.request pushCellRequest))
  exact .cons (.load 0) ((Performs.forM htake [1, 2, 3]).append
    ((Performs.forM hgive [1, 3, 2]).append (.cons (.plain .pop) (.request (.plain .ret)))))

theorem xor_performs : Performs xor (script .xor) :=
  .cons (.load 0) (.cons (.plain .dup) (.cons (.plain .dup) (popUnit_performs.append
    (.cons (.plain .swap) (popUnit_performs.append (.cons (.plain .ixor)
      (pushUnit_performs.append (.request (.plain .ret)))))))))

def printFrom (top done : Nat) : Asm Unit := do
  Assembler.bind top
  load 0
  call .interface dequeClass "isEmpty" "()Z"
  jump .ifne done
  getStatic "java/lang/System" "out" "Ljava/io/PrintStream;"
  load 0
  popUnit
  call .virtual "java/io/PrintStream" "print" "(C)V"
  jump .goto top
  Assembler.bind done
  plain .ret

theorem printFrom_performs (top done : Nat) :
    Performs (printFrom top done) (printScript top done) :=
  .cons (.bind top) (.cons (.load 0) (.cons (.call .interface dequeClass "isEmpty" "()Z")
    (.cons (.jump .ifne done)
      (.cons (.getStatic "java/lang/System" "out" "Ljava/io/PrintStream;") (.cons (.load 0)
        (popUnit_performs.append (.cons (.call .virtual "java/io/PrintStream" "print" "(C)V")
          (.cons (.jump .goto top) (.cons (.bind done) (.request (.plain .ret)))))))))))

theorem newLabel_reaches : Respects Reaches newLabel :=
  fun _ => ⟨[.newLabel], rfl⟩

theorem print_reaches : Respects Reaches print :=
  newLabel_reaches.bind reaches_lasting fun top =>
    newLabel_reaches.bind reaches_lasting fun done => (printFrom_performs top done).reaches

/-- A fresh assembler hands out the labels 0 and 1. -/
theorem print_run (pool : Pool) (slots : Nat) :
    print (start pool slots) = performAll (script .print) (start pool slots) := by
  let a : Assembler := leftBy (newLabel (leftBy (newLabel (start pool slots))))
  show printFrom 0 1 a = performAll (printScript 0 1) a
  exact (printFrom_performs 0 1).run

theorem body_reaches (c : Command) : Respects Reaches (body c) := by
  cases c with
  | dup => exact dup_performs.reaches
  | print => exact print_reaches
  | hello => exact hello_performs.reaches
  | not => exact not_performs.reaches
  | rot => exact rot_performs.reaches
  | xor => exact xor_performs.reaches

/-- The body of a routine is the script of its command. -/
theorem body_run (c : Command) (pool : Pool) (slots : Nat) :
    body c (start pool slots) = performAll (script c) (start pool slots) := by
  cases c with
  | dup => exact dup_performs.run
  | print => exact print_run pool slots
  | hello => exact hello_performs.run
  | not => exact not_performs.run
  | rot => exact rot_performs.run
  | xor => exact xor_performs.run

def constructorScript : List Request :=
  [.load 0, .call .special objectClass "<init>" "()V", .plain .ret]

theorem constructor_performs : Performs constructor constructorScript :=
  .cons (.load 0) (.cons (.call .special objectClass "<init>" "()V") (.request (.plain .ret)))

end Routines

namespace MainMethod

def callScript (owner : String) (c : Command) : List Request :=
  [.plain .dup, .call .static owner c.name Routines.descriptor]

/-- The requests of a main method up to its last command. -/
def openingScript (owner : String) (commands : List Command) : List Request :=
  .onType .new queueClass :: .plain .dup :: .call .special queueClass "<init>" "()V" ::
    commands.flatMap (callScript owner)

def script (owner : String) (commands : List Command) : List Request :=
  openingScript owner commands ++ [.plain .pop, .plain .ret]

variable {owner : String} {limit : Option Nat}

theorem callScript_performs (c : Command) : Performs (do
    plain .dup
    call .static owner c.name Routines.descriptor) (callScript owner c) :=
  .cons (.plain .dup) (.request (.call .static owner c.name Routines.descriptor))

/-- One more call in front. -/
theorem call_then {α : Type} (c : Command) (rs : List Request) (v : α) :
    (do
      plain .dup
      call .static owner c.name Routines.descriptor
      performAll rs
      return v) = (do performAll (callScript owner c ++ rs); return v) := by
  rw [performAll_append_eq, ← callScript_performs c]
  simp only [bind_assoc]

/-- The characters that are no commands, in a text whose first character stands at `position`. -/
def strays (position : Nat) (source : List Char) : List Diagnostic :=
  (source.zipIdx position).filterMap fun (c, k) =>
    if (Command.ofGlyph? c).isNone then some ⟨c, k⟩ else none

def tallyOf (source : List Char) : Tally :=
  ⟨(commandsOf source).length, strays 0 source⟩

theorem strays_cons_none {c : Char} (h : Command.ofGlyph? c = none) (position : Nat)
    (rest : List Char) :
    strays position (c :: rest) = ⟨c, position⟩ :: strays (position + 1) rest := by
  simp [strays, h]

theorem strays_cons_some {c : Char} {command : Command} (h : Command.ofGlyph? c = some command)
    (position : Nat) (rest : List Char) :
    strays position (c :: rest) = strays (position + 1) rest := by
  simp [strays, h]

/-- Within the limit, the calls of a text are the calls of its commands, in order. -/
theorem calls_within (owner : String) {source : List Char} (position commands : Nat)
    (found : Array Diagnostic)
    (hlimit : ∀ m, limit = some m → commands + (commandsOf source).length ≤ m) :
    calls owner limit position commands found source = (do
      performAll ((commandsOf source).flatMap (callScript owner))
      return .ok
        ⟨commands + (commandsOf source).length, found.toList ++ strays position source⟩) := by
  induction source generalizing position commands found with
  | nil => simp [calls, commandsOf, strays, performAll]
  | cons c rest ih =>
    rw [calls]
    cases hc : Command.ofGlyph? c with
    | none =>
      rw [commandsOf, List.filterMap_cons_none hc] at hlimit ⊢
      rw [strays_cons_none hc, List.append_cons, ← Array.toList_push]
      exact ih _ _ _ hlimit
    | some command =>
      rw [commandsOf, List.filterMap_cons_some hc, List.length_cons] at hlimit
      have hnone : exceeded? limit commands = none := by
        rw [exceeded?, Option.filter_eq_none_iff]
        intro m hm
        have hle := hlimit m hm
        simp
        omega
      have hrest := ih (position + 1) (commands + 1) found fun m hm => by
        have hle := hlimit m hm
        rw [commandsOf]
        omega
      rw [commandsOf, List.filterMap_cons_some hc, List.flatMap_cons, hnone, strays_cons_some hc,
        List.length_cons, ← Nat.add_assoc, Nat.add_right_comm]
      dsimp only
      rw [hrest]
      exact call_then command _ _

/-- Beyond the limit, the calls are cut off there. -/
theorem calls_beyond {source : List Char} {m commands : Nat} (position : Nat)
    (found : Array Diagnostic) (hle : commands ≤ m)
    (hlt : m < commands + (commandsOf source).length) :
    calls owner (some m) position commands found source =
      (do
        performAll (((commandsOf source).take (m - commands)).flatMap (callScript owner))
        return .error m) := by
  induction source generalizing position commands found with
  | nil =>
    rw [commandsOf, List.filterMap_nil, List.length_nil] at hlt
    omega
  | cons c rest ih =>
    rw [calls]
    cases hc : Command.ofGlyph? c with
    | none =>
      rw [commandsOf, List.filterMap_cons_none hc] at hlt ⊢
      exact ih _ _ hle hlt
    | some command =>
      rw [commandsOf, List.filterMap_cons_some hc, List.length_cons] at hlt
      rw [commandsOf, List.filterMap_cons_some hc]
      by_cases hfull : m = commands
      · have hsome : exceeded? (some m) commands = some m := by
          simp [exceeded?, hfull]
        rw [hsome, hfull, Nat.sub_self]
        rfl
      · have hnone : exceeded? (some m) commands = none := by
          simp [exceeded?]
          omega
        rw [hnone, show m - commands = (m - (commands + 1)) + 1 by omega, List.take_succ_cons,
          List.flatMap_cons]
        dsimp only
        rw [ih (position + 1) found (by omega) (by rw [commandsOf]; omega)]
        exact call_then command _ _

/-- The body of a main method is the script of the commands of its text, or is cut off at the
limit. -/
theorem body_cases (owner : String) (limit : Option Nat) (source : List Char) :
    ((∀ m, limit = some m → (commandsOf source).length ≤ m) ∧
      body owner limit source =
        (do performAll (script owner (commandsOf source)); return .ok (tallyOf source))) ∨
    ∃ m, limit = some m ∧ m < (commandsOf source).length ∧
      body owner limit source =
        (do performAll (openingScript owner ((commandsOf source).take m)); return .error m) := by
  have hopening (commands : List Command) : performAll (openingScript owner commands) = (do
      onType .new queueClass
      plain .dup
      call .special queueClass "<init>" "()V"
      performAll (commands.flatMap (callScript owner))) := rfl
  have hclosing : performAll [.plain .pop, .plain .ret] = (do plain .pop; plain .ret) :=
    (Performs.cons (.plain .pop) (.request (.plain .ret))).symm
  by_cases hlimit : ∀ m, limit = some m → (commandsOf source).length ≤ m
  · refine .inl ⟨hlimit, ?_⟩
    rw [body, calls_within owner 0 0 #[] (by simpa using hlimit), script, performAll_append_eq,
      hopening, hclosing]
    simp only [bind_assoc, pure_bind, Nat.zero_add]
    rfl
  · push Not at hlimit
    obtain ⟨m, rfl, hlt⟩ := hlimit
    replace hlt : m < (commandsOf source).length := by omega
    refine .inr ⟨m, rfl, hlt, ?_⟩
    rw [body, calls_beyond 0 #[] (Nat.zero_le m) (by omega), hopening, Nat.sub_zero]
    simp only [bind_assoc, pure_bind]

/-- A main method that is not cut off is the script of the commands of its text, and finds what
there is to be found. -/
theorem body_run {source : List Char} {tally : Tally} {a b : Assembler}
    (h : body owner limit source a = .ok (.ok tally) b) :
    performAll (script owner (commandsOf source)) a = .ok () b ∧ tally = tallyOf source := by
  rcases body_cases owner limit source with ⟨-, heq⟩ | ⟨m, -, -, heq⟩
  all_goals
    rw [heq] at h
    obtain ⟨⟨⟩, m, hrun, hreturn⟩ := bind_eq_ok.mp h
    cases hreturn
  exact ⟨hrun, rfl⟩

end MainMethod

end StackGlyph
