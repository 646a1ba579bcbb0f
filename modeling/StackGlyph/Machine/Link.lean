import StackGlyph.ClassFile.Basic
import StackGlyph.Machine.Trap

/-!
# Linking

Before a class runs, every instruction is replaced by the action that it stands for: constants are
looked up, calls are directed at a method of the class itself or at a routine of the library, branch
targets become places in the instruction sequence. What cannot be linked becomes an action that
traps when it is reached, so a class whose faulty instructions are never reached runs as if they
were sound.

Source pin: Kemuri specification §3.8 (evaluator), for the calls and library stubs that are known.
-/
namespace StackGlyph.Machine

/-- The library methods that the machine knows. -/
inductive Routine where
  /-- Constructor of the root class or of the queue class. -/
  | construct
  /-- Constructor of another class, for plain objects only. -/
  | constructPlain (member : Member)
  | push | pop | isEmpty
  | box | unbox
  | print
  | unknown (member : Member)
  deriving DecidableEq, Repr

def Routine.ofMember (m : Member) : Routine :=
  match m.owner, m.name, m.descriptor with
  | "java/lang/Object", "<init>", "()V" | "java/util/ArrayDeque", "<init>", "()V" => .construct
  | _, "<init>", "()V" => .constructPlain m
  | "java/util/Deque", "push", "(Ljava/lang/Object;)V"
  | "java/util/ArrayDeque", "push", "(Ljava/lang/Object;)V" => .push
  | "java/util/Deque", "pop", "()Ljava/lang/Object;"
  | "java/util/ArrayDeque", "pop", "()Ljava/lang/Object;" => .pop
  | "java/util/Deque", "isEmpty", "()Z" | "java/util/ArrayDeque", "isEmpty", "()Z" => .isEmpty
  | "java/lang/Character", "valueOf", "(C)Ljava/lang/Character;" => .box
  | "java/lang/Character", "charValue", "()C" => .unbox
  | "java/io/PrintStream", "print", "(C)V" => .print
  | _, _, _ => .unknown m

inductive Callee where
  | own (name descriptor : String)
  | library (routine : Routine)
  deriving DecidableEq, Repr

/-- When a branch is taken; the conditional ones pop a number. -/
inductive Test where
  | zero | nonzero | always
  deriving DecidableEq, Repr

/-- What a cast requires of an object. -/
inductive CastTarget where
  | character | deque | any
  deriving DecidableEq, Repr

inductive Action where
  | push (v : Int32)
  | load (slot : Nat)
  | store (slot : Nat)
  | pop | dup | dup2 | swap
  | add | xor | negate | narrow
  /-- A branch to an offset, and the place of the instruction there, if one starts there. -/
  | branch (test : Test) (target : Nat) (place : Option Nat)
  | leave
  /-- Pushes the standard output. -/
  | output
  /-- Pushes a new object. -/
  | create (object : Object)
  | cast (target : CastTarget)
  /-- A call with this many arguments, with a receiver below them if it is not static. -/
  | call (arguments : Nat) (static : Bool) (callee : Except Fault Callee)
  /-- What could not be linked. -/
  | trap (t : Trap)

structure LinkedInstruction where
  offset : Nat
  action : Action

structure LinkedMethod where
  name : String
  descriptor : String
  maxLocals : Nat
  instructions : Array LinkedInstruction

/-- A class ready to run: its methods in order, each by name and descriptor. -/
structure Program where
  methods : List (String × String × Except Trap LinkedMethod)

namespace Program

def linkCall (c : ClassFile) (static : Bool) (i : UInt16) : Action :=
  match c.pool.memberAt i with
  | .error cause => .trap (.fault cause)
  | .ok m =>
    match MethodType.parse m.descriptor with
    | .error cause => .trap (.fault cause)
    | .ok t =>
      .call t.params.length static <| c.name.map fun own =>
        if static && own = m.owner then .own m.name m.descriptor
        else .library (Routine.ofMember m)

def linkConstant (c : ClassFile) (i : UInt16) : Action :=
  match c.pool.get? i with
  | some (.integer v) => .push v
  | found => .trap (.unsupported (.constant found))

/-- The action of a static field access; the standard output is the only field known. -/
def linkField (c : ClassFile) (i : UInt16) : Action :=
  match c.pool.memberAt i with
  | .error cause => .trap (.fault cause)
  | .ok m =>
    if m.owner = "java/lang/System" ∧ m.name = "out" then .output
    else .trap (.unsupported (.field m.owner m.name))

/-- The action of an instruction on the class at an index. -/
def linkType (c : ClassFile) (i : UInt16) (action : String → Action) : Action :=
  match c.pool.classNameAt i with
  | .error cause => .trap (.fault cause)
  | .ok name => action name

/-- A new queue, or a plain object of any other class. -/
def creation (className : String) : Action :=
  .create (if className = "java/util/ArrayDeque" then .deque [] else .plain)

/-- A cast to a class; only boxed characters and queues are told apart. -/
def castTo (className : String) : Action :=
  .cast (if className = "java/lang/Character" then .character
    else if className = "java/util/Deque" ∨ className = "java/util/ArrayDeque" then .deque
    else .any)

/-- The action of an instruction among `all`. An instruction without the operand that its opcode
needs counts as cut off; decoding gives none. -/
def linkInstruction (c : ClassFile) (all : Array Instruction) (i : Instruction) : Action :=
  let branch (test : Test) (target : Nat) : Action :=
    .branch test target (Instruction.place? all target)
  match i.op, i.operand with
  | .iconstM1, _ => .push (-1)
  | .iconst0, _ => .push 0
  | .iconst1, _ => .push 1
  | .iconst2, _ => .push 2
  | .iconst3, _ => .push 3
  | .iconst4, _ => .push 4
  | .iconst5, _ => .push 5
  | .bipush, .value v | .sipush, .value v => .push (Int32.ofInt v)
  | .ldc, .index k | .ldcW, .index k => linkConstant c k
  | .aload, .slot n => .load n.toNat
  | .aload0, _ => .load 0
  | .aload1, _ => .load 1
  | .aload2, _ => .load 2
  | .aload3, _ => .load 3
  | .astore, .slot n => .store n.toNat
  | .astore0, _ => .store 0
  | .astore1, _ => .store 1
  | .astore2, _ => .store 2
  | .astore3, _ => .store 3
  | .pop, _ => .pop
  | .dup, _ => .dup
  | .dup2, _ => .dup2
  | .swap, _ => .swap
  | .iadd, _ => .add
  | .ineg, _ => .negate
  | .ixor, _ => .xor
  | .i2c, _ => .narrow
  | .ifeq, .target t => branch .zero t
  | .ifne, .target t => branch .nonzero t
  | .goto, .target t => branch .always t
  | .ret, _ => .leave
  | .getstatic, .index k => linkField c k
  | .invokestatic, .index k => linkCall c true k
  | .invokevirtual, .index k | .invokespecial, .index k => linkCall c false k
  | .invokeinterface, .interface k _ => linkCall c false k
  | .new, .index k => linkType c k creation
  | .checkcast, .index k => linkType c k castTo
  | _, _ => .trap (.fault (.truncated i.offset))

/-- Links one method; without sound code there is nothing to run. -/
def linkMethod (c : ClassFile) (m : Method) : Except Trap LinkedMethod :=
  match m.code with
  | none => .error (.noCode m.name m.descriptor)
  | some code =>
    match Instruction.decode code.bytes with
    | .error cause => .error (.fault cause)
    | .ok instructions =>
      .ok {
        name := m.name
        descriptor := m.descriptor
        maxLocals := code.maxLocals
        instructions := instructions.map fun i => ⟨i.offset, linkInstruction c instructions i⟩ }

def link (c : ClassFile) : Program :=
  ⟨c.methods.map fun m => (m.name, m.descriptor, linkMethod c m)⟩

/-- The first method with this name and descriptor, ready to run. -/
def method (p : Program) (name descriptor : String) : Except Trap LinkedMethod :=
  match p.methods.find? fun m => m.1 = name ∧ m.2.1 = descriptor with
  | none => .error (.noSuchMethod name descriptor)
  | some (_, _, linked) => linked

end Program

end StackGlyph.Machine
