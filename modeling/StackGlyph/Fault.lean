import StackGlyph.Bytecode.Opcode
import StackGlyph.Text.ModifiedUtf8
import StackGlyph.Text.Quoted

/-!
# Faults of class files

Why a class file, or a part of one, cannot be built or read. Each cause carries what its message
tells.

Source pin: Kemuri specification §3.9 (errors).
-/
namespace StackGlyph

/-- Why an opcode does not fit the request it came with. -/
inductive Misuse where
  | needsOperand
  | notOnTypes
  | notABranch
  | tooManyArguments
  deriving DecidableEq, Repr

def Misuse.message : Misuse → String
  | .needsOperand => "attend un opérande"
  | .notOnTypes => "pas une instruction de type"
  | .notABranch => "pas un saut"
  | .tooManyArguments => "trop d’arguments"

inductive Fault where
  /-- The constant pool would have this many entries. -/
  | poolFull (entries : Nat)
  /-- A text would take this many bytes. -/
  | textTooLong (bytes : Nat)
  | badText (cause : Text.ModifiedUtf8.TextFault)
  | badDescriptor (text : String)
  /-- The slots of a method's parameters do not fit the 16 bits they are counted in. -/
  | slotOverflow
  | stackUnderflow (offset : Nat)
  | stackOverflow (offset : Nat)
  /-- Two ways to a label reach it with different depths. -/
  | labelDepth (label expected found : Nat)
  | labelUnbound (label : Nat)
  | labelRebound (label : Nat)
  | branchOutOfRange (distance : Int)
  | codeTooLarge (bytes : Nat)
  | tooManyMethods (methods : Nat)
  | misused (op : Opcode) (cause : Misuse)
  /-- The input ends inside the field that starts here. -/
  | truncated (offset : Nat)
  | badMagic (magic : UInt32)
  | unsupportedConstant (tag : UInt8) (index : Nat)
  /-- No constant of the kind that is needed here has this index. -/
  | badReference (index : UInt16)
  | unknownOpcode (offset : Nat) (byte : UInt8)
  deriving DecidableEq, Repr

def Fault.message : Fault → String
  | .poolFull n => s!"pool de constantes plein ({n} entrées)"
  | .textTooLong n => s!"chaîne trop longue pour CONSTANT_Utf8 ({n} octets encodés)"
  | .badText cause => "utf8 modifié invalide: " ++ cause.message
  | .badDescriptor text => "descripteur invalide: " ++ Text.quoted text
  | .slotOverflow => "attempt to add with overflow"
  | .stackUnderflow offset => s!"pile d’opérandes négative à l’offset {offset}"
  | .stackOverflow offset => s!"pile d’opérandes trop profonde à l’offset {offset}"
  | .labelDepth label expected found =>
    s!"profondeur incohérente au label L{label}: attendu {expected}, trouvé {found}"
  | .labelUnbound label => s!"label L{label} jamais lié"
  | .labelRebound label => s!"label L{label} lié deux fois"
  | .branchOutOfRange distance => s!"saut hors de portée ({distance} octets)"
  | .codeTooLarge n => s!"code de méthode trop long: {n} octets (max 65535)"
  | .tooManyMethods n => s!"trop de méthodes ({n})"
  | .misused op cause => "instruction `" ++ op.mnemonic ++ "` mal utilisée: " ++ cause.message
  | .truncated offset => s!"classe tronquée à l’offset {offset}"
  | .badMagic magic => "mauvais magic: 0x" ++ Text.hexPadded 8 magic.toNat
  | .unsupportedConstant tag index =>
    s!"tag de constante non supporté: {tag} (index #{index})"
  | .badReference index => s!"référence de constante invalide: #{index}"
  | .unknownOpcode offset byte =>
    "opcode inconnu 0x" ++ Text.hexPadded 2 byte.toNat ++ s!" à l’offset {offset}"

end StackGlyph
