/-!
# Access flags

The flag words of classes and methods.

Source pin: Kemuri specification §3.5 (class writer) for the flags that are set, §3.7 (disassembler)
for their words.
-/
namespace StackGlyph.Access

def isPublic : UInt16 := 0x0001
def isPrivate : UInt16 := 0x0002
def isStatic : UInt16 := 0x0008
def isFinal : UInt16 := 0x0010

/-- Set on every class that this library writes. -/
def isSuper : UInt16 := 0x0020

def has (flags flag : UInt16) : Bool :=
  flags &&& flag != 0

/-- The flags of a method that have a word, separated by spaces. -/
def describe (flags : UInt16) : String :=
  let words := [(isPublic, "public"), (isPrivate, "private"), (isStatic, "static"),
    (isFinal, "final")].filterMap fun (flag, word) => if has flags flag then some word else none
  " ".intercalate words

end StackGlyph.Access
