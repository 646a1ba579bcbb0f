/-!
# Versions

How the library and the program name themselves.
-/
namespace StackGlyph.Version

def number : String := "0.1.0"

def library : String := "kemuri-core " ++ number

def program : String := "kemuri " ++ number

end StackGlyph.Version
