import StackGlyph.Bytecode.Assembler
import StackGlyph.Bytecode.Instruction
import StackGlyph.Bytecode.Opcode
import StackGlyph.ClassFile.Access
import StackGlyph.ClassFile.Basic
import StackGlyph.ClassFile.Draft
import StackGlyph.ClassFile.Listing
import StackGlyph.ClassFile.Reader
import StackGlyph.Compile.Basic
import StackGlyph.Compile.ClassName
import StackGlyph.Compile.Settings
import StackGlyph.Console.Arguments
import StackGlyph.Console.Journal
import StackGlyph.Console.Session
import StackGlyph.Descriptor
import StackGlyph.Fault
import StackGlyph.FileTree
import StackGlyph.Glyph.Command
import StackGlyph.Glyph.Diagnostic
import StackGlyph.Glyph.MainMethod
import StackGlyph.Glyph.Routines
import StackGlyph.Glyph.Semantics
import StackGlyph.Machine.Link
import StackGlyph.Machine.Run
import StackGlyph.Machine.Step
import StackGlyph.Machine.Trap
import StackGlyph.Machine.Value
import StackGlyph.Main
import StackGlyph.Pool.Basic
import StackGlyph.Pool.Constant
import StackGlyph.Proofs.ActionEffects
import StackGlyph.Proofs.Bookkeeping
import StackGlyph.Proofs.ByteGroups
import StackGlyph.Proofs.Cells
import StackGlyph.Proofs.ClassNames
import StackGlyph.Proofs.CompiledClass
import StackGlyph.Proofs.CompiledRuns
import StackGlyph.Proofs.CompiledShape
import StackGlyph.Proofs.Compiling
import StackGlyph.Proofs.Completion
import StackGlyph.Proofs.DecodedCode
import StackGlyph.Proofs.Decoding
import StackGlyph.Proofs.Depths
import StackGlyph.Proofs.DescriptorGrammar
import StackGlyph.Proofs.Drafting
import StackGlyph.Proofs.Effects
import StackGlyph.Proofs.Emission
import StackGlyph.Proofs.Evolution
import StackGlyph.Proofs.Execution
import StackGlyph.Proofs.Flow
import StackGlyph.Proofs.Gauges
import StackGlyph.Proofs.HeapSafety
import StackGlyph.Proofs.InstructionBytes
import StackGlyph.Proofs.Invocations
import StackGlyph.Proofs.LabelDepths
import StackGlyph.Proofs.Linking
import StackGlyph.Proofs.Listings
import StackGlyph.Proofs.LocalSlots
import StackGlyph.Proofs.NameGrammar
import StackGlyph.Proofs.NumberPushes
import StackGlyph.Proofs.OperandHeights
import StackGlyph.Proofs.OperandSafety
import StackGlyph.Proofs.Outcomes
import StackGlyph.Proofs.OutputFiles
import StackGlyph.Proofs.Placement
import StackGlyph.Proofs.PoolGrowth
import StackGlyph.Proofs.PoolHistories
import StackGlyph.Proofs.Reading
import StackGlyph.Proofs.Requests
import StackGlyph.Proofs.RoutineCalls
import StackGlyph.Proofs.RoutineRuns
import StackGlyph.Proofs.RunLimits
import StackGlyph.Proofs.Scripts
import StackGlyph.Proofs.SettingLayers
import StackGlyph.Proofs.StablePools
import StackGlyph.Proofs.StoreInvariant
import StackGlyph.Proofs.Termination
import StackGlyph.Proofs.TextLanguage
import StackGlyph.Proofs.Texts
import StackGlyph.Proofs.Truncation
import StackGlyph.Proofs.Underflow
import StackGlyph.Proofs.Words
import StackGlyph.Proofs.WrittenPools
import StackGlyph.Text.Blank
import StackGlyph.Text.Letter
import StackGlyph.Text.ModifiedUtf8
import StackGlyph.Text.Number
import StackGlyph.Text.Plain
import StackGlyph.Text.Printable
import StackGlyph.Text.Quoted
import StackGlyph.Text.Ranges
import StackGlyph.Text.Utf16
import StackGlyph.Toml.Document
import StackGlyph.Toml.Scalar
import StackGlyph.Version
import StackGlyph.Word
