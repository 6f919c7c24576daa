import HackVM.Word
import HackVM.Span
import HackVM.Text.Blank
import HackVM.Text.Line
import HackVM.Text.Decimal
import HackVM.Text.CaseTable
import HackVM.Text.Lowercase
import HackVM.Text.EscapeTable
import HackVM.Text.Quoted
import HackVM.Instruction
import HackVM.Error
import HackVM.Diagnostic
import HackVM.Source.CodeLine
import HackVM.Source.Reading
import HackVM.Source.Reader
import HackVM.Hack.Computation
import HackVM.Lowering.Label
import HackVM.Lowering.AsmLine
import HackVM.Lowering.Block
import HackVM.Sink
import HackVM.Program.Options
import HackVM.Writer
import HackVM.Files.Path
import HackVM.Files.Tree
import HackVM.Program.Report
import HackVM.Program.SourceUnit
import HackVM.Program.Compile
import HackVM.Build
import HackVM.Hack.Assembler
import HackVM.Hack.Cpu
import HackVM.CommandLine.Arguments
import HackVM.CommandLine.Session
import HackVM.Main
import HackVM.Proofs.Text.CodeText
import HackVM.Proofs.Source.Words
import HackVM.Proofs.Source.Grammar
import HackVM.Proofs.Program.RunCode
import HackVM.Proofs.Hack.Statements
import HackVM.Proofs.Hack.Passes
import HackVM.Proofs.Lowering.SymbolText
import HackVM.Proofs.Program.RunAssembly
import HackVM.Proofs.Program.LabelClash
import HackVM.Proofs.Machine.StackMachine
import HackVM.Proofs.Hack.Execution
import HackVM.Proofs.Lowering.BlockExecution
import HackVM.Proofs.Program.Layout
import HackVM.Proofs.Program.Simulation
import HackVM.Proofs.Machine.StackRegion
import HackVM.Proofs.Program.CallingConvention
import HackVM.Proofs.Source.Printing
import HackVM.Proofs.Program.Annotation
import HackVM.Proofs.Program.ControlTransfer
import HackVM.Proofs.Writer.Calls
import HackVM.Proofs.Writer.FullSink
import HackVM.Proofs.Program.Safety
import HackVM.Proofs.Program.StaticCells
import HackVM.Proofs.Files.Writing
import HackVM.Proofs.Lowering.LineFeeds
import HackVM.Proofs.Program.AllOrNothing
import HackVM.Proofs.Program.Modularity
import HackVM.Proofs.Program.Comparison
import HackVM.Proofs.Writer.Streaming
import HackVM.Proofs.Source.Locations
import HackVM.Proofs.Source.Sessions
import HackVM.Proofs.Source.Concatenation
import HackVM.Proofs.Program.BlockEffects
import HackVM.Proofs.Hack.Resolution
import HackVM.Proofs.Lowering.Vocabulary
import HackVM.Proofs.Writer.Misuse
import HackVM.Proofs.Program.LoadableConstants
import HackVM.Proofs.Lowering.StackSetup
import HackVM.Proofs.Writer.Books
import HackVM.Proofs.CommandLine.FailureReports
import HackVM.Proofs.Files.PathParts
import HackVM.Proofs.Files.Places
import HackVM.Proofs.Files.Listings
import HackVM.Proofs.Program.Discovery
import HackVM.Proofs.Program.Rebuild
import HackVM.Proofs.Source.IgnoredText
