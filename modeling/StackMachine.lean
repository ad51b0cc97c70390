import StackMachine.Assembly.Assemble
import StackMachine.Assembly.Fault
import StackMachine.Assembly.Layout
import StackMachine.Assembly.Routine
import StackMachine.Assembly.Token
import StackMachine.Decimal.Basic
import StackMachine.Decimal.Fixed
import StackMachine.Decimal.Numeral
import StackMachine.Decimal.Shortest
import StackMachine.Double.Arithmetic
import StackMachine.Double.Basic
import StackMachine.Double.Nearest
import StackMachine.Error
import StackMachine.Files.Tree
import StackMachine.Log.Calendar
import StackMachine.Log.Journal
import StackMachine.Log.Level
import StackMachine.Machine.Bitmap
import StackMachine.Machine.Console
import StackMachine.Machine.Memory
import StackMachine.Machine.State
import StackMachine.Machine.Step
import StackMachine.Main
import StackMachine.Opcode
import StackMachine.Operand.Basic
import StackMachine.Operand.Notation
import StackMachine.Program.Basic
import StackMachine.Program.Listing
import StackMachine.Program.Verify
import StackMachine.Settings
import StackMachine.Stack.Frame
import StackMachine.Stack.Guarded
import StackMachine.Text.Extender
import StackMachine.Text.Quoted
import StackMachine.Text.Split
import StackMachine.Text.Unprintable
import StackMachine.Text.Utf8
import StackMachine.Tools.Assembler
import StackMachine.Tools.Benchmark
import StackMachine.Tools.Host
import StackMachine.Tools.Lister
import StackMachine.Tools.Processor
import StackMachine.Proofs.Decimal.ReadBack
import StackMachine.Proofs.Double.Bytes
import StackMachine.Proofs.Program.Stream
import StackMachine.Proofs.Fallible
import StackMachine.Proofs.Program.Verified
import StackMachine.Proofs.Machine.Action
import StackMachine.Proofs.Machine.Safety
import StackMachine.Proofs.Operand.Grammar
import StackMachine.Proofs.Operand.Codec
import StackMachine.Proofs.Assembly.Layout
import StackMachine.Proofs.Assembly.Emit
import StackMachine.Proofs.Assembly.Verified
import StackMachine.Proofs.Assembly.Words
import StackMachine.Proofs.Assembly.Reread
import StackMachine.Proofs.Assembly.Relist
import StackMachine.Proofs.Assembly.RoundTrip
import StackMachine.Proofs.Double.Value
import StackMachine.Proofs.Stack.Refinement
import StackMachine.Proofs.Program.WellFormed
import StackMachine.Proofs.Assembly.Translation
import StackMachine.Proofs.Machine.Effect
import StackMachine.Proofs.Machine.Calls
import StackMachine.Proofs.Machine.Failure
import StackMachine.Proofs.Machine.Forward
import StackMachine.Proofs.Machine.Lockstep
import StackMachine.Proofs.Machine.Respelling
import StackMachine.Proofs.Machine.Accounting
import StackMachine.Proofs.Machine.StraightLine
import StackMachine.Proofs.Assembly.Language
import StackMachine.Proofs.Machine.Locals
import StackMachine.Proofs.Assembly.Renaming
import StackMachine.Proofs.Assembly.Rewording
import StackMachine.Proofs.Assembly.Columns
import StackMachine.Proofs.Assembly.Located
import StackMachine.Proofs.Assembly.Counts
import StackMachine.Proofs.Stack.Damage
import StackMachine.Proofs.Machine.Reading
import StackMachine.Proofs.Assembly.Runs
import StackMachine.Proofs.Log.Calendar
import StackMachine.Proofs.Machine.Picture
import StackMachine.Proofs.Files.Tree
import StackMachine.Proofs.Tools.Filing
import StackMachine.Proofs.Tools.Batch
