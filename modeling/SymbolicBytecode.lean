import SymbolicBytecode.Code.Cursor
import SymbolicBytecode.Code.Instruction
import SymbolicBytecode.Code.Opcode
import SymbolicBytecode.Code.Program
import SymbolicBytecode.Machine.Basic
import SymbolicBytecode.Machine.Execution
import SymbolicBytecode.Machine.Report
import SymbolicBytecode.Proofs.Code.Encoding
import SymbolicBytecode.Proofs.Code.Faults
import SymbolicBytecode.Proofs.Code.Iteration
import SymbolicBytecode.Proofs.Code.Layout
import SymbolicBytecode.Proofs.Code.Truncation
import SymbolicBytecode.Proofs.Machine.Building
import SymbolicBytecode.Proofs.Machine.Concatenation
import SymbolicBytecode.Proofs.Machine.Eager
import SymbolicBytecode.Proofs.Machine.Emission
import SymbolicBytecode.Proofs.Machine.Endings
import SymbolicBytecode.Proofs.Machine.Failure
import SymbolicBytecode.Proofs.Machine.Meaning
import SymbolicBytecode.Proofs.Machine.Monotonicity
import SymbolicBytecode.Proofs.Machine.Policies
import SymbolicBytecode.Proofs.Machine.Repetition
import SymbolicBytecode.Proofs.Machine.Resumption
import SymbolicBytecode.Proofs.Machine.Trace
import SymbolicBytecode.Proofs.Session.Audit
import SymbolicBytecode.Proofs.Session.Captured
import SymbolicBytecode.Proofs.Session.Chronicle
import SymbolicBytecode.Proofs.Session.Isolation
import SymbolicBytecode.Proofs.Session.Routing
import SymbolicBytecode.Proofs.Session.Steps
import SymbolicBytecode.Proofs.Source.Canonical
import SymbolicBytecode.Proofs.Source.Composition
import SymbolicBytecode.Proofs.Source.Disassembly
import SymbolicBytecode.Proofs.Source.Grammar
import SymbolicBytecode.Proofs.Source.Interpretation
import SymbolicBytecode.Proofs.Source.Mistakes
import SymbolicBytecode.Proofs.Source.Spelling
import SymbolicBytecode.Proofs.Table.History
import SymbolicBytecode.Proofs.Table.Listing
import SymbolicBytecode.Proofs.Table.Wording
import SymbolicBytecode.Proofs.Text.Bytes
import SymbolicBytecode.Proofs.Text.LineEnds
import SymbolicBytecode.Proofs.Text.Numerals
import SymbolicBytecode.Proofs.Text.Separated
import SymbolicBytecode.Session.Basic
import SymbolicBytecode.Session.Buffers
import SymbolicBytecode.Session.Command
import SymbolicBytecode.Session.Directory
import SymbolicBytecode.Source.Assembly
import SymbolicBytecode.Source.Line
import SymbolicBytecode.Source.Operand
import SymbolicBytecode.Table.Basic
import SymbolicBytecode.Table.Bindings
import SymbolicBytecode.Table.Notice
import SymbolicBytecode.Table.Request
import SymbolicBytecode.Table.Symbol
import SymbolicBytecode.Text.Basic
import SymbolicBytecode.Text.Numeral
import SymbolicBytecode.Trace.Log
import SymbolicBytecode.Trace.Record
