/-
# Logs

The log of an operation lists, in order, the notices that it reported, each with the
handler it went to, and the records of its own work.  What is printed and what is traced
are two views of one log.
-/
import SymbolicBytecode.Trace.Record
import SymbolicBytecode.Source.Assembly

namespace SymbolicBytecode

/-- One entry of a log. -/
inductive Entry
  /-- A notice, and the handler it went to. -/
  | notice (handler : Handler) (notice : Notice)
  | record (record : Record)
  deriving DecidableEq, Repr

/-- What an operation reported, in order. -/
abbrev Log := List Entry

namespace Log

/-- The log of notices that all went to one handler. -/
def ofNotices (handler : Handler) (notices : List Notice) : Log :=
  notices.map (Entry.notice handler)

/-- The log of records alone. -/
def ofRecords (records : List Record) : Log :=
  records.map Entry.record

/-- The text that an entry prints. -/
def printedEntry : Entry → String
  | .notice .stdout notice => notice.line
  | _ => ""

/-- The text that a log prints. -/
def printed (log : Log) : String :=
  String.join (log.map printedEntry)

/-- The record that an entry leaves in the trace. -/
def recordOf? : Entry → Option Record
  | .notice .tracing notice => some (.noticed notice)
  | .record record => some record
  | _ => none

/-- The records of a log, notices to the trace included. -/
def records (log : Log) : List Record :=
  log.filterMap recordOf?

theorem records_append (first second : Log) :
    records (first ++ second) = records first ++ records second :=
  List.filterMap_append

/-- A log of records alone holds just these records. -/
@[simp] theorem records_ofRecords (trace : List Record) : records (ofRecords trace) = trace := by
  induction trace with
  | nil => rfl
  | cons record rest ih =>
    show record :: records (ofRecords rest) = record :: rest
    rw [ih]

end Log

/-! ## Assemblies -/

namespace Source

/-- The log of assembling a source text. -/
def assemblyLog (source : String) : Log :=
  Log.ofRecords <|
    match assemble source with
    | .ok program =>
      [.assemblyOpened source.utf8ByteSize, .assembled program.length, .assemblyClosed]
    | .error _ => [.assemblyOpened source.utf8ByteSize, .assemblyClosed]

/-- The log of bringing a source text into canonical form: it is assembled, and so is the
canonical text if it gets that far. -/
def canonicalLog (source : String) : Log :=
  assemblyLog source ++
    match assemble source with
    | .error _ => []
    | .ok program =>
      match program.disassemble with
      | .error _ => []
      | .ok text => assemblyLog text

end Source

end SymbolicBytecode
