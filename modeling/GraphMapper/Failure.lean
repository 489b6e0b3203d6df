/-
What can go wrong, by cause.

A *fault* is a failure that the library itself reports: invalid arguments,
references, modes and transactions, and whatever the transport says that is not
an answer of the server. A fault has a code for machines besides its message,
and details that never hold stored values. Failures of the server are passed on
as they came. A *slip* is an argument so far off that no rule of the library
speaks of it, such as a filter that is a number where a mapping is read; it has
a class and no text.

Whoever reports a failure may put any value where a text or a code is meant.
Such a failure is passed on like others, but it may turn out to have no text
when the text is asked for.
-/
import GraphMapper.Value.Basic

namespace GraphMapper

inductive FaultKind where
  | connector | validation | missingReference | invalidReferenceFormat
  | unsupportedOperator | unsupportedType | invalidExecutionMode
  | transactionNotFound | transport
  deriving DecidableEq, Repr

namespace FaultKind

def name : FaultKind → String
  | .connector => "ConnectorError"
  | .validation => "ValidationError"
  | .missingReference => "MissingReference"
  | .invalidReferenceFormat => "InvalidReferenceFormat"
  | .unsupportedOperator => "UnsupportedOperator"
  | .unsupportedType => "UnsupportedType"
  | .invalidExecutionMode => "InvalidExecutionMode"
  | .transactionNotFound => "TransactionNotFound"
  | .transport => "TransportError"

def all : List FaultKind :=
  [.connector, .validation, .missingReference, .invalidReferenceFormat,
   .unsupportedOperator, .unsupportedType, .invalidExecutionMode,
   .transactionNotFound, .transport]

/-- The code of a fault that is given none of its own. -/
def code : FaultKind → Value
  | .connector => .null
  | .validation => .text "VALIDATION_ERROR"
  | .missingReference => .text "MISSING_REFERENCE"
  | .invalidReferenceFormat => .text "INVALID_REFERENCE_FORMAT"
  | .unsupportedOperator => .text "UNSUPPORTED_OPERATOR"
  | .unsupportedType => .text "UNSUPPORTED_TYPE"
  | .invalidExecutionMode => .text "INVALID_EXECUTION_MODE"
  | .transactionNotFound => .text "TRANSACTION_NOT_FOUND"
  | .transport => .text "TRANSPORT_ERROR"

/-- Faulty references are validation failures too. -/
def isValidation : FaultKind → Bool
  | .validation | .missingReference | .invalidReferenceFormat => true
  | _ => false

end FaultKind

inductive Slip where
  | type | value | overflow | attribute | index | key | system
  deriving DecidableEq, Repr

namespace Slip

def name : Slip → String
  | .type => "TypeError"
  | .value => "ValueError"
  | .overflow => "OverflowError"
  | .attribute => "AttributeError"
  | .index => "IndexError"
  | .key => "KeyError"
  | .system => "OSError"

end Slip

structure Fault where
  kind : FaultKind
  message : Value
  code : Value
  details : Entries
  /-- What a fault of the transport reports as the status; other kinds have
  none. -/
  status : Option Value

namespace Fault

/-- A fault with the code of its kind. -/
def ofKind (kind : FaultKind) (message : Value) (details : Entries) : Fault :=
  ⟨kind, message, kind.code, details,
    if kind = .transport then some message else none⟩

end Fault

inductive Failure where
  | fault (f : Fault)
  /-- An answer of the server that reports a failure, with its text and what it
  says itself. -/
  | server (text : String) (message : Value)
  /-- A failure of the transport's own, with a status when it has one. -/
  | runtime (message : Value) (status : Option Value)
  | notImplemented (message : String)
  | slip (s : Slip)

/-- Results that may be failures. -/
abbrev Checked := Except Failure

namespace Failure

def ofKind (kind : FaultKind) (message : String) (details : Entries) :
    Failure :=
  .fault (.ofKind kind (.text message) details)

def validation (message : String) (details : Entries) : Failure :=
  .ofKind .validation message details

/-- The answer of a server that cannot run a traversal. -/
def refusal (message : String) : Failure :=
  .server ("500: " ++ message) (.text message)

/-- The name of the class of a failure. -/
def name : Failure → String
  | .fault f => f.kind.name
  | .server _ _ => "GremlinServerError"
  | .runtime _ _ => "RuntimeError"
  | .notImplemented _ => "NotImplementedError"
  | .slip s => s.name

/-- The status that came with a failure. -/
def status? : Failure → Option Value
  | .fault f => f.status
  | .server _ message => some message
  | .runtime _ status => status
  | _ => none

/-- The code that a failure is recorded under: a fault's own, and for
everything else, faults without a code included, the name of the class. -/
def recordCode : Failure → Value
  | .fault f => if f.code.isGiven then f.code else .text f.kind.name
  | e => .text e.name

/-- The failure is a fault of the library's own, which no other submission can
mend. -/
def isOwnFault : Failure → Bool
  | .fault f => f.kind != .transport
  | _ => false

end Failure

end GraphMapper
