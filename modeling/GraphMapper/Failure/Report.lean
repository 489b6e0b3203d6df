/-
The texts of failures, and failures made to order.

A failure reports itself by a text, which is put together only when it is asked
for. Its parts may be any values, and some of them have no text
(`Value.plain`): then neither has the failure, and asking for it fails in the
way of that part.

Failures made to order are what the server in memory, a remote or a submitter
is told to fail with. Parts that are left out have their defaults.
-/
import GraphMapper.Value.Conversion

namespace GraphMapper

namespace Fault

/-- More text behind what there is, which has to count as text for that. -/
def extended (base : Value) (more : String) : Checked Value := do
  .ok (.text ((← base.words) ++ more))

/-- The code behind a text, if there is one. -/
def coded (f : Fault) (base : Value) : Checked Value :=
  if f.code.isGiven then do
    extended base (" [code=" ++ (← f.code.plain) ++ "]")
  else .ok base

/-- The details behind a text, if there are any. -/
def detailed (f : Fault) (base : Value) : Checked Value :=
  if f.details.isEmpty then .ok base
  else do extended base (" details=" ++ (← (Value.map f.details).literal))

/-- The text of a fault: the message, or the name of the kind where there is
none, with code and details behind it. A message that stands alone is the text
as it is, and need not be more than something that counts as text; where the
message does not, there is no text. -/
def text (f : Fault) : Checked Value := do
  let base ← f.coded (if f.message.isGiven then f.message
    else .text f.kind.name)
  let whole ← f.detailed base
  if whole.text?.isSome then .ok whole else .error (.slip .type)

end Fault

namespace Failure

/-- The text of a failure: a text or what counts as one. -/
def text : Failure → Checked Value
  | .fault f => f.text
  | .server text _ => .ok (.text text)
  | .runtime message _ => message.plain.map .text
  | .notImplemented message => .ok (.text message)
  | .slip _ => .ok (.text "")

/-- The text that a failure is judged by: the status when it is a text, even an
empty one, else the text of the failure unless that is empty. -/
def message? (e : Failure) : Checked (Option Value) :=
  match e.status? with
  | some status =>
    if status.text?.isSome then .ok (some status) else own
  | none => own
where
  own : Checked (Option Value) := do
    let text ← e.text
    .ok (if text.isGiven then some text else none)

-- ========================================================== made to order

/-- An answer of the server with a code and a message. -/
def answer (code message : Value) : Checked Failure := do
  .ok (.server ((← code.plain) ++ ": " ++ (← message.plain)) message)

/-- A fault from its parts. Details may be anything that has the entries of a
mapping; only faults of the transport have a status, which is the message where
none is given. -/
def ofParts (kind : FaultKind) (message : Value)
    (code details status : Option Value) :
    Checked Failure :=
  if status.isSome && kind != .transport then .error (.slip .type)
  else do
    let given := details.getD .null
    let details ← if given.isGiven then given.toEntries else .ok []
    let fault := Fault.ofKind kind message details
    let status := match status with
      | none | some .null => fault.status
      | status => status
    .ok (.fault { fault with code := code.getD kind.code, status })

end Failure

end GraphMapper
