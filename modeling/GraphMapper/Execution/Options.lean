/-
Options of a single operation.
-/
import GraphMapper.Value.Conversion

namespace GraphMapper

structure Options where
  /-- The transaction that the operation is part of. -/
  transaction : Option String
  /-- Whether results are brought into normal form. -/
  parse : Bool
  requestId : Value

namespace Options

def standard : Options := ⟨none, true, .null⟩

/-- The id of the transaction, unless it is empty. -/
def joined (o : Options) : Option String :=
  o.transaction.filter fun s => !s.isEmpty

/-- Options in a mapping. The transaction may be an id or a mapping with one;
only the truth value false turns parsing off. -/
def ofValue (v : Value) : Checked Options :=
  match v with
  | .null => .ok standard
  | .map es => do
    let given := match Entries.field "transaction" es with
      | .map inner => Entries.field "connection" inner
      | v => v
    let parse := match Entries.field "parse" es with
      | .bool b => b
      | _ => true
    let transaction ← if given.isGiven then some <$> given.plain else .ok none
    .ok ⟨transaction, parse, Entries.field "request_id" es⟩
  | _ =>
      .error (.validation "options must be a mapping or OperationOptions" [])

end Options

end GraphMapper
