/-
The steps that write a record to an element. The primary key is written as the
element's id whatever its type; every other entry is written under its key in
the stored form of its field's type.

A writer appends its steps to a traversal that is being built, and stops at the
first entry that it cannot write; what it has appended by then stays.
-/
import GraphMapper.Record.Coercion
import GraphMapper.Record.Storage

namespace GraphMapper

/-- Building a traversal: steps are appended to those built so far, and a
failure leaves them. -/
abbrev Build := ExceptT Failure (StateM (List Step))

namespace Build

/-- One more step at the end. -/
def step (name : StepName) (args : List Value) : Build Unit :=
  modify (· ++ [Step.call name args])

/-- What is decided without the traversal. -/
def check {α : Type} (c : Checked α) : Build α := ExceptT.mk (pure c)

/-- The outcome with the steps of the traversal afterwards, for a traversal
that has `steps` to begin with. -/
def runFrom {α : Type} (steps : List Step) (b : Build α) :
    Checked α × List Step :=
  (ExceptT.run b).run steps

/-- The whole traversal that is built behind `steps`, or the failure. -/
def traversalFrom (steps : List Step) (b : Build Unit) : Checked (List Step) :=
  match b.runFrom steps with
  | (.ok _, built) => .ok built
  | (.error e, _) => .error e

end Build

namespace Record

/-- The type that an entry is written as: that of the field with this name,
else of the first field with this column. -/
def typeFor (m : Model) (key : Value) : Option FieldType :=
  match m.type? key with
  | some t => some t
  | none => (m.fields.find? fun f => f.column.equal key).map (·.type)

/-- The step that writes one entry; none for an entry to be left out. -/
def writeEntry (m : Model) (leftOut : List Value) (key value : Value) :
    Build Unit := do
  if key.isIn leftOut then pure ()
  else if key.equal m.idField then Build.step .property [.idKey, value]
  else
    let stored ← Build.check (serialize (typeFor m key) value)
    Build.step .property [key, stored]

/-- All entries in order. -/
def write (m : Model) (leftOut : List Value) (es : Entries) : Build Unit :=
  es.forM fun e => writeEntry m leftOut e.1 e.2

end Record

end GraphMapper
