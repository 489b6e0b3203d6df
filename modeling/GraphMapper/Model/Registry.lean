/-
The models that one connector knows, by name, and the table of field types that
is derived for a model when it is first asked for. A table is kept until its
model is registered again; each derivation has a number of its own, so a kept
table can be told from a new one with the same types.
-/
import GraphMapper.Model.Definition

namespace GraphMapper

structure TypeTable where
  /-- Counts the derivations of a registry. -/
  number : Nat
  types : List (Value × FieldType)

structure Registry where
  models : List (String × Model)
  tables : List (String × TypeTable)
  derivations : Nat

namespace Registry

def empty : Registry := ⟨[], [], 0⟩

def find? (r : Registry) (name : String) : Option Model := r.models.lookup name

/-- The model of a name; having none is no name that a model can have. -/
def get (r : Registry) (name : Option String) : Checked Model :=
  match name.bind r.find? with
  | some m => .ok m
  | none =>
    let asked : Value := (name.map Value.text).getD .null
    do .error (.validation ("Unknown model '" ++ (← asked.plain) ++ "'")
        [(.text "model", asked)])

def contains (r : Registry) (name : Option String) : Bool :=
  (name.bind r.find?).isSome

/-- The model under its name, in place of one that had the name before. -/
def register (r : Registry) (m : Model) : Registry :=
  { r with
    models := (m.name, m) :: r.models.filter (·.1 != m.name)
    tables := r.tables.filter (·.1 != m.name) }

def registerDefinition (r : Registry) (definition : Value) :
    Checked (Registry × Model) := do
  let m ← Model.ofDefinition definition
  .ok (r.register m, m)

/-- All definitions, registered in order. -/
def ofDefinitions : List Value → Registry → Checked Registry
  | [], r => .ok r
  | d :: ds, r => do
    let (r, _) ← r.registerDefinition d
    ofDefinitions ds r

/-- The type table of a model: the kept one, or a new one that is kept from now
on. -/
def deriveTypes (r : Registry) (name : Option String) :
    Checked (Registry × TypeTable) :=
  match name.bind fun s => r.tables.lookup s with
  | some table => .ok (r, table)
  | none => do
    let m ← r.get name
    let table : TypeTable := ⟨r.derivations, m.types⟩
    .ok ({ r with
      tables := (m.name, table) :: r.tables
      derivations := r.derivations + 1 }, table)

end Registry

end GraphMapper
