/-
How a submitted traversal is completed: with all results, with the first one,
or with none.
-/
import GraphMapper.Failure
import GraphMapper.Value.Printer

namespace GraphMapper

inductive Mode where
  | toList | next | iterate
  deriving DecidableEq, Repr

namespace Mode

def name : Mode → String
  | .toList => "to_list"
  | .next => "next"
  | .iterate => "iterate"

/-- The mode of a word; the first one may be spelled in three ways. -/
def ofWord? (s : String) : Option Mode :=
  if s = "to_list" || s = "toList" || s = "tolist" then some .toList
  else if s = "next" then some .next
  else if s = "iterate" then some .iterate
  else none

def parse (v : Value) : Checked Mode :=
  match v.text?.bind ofWord? with
  | some mode => .ok mode
  | none => do
    .error (.ofKind .invalidExecutionMode
      "Invalid method, should be to_list, next or iterate"
        [(.text "mode", .text (← v.plain))])

end Mode

end GraphMapper
