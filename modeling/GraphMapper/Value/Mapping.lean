/-
Mappings as lists of entries in the order in which their keys were first
inserted. A key is found by sameness of keys, so `1` finds an entry under
`1.0`. Writing under a key that is there keeps its place and the key as it was
first written.
-/
import GraphMapper.Value.Equality

namespace GraphMapper.Entries

variable {β : Type}

/-- The value under a key. -/
def lookup? (key : Value) (es : List (Value × β)) : Option β :=
  (es.find? fun e => e.1.sameKey key).map (·.2)

def has (key : Value) (es : List (Value × β)) : Bool :=
  es.any fun e => e.1.sameKey key

def insert (key : Value) (value : β) : List (Value × β) → List (Value × β)
  | [] => [(key, value)]
  | e :: es =>
      if e.1.sameKey key then (e.1, value) :: es else e :: insert key value es

/-- Without the first entry that `p` holds of. -/
def eraseFirst (p : Value × β → Bool) : List (Value × β) → List (Value × β)
  | [] => []
  | e :: es => if p e then es else e :: eraseFirst p es

/-- Without the entry under a key. -/
def erase (key : Value) (es : List (Value × β)) : List (Value × β) :=
  eraseFirst (fun e => e.1.sameKey key) es

/-- The mapping that has these entries, the later of two under one key. -/
def ofList (es : List (Value × β)) : List (Value × β) :=
  es.foldl (fun acc e => insert e.1 e.2 acc) []

def keys (es : List (Value × β)) : List Value := es.map (·.1)

/-- The value under a key, or nothing. -/
def get (key : Value) (es : Entries) : Value := (lookup? key es).getD .null

/-- The value under a key that is a text. -/
def field (name : String) (es : Entries) : Value := get (.text name) es

end GraphMapper.Entries
