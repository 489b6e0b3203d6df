/-
The property graph that traversals run on.

An element keeps its handle for ever, while the two indexes say which elements
are in the graph, and under which id. The indexes keep the order of insertion,
and that is the order in which elements are found. An element that has been
dropped, or whose place in the index another element has taken, is in no index
any more; edges that name it as an end still find it by its handle.

An id may be given to an element that is in the graph already: then its entry
moves to the end of the index, or takes the place of the element that had the
id before. That one is lost to all traversals, although its handle still stands
for it.
-/
import GraphMapper.Value.Membership

namespace GraphMapper

/-- An element's place in the table of all elements that there have ever
been. -/
abbrev Handle := Nat

/-- The ends of an edge. The target is unknown until the edge has been linked
to one. -/
structure Ends where
  origin : Handle
  target : Option Handle

/-- A vertex, or an edge with its ends. -/
structure Element where
  id : Value
  label : Value
  props : Entries
  /-- Only edges have ends. -/
  ends : Option Ends

namespace Element

/-- An element with ends is an edge. -/
def isEdge (e : Element) : Bool := e.ends.isSome

/-- What stands for an element that there is not. -/
def absent : Element := ⟨.null, .null, [], none⟩

end Element

/-- Handles by id, in the order in which the ids were first inserted. -/
abbrev Index := List (Value × Handle)

/-- All elements that there have been, the two indexes, and the next id that is
to be handed out. -/
structure Graph where
  elements : List Element
  vertices : Index
  edges : Index
  /-- The number in the next id that is given out. -/
  nextId : Nat

namespace Graph

/-- A graph without elements. -/
def empty : Graph := ⟨[], [], [], 1000⟩

/-- The element with a handle. -/
def element (g : Graph) (h : Handle) : Element := g.elements.getD h .absent

/-- Changes one element. -/
def update (g : Graph) (h : Handle) (f : Element → Element) : Graph :=
  { g with elements := g.elements.modify h f }

/-- A new element that is in no index yet. -/
def add (g : Graph) (e : Element) : Graph × Handle :=
  ({ g with elements := g.elements ++ [e] }, g.elements.length)

/-- The next id, which is a text. -/
def freshId (g : Graph) : Graph × Value :=
  ({ g with nextId := g.nextId + 1 }, .text (toString g.nextId))

/-- A vertex is found under an id. -/
def indexVertex (g : Graph) (id : Value) (h : Handle) : Graph :=
  { g with vertices := Entries.insert id h g.vertices }

/-- An edge is. -/
def indexEdge (g : Graph) (id : Value) (h : Handle) : Graph :=
  { g with edges := Entries.insert id h g.edges }

/-- No vertex is found under an id any more. -/
def unindexVertex (g : Graph) (id : Value) : Graph :=
  { g with vertices := Entries.erase id g.vertices }

/-- No edge is. -/
def unindexEdge (g : Graph) (id : Value) : Graph :=
  { g with edges := Entries.erase id g.edges }

/-- A new vertex with an id that is given or, if that is nothing, given out. -/
def addVertex (g : Graph) (label id : Value) (props : Entries) :
    Graph × Handle :=
  let (g, id) := match id with
    | .null => g.freshId
    | id => (g, id)
  let (g, h) := g.add ⟨id, label, props, none⟩
  (g.indexVertex id h, h)

/-- A new edge that is in no index and has no target yet. -/
def addEdge (g : Graph) (label : Value) (origin : Handle) : Graph × Handle :=
  let (g, id) := g.freshId
  g.add ⟨id, label, [], some ⟨origin, none⟩⟩

/-- An edge has the element as one of its ends. -/
def touches (g : Graph) (h edge : Handle) : Bool :=
  match (g.element edge).ends with
  | some ends => ends.origin == h || ends.target == some h
  | none => false

/-- Takes an element out of the graph, and with a vertex the edges that touch
it. -/
def dropElement (g : Graph) (h : Handle) : Graph :=
  let e := g.element h
  if e.isEdge then g.unindexEdge e.id
  else
    let g := g.unindexVertex e.id
    { g with edges := g.edges.filter fun entry => !g.touches h entry.2 }

/-- The vertex of an id, which has to be there. -/
def vertexOf (g : Graph) (id : Value) : Checked Handle := do
  match ← Entries.find id g.vertices with
  | some h => .ok h
  | none => .error (.slip .key)

/-- A vertex with all that is known about it, put into the graph. -/
def enterVertex (g : Graph) (id label : Value) (props : Entries) :
    Checked Graph :=
  if id.isKey then .ok (g.addVertex label id props).1 else .error id.keyFault

/-- An edge between vertices of the graph, with all that is known about it, put
into the graph. -/
def enterEdge (g : Graph) (id label originId targetId : Value)
    (props : Entries) :
    Checked Graph := do
  let (g, id) := match id with
    | .null => g.freshId
    | id => (g, id)
  let origin ← g.vertexOf originId
  let target ← g.vertexOf targetId
  if id.isKey then
    let (g, h) := g.add ⟨id, label, props, some ⟨origin, some target⟩⟩
    .ok (g.indexEdge id h)
  else .error id.keyFault

/-- The vertices of the graph in order. -/
def vertexList (g : Graph) : List Element :=
  g.vertices.map fun entry => g.element entry.2

/-- The edges that are in the graph, in the order of their index. -/
def edgeList (g : Graph) : List Element :=
  g.edges.map fun entry => g.element entry.2

end Graph

end GraphMapper
