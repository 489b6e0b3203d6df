/-
When two values are equal, when they are the same, and when they are the same
key.

Numbers are equal when they are at the same place on the number line, whatever
their kinds; truth values count as 0 and 1, and a NaN is equal to nothing. The
order of entries does not matter for mappings, nor that of members for sets.
Elements of the graph are equal when they have the same kind and equal ids,
whatever else they show.

A thing is always the same as itself, so values are the same when they are
equal or are one NaN. The parts of lists, mappings and the like are compared by
sameness even where equality is asked for.

A key is found by sameness, and by its mark besides. The mark of an element is
that of its id, and that of a path is its text, so paths with the same objects
in different spellings (`1` and `True`) are different keys. A property is
marked by its key and its value together, whichever is which. A value that can
change may be no key, and neither may a path without a text.
-/
import GraphMapper.Value.Printer

namespace GraphMapper

namespace Value

/-- The place of a number on the number line: `some none` for NaN, `none` for
what is no number. -/
def position? : Value → Option (Option Position)
  | .bool b => some (some (.finite (.ofInt (if b then 1 else 0))))
  | .int n => some (some (.finite (.ofInt n)))
  | .float x => some x.position?
  | _ => none

/-- Equality of values that hold no other values. -/
def equalAtoms (a b : Value) : Bool :=
  match a, b with
  | .null, .null => true
  | .bytes a, .bytes b => a == b
  | .date a, .date b => a == b
  | .dateTime a, .dateTime b => a.beq b
  | .datatype a, .datatype b => a == b
  | .foreign _ a, .foreign _ b => a == b
  | .symbol (.fieldType a), b | b, .symbol (.fieldType a) =>
      b.text? == some a.word
  | .symbol a, .symbol b => a == b
  | .text a, .text b => a == b
  | a, b =>
    match a.position?, b.position? with
    | some (some p), some (some q) => p.beq q
    | _, _ => false

/-- Sameness of values that hold no other values. -/
def sameAtoms (a b : Value) : Bool :=
  match a, b with
  | .float x, .float y => x.isSameNaN y || equalAtoms a b
  | a, b => equalAtoms a b

/-- What has the mark of a value: for an element its id, for everything else
the value itself. -/
def bearer : Value → Value
  | .vertex id _ => id.bearer
  | .edge id .. => id.bearer
  | .vertexProperty id _ _ => id.bearer
  | v => v
termination_by structural v => v

mutual

/-- Whether two keys have the same mark. That of a property does not tell its
two parts apart. -/
def sameMark : Value → Value → Bool
  | .vertex id _, b => id.sameMark b
  | .edge id .., b => id.sameMark b
  | .vertexProperty id _ _, b => id.sameMark b
  | .path objects, b =>
    match b.bearer with
    | .path others => (literals objects).toOption == (literals others).toOption
    | _ => false
  | .tuple items, b =>
    match b.bearer with
    | .tuple others => sameMarks items others
    | _ => false
  | .property k v, b =>
    match b.bearer with
    | .property k' v' =>
        (k.sameMark k' && v.sameMark v') || (k.sameMark v' && v.sameMark k')
    | _ => false
  | a, b => sameAtoms a b.bearer
termination_by structural a => a

/-- Item by item. -/
def sameMarks : List Value → List Value → Bool
  | [], [] => true
  | a :: as, b :: bs => a.sameMark b && sameMarks as bs
  | _, _ => false
termination_by structural as => as

end

mutual

def same : Value → Value → Bool
  | .list as, .list bs => sameItems as bs
  | .tuple as, .tuple bs => sameItems as bs
  | .set as, .set bs => as.length == bs.length && sameMembers as bs
  | .map as, .map bs => as.length == bs.length && sameEntries as bs
  | .vertex a _, .vertex b _ => a.same b
  | .edge a .., .edge b .. => a.same b
  | .vertexProperty a _ _, .vertexProperty b _ _ => a.same b
  | .property k v, .property k' v' => k.same k' && v.same v'
  | .path as, .path bs => sameItems as bs
  | .traverser a, .traverser b => a.same b
  | .predicate t op a b, .predicate t' op' a' b' =>
    t == t' && op == op' && a.same a' && b.same b'
  | .traversal as, .traversal bs => sameSteps as bs
  | a, b => sameAtoms a b
termination_by structural a => a

/-- Item by item. -/
def sameItems : List Value → List Value → Bool
  | [], [] => true
  | a :: as, b :: bs => a.same b && sameItems as bs
  | _, _ => false
termination_by structural as => as

/-- Each of the first values is among the others, as keys. -/
def sameMembers : List Value → List Value → Bool
  | [], _ => true
  | a :: as, bs =>
    bs.any (fun b => a.same b && a.sameMark b) && sameMembers as bs
termination_by structural as => as

/-- Each of the first entries is among the others. -/
def sameEntries : List (Value × Value) → List (Value × Value) → Bool
  | [], _ => true
  | (k, v) :: es, bs =>
    bs.any (fun b => k.same b.1 && k.sameMark b.1 && v.same b.2) &&
      sameEntries es bs
termination_by structural es => es

def sameSteps : List Step → List Step → Bool
  | [], [] => true
  | a :: as, b :: bs => sameStep a b && sameSteps as bs
  | _, _ => false
termination_by structural as => as

def sameStep : Step → Step → Bool
  | .call a as, .call b bs => a == b && sameItems as bs
termination_by structural a => a

end

/-- Equality: sameness, except that a NaN is not equal to itself. What stands
for one thing with an id, a value or an operand is equal by the equality of
these; what holds a row of things is equal when it holds the same ones. -/
def equal : Value → Value → Bool
  | .vertex a _, .vertex b _ => a.equal b
  | .edge a .., .edge b .. => a.equal b
  | .vertexProperty a _ _, .vertexProperty b _ _ => a.equal b
  | .property k v, .property k' v' => k.equal k' && v.equal v'
  | .traverser a, .traverser b => a.equal b
  | .predicate t op a b, .predicate t' op' a' b' =>
    t == t' && op == op' && a.equal a' && b.equal b'
  | .float x, .float y => equalAtoms (.float x) (.float y)
  | a, b => a.same b
termination_by structural a => a

/-- The value is one of the items. -/
def isIn (v : Value) (items : List Value) : Bool :=
  items.any fun item => item.same v

/-- Sameness of keys. -/
def sameKey (a b : Value) : Bool := a.same b && a.sameMark b

mutual

/-- Whether a value may be a key. -/
def isKey : Value → Bool
  | .list _ | .set _ | .map _ | .traverser _ | .predicate ..
  | .traversal _ => false
  | .tuple items => areKeys items
  | .path objects => (literals objects).isOk
  | .vertex id _ => id.isKey
  | .edge id .. => id.isKey
  | .vertexProperty id _ _ => id.isKey
  | .property key value => key.isKey && value.isKey
  | _ => true
termination_by structural v => v

def areKeys : List Value → Bool
  | [] => true
  | v :: vs => v.isKey && areKeys vs
termination_by structural vs => vs

end

mutual

/-- How it fails when a value that may be no key is taken for one: by its type,
or as the text of a path does. The first part that may be no key decides. -/
def keyFault : Value → Failure
  | .tuple items => keysFault items
  | .path objects =>
    match literals objects with
    | .ok _ => .slip .type
    | .error e => e
  | .vertex id _ => id.keyFault
  | .edge id .. => id.keyFault
  | .vertexProperty id _ _ => id.keyFault
  | .property key value => if key.isKey then value.keyFault else key.keyFault
  | _ => .slip .type
termination_by structural v => v

/-- The same for the items of a tuple. -/
def keysFault : List Value → Failure
  | [] => .slip .type
  | v :: vs => if v.isKey then keysFault vs else v.keyFault
termination_by structural vs => vs

end

end Value

end GraphMapper
