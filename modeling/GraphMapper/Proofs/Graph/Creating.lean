/-
What a creation leaves in the graph.

A new element has the next handle, and every write that follows changes this
one alone: one of its properties, or its id. As long as no id that it gets on
the way is taken, it is the last one of its kind, and nothing else in the graph
has changed (`Gains`). One write keeps that (`Gains.write`), and so does a row
of them (`Gains.writes`).

# Ends

An edge needs two vertices. The one that it starts at is what the traversal
goes on with; where there is none there is no item, no edge is made, and the
traversal succeeds with nothing. The other one is found by a traversal of its
own, and that there is none is a failure (`on_edgeBetween`).

# Writes that move the element

The id is written like a property, but it moves the entry of the element in the
index of its kind. If another element had that id, it would lose its place, and
the statement with it; so the writes are asked not to name an id that is taken
(`Free`), after each of the writes before. An id that the graph hands out may
be taken as well, by an element that has been given it.

Chain: `Graph.Writing` for one write and `Filter.Sought` for references;
`Query.Creating` goes through the steps of a creation with it.
-/
import GraphMapper.Proofs.Filter.Sought
import GraphMapper.Proofs.Graph.Writing
import GraphMapper.Proofs.Value.Printing

namespace GraphMapper

/-- An element with one entry written: a property, or under the reserved key
another id. -/
def Element.write (e : Element) (p : Value × Value) : Element :=
  match p.1 with
  | .symbol (.reserved .id) => { e with id := p.2 }
  | key => { e with props := Entries.insert key p.2 e.props }

/-- No entry of the index could be taken for one under the id. -/
def Index.Free (index : Index) (id : Value) : Prop :=
  ∀ e ∈ index, e.1.sameKey id = false

namespace Graph

open Run

variable {g g' g₁ : Graph} {h k : Handle} {p : Value × Value} {label : Value}
  {ends : Option Ends} {ps : Entries}

-- ================================================================= one write

/-- One entry is written to an element: a property, or under the reserved key
another id. -/
def write (g : Graph) (k : Handle) (p : Value × Value) : Graph :=
  match p.1 with
  | .symbol (.reserved .id) => (g.rename k p.2).index p.2 k
  | key =>
      g.update k fun e => { e with props := Entries.insert key p.2 e.props }

/-- What is written as an id, or under a key, has to be able to be a key. -/
def canWrite (p : Value × Value) : Bool :=
  match p.1 with
  | .symbol (.reserved .id) => p.2.isKey
  | key => key.isKey

/-- To write anything but the id is to set a property. -/
private theorem write_property (hkey : p.1 ≠ .idKey) :
    g.write k p = g.update k fun e =>
      { e with props := Entries.insert p.1 p.2 e.props } := by
  unfold write
  split
  · next heq => exact absurd heq hkey
  · rfl

/-- That can be done if the key is one. -/
theorem canWrite_property (hkey : p.1 ≠ .idKey) : canWrite p = p.1.isKey := by
  unfold canWrite
  split
  · next heq => exact absurd heq hkey
  · rfl

/-- The step does just this, or says what is wrong with the key. -/
private theorem on_setProperty_property (hkey : p.1 ≠ .idKey) (g : Graph) :
    (setProperty p.1 p.2 (.element k)).on g
      = if canWrite p then (.ok (), g.write k p)
        else (.error p.1.keyFault, g) := by
  rw [write_property hkey, canWrite_property hkey]
  exact on_setProperty hkey p.2 g k

/-- An entry that can be written is written. -/
private theorem on_write (hp : canWrite p = true) (g : Graph) :
    (setProperty p.1 p.2 (.element k)).on g = (.ok (), g.write k p) := by
  by_cases hid : p.1 = .idKey
  · obtain ⟨key, value⟩ := p
    obtain rfl : key = .idKey := hid
    have hkey : value.isKey = true := hp
    rw [on_setProperty_id, if_pos hkey]
    rfl
  · rw [on_setProperty_property hid, if_pos hp]

/-- Any other is a slip. -/
private theorem on_write_refused (hp : canWrite p = false) (g : Graph) :
    ∃ e g', e.IsTextless ∧
      (setProperty p.1 p.2 (.element k)).on g = (.error e, g') := by
  by_cases hid : p.1 = .idKey
  · obtain ⟨key, value⟩ := p
    obtain rfl : key = .idKey := hid
    have hkey : value.isKey = false := hp
    refine ⟨_, g.rename k value, value.isTextless_keyFault, ?_⟩
    rw [on_setProperty_id, hkey]
    rfl
  · refine ⟨_, g, p.1.isTextless_keyFault, ?_⟩
    rw [on_setProperty_property hid, hp]
    rfl

-- ============================================================= rows of writes

/-- A row of entries that can be written is written from the front. -/
theorem on_writes (hwrites : ∀ p ∈ ps, canWrite p = true) (g : Graph) :
    (run .plain (ps.map put) [.element k]).on g
      = (.ok [.element k], ps.foldl (fun g p => g.write k p) g) := by
  induction ps generalizing g with
  | nil => rfl
  | cons p ps ih =>
      have hfirst : (each (setProperty p.1 p.2) [.element k]).on g
          = (.ok [()], g.write k p) := by
        rw [each, on_bind_ok (on_write (hwrites p List.mem_cons_self) g)]
        rfl
      rw [List.map_cons, put, run_property, on_bind_ok hfirst]
      exact ih (fun q hq => hwrites q (List.mem_cons_of_mem _ hq)) _

/-- One that cannot be written stops the row. -/
theorem on_writes_refused (hwrites : ∃ p ∈ ps, canWrite p = false)
    (g : Graph) :
    ∃ e g', e.IsTextless ∧
      (run .plain (ps.map put) [.element k]).on g = (.error e, g') := by
  induction ps generalizing g with
  | nil =>
      obtain ⟨p, hp, -⟩ := hwrites
      cases hp
  | cons p ps ih =>
      rw [List.map_cons, put, run_property]
      by_cases hp : canWrite p = true
      · have hfirst : (each (setProperty p.1 p.2) [.element k]).on g
            = (.ok [()], g.write k p) := by
          rw [each, on_bind_ok (on_write hp g)]
          rfl
        have hrest : ∃ q ∈ ps, canWrite q = false := by
          obtain ⟨q, hq, hno⟩ := hwrites
          rcases List.mem_cons.mp hq with rfl | hq
          · rw [hp] at hno
            cases hno
          · exact ⟨q, hq, hno⟩
        rw [on_bind_ok hfirst]
        exact ih hrest _
      · obtain ⟨e, g', he, hgo⟩ :=
          on_write_refused (k := k) (Bool.eq_false_iff.mpr hp) g
        refine ⟨e, g', he, on_bind_error ?_⟩
        rw [each, on_bind_error hgo]

/-- Where there is no element there is nothing to write to. -/
theorem on_writes_nothing (ps : Entries) (g : Graph) :
    (run .plain (ps.map put) []).on g = (.ok [], g) := by
  induction ps with
  | nil => rfl
  | cons p ps ih =>
      rw [List.map_cons, put, run_property]
      exact ih

-- ================================================================ the element

/-- An element gets another id. -/
private theorem element_reindexed (g : Graph) (k : Handle) (id : Value)
    (j : Handle) : ((g.rename k id).index id k).element j
      = if j = k ∧ k < g.size then { g.element j with id }
        else g.element j := by
  have hindex : ((g.rename k id).index id k).element j
      = (g.rename k id).element j := by
    unfold Graph.index
    split <;> rfl
  have hunindex : (g.unindex k).size = g.size ∧
      (g.unindex k).element j = g.element j := by
    unfold Graph.unindex
    split <;> exact ⟨rfl, rfl⟩
  rw [hindex, rename, element_update, hunindex.1, hunindex.2]

/-- After a new id a vertex is found under that one, and no more under the
old. -/
private theorem vertices_reindexed (g : Graph) (k : Handle) (id : Value) :
    ((g.rename k id).index id k).vertices
      = if (g.element k).isEdge then g.vertices
        else Entries.insert id k (Entries.erase (g.ids k) g.vertices) := by
  unfold Graph.index
  rw [isEdge_rename]
  unfold rename unindex
  cases (g.element k).isEdge <;> rfl

/-- So is an edge. -/
private theorem edges_reindexed (g : Graph) (k : Handle) (id : Value) :
    ((g.rename k id).index id k).edges
      = if (g.element k).isEdge then
        Entries.insert id k (Entries.erase (g.ids k) g.edges)
        else g.edges := by
  unfold Graph.index
  rw [isEdge_rename]
  unfold rename unindex
  cases (g.element k).isEdge <;> rfl

/-- A write changes the element it is for, and no other. -/
private theorem element_write (g : Graph) (k : Handle) (p : Value × Value)
    (j : Handle) :
    (g.write k p).element j
      = if j = k ∧ k < g.size then (g.element j).write p else g.element j := by
  by_cases hid : p.1 = .idKey
  · obtain ⟨key, value⟩ := p
    obtain rfl : key = .idKey := hid
    exact element_reindexed g k value j
  · rw [write_property hid, element_update]
    unfold Element.write
    split
    · split
      · next heq => exact absurd heq hid
      · rfl
    · rfl

-- ============================================================ where it stands

/-- What has been entered under an id is in the index, be it in the place of
another element. -/
private theorem entry_insert (index : Index) (id : Value) (h : Handle) :
    ∃ e ∈ Entries.insert id h index, e.2 = h := by
  induction index with
  | nil => exact ⟨(id, h), List.mem_singleton.mpr rfl, rfl⟩
  | cons e index ih =>
      rw [Entries.insert]
      split
      · exact ⟨(e.1, h), List.mem_cons_self, rfl⟩
      · obtain ⟨d, hd, hdh⟩ := ih
        exact ⟨d, List.mem_cons_of_mem _ hd, hdh⟩

/-- The index of edges, or that of vertices. -/
def indexOf (edge : Bool) (g : Graph) : Index :=
  if edge then g.edges else g.vertices

/-- An element that is in the index of its kind, in a sound graph. -/
structure Entered (k : Handle) (g : Graph) : Prop where
  sound : Sound [] g
  entry : ∃ e ∈ indexOf (g.element k).isEdge g, e.2 = k

/-- An element that is entered is in the graph. -/
theorem Entered.lt_size (hk : Entered k g) : k < g.size := by
  obtain ⟨e, he, rfl⟩ := hk.entry
  cases hkind : (g.element e.2).isEdge with
  | true =>
      rw [hkind] at he
      exact (hk.sound.edge e he).1
  | false =>
      rw [hkind] at he
      exact (hk.sound.vertex e he).1

/-- An edge stays one. -/
private theorem isEdge_write (g : Graph) (k : Handle) (p : Value × Value) :
    ((g.write k p).element k).isEdge = (g.element k).isEdge := by
  rw [element_write]
  split
  · unfold Element.write
    split <;> rfl
  · rfl

/-- It stays there when it is written to, under whatever id. -/
theorem Entered.write (hk : Entered k g)
    (hp : p.1 = .idKey → p.2.sameKey p.2 = true) :
    Entered k (g.write k p) := by
  have hkind := isEdge_write g k p
  by_cases hid : p.1 = .idKey
  · have hself := hp hid
    obtain ⟨key, value⟩ := p
    obtain rfl : key = .idKey := hid
    refine ⟨hk.sound.index_rename List.not_mem_nil hk.lt_size hself, ?_⟩
    rw [hkind]
    have hvertices := vertices_reindexed g k value
    have hedges := edges_reindexed g k value
    cases hedge : (g.element k).isEdge with
    | true =>
        rw [hedge] at hedges
        show ∃ e ∈ ((g.rename k value).index value k).edges, e.2 = k
        rw [hedges]
        exact entry_insert _ value k
    | false =>
        rw [hedge] at hvertices
        show ∃ e ∈ ((g.rename k value).index value k).vertices, e.2 = k
        rw [hvertices]
        exact entry_insert _ value k
  · rw [write_property hid] at hkind ⊢
    refine ⟨(sameBut_update g k (Entries.insert p.1 p.2)).sound hk.sound, ?_⟩
    rw [hkind]
    exact hk.entry

/-- After a row of writes the element is still entered, with each of them
made. -/
theorem Entered.writes (hk : Entered k g)
    (hps : ∀ p ∈ ps, p.1 = .idKey → p.2.sameKey p.2 = true) :
    Entered k (ps.foldl (fun g p => g.write k p) g) ∧
      (ps.foldl (fun g p => g.write k p) g).element k
        = ps.foldl Element.write (g.element k) := by
  induction ps generalizing g with
  | nil => exact ⟨hk, rfl⟩
  | cons p ps ih =>
      have hnext := element_write g k p k
      rw [if_pos ⟨rfl, hk.lt_size⟩] at hnext
      have hrest := ih (hk.write (hps p List.mem_cons_self))
        fun q hq => hps q (List.mem_cons_of_mem _ hq)
      rw [hnext] at hrest
      exact hrest

/-- A vertex that exists and is in the index of a sound graph. -/
structure Placed (k : Handle) (g : Graph) : Prop where
  sound : Sound [] g
  entry : ∃ e ∈ g.vertices, e.2 = k

/-- A vertex that is placed is in the graph, and it is no edge. -/
theorem Placed.lt_size (hk : Placed k g) :
    k < g.size ∧ (g.element k).isEdge = false := by
  obtain ⟨e, he, rfl⟩ := hk.entry
  exact hk.sound.vertex e he

/-- It is entered under its id. -/
theorem Placed.entered (hk : Placed k g) : Entered k g := by
  refine ⟨hk.sound, ?_⟩
  rw [hk.lt_size.2]
  exact hk.entry

/-- Writing does not make it anything else. -/
theorem Placed.writes (hk : Placed k g)
    (hps : ∀ p ∈ ps, p.1 = .idKey → p.2.sameKey p.2 = true) :
    Placed k (ps.foldl (fun g p => g.write k p) g) ∧
      (ps.foldl (fun g p => g.write k p) g).element k
        = ps.foldl Element.write (g.element k) := by
  obtain ⟨hentered, helement⟩ := hk.entered.writes hps
  have hkind : ∀ (ps : Entries) (g : Graph),
      ((ps.foldl (fun g p => g.write k p) g).element k).isEdge
        = (g.element k).isEdge := by
    intro ps
    induction ps with
    | nil => exact fun _ => rfl
    | cons p ps ih =>
        exact fun g => (ih (g.write k p)).trans (isEdge_write g k p)
  have hentry := hentered.entry
  rw [hkind, hk.lt_size.2] at hentry
  exact ⟨⟨hentered.sound, hentry⟩, helement⟩

/-- A vertex that has just been made is placed. -/
theorem placed_addVertex (hs : Sound [] g) (label : Value) :
    Placed g.size (g.addVertex label .null []).1 := by
  obtain ⟨hsound, -, -⟩ :=
    hs.addVertex (Value.sameKey_self (v := .null) rfl rfl) label []
  exact ⟨hsound, entry_insert _ _ _⟩

-- ==================================================================== gains

/-- There is one more element, with a label and with ends if it is an edge,
behind all others of its kind, and under an id that was not taken. Nothing else
has changed. -/
structure Gains (label : Value) (ends : Option Ends)
    (g g' : Graph) : Prop where
  size : g'.size = g.size + 1
  others : ∀ j, j ≠ g.size → g'.element j = g.element j
  labelled : (g'.element g.size).label = label
  joins : (g'.element g.size).ends = ends
  self : (g'.ids g.size).sameKey (g'.ids g.size) = true
  free : (indexOf ends.isSome g).Free (g'.ids g.size)
  entered : indexOf ends.isSome g'
      = indexOf ends.isSome g ++ [(g'.ids g.size, g.size)]
  rest : indexOf (!ends.isSome) g' = indexOf (!ends.isSome) g

/-- What stands behind entries that could not be taken for it is what is
removed. -/
private theorem erase_last {index : Index} {id : Value} (hfree : index.Free id)
    (hself : id.sameKey id = true) :
    Entries.erase id (index ++ [(id, h)]) = index := by
  rw [Entries.erase_append hfree hself, List.append_nil]

/-- Another id, if it is not taken either, comes in place of the first. -/
private theorem Gains.reindexed (hg : Gains label ends g g₁) {id : Value}
    (hself : id.sameKey id = true) (hfree : (indexOf ends.isSome g).Free id) :
    Gains label ends g ((g₁.rename g.size id).index id g.size) := by
  have hlt : g.size < g₁.size := by
    have hsize := hg.size
    omega
  have hkind : (g₁.element g.size).isEdge = ends.isSome := by
    rw [Element.isEdge, hg.joins]
  have hnew := element_reindexed g₁ g.size id g.size
  rw [if_pos ⟨rfl, hlt⟩] at hnew
  have hid : ((g₁.rename g.size id).index id g.size).ids g.size = id :=
    congrArg Element.id hnew
  have hentered : Entries.insert id g.size (Entries.erase (g₁.ids g.size)
      (indexOf ends.isSome g₁)) = indexOf ends.isSome g ++ [(id, g.size)] := by
    rw [hg.entered, erase_last hg.free hg.self]
    exact Entries.insert_of_new hfree g.size
  have hvertices := vertices_reindexed g₁ g.size id
  have hedges := edges_reindexed g₁ g.size id
  have hrest := hg.rest
  rw [hkind] at hvertices hedges
  refine ⟨?_, fun j hj => ?_, ?_, ?_, hid.symm ▸ hself,
    hid.symm ▸ hfree, ?_, ?_⟩
  · rw [size_index, size_rename, hg.size]
  · rw [element_reindexed, if_neg fun hboth => hj hboth.1, hg.others j hj]
  · rw [hnew, ← hg.labelled]
  · rw [hnew, ← hg.joins]
  · rw [hid, ← hentered]
    cases ends with
    | none => exact hvertices
    | some ends => exact hedges
  · rw [← hrest]
    cases ends with
    | none => exact hedges
    | some ends => exact hvertices

/-- A property is no matter of the indexes. -/
theorem Gains.property (hg : Gains label ends g g₁) (f : Entries → Entries) :
    Gains label ends g
      (g₁.update g.size fun e => { e with props := f e.props }) := by
  have hsame := sameBut_update g₁ g.size f
  have hindex : ∀ edge,
      indexOf edge (g₁.update g.size fun e => { e with props := f e.props })
        = indexOf edge g₁ := fun edge => by cases edge <;> rfl
  have hid : ids (g₁.update g.size fun e => { e with props := f e.props })
      g.size = g₁.ids g.size := hsame.id
  refine ⟨hsame.size.trans hg.size, fun j hj =>
    (hsame.others j hj).trans (hg.others j hj), hsame.label.trans hg.labelled,
      hsame.ends.trans hg.joins, ?_, ?_, ?_, ?_⟩
  · rw [hid]
    exact hg.self
  · rw [hid]
    exact hg.free
  · rw [hid, hindex]
    exact hg.entered
  · rw [hindex]
    exact hg.rest

/-- The entry gives no id, or one that is not taken. -/
def GivesFree (index : Index) (p : Value × Value) : Prop :=
  p.1 = .idKey → p.2.sameKey p.2 = true ∧ index.Free p.2

/-- A write is noticed at the new element only. -/
theorem Gains.write (hg : Gains label ends g g₁)
    (hp : GivesFree (indexOf ends.isSome g) p) :
    Gains label ends g (g₁.write g.size p) := by
  by_cases hid : p.1 = .idKey
  · obtain ⟨hself, hfree⟩ := hp hid
    obtain ⟨key, value⟩ := p
    obtain rfl : key = .idKey := hid
    exact hg.reindexed hself hfree
  · rw [write_property hid]
    exact hg.property (Entries.insert p.1 p.2)

/-- So is a row of them. -/
theorem Gains.writes (hg : Gains label ends g g₁)
    (hps : ∀ p ∈ ps, GivesFree (indexOf ends.isSome g) p) :
    Gains label ends g (ps.foldl (fun g' p => g'.write g.size p) g₁) := by
  induction ps generalizing g₁ with
  | nil => exact hg
  | cons p ps ih =>
      exact ih (hg.write (hps p List.mem_cons_self)) fun q hq =>
        hps q (List.mem_cons_of_mem _ hq)

-- =============================================================== new elements

/-- A new vertex stands under the id that is given out. -/
theorem gains_addVertex (hfree : Index.Free g.vertices g.freshId.2)
    (label : Value) :
    Gains label none g (g.addVertex label .null []).1 := by
  have hnew : (g.addVertex label .null []).1.element g.size
      = ⟨g.freshId.2, label, [], none⟩ :=
    (element_add g.freshId.1 _ _).trans (if_pos rfl)
  have hid : (g.addVertex label .null []).1.ids g.size = g.freshId.2 :=
    congrArg Element.id hnew
  refine ⟨size_add _ _, fun j hj => ?_, congrArg Element.label hnew,
    congrArg Element.ends hnew, ?_, ?_, ?_, rfl⟩
  · exact (element_add g.freshId.1 _ _).trans (if_neg hj)
  · rw [hid]
    exact Value.sameKey_self rfl rfl
  · rw [hid]
    exact hfree
  · rw [hid]
    exact Entries.insert_of_new hfree g.size

/-- The graph in which an edge has got its target. -/
def linkTo (g : Graph) (edge target : Handle) : Graph :=
  g.update edge fun e =>
    { e with
      ends := e.ends.map fun ends => { ends with target := some target } }

/-- The graph with a new edge between two vertices. -/
def withEdge (g : Graph) (label : Value) (origin target : Handle) : Graph :=
  ((g.addEdge label origin).1.linkTo g.size target).indexEdge
    g.freshId.2 g.size

/-- An edge that is made is the new element; all others are what they were. -/
private theorem element_addEdge (g : Graph) (label : Value)
    (origin j : Handle) : (g.addEdge label origin).1.element j
      = if j = g.size then ⟨g.freshId.2, label, [], some ⟨origin, none⟩⟩
        else g.element j :=
  element_add g.freshId.1 _ j

/-- So is one with both ends. -/
theorem element_withEdge (g : Graph) (label : Value)
    (origin target j : Handle) :
    (g.withEdge label origin target).element j
      = if j = g.size then ⟨g.freshId.2, label, [], some ⟨origin, some target⟩⟩
        else g.element j := by
  have hsize : (g.addEdge label origin).1.size = g.size + 1 := size_add _ _
  show ((g.addEdge label origin).1.linkTo g.size target).element j = _
  rw [linkTo, element_update, element_addEdge, hsize]
  by_cases hj : j = g.size
  · simp [hj]
  · simp [hj]

/-- It is in the index, be it in the place of another edge. -/
theorem entered_withEdge (hs : Sound [] g) (label : Value) {origin : Handle}
    (horigin : origin < g.size ∧ (g.element origin).isEdge = false)
    (target : Handle) :
    Entered g.size (g.withEdge label origin target) := by
  obtain ⟨hadded, -, -⟩ := hs.addEdge label horigin.1 horigin.2
  have hlinked :
      Sound [g.size] ((g.addEdge label origin).1.linkTo g.size target) :=
    hadded.update g.size (fun _ => rfl) fun e => by cases e.ends <;> rfl
  obtain ⟨hlt, hkind, hself, hout⟩ := hlinked.waits g.size List.mem_cons_self
  have hentered :=
    hlinked.indexEdge hlt hkind hself hout (List.nil_subset _) List.not_mem_nil
  have hid : ((g.addEdge label origin).1.linkTo g.size target).ids g.size
      = g.freshId.2 := by
    have hnew := element_withEdge g label origin target g.size
    rw [if_pos rfl] at hnew
    exact congrArg Element.id hnew
  rw [hid] at hentered
  refine ⟨hentered, ?_⟩
  rw [element_withEdge, if_pos rfl]
  exact entry_insert _ _ _

/-- An edge on a free id is all that is gained. -/
theorem gains_withEdge (hfree : Index.Free g.edges g.freshId.2) (label : Value)
    (origin target : Handle) :
    Gains label (some ⟨origin, some target⟩) g
      (g.withEdge label origin target) := by
  have hnew := element_withEdge g label origin target g.size
  rw [if_pos rfl] at hnew
  have hid : (g.withEdge label origin target).ids g.size = g.freshId.2 :=
    congrArg Element.id hnew
  refine ⟨?_, fun j hj => ?_, congrArg Element.label hnew,
    congrArg Element.ends hnew, ?_, ?_, ?_, rfl⟩
  · have hsize : (g.addEdge label origin).1.size = g.size + 1 := size_add _ _
    simpa [withEdge, linkTo, size, Graph.update, Graph.indexEdge] using hsize
  · rw [element_withEdge, if_neg hj]
  · rw [hid]
    exact Value.sameKey_self rfl rfl
  · rw [hid]
    exact hfree
  · rw [hid]
    exact Entries.insert_of_new hfree g.size

-- ======================================================================= ends

/-- The vertex under an id, if it has the label: what a reference names. -/
def named (g : Graph) (ref : String × String) : Option Handle :=
  ((g.vertices.find? fun e => e.1.sameKey (.text ref.2)).map (·.2)).filter
      fun h =>
    (g.element h).label.equal (.text ref.1)

/-- What a reference finds is among the vertices. -/
theorem named_mem {ref : String × String} (hfound : g.named ref = some h) :
    ∃ e ∈ g.vertices, e.2 = h := by
  obtain ⟨hentry, -⟩ := Option.filter_eq_some_iff.mp hfound
  obtain ⟨e, he, heq⟩ := Option.map_eq_some_iff.mp hentry
  exact ⟨e, List.mem_of_find?_eq_some he, heq⟩

/-- A label with the elements that bear it, as a model without fields. -/
def bearing (label : String) : Model where
  label := .text label
  name := label
  named := rfl
  kind := .vertex
  fields := []
  retry := .standard
  idField := .text "id"

/-- A traversal that looks a reference up goes on with the vertex that this
names, wherever it starts. -/
private theorem on_named (ref : String × String) (item : Item)
    (rest : List Step) (g : Graph) :
    (run .plain (.call .vertices [.text ref.2] :: Filter.labelled (.text ref.1)
      :: rest) [item]).on g
        = (run .plain rest ((g.named ref).toList.map .element)).on g :=
  Filter.on_sought (m := bearing ref.1) (show (Value.text ref.2).isScalar
      = true from rfl) rest

/-- A new edge that waits is named by no reference. -/
private theorem named_addEdge (hs : Sound [] g) (label : Value)
    (origin : Handle) (ref : String × String) :
    (g.addEdge label origin).1.named ref = g.named ref := by
  have hold : ∀ e ∈ g.vertices, (g.addEdge label origin).1.element e.2
      = g.element e.2 := by
    intro e he
    rw [element_addEdge, if_neg (Nat.ne_of_lt (hs.vertex e he).1)]
  show ((g.vertices.find? _).map (·.2)).filter _
      = ((g.vertices.find? _).map (·.2)).filter _
  cases hfound : g.vertices.find? fun e => e.1.sameKey (.text ref.2) with
  | none => rfl
  | some e =>
      simp only [Option.map_some, Option.filter_some,
        hold e (List.mem_of_find?_eq_some hfound)]

/-- The failure of an edge that has no target. -/
def noTarget : Failure :=
  .refusal "The provided traverser does not map to a value"

/-- The traversal that finds the target of an edge. -/
def seeking (target : String × String) : Value :=
  Query.child [.call .vertices [.text target.2],
    Filter.labelled (.text target.1)]

/-- Where an edge starts at no vertex, it is not made, and what is behind goes
on with nothing. -/
theorem on_edgeBetween_nowhere {m : Model} {origin target : String × String}
    (horigin : g.named origin = none) (rest : List Step) :
    (run .plain (Query.edgeBetween m origin target ++ rest) [.start]).on g
      = (run .plain rest []).on g := by
  have hgo := on_named origin .start
    (.call .addEdge [m.label] :: .call .to [seeking target] :: rest) g
  rw [horigin] at hgo
  exact hgo

/-- A new edge is linked to what its target is found to be. -/
private theorem on_linkBy (hs : Sound [] g) (label : Value) (origin : Handle)
    (target : String × String) :
    (linkBy [seeking target] (.element g.size)).on (g.addEdge label origin).1
      = match g.named target with
        | some t => (.ok (), (g.addEdge label origin).1.linkTo g.size t)
        | none => (.error noTarget, (g.addEdge label origin).1) := by
  have horigin : (Run.ask fun g' => g'.originOf (.element g.size)).on
      (g.addEdge label origin).1
        = (.ok (.element origin), (g.addEdge label origin).1) := by
    have hends : ((g.addEdge label origin).1.element g.size).ends
        = some ⟨origin, none⟩ := by
      rw [element_addEdge, if_pos rfl]
    rw [on_ask]
    simp only [originOf, handle, bind, Except.bind, hends]
  have hfound :=
    on_named target (.element origin) [] (g.addEdge label origin).1
  rw [named_addEdge hs] at hfound
  refine (on_bind_ok horigin).trans ((on_bind_ok hfound).trans ?_)
  cases g.named target <;> rfl

/-- An edge starts at the vertex that the first reference names, and ends at
the one that the other names. If this names none, the edge is refused. -/
theorem on_edgeBetween (hs : Sound [] g) {m : Model}
    {origin target : String × String} (horigin : g.named origin = some h)
    (rest : List Step) :
    (run .plain (Query.edgeBetween m origin target ++ rest) [.start]).on g
      = match g.named target with
        | some t =>
            (run .plain rest [.element g.size]).on (g.withEdge m.label h t)
        | none => (.error noTarget, (g.addEdge m.label h).1) := by
  obtain ⟨e, he, rfl⟩ := named_mem horigin
  have hgo := on_named origin .start
    (.call .addEdge [m.label] :: .call .to [seeking target] :: rest) g
  rw [horigin] at hgo
  -- find the origin, start the edge, link it, enter it
  have hstart : (each (startEdge [m.label]) [.element e.2]).on g
      = (.ok [.element g.size], (g.addEdge m.label e.2).1) := by
    have hkind := (hs.vertex e he).2
    simp only [each, startEdge, on_bind, on_change, hkind]
    rfl
  have hlink := on_linkBy hs m.label e.2 target
  refine hgo.trans ((on_bind_ok hstart).trans ?_)
  cases htarget : g.named target with
  | none =>
      rw [htarget] at hlink
      refine on_bind_error ?_
      rw [each, on_bind_error hlink]
  | some t =>
      rw [htarget] at hlink
      have hlinked : (each (linkBy [seeking target]) [.element g.size]).on
          (g.addEdge m.label e.2).1
            = (.ok [()], (g.addEdge m.label e.2).1.linkTo g.size t) := by
        rw [each, on_bind_ok hlink]
        rfl
      have hentered : (enterEdges [.element g.size]).on
          ((g.addEdge m.label e.2).1.linkTo g.size t)
            = (.ok (), g.withEdge m.label e.2 t) := by
        have hid : (((g.addEdge m.label e.2).1.linkTo g.size t).element
            g.size).id = g.freshId.2 := by
          rw [linkTo, element_update, element_addEdge, if_pos rfl]
          split <;> rfl
        unfold withEdge
        rw [← hid]
        rfl
      exact (on_bind_ok hlinked).trans (on_bind_ok hentered)

end Graph

end GraphMapper
