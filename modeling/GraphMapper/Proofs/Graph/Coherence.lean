/-
The indexes of a graph stay coherent, whatever is done to the graph.

What has to be kept for that is more than coherence (`Graph.Sound`): vertices
are in the index of vertices and edges in that of edges, so that an element
that gets another id leaves the right index; edges start at vertices; and an
edge that waits for its target is not in the index yet and keeps its id until
it is.

This file has the operations on the graph itself. Most of them only take
entries away, or change what no index looks at (`Sound.shrink`); the others
enter an element (`Sound.indexVertex`, `Sound.indexEdge`), add one
(`Sound.add`), or give one another id while it is in no index (`Sound.setId`).

# What coherence comes to

An index is coherent if what is found under an id has that id. It fails when an
element changes its id and stays where it was in the index, and that is why a
change of an id takes the entry out first and enters it again. What waits for a
target changes its id freely: it is in no index.

Chain: `Graph.Index` has the indexes by themselves; `Graph.Safety` and
`Graph.Reachable` lift this to runs.
-/
import GraphMapper.Proofs.Graph.Index

namespace GraphMapper

namespace Graph

variable {g g' : Graph} {h k : Handle}

-- =============================================================== the table

/-- The number of elements that there have ever been. -/
def size (g : Graph) : Nat := g.elements.length

/-- A new element is one more. -/
theorem size_add (g : Graph) (e : Element) :
    (g.add e).1.size = g.size + 1 := by
  simp [size, Graph.add]

/-- To update an element leaves the others. -/
theorem element_update (g : Graph) (h : Handle) (f : Element → Element)
    (k : Handle) :
    (g.update h f).element k = if k = h ∧ h < g.size then f (g.element k)
      else g.element k := by
  unfold element update size
  simp only [List.getD_eq_getElem?_getD, List.getElem?_modify]
  by_cases hk : h = k
  · subst hk
    by_cases hlt : h < g.elements.length
    · simp [hlt]
    · simp [hlt]
  · have hk' : ¬k = h := fun heq => hk heq.symm
    simp [hk, hk']

/-- An element that is added is the next one. -/
theorem element_add (g : Graph) (e : Element) (k : Handle) :
    (g.add e).1.element k = if k = g.size then e else g.element k := by
  unfold element add size
  simp only [List.getD_eq_getElem?_getD, List.getElem?_append]
  by_cases hlt : k < g.elements.length
  · simp [hlt, Nat.ne_of_lt hlt]
  · by_cases hk : k = g.elements.length
    · simp [hk]
    · simp only [hlt, hk, if_false]
      have hle : g.elements.length ≤ k := Nat.le_of_not_lt hlt
      have hlt' : g.elements.length < k :=
        Nat.lt_of_le_of_ne hle fun heq => hk heq.symm
      have hbeyond : [e].length ≤ k - g.elements.length :=
        Nat.sub_pos_of_lt hlt'
      rw [List.getElem?_eq_none hle, List.getElem?_eq_none hbeyond]

-- ================================================================ soundness

/-- The ids of the elements by their handles. -/
def ids (g : Graph) (h : Handle) : Value := (g.element h).id

/-- The indexes are coherent and hold elements of their kinds, edges start at
vertices, and the waiting edges are out of reach. -/
structure Sound (waiting : List Handle) (g : Graph) : Prop where
  vertices : Index.Coherent g.ids g.vertices
  edges : Index.Coherent g.ids g.edges
  vertex : ∀ e ∈ g.vertices, e.2 < g.size ∧ (g.element e.2).isEdge = false
  edge : ∀ e ∈ g.edges, e.2 < g.size ∧ (g.element e.2).isEdge = true
  origin : ∀ h ends, (g.element h).ends = some ends →
    ends.origin < g.size ∧ (g.element ends.origin).isEdge = false
  waits : ∀ h ∈ waiting, h < g.size ∧ (g.element h).isEdge = true ∧
    (g.ids h).sameKey (g.ids h) = true ∧ ∀ e ∈ g.edges, e.2 ≠ h

variable {waiting waiting' : List Handle}

/-- Fewer edges may be minded. -/
theorem Sound.forget (hs : Sound waiting g) (hsub : waiting' ⊆ waiting) :
    Sound waiting' g :=
  { hs with waits := fun h hh => hs.waits h (hsub hh) }

/-- An empty graph is sound. -/
theorem sound_empty : Sound [] empty where
  vertices := Index.coherent_nil
  edges := Index.coherent_nil
  vertex := fun _ he => (nomatch he)
  edge := fun _ he => (nomatch he)
  origin := fun h ends hends => by
    simp [element, empty, Element.absent] at hends
  waits := fun _ hh => (nomatch hh)

/-- Entries may be taken away, and elements may change in what no index looks
at. -/
theorem Sound.shrink (hs : Sound waiting g) (hsize : g'.size = g.size)
    (hvertices : g'.vertices.Sublist g.vertices)
    (hedges : g'.edges.Sublist g.edges)
    (hids : ∀ k, (g'.element k).id = (g.element k).id)
    (horigin : ∀ k, (g'.element k).ends.map (·.origin)
      = (g.element k).ends.map (·.origin)) :
    Sound waiting g' := by
  have hkind : ∀ k, (g'.element k).isEdge = (g.element k).isEdge := by
    intro k
    have hk := congrArg Option.isSome (horigin k)
    simpa [Element.isEdge] using hk
  have hsame : ∀ k, g'.ids k = g.ids k := hids
  refine ⟨?_, ?_, fun e he => ?_, fun e he => ?_, fun h ends hends => ?_,
    fun h hh => ?_⟩
  · exact (hs.vertices.sublist hvertices).congr fun e _ => hsame e.2
  · exact (hs.edges.sublist hedges).congr fun e _ => hsame e.2
  · rw [hsize, hkind]
    exact hs.vertex e (hvertices.subset he)
  · rw [hsize, hkind]
    exact hs.edge e (hedges.subset he)
  · have hk := horigin h
    rw [hends] at hk
    obtain ⟨ends', hends', heq⟩ := Option.map_eq_some_iff.mp hk.symm
    rw [hsize, hkind, ← show ends'.origin = ends.origin from heq]
    exact hs.origin h ends' hends'
  · obtain ⟨hlt, hedge, hself, hout⟩ := hs.waits h hh
    rw [hsize, hkind, hsame]
    exact ⟨hlt, hedge, hself, fun e he => hout e (hedges.subset he)⟩

/-- A change of one element that leaves its id and its origin. -/
theorem Sound.update (hs : Sound waiting g) (h : Handle)
    {f : Element → Element} (hid : ∀ e, (f e).id = e.id)
    (horigin : ∀ e, (f e).ends.map (·.origin) = e.ends.map (·.origin)) :
    Sound waiting (g.update h f) := by
  refine hs.shrink (by simp [size, Graph.update]) (.refl _) (.refl _)
    (fun k => ?_) fun k => ?_
  · rw [element_update]
    split
    · exact hid _
    · rfl
  · rw [element_update]
    split
    · exact horigin _
    · rfl

/-- To take a vertex out of its index keeps a graph sound. -/
theorem Sound.unindexVertex (hs : Sound waiting g) (id : Value) :
    Sound waiting (g.unindexVertex id) :=
  hs.shrink rfl (Entries.erase_sublist id _) (.refl _) (fun _ => rfl) fun _ =>
    rfl

/-- To take an edge out does. -/
theorem Sound.unindexEdge (hs : Sound waiting g) (id : Value) :
    Sound waiting (g.unindexEdge id) :=
  hs.shrink rfl (.refl _) (Entries.erase_sublist id _) (fun _ => rfl) fun _ =>
    rfl

/-- To drop an element is one of these. -/
theorem Sound.dropElement (hs : Sound waiting g) (h : Handle) :
    Sound waiting (g.dropElement h) := by
  unfold Graph.dropElement
  simp only
  split
  · exact hs.unindexEdge _
  · exact (hs.unindexVertex _).shrink rfl (.refl _) List.filter_sublist
      (fun _ => rfl) fun _ => rfl

/-- To hand out an id changes no element. -/
theorem Sound.freshId (hs : Sound waiting g) : Sound waiting g.freshId.1 :=
  hs.shrink rfl (.refl _) (.refl _) (fun _ => rfl) fun _ => rfl

-- ================================================================ entering

/-- A vertex that is in no entry may enter under its id. -/
theorem Sound.indexVertex (hs : Sound waiting g) (hlt : h < g.size)
    (hkind : (g.element h).isEdge = false)
    (hself : (g.ids h).sameKey (g.ids h) = true)
    (hnew : ∀ e ∈ g.vertices, e.2 ≠ h) :
    Sound waiting (g.indexVertex (g.ids h) h) := by
  refine { hs with
    vertices := hs.vertices.insert hself hnew
    vertex := fun e he => ?_ }
  rcases Index.mem_insert he with he | he
  · exact hs.vertex e he
  · rw [he]
    exact ⟨hlt, hkind⟩

/-- An edge that is in no entry may enter under its id, and then no longer
waits. -/
theorem Sound.indexEdge (hs : Sound waiting g) (hlt : h < g.size)
    (hkind : (g.element h).isEdge = true)
    (hself : (g.ids h).sameKey (g.ids h) = true)
    (hnew : ∀ e ∈ g.edges, e.2 ≠ h) (hsub : waiting' ⊆ waiting)
    (hout : h ∉ waiting') :
    Sound waiting' (g.indexEdge (g.ids h) h) := by
  refine
    { hs with
      edges := hs.edges.insert hself hnew
      edge := fun e he => ?_
      waits := fun k hk => ?_ }
  · rcases Index.mem_insert he with he | he
    · exact hs.edge e he
    · rw [he]
      exact ⟨hlt, hkind⟩
  · obtain ⟨hk₁, hk₂, hk₃, hk₄⟩ := hs.waits k (hsub hk)
    refine ⟨hk₁, hk₂, hk₃, fun e he => ?_⟩
    rcases Index.mem_insert he with he | he
    · exact hk₄ e he
    · rw [he]
      rintro rfl
      exact hout hk

/-- A new element is in no index. -/
theorem Sound.add (hs : Sound waiting g) (e : Element)
    (horigin : ∀ ends, e.ends = some ends →
      ends.origin < g.size ∧ (g.element ends.origin).isEdge = false) :
    Sound waiting (g.add e).1 := by
  have hsize := size_add g e
  have hold : ∀ {k}, k < g.size → (g.add e).1.element k = g.element k := by
    intro k hk
    rw [element_add, if_neg (Nat.ne_of_lt hk)]
  have hids : ∀ {k}, k < g.size → (g.add e).1.ids k = g.ids k := by
    intro k hk
    rw [ids, ids, hold hk]
  refine ⟨?_, ?_, fun f hf => ?_, fun f hf => ?_, fun h ends hends => ?_,
    fun h hh => ?_⟩
  · exact hs.vertices.congr fun f hf => hids (hs.vertex f hf).1
  · exact hs.edges.congr fun f hf => hids (hs.edge f hf).1
  · obtain ⟨hlt, hkind⟩ := hs.vertex f hf
    rw [hsize, hold hlt]
    exact ⟨Nat.lt_succ_of_lt hlt, hkind⟩
  · obtain ⟨hlt, hkind⟩ := hs.edge f hf
    rw [hsize, hold hlt]
    exact ⟨Nat.lt_succ_of_lt hlt, hkind⟩
  · have hvalid : ends.origin < g.size ∧
        (g.element ends.origin).isEdge = false := by
      rw [element_add] at hends
      split at hends
      · exact horigin ends hends
      · exact hs.origin h ends hends
    rw [hsize, hold hvalid.1]
    exact ⟨Nat.lt_succ_of_lt hvalid.1, hvalid.2⟩
  · obtain ⟨hlt, hedge, hself, hout⟩ := hs.waits h hh
    rw [hsize, hold hlt, hids hlt]
    exact ⟨Nat.lt_succ_of_lt hlt, hedge, hself, hout⟩

/-- An element that is in no index and does not wait may get any id. -/
theorem Sound.setId (hs : Sound waiting g) (value : Value)
    (hwait : h ∉ waiting) (hvertices : ∀ e ∈ g.vertices, e.2 ≠ h)
    (hedges : ∀ e ∈ g.edges, e.2 ≠ h) :
    Sound waiting (g.update h fun e => { e with id := value }) := by
  have hsize : (g.update h fun e => { e with id := value }).size = g.size := by
    simp [size, Graph.update]
  -- only this one id changes, and it is in no index yet
  have hother : ∀ {k}, k ≠ h →
      (g.update h fun e => { e with id := value }).element k
        = g.element k := by
    intro k hk
    rw [element_update, if_neg fun hboth => hk hboth.1]
  have hends : ∀ k,
      ((g.update h fun e => { e with id := value }).element k).ends
        = (g.element k).ends := by
    intro k
    rw [element_update]
    split <;> rfl
  have hkind : ∀ k,
      ((g.update h fun e => { e with id := value }).element k).isEdge
        = (g.element k).isEdge := fun k => congrArg Option.isSome (hends k)
  refine ⟨?_, ?_, fun e he => ?_, fun e he => ?_, fun k ends hk => ?_,
    fun k hk => ?_⟩
  · exact hs.vertices.congr fun e he =>
      congrArg Element.id (hother (hvertices e he))
  · exact hs.edges.congr fun e he => congrArg Element.id (hother (hedges e he))
  · rw [hsize, hkind]
    exact hs.vertex e he
  · rw [hsize, hkind]
    exact hs.edge e he
  · rw [hends] at hk
    rw [hsize, hkind]
    exact hs.origin k ends hk
  · obtain ⟨hlt, hedge, hself, hout⟩ := hs.waits k hk
    have hne : k ≠ h := by
      rintro rfl
      exact hwait hk
    rw [hsize, hkind,
      show ids _ k = g.ids k from congrArg Element.id (hother hne)]
    exact ⟨hlt, hedge, hself, hout⟩

-- =============================================================== new elements

/-- A new vertex enters under its id, whether that is given or given out. -/
theorem Sound.addVertex (hs : Sound waiting g) {id : Value}
    (hid : id.sameKey id = true) (label : Value) (props : Entries) :
    Sound waiting (g.addVertex label id props).1 ∧
      (g.addVertex label id props).1.size = g.size + 1 ∧
      (g.addVertex label id props).2 = g.size := by
  have henter : ∀ {g' : Graph} {own : Value},
      Sound waiting g' → own.sameKey own = true →
      Sound waiting
        ((g'.add ⟨own, label, props, none⟩).1.indexVertex own g'.size) := by
    intro g' own hs' hown
    have hadded := hs'.add ⟨own, label, props, none⟩ fun _ h => (nomatch h)
    have hnew : (g'.add ⟨own, label, props, none⟩).1.element g'.size
        = ⟨own, label, props, none⟩ := by
      rw [element_add, if_pos rfl]
    have hids : (g'.add ⟨own, label, props, none⟩).1.ids g'.size = own := by
      rw [ids, hnew]
    have hentered := hadded.indexVertex (h := g'.size)
      (by rw [size_add]; exact Nat.lt_succ_self _) (by rw [hnew]; rfl)
        (by rw [hids]; exact hown)
      fun e he => Nat.ne_of_lt (hs'.vertex e he).1
    rw [hids] at hentered
    exact hentered
  cases id with
  | null =>
      exact ⟨henter hs.freshId (Value.sameKey_self rfl rfl), size_add _ _, rfl⟩
  | _ => exact ⟨henter hs hid, size_add _ _, rfl⟩

/-- A new edge waits. -/
theorem Sound.addEdge (hs : Sound waiting g) (label : Value) (hlt : h < g.size)
    (hkind : (g.element h).isEdge = false) :
    Sound ((g.addEdge label h).2 :: waiting) (g.addEdge label h).1 ∧
      (g.addEdge label h).1.size = g.size + 1 ∧
      (g.addEdge label h).2 = g.size := by
  have hadded := hs.freshId.add ⟨g.freshId.2, label, [], some ⟨h, none⟩⟩
      fun ends hends => by
    rw [← Option.some.inj hends]
    exact ⟨hlt, hkind⟩
  refine ⟨{ hadded with waits := fun k hk => ?_ }, size_add _ _, rfl⟩
  rcases List.mem_cons.mp hk with rfl | hk
  · have hnew : (g.addEdge label h).1.element g.size
        = ⟨g.freshId.2, label, [], some ⟨h, none⟩⟩ :=
      (element_add g.freshId.1 _ _).trans (if_pos rfl)
    refine ⟨Nat.lt_of_lt_of_eq (Nat.lt_succ_self _) (size_add _ _).symm, ?_,
      ?_, fun e he => ?_⟩
    · exact (congrArg Element.isEdge hnew).trans rfl
    · rw [show ids _ (g.addEdge label h).2
          = g.freshId.2 from congrArg Element.id hnew]
      exact Value.sameKey_self rfl rfl
    · exact Nat.ne_of_lt (hs.edge e he).1
  · exact hadded.waits k hk

-- ================================================================ another id

/-- The graph without the entry of an element. -/
def unindex (g : Graph) (h : Handle) : Graph :=
  if (g.element h).isEdge then g.unindexEdge (g.ids h)
  else g.unindexVertex (g.ids h)

/-- The graph with an entry of an element under an id. -/
def index (g : Graph) (id : Value) (h : Handle) : Graph :=
  if (g.element h).isEdge then g.indexEdge id h else g.indexVertex id h

/-- An element whose entry is taken away has no entry in the other index
either. -/
theorem Sound.unindex (hs : Sound waiting g) (h : Handle) :
    Sound waiting (g.unindex h) ∧ (∀ e ∈ (g.unindex h).vertices, e.2 ≠ h) ∧
      ∀ e ∈ (g.unindex h).edges, e.2 ≠ h := by
  unfold Graph.unindex
  cases hkind : (g.element h).isEdge with
  | true =>
      rw [if_pos rfl]
      refine ⟨hs.unindexEdge _, fun e he => ?_, hs.edges.ne_of_mem_erase⟩
      rintro rfl
      rw [(hs.vertex e he).2] at hkind
      cases hkind
  | false =>
      rw [if_neg Bool.false_ne_true]
      refine ⟨hs.unindexVertex _, hs.vertices.ne_of_mem_erase, fun e he => ?_⟩
      rintro rfl
      rw [(hs.edge e he).2] at hkind
      cases hkind

/-- The element with another id, in no index. -/
def rename (g : Graph) (h : Handle) (id : Value) : Graph :=
  (g.unindex h).update h fun e => { e with id }

/-- To rename adds none. -/
theorem size_rename (g : Graph) (h : Handle) (id : Value) :
    (g.rename h id).size = g.size := by
  unfold rename Graph.unindex
  split <;> simp [size, Graph.update, Graph.unindexEdge, Graph.unindexVertex]

/-- To index adds none. -/
theorem size_index (g : Graph) (id : Value) (h : Handle) :
    (g.index id h).size = g.size := by
  unfold index
  split <;> rfl

/-- To rename gives the element its id. -/
theorem element_rename (g : Graph) (h : Handle) (id : Value) :
    (g.rename h id).element h = if h < g.size then { g.element h with id }
      else g.element h := by
  have hsize : (g.unindex h).size = g.size := by
    unfold Graph.unindex
    split <;> rfl
  have hleft : (g.unindex h).element h = g.element h := by
    unfold Graph.unindex
    split <;> rfl
  rw [rename, element_update, hleft, hsize]
  by_cases hlt : h < g.size
  · rw [if_pos ⟨rfl, hlt⟩, if_pos hlt]
  · rw [if_neg fun hboth => hlt hboth.2, if_neg hlt]

/-- Its kind does not change with its id. -/
theorem isEdge_rename (g : Graph) (h : Handle) (id : Value) :
    ((g.rename h id).element h).isEdge = (g.element h).isEdge := by
  rw [element_rename]
  split <;> rfl

/-- To give an id is sound for what does not wait. -/
theorem Sound.rename (hs : Sound waiting g) (hwait : h ∉ waiting)
    (id : Value) :
    Sound waiting (g.rename h id) := by
  obtain ⟨hleft, hvertices, hedges⟩ := hs.unindex h
  exact hleft.setId id hwait hvertices hedges

/-- An element that has got another id may enter under it. -/
theorem Sound.index_rename (hs : Sound waiting g) (hwait : h ∉ waiting)
    (hlt : h < g.size) {id : Value} (hid : id.sameKey id = true) :
    Sound waiting ((g.rename h id).index id h) := by
  obtain ⟨-, hvertices, hedges⟩ := hs.unindex h
  have hrenamed := hs.rename hwait id
  have hlt' : h < (g.rename h id).size := by
    rw [size_rename]
    exact hlt
  have hids : (g.rename h id).ids h = id := by
    rw [ids, element_rename, if_pos hlt]
  have hself : ((g.rename h id).ids h).sameKey ((g.rename h id).ids h)
      = true := by
    rw [hids]
    exact hid
  unfold Graph.index
  cases hkind : ((g.rename h id).element h).isEdge with
  | true =>
      have hentered :=
        hrenamed.indexEdge hlt' hkind hself hedges (.refl _) hwait
      rw [hids] at hentered
      exact hentered
  | false =>
      have hentered := hrenamed.indexVertex hlt' hkind hself hvertices
      rw [hids] at hentered
      exact hentered

end Graph

end GraphMapper
