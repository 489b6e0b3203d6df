/-
What a filter selects.

The conditions of a filter become steps, and these are run on the elements of a
graph. Each step keeps the elements that its condition lets through
(`Filters`), and the groups under `and` and `or` are tried on one element at a
time. Nothing goes wrong on the way unless a field is stored under something
that cannot be a key (`Run.Gives`).

A filter that is nothing but the primary key with a scalar has no conditions
put to the graph: the element is looked up in the index. There is at most one
that it could be, since the index is coherent in every graph that there can be.

# Groups

Under `and` and `or` a group is a traversal of its own that starts at the
element in question. That it gives something is the test. So the lemma for rows
of groups goes by the same induction as the one for conditions
(`lowerAll_filters`), and what is asked of a graph there is asked of one
element.

Main statement: `evaluate_select`.

Chain: `Filter.Meaning` up to the conditions, `Graph.Reachable` for the graph;
used by all modules on what an operation reads, changes or drops.
-/
import GraphMapper.Proofs.Filter.Meaning
import GraphMapper.Proofs.Graph.Reachable
import GraphMapper.Proofs.Model.Definition
import GraphMapper.Proofs.Model.Keys

namespace GraphMapper

namespace Run

variable {α β : Type} {fine : Value → Bool} {g : Graph}

/-- The run gives a result and leaves the graph, or it fails because
something was fine for a key and cannot be one. -/
def Gives (fine : Value → Bool) (g : Graph) (r : Run α) (a : α) : Prop :=
  r.on g = (.ok a, g) ∨ ∃ key, fine key = true ∧ key.isKey = false ∧
    r.on g = (.error key.keyFault, g)

/-- If nothing but keys is fine, there is a result. -/
theorem Gives.on_eq {r : Run α} {a : α} (h : Gives Value.isKey g r a) :
    r.on g = (.ok a, g) := by
  rcases h with h | ⟨key, hfine, hkey, -⟩
  · exact h
  · rw [hkey] at hfine
    cases hfine

/-- An answer is given. -/
private theorem gives_pure (a : α) : Gives fine g (pure a) a := .inl rfl

/-- One answer after the other is given. -/
theorem Gives.bind {r : Run α} {k : α → Run β} {a : α} {b : β}
    (hr : Gives fine g r a) (hk : Gives fine g (k a) b) :
    Gives fine g (r >>= k) b := by
  rcases hr with hr | ⟨key, hfine, hkey, hr⟩
  · unfold Gives
    rw [on_bind_ok hr]
    exact hk
  · exact .inr ⟨key, hfine, hkey, on_bind_error hr⟩

/-- What the graph answers is given. -/
theorem gives_ask {f : Graph → Checked α} {a : α} (h : f g = .ok a) :
    Gives fine g (ask f) a := by
  left
  rw [on_ask, h]

/-- What is kept is what the test gives true for. -/
theorem gives_keep {p : Item → Run Bool} {q : Item → Bool} {items : List Item}
    (h : ∀ item ∈ items, Gives fine g (p item) (q item)) :
    Gives fine g (keep p items) (items.filter q) := by
  induction items with
  | nil => exact gives_pure []
  | cons item items ih =>
      have hrest := ih fun i hi => h i (List.mem_cons_of_mem item hi)
      refine (h item List.mem_cons_self).bind (hrest.bind ?_)
      rw [List.filter_cons]
      exact gives_pure _

end Run

namespace Filter

open Run Condition GraphMapper.Graph

variable {fine : Value → Bool} {g : Graph}

-- ============================================================ comparisons

/-- What an element has is read off it, if it is asked for by what can be a
key. -/
private theorem read_element (key : Value) (h : Handle) :
    g.read key (.element h)
    = if key.isKey then .ok ((g.element h).at? key)
      else .error key.keyFault := by
  cases key with
  | symbol s =>
      cases s with
      | reserved k => cases k <;> rfl
      | _ => rfl
  | _ => rfl

/-- A test of a property is answered, if it is asked of something that can be a
key. -/
theorem gives_has {key test : Value} {q : Value → Bool}
    (hkey : fine key = true) (htest : ∀ v, passes v test = .ok (q v))
    (h : Handle) :
    Gives fine g (Run.ask fun g => g.has key test (.element h))
      ((g.element h).has key q) := by
  cases hk : key.isKey with
  | true =>
      refine gives_ask ?_
      unfold Graph.has Element.has
      rw [read_element, hk, if_pos rfl]
      cases hown : (g.element h).at? key with
      | none => rfl
      | some v => exact htest v
  | false =>
      refine .inr ⟨key, hkey, hk, ?_⟩
      rw [on_ask]
      unfold Graph.has
      rw [read_element, hk]
      rfl

/-- A scalar stands for the test of being equal to it. -/
theorem passes_scalar {x : Value} (hx : x.isScalar = true) (v : Value) :
    passes v x = .ok (v.equal x) := by
  cases x <;> first | rfl | cases hx

/-- Whether a text is in a text, or is not, is decided in the same way
everywhere. -/
private theorem passes_predicate {op : Operator} {x : Value}
    (hx : op.takes x = true) : ∃ test, predicate op x = .ok test ∧ ∀ v,
      passes v test = .ok (op.holds v x) := by
  cases op
  case between =>
      unfold Operator.takes at hx
      split at hx
      · exact ⟨_, rfl, fun _ => rfl⟩
      · cases hx
      all_goals contradiction
  case inq =>
      cases x with
      | list xs => exact ⟨_, rfl, fun _ => rfl⟩
      | _ => cases hx
  case nin =>
      cases x with
      | list xs => exact ⟨_, rfl, fun _ => rfl⟩
      | _ => cases hx
  case unknown name => cases hx
  case like | ilike | nlike | nilike =>
      refine ⟨_, rfl, fun v => ?_⟩
      simp only [passes, Value.textTest, Operator.holds]
      cases v.text? <;> cases x.text? <;> rfl
  all_goals exact ⟨_, rfl, fun _ => rfl⟩

-- ================================================================== steps

/-- Put in front of others, the steps leave the elements that the property
holds of. -/
def Filters (fine : Value → Bool) (steps : List Step) (p : Element → Bool) :
    Prop :=
  ∀ g rest (hs : List Handle) out,
    Gives fine g (run .plain rest
      ((hs.filter fun h => p (g.element h)).map .element)) out →
      Gives fine g (run .plain (steps ++ rest) (hs.map .element)) out

/-- No steps keep everything. -/
private theorem filters_nil : Filters fine [] fun _ => true := by
  intro g rest hs out hout
  rw [List.filter_eq_self.mpr fun _ _ => rfl] at hout
  exact hout

/-- Steps behind each other keep what both keep. -/
theorem Filters.append {s t : List Step} {p q : Element → Bool}
    (hs : Filters fine s p) (ht : Filters fine t q) :
    Filters fine (s ++ t) fun e => p e && q e := by
  intro g rest handles out hout
  rw [List.append_assoc]
  refine hs g (t ++ rest) handles out (ht g rest _ out ?_)
  rw [List.filter_filter]
  simpa only [Bool.and_comm] using hout

/-- A step that tries its test on each element. -/
private theorem filters_keep {step : Step} {test : Item → Run Bool}
    {p : Element → Bool}
    (hrun : ∀ rest items, run .plain (step :: rest) items
      = (keep test items >>= fun kept => run .plain rest kept))
    (htest : ∀ g h, Gives fine g (test (.element h)) (p (g.element h))) :
    Filters fine [step] p := by
  intro g rest hs out hout
  rw [List.singleton_append, hrun]
  have hkept : Gives fine g (keep test (hs.map .element))
      ((hs.map .element).filter fun item =>
      (handle item).toOption.any fun h => p (g.element h)) := by
    refine gives_keep fun item hitem => ?_
    obtain ⟨h, -, rfl⟩ := List.mem_map.mp hitem
    exact htest g h
  rw [List.filter_map] at hkept
  exact hkept.bind hout

/-- A traversal that filters finds something from an element just when it lets
the element through. -/
theorem Filters.child {steps : List Step} {p : Element → Bool}
    (hf : Filters fine steps p) (h : Handle) :
    ∃ found, Gives fine g (child (.traversal steps) (.element h)) found ∧
      found.isEmpty = !p (g.element h) := by
  have hgo := hf g [] [h] _ (gives_pure _)
  rw [List.append_nil] at hgo
  refine ⟨_, hgo, ?_⟩
  cases hp : p (g.element h) <;> simp [hp]

-- ================================================================ lowering

mutual

/-- A formed condition has steps, and these let through what it lets
through. -/
theorem lower_filters : ∀ (c : Condition), every (isFormed fine) c = true →
    ∃ steps, lower c = .ok steps ∧ Filters fine steps fun e => c.admits e
  | .compare field op operand true, hformed => by
      simp only [every, isFormed, if_true, Bool.and_eq_true,
        beq_iff_eq] at hformed
      obtain ⟨hkey, rfl, hscalar⟩ := hformed
      refine ⟨_, rfl, filters_keep (fun _ _ => rfl) fun g h => ?_⟩
      exact gives_has hkey (passes_scalar hscalar) h
  | .compare field op operand false, hformed => by
      simp only [every, isFormed, Bool.and_eq_true] at hformed
      obtain ⟨hkey, htakes⟩ := hformed
      obtain ⟨test, htest, hpasses⟩ :=
        passes_predicate (show op.takes operand = true from htakes)
      refine ⟨[.call .has [field, test]], ?_,
        filters_keep (fun _ _ => rfl) fun g h => ?_⟩
      · simp only [lower, htest, bind, Except.bind]
      · exact gives_has hkey hpasses h
  -- a join of nothing lowers to no step: all of nothing holds, and so does the
  -- empty choice here
  | .join junction gs, hformed => by
      obtain ⟨children, hchildren, hempty, htried⟩ :=
        lowerGroups_filters gs hformed
      refine ⟨if children.isEmpty then []
        else [.call (joining junction) children], ?_, ?_⟩
      · simp only [lower, hchildren, bind, Except.bind]
      · cases hgs : gs.isEmpty with
        | true =>
            rw [hempty, hgs, if_pos rfl]
            rw [List.isEmpty_iff] at hgs
            subst hgs
            cases junction <;> exact filters_nil
        | false =>
            rw [hempty, hgs, if_neg Bool.false_ne_true]
            cases junction with
            | all =>
                exact filters_keep (fun _ _ => rfl) fun g h => (htried g h).2
            | any =>
                refine filters_keep (fun _ _ => rfl) fun g h => ?_
                rw [admits, hgs, Bool.false_or]
                exact (htried g h).1

/-- Conditions that are formed become steps that keep what they admit. -/
theorem lowerAll_filters :
    ∀ (cs : List Condition), everyOf (isFormed fine) cs = true → ∃ steps,
      lowerAll cs = .ok steps ∧ Filters fine steps fun e => allAdmit e cs
  | [], _ => ⟨[], rfl, filters_nil⟩
  | c :: cs, hformed => by
      simp only [everyOf, Bool.and_eq_true] at hformed
      obtain ⟨first, hfirst, hc⟩ := lower_filters c hformed.1
      obtain ⟨rest, hrest, hcs⟩ := lowerAll_filters cs hformed.2
      refine ⟨first ++ rest, ?_, hc.append hcs⟩
      simp only [lowerAll, hfirst, hrest, bind, Except.bind]

/-- Groups become traversals that are tried on one element: some find
something, or each does. -/
theorem lowerGroups_filters : ∀ (gs : List (List Condition)),
    everyGrouped (isFormed fine) gs = true →
      ∃ children, lowerGroups gs = .ok children ∧
      children.isEmpty = gs.isEmpty ∧
        ∀ g h, Gives fine g (anyChild children (.element h))
        (someAdmits (g.element h) gs) ∧
          Gives fine g (allChildren children (.element h))
          (eachAdmits (g.element h) gs)
  | [], _ => ⟨[], rfl, rfl, fun _ _ => ⟨gives_pure _, gives_pure _⟩⟩
  | cs :: gs, hformed => by
      simp only [everyGrouped, Bool.and_eq_true] at hformed
      obtain ⟨steps, hsteps, hcs⟩ := lowerAll_filters cs hformed.1
      obtain ⟨rest, hrest, -, htried⟩ := lowerGroups_filters gs hformed.2
      have hlower : lowerGroups (cs :: gs)
          = .ok (.traversal (if cs.isEmpty then [.call .identity []]
            else steps) :: rest) := by
        simp only [lowerGroups, hsteps, hrest, bind, Except.bind]
      have hgroup : Filters fine (if cs.isEmpty then [.call .identity []]
          else steps) fun e => allAdmit e cs := by
        cases cs with
        | nil => exact fun g rest hs out hout => filters_nil g rest hs out hout
        | cons c cs => exact hcs
      refine ⟨_, hlower, rfl, fun g h => ?_⟩
      obtain ⟨found, hfound, hempty⟩ := hgroup.child h
      refine ⟨hfound.bind ?_, hfound.bind ?_⟩
      · rw [hempty, someAdmits]
        cases allAdmit (g.element h) cs with
        | true => exact gives_pure true
        | false => exact (htried g h).1
      · rw [hempty, eachAdmits]
        cases allAdmit (g.element h) cs with
        | true => exact (htried g h).2
        | false => exact gives_pure false

end

-- =============================================================== selection

/-- The index of the elements of the model's kind. -/
def stored (m : Model) (g : Graph) : Index :=
  if m.isEdge then g.edges else g.vertices

/-- The elements of the model's kind with its label that meet a filter, in the
order in which they are stored. -/
def matching (m : Model) (w : Value) (g : Graph) : List Handle :=
  ((stored m g).map (·.2)).filter fun h =>
    (g.element h).label.equal m.label &&
      meets m.conditionKey (g.element h) .all w

variable {m : Model} {w : Value} {cs : List Condition}

/-- A selection starts with elements from the index. -/
theorem on_source {ids : List Value} {hs : List Handle}
    (h : Graph.select (stored m g) ids = .ok hs) (rest : List Step) :
    (run .plain (source m ids :: rest) [.start]).on g
      = (run .plain rest (hs.map .element)).on g := by
  have hsource : ∀ {index : Graph → Index},
      Graph.select (index g) ids = .ok hs →
      (Graph.source index ids [.start]).on g = (.ok (hs.map .element), g) := by
    intro index hselect
    unfold Graph.source
    simp only [each, on_bind, on_ask, hselect, on_pure, List.flatten_cons,
      List.flatten_nil, List.append_nil]
  unfold stored at h
  unfold source
  cases hkind : m.isEdge with
  | true =>
      rw [hkind] at h
      exact on_bind_ok (hsource h)
  | false =>
      rw [hkind] at h
      exact on_bind_ok (hsource h)

/-- A label is a text, so there is no difference between being the same and
being equal. -/
theorem isIn_label (m : Model) (v : Value) :
    v.isIn [m.label] = v.equal m.label := by
  have hface : m.label.face? = some (.text m.name) := by
    have hname := m.named
    cases hlabel : m.label with
    | text s =>
        rw [hlabel] at hname; exact congrArg _
          (congrArg _ (Option.some.inj hname))
    | symbol r =>
        rw [hlabel] at hname
        cases r with
        | fieldType t => exact congrArg _ (congrArg _ (Option.some.inj hname))
        | _ => cases hname
    | _ => rw [hlabel] at hname; cases hname
  rw [Value.isIn, List.any_cons, List.any_nil, Bool.or_false, Bool.eq_iff_iff,
    Value.same_iff_face' hface, Value.equal_iff_face hface]

/-- What is selected from the index is what the steps behind leave of it. -/
theorem evaluate_source {ids : List Value} {hs : List Handle}
    (hselect : Graph.select (stored m g) ids = .ok hs) {steps : List Step}
    {p : Element → Bool} (hf : Filters fine steps p) :
    g.evaluate (source m ids :: steps)
        = (.ok ((hs.filter fun h => p (g.element h)).map .element), g) ∨
      ∃ key, fine key = true ∧ key.isKey = false ∧
        g.evaluate (source m ids :: steps) = (.error key.keyFault, g) := by
  have hgo := hf g [] hs _ (gives_pure _)
  rw [List.append_nil] at hgo
  unfold Gives at hgo
  rw [← on_source hselect] at hgo
  exact hgo

/-- The label keeps the elements of the model. -/
theorem filters_labelled (m : Model) :
    Filters fine [labelled m.label] fun e => e.label.equal m.label := by
  refine filters_keep (fun _ _ => rfl) fun g h => gives_ask ?_
  rw [← isIn_label]
  rfl

/-- Nothing can go wrong where only the label is asked for. -/
theorem evaluate_labelled {ids : List Value} {hs : List Handle}
    (hselect : Graph.select (stored m g) ids = .ok hs) :
    g.evaluate [source m ids, labelled m.label]
      = (.ok ((hs.filter fun h => (g.element h).label.equal m.label).map
          .element), g) :=
  Gives.on_eq (evaluate_source hselect (filters_labelled m))

/-- A filter that is not given, and is accepted, has no conditions. -/
private theorem parse_of_not_given {resolve : Value → Value}
    (h : parse resolve w = .ok cs) (hw : w.isGiven = false) : cs = [] := by
  cases w with
  | null => exact (Except.ok.inj h).symm
  | list ws =>
      cases ws with
      | nil => exact (Except.ok.inj h).symm
      | cons w ws => cases hw
  | tuple ws =>
      cases ws with
      | nil => exact (Except.ok.inj h).symm
      | cons w ws => cases hw
  | map es =>
      cases es with
      | nil => exact (Except.ok.inj h).symm
      | cons e es => cases hw
  | _ => cases h

/-- So nothing changes if no filter at all is read in its place. -/
theorem parse_given {resolve : Value → Value} (h : parse resolve w = .ok cs) :
    parse resolve (if w.isGiven then w else .map []) = .ok cs := by
  cases hw : w.isGiven with
  | true => exact h
  | false =>
      rw [parse_of_not_given h hw]
      rfl

/-- A scalar is no filter, so the entry that holds one is of a field. -/
private theorem parse_entry {resolve : Value → Value} {key v : Value}
    (hv : v.isScalar = true) (h : parse resolve (.map [(key, v)]) = .ok cs) :
    cs = [.compare (resolve key) .eq v true] := by
  -- a scalar is no filter, so the key can only be a field
  have hnone : ∀ gs, groups resolve v ≠ .ok gs := by
    intro gs hgs
    cases v <;> first | (cases hv; done) | cases hgs
  have hfield : parseField resolve key v
      = .ok [.compare (resolve key) .eq v true] := by
    unfold parseField
    split
    · cases hv
    · rw [if_pos hv]
  unfold parse groups at h
  cases hentries : entryConditions resolve [(key, v)] with
  | error e => rw [hentries] at h; cases h
  | ok own =>
      rw [hentries] at h
      have hcs : [own].flatten = cs := Except.ok.inj h
      rw [entryConditions] at hentries
      cases hrole : roleOf key with
      | join junction =>
          rw [hrole] at hentries
          obtain ⟨gs, hgs, -⟩ := bind_eq_ok hentries
          exact absurd hgs (hnone gs)
      | refused shown => rw [hrole] at hentries; cases hentries
      | operator name => rw [hrole] at hentries; cases hentries
      | index =>
          rw [hrole] at hentries
          obtain ⟨gs, hgs, -⟩ := bind_eq_ok hentries
          exact absurd hgs (hnone gs)
      | field =>
          rw [hrole] at hentries
          dsimp only at hentries
          rw [hfield] at hentries
          rw [← hcs, ← Except.ok.inj hentries]
          rfl

/-- An id that is sought is all that the filter asks for. -/
theorem parse_sought {v : Value} (hkey : m.idField.isKey = true)
    (hself : m.idField.equal m.idField = true)
    (hsought : soughtId? m.idField w = .ok (some v))
    (h : parse m.conditionKey w = .ok cs) :
    v.isScalar = true ∧ cs = [.compare .idKey .eq v true] := by
  unfold soughtId? at hsought
  split at hsought
  · next entry =>
    obtain ⟨key, own⟩ := entry
    obtain ⟨found, hfind, hsought⟩ := bind_eq_ok hsought
    obtain ⟨hfound, hscalar⟩ :=
      Option.filter_eq_some_iff.mp (Except.ok.inj hsought)
    unfold Entries.find at hfind
    rw [hkey, if_pos rfl] at hfind
    have hlookup : Entries.lookup? m.idField [(key, own)] = some v := by
      rw [Except.ok.inj hfind]
      exact hfound
    obtain ⟨e, he, hev⟩ := Option.map_eq_some_iff.mp hlookup
    have hsame : e.1.sameKey m.idField = true :=
      List.find?_some (p := fun e : Value × Value => e.1.sameKey m.idField) he
    rw [List.mem_singleton.mp (List.mem_of_find?_eq_some he)] at hev hsame
    have hequal : key.equal m.idField = true := by
      unfold Value.sameKey at hsame
      rw [Bool.and_eq_true] at hsame
      exact Value.equal_of_same hsame.1 hself
    have hid : m.conditionKey key = .idKey := if_pos hequal
    rw [show own = v from hev] at h
    rw [parse_entry hscalar h, hid]
    exact ⟨hscalar, rfl⟩
  · cases Except.ok.inj hsought

/-- What a model looks ids up in is coherent, for vertices and for edges. -/
theorem Sound.stored (hg : Graph.Sound [] g) :
    Index.Coherent g.ids (stored m g) := by
  unfold Filter.stored
  split
  · exact hg.edges
  · exact hg.vertices

/-- The index has at most one element with an id, and that is the one under the
id. -/
theorem filter_id_eq_find? {v : Value} {f : Face} (hg : Graph.Sound [] g)
    (hv : v.face? = some f) :
    ((stored m g).map (·.2)).filter (fun h => (g.element h).id.equal v)
      = (((stored m g).find? fun e => e.1.sameKey v).map (·.2)).toList := by
  rw [List.filter_map, Option.toList_map,
    ← (Sound.stored hg).filter_eq_find? hv]
  rfl

/-- What is looked up under an id are the elements with that id. -/
theorem select_id {v : Value} (hg : Reachable g) (hscalar : v.isScalar = true)
    (hself : v.equal v = true) : Graph.select (stored m g) [v]
      = .ok (((stored m g).map (·.2)).filter fun h =>
        (g.element h).id.equal v) := by
  obtain ⟨f, hf⟩ := Value.face_of_scalar hscalar hself
  have hkey : v.isKey = true := by
    cases v <;> first | rfl | cases hscalar
  have hfind : Entries.find v (stored m g)
      = .ok (((stored m g).find? fun e => e.1.sameKey v).map (·.2)) :=
        if_pos hkey
  rw [filter_id_eq_find? hg.sound hf]
  unfold Graph.select
  simp only [List.isEmpty_cons, Bool.false_eq_true, if_false, List.mapM_cons,
    List.mapM_nil, hfind, bind, Except.bind, pure, Except.pure]
  cases (stored m g).find? fun e => e.1.sameKey v <;> rfl

/-- The columns of the model can be keys, as all texts can. -/
def hasKeyColumns (m : Model) : Bool :=
  m.fields.all fun f => !f.column.isGiven || f.column.isKey

open Classical in
/-- What conditions may ask for by a field of the model: keys, and what is
given as a column in the model, whatever it is. -/
noncomputable def asks (m : Model) (key : Value) : Bool :=
  key.isKey ||
    decide (∃ f ∈ m.fields, f.column.isGiven = true ∧ f.column = key)

open Classical in
/-- Only a column may be asked for without being a key. -/
private theorem column_of_asks {key : Value} (hasks : asks m key = true)
    (hkey : key.isKey = false) :
    ∃ f ∈ m.fields, f.column.isGiven = true ∧ f.column = key := by
  unfold asks at hasks
  rw [hkey, Bool.false_or] at hasks
  exact of_decide_eq_true hasks

/-- A key that a model asks for can be one if the columns can. -/
theorem isKey_of_asks {key : Value} (hcolumns : hasKeyColumns m = true)
    (hasks : asks m key = true) : key.isKey = true := by
  by_contra hno
  have hkey : key.isKey = false := Bool.eq_false_iff.mpr hno
  obtain ⟨f, hf, hgiven, rfl⟩ := column_of_asks hasks hkey
  have hcolumn := List.all_eq_true.mp hcolumns f hf
  rw [hkey, hgiven] at hcolumn
  cases hcolumn

open Classical in
/-- Field names that can be keys are stored under such, or under a column. -/
theorem resolvesKeys_conditionKey (m : Model) :
    ResolvesKeys (asks m) m.conditionKey := by
  have hkeys {key : Value} (hkey : key.isKey = true) : asks m key = true := by
    unfold asks
    rw [hkey, Bool.true_or]
  intro key hkey
  unfold Model.conditionKey Model.storageKey
  split
  · exact hkeys rfl
  · split
    · next hgiven =>
      unfold Model.column Model.field? at hgiven ⊢
      cases hfound : m.fields.find? fun f => f.name.sameKey key with
      | none => exact hkeys rfl
      | some f =>
          rw [hfound] at hgiven
          have hf := List.mem_of_find?_eq_some hfound
          unfold asks
          rw [Bool.or_eq_true]
          exact .inr (decide_eq_true ⟨f, hf, hgiven, rfl⟩)
    · exact hkeys hkey

/-- A filter that is accepted selects the elements that meet it, in the order
in which they are stored, and changes nothing. The only other thing that can
come of it is a failure, because a column of the model cannot be a key, and
then it is the failure of that column; columns that are texts can be keys. The
primary key can be a key, as it can in every model that has been defined
(`Model.isProper_ofDefinition`). It has to be a name that is equal to itself,
and so has an id that is sought. -/
theorem evaluate_select (hg : Reachable g) (hkey : m.idField.isKey = true)
    (hself : m.idField.equal m.idField = true) (hw : w.isProper = true)
    (hparse : parse m.conditionKey w = .ok cs)
    (hid : ∀ v, soughtId? m.idField w = .ok (some v) → v.equal v = true) :
    ∃ steps, select m w = .ok steps ∧
      (g.evaluate steps = (.ok ((matching m w g).map .element), g) ∨
        hasKeyColumns m = false ∧
          ∃ f ∈ m.fields, f.column.isGiven = true ∧ f.column.isKey = false ∧
            g.evaluate steps = (.error f.column.keyFault, g)) := by
  have hmeans := parse_means (resolvesKeys_conditionKey m) hw hparse
  cases hsought : soughtId? m.idField w with
  | error e =>
      unfold soughtId? Entries.find at hsought
      rw [hkey] at hsought
      split at hsought <;> cases hsought
  | ok sought =>
      cases sought with
      | none =>
          obtain ⟨tests, htests, hfilters⟩ := lowerAll_filters cs hmeans.formed
          refine ⟨source m [] :: labelled m.label :: tests, ?_, ?_⟩
          · unfold select
            simp only [hsought, parse_given hparse, htests, bind, Except.bind]
          · have hall : Graph.select (stored m g) []
                = .ok ((stored m g).map (·.2)) := rfl
            have hgo := evaluate_source hall
              ((filters_labelled m).append hfilters)
            simp only [hmeans.agrees] at hgo
            refine hgo.imp_right fun ⟨key, hasks, hkey, hfails⟩ => ?_
            obtain ⟨f, hf, hgiven, rfl⟩ := column_of_asks hasks hkey
            refine ⟨Bool.eq_false_iff.mpr fun hcolumns => ?_, f, hf, hgiven,
              hkey, hfails⟩
            rw [isKey_of_asks hcolumns hasks] at hkey
            cases hkey
      | some v =>
          obtain ⟨hscalar, hcs⟩ := parse_sought hkey hself hsought hparse
          refine ⟨[source m [v], labelled m.label], ?_, .inl ?_⟩
          · unfold select
            simp only [hsought, bind, Except.bind]
          · have hselect := select_id (m := m) hg hscalar (hid v hsought)
            have hgo := evaluate_labelled hselect
            have hmeets : ∀ e : Element, meets m.conditionKey e .all w
                = e.id.equal v := by
              intro e
              rw [← hmeans.agrees, hcs]
              exact Bool.and_true _
            unfold matching
            simp only [hmeets, ← List.filter_filter]
            exact hgo

-- A model with a column, two of its vertices and one of another model that is
-- like the first.

/-- Persons with a name and an age. -/
def sampleModel : Model where
  label := .text "Person"
  name := "Person"
  named := rfl
  kind := .vertex
  fields := [⟨.text "age", .number, .null⟩,
    ⟨.text "name", .string, .text "full_name"⟩]
  retry := .standard
  idField := .text "id"

/-- Their fields can be told apart. -/
theorem sampleModel_apart : sampleModel.Apart :=
  Model.apart_of_plain (by decide) (by decide) (by decide) (by decide)
    (by decide) (by decide)

/-- Two persons, one of them with an age, and a pet. -/
def sampleGraph : Graph :=
  let g := (Graph.empty.addVertex (.text "Person") (.text "p1")
    [(.text "age", .int 30), (.text "full_name", .text "Ann Lee")]).1
  let g := (g.addVertex (.text "Person") (.text "p2")
    [(.text "full_name", .text "Bob")]).1
  (g.addVertex (.text "Pet") (.text "p3")
    [(.text "age", .int 30), (.text "full_name", .text "Ann")]).1

/-- The graph comes of entering both. -/
theorem sampleGraph_reachable : sampleGraph.Reachable := by
  refine .addVertex (.addVertex (.addVertex .empty rfl rfl _ ?_) rfl rfl _ ?_)
    rfl rfl _ ?_
  all_goals decide

/-- Older than 40 or with a name that has a text in it, and not of a certain
age. -/
def sampleFilter : Value :=
  .map [(.text "or", .list [.map [(.text "age", .map [(.text "gt", .int 40)])],
      .map [(.text "name", .map [(.text "like", .text "nn")])]]),
    (.text "0", .map [(.text "age", .map [(.text "neq", .int 20)])])]

/-- The filter finds Ann Lee: Bob has no `nn` in his name, and a pet is no
person. -/
theorem evaluate_select_sample :
    ∃ steps, select sampleModel sampleFilter = .ok steps ∧
      sampleGraph.evaluate steps = (.ok [.element 0], sampleGraph) := by
  have hmatching : matching sampleModel sampleFilter sampleGraph = [0] := by
    decide +kernel
  have haccepted : (match parse sampleModel.conditionKey sampleFilter with
      | .ok _ => true
      | .error _ => false) = true := by decide +kernel
  cases hparse : parse sampleModel.conditionKey sampleFilter with
  | error e => rw [hparse] at haccepted; cases haccepted
  | ok cs =>
      obtain ⟨steps, hsteps, hgo⟩ :=
        evaluate_select sampleGraph_reachable rfl (by decide +kernel)
          (by decide +kernel) hparse fun v hv => (nomatch hv)
      rw [hmatching] at hgo
      exact ⟨steps, hsteps, hgo.resolve_right fun hno => (nomatch hno.1)⟩

end Filter

end GraphMapper
