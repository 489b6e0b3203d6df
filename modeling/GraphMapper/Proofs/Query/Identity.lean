/-
The primary key in what is built: one id for a creation, nothing for a change.

A creation with a primary key is the creation without it, with one step more,
which gives the element its id (`create_with_id`). A replacement and an update
are built as if the record had no primary key at all (`replace_others`,
`update_others`). No other step of theirs writes the id, under the reserved key
or under the name of the primary key.

# The record in three parts

Renaming gives a mapping, in which the primary key stands once if it stands
there at all (`payload_own`). So the entries are some, that one and some more.
The steps of the parts stand behind each other, and only the middle part writes
the id; what has to be shown of the other two is that neither key names it.

Chain: `Record.Identity` for the entries; `Query.PrimaryKey` has the same for
every operation, and the finding of the element again.
-/
import GraphMapper.Proofs.Query.Reading
import GraphMapper.Proofs.Query.Updating
import GraphMapper.Proofs.Record.Identity

namespace GraphMapper

namespace Query

open Build Entries Record

variable {m : Model} {es data : Entries} {k x : Value} {leftOut : List Value}

/-- The step gives an element an id, or writes under the name of the primary
key. -/
def writesId (m : Model) : Step → Bool
  | .call .property (.symbol (.reserved .id) :: _) => true
  | .call .property (key :: _) => m.namesId key
  | _ => false

/-- To set a property writes the id if the key names it. -/
private theorem writesId_property {key v : Value} (hkey : key ≠ .idKey) :
    writesId m (.call .property [key, v]) = m.namesId key := by
  unfold writesId
  split
  · next heq =>
    injection heq with _ hargs
    exact absurd (List.cons.inj hargs).1 hkey
  · next heq =>
    injection heq with _ hargs
    rw [(List.cons.inj hargs).1]
  · next hno => exact absurd rfl (hno _ _)

-- ==================================================================== records

/-- What a record has for its primary key is one entry at most. -/
private theorem own_eq (h : m.KeepsId) (hes : IsMapping es) :
    those m.namesId es = [] ∨ ∃ k x,
      those m.namesId es = [(k, x)] ∧ m.namesId k = true := by
  cases hown : those m.namesId es with
  | nil => exact .inl rfl
  | cons e own =>
      have hmem : ∀ d ∈ e :: own, m.namesId d.1 = true := by
        intro d hd
        rw [← hown] at hd
        exact (List.mem_filter.mp hd).2
      have hnil : own = [] := by
        cases own with
        | nil => rfl
        | cons d own =>
            have hpair : IsMapping (e :: d :: own) :=
              hown ▸ hes.sublist List.filter_sublist
            have hapart := (List.pairwise_cons.mp hpair).1 d List.mem_cons_self
            obtain ⟨face, hface⟩ := h.faced
            have he := h.namesId_iff.mp (hmem e List.mem_cons_self)
            have hd := h.namesId_iff.mp
              (hmem d (List.mem_cons_of_mem _ List.mem_cons_self))
            have hsame : e.1.sameKey d.1 = true :=
              (Value.sameKey_iff_face (hd.trans hface)).mpr (he.trans hface)
            rw [hsame] at hapart
            cases hapart
      rw [hnil]
      exact .inr ⟨e.1, e.2, rfl, hmem e List.mem_cons_self⟩

/-- Under the primary key there is what stands in that entry. -/
private theorem lookup?_own (h : m.KeepsId)
    (hlookup : lookup? m.idField es = some x) (hes : IsMapping es) :
    ∃ k, those m.namesId es = [(k, x)] ∧ m.namesId k = true := by
  have hid : m.namesId m.idField = true := h.namesId_iff.mpr rfl
  rw [← lookup?_those h.respects hid] at hlookup
  rcases own_eq h hes with hown | ⟨k, y, hown, hk⟩
  · rw [hown] at hlookup
    cases hlookup
  · refine ⟨k, ?_, hk⟩
    rw [hown, lookup?_cons] at hlookup
    split at hlookup
    · rw [hown, show y = x from Option.some.inj hlookup]
    · cases hlookup

/-- Where the primary key does not stand all entries are others. -/
private theorem those_others (hdata : ∀ e ∈ data, m.namesId e.1 = false) :
    those m.namesOther data = data := by
  refine List.filter_eq_self.mpr fun e he => ?_
  unfold Model.namesOther
  rw [hdata e he]
  rfl

/-- A key names the primary key if it is the same key. -/
private theorem sameKey_idField (h : m.KeepsId) (key : Value) :
    key.sameKey m.idField = m.namesId key := by
  obtain ⟨face, hface⟩ := h.faced
  rw [Bool.eq_iff_iff, h.namesId_iff, Value.sameKey_iff_face hface, hface]

/-- Removing the primary key leaves the other entries. -/
private theorem erase_id (h : m.KeepsId)
    (hown : (those m.namesId data).length ≤ 1) :
    erase m.idField data = those m.namesOther data := by
  induction data with
  | nil => rfl
  | cons e data ih =>
      rw [erase_cons, those_cons, sameKey_idField h]
      rw [those_cons] at hown
      cases hid : m.namesId e.1 with
      | true =>
          rw [hid, if_pos rfl, List.length_cons] at hown
          have hnone : those m.namesId data = [] :=
            List.length_eq_zero_iff.mp (by omega)
          have hall : those m.namesOther data = data :=
            those_others fun d hd =>
              Bool.eq_false_iff.mpr (List.filter_eq_nil_iff.mp hnone d hd)
          rw [if_pos rfl, Model.namesOther, hid, hall]
          rfl
      | false =>
          rw [hid, if_neg Bool.false_ne_true] at hown
          rw [if_neg Bool.false_ne_true, Model.namesOther, hid, ih hown]
          rfl

/-- The ends may be left out before or after. -/
private theorem withoutEnds_those {p : Value → Bool} (hp : Respects p)
    (es : Entries) : withoutEnds (those p es) = those p (withoutEnds es) := by
  show erase _ (erase _ (those p es)) = those p (erase _ (erase _ es))
  rw [those_erase hp, those_erase hp]

/-- To leave the ends out takes entries away. -/
private theorem sublist_withoutEnds (es : Entries) :
    (withoutEnds es).Sublist es :=
  (erase_sublist _ _).trans (erase_sublist _ _)

/-- The record of a change without its primary key. -/
private theorem payload_others (h : m.KeepsId) (es : Entries) :
    payload m (.map (those m.namesOther es))
      = (payload m (.map es)).map (those m.namesOther) := by
  show toStorage m (if m.isEdge then withoutEnds (those m.namesOther es)
    else those m.namesOther es)
      = (toStorage m (if m.isEdge then withoutEnds es else es)).map
        (those m.namesOther)
  rw [toStorage_others h, withoutEnds_those h.respects_others]
  split <;> rfl

/-- What is written names the primary key at most once. -/
theorem payload_own (h : m.KeepsId) (hes : IsMapping es)
    (hdata : payload m (.map es) = .ok data) :
    (those m.namesId data).length ≤ 1 := by
  have hgo : toStorage m (if m.isEdge then withoutEnds es else es)
      = .ok data := hdata
  have hmapping : IsMapping (if m.isEdge then withoutEnds es else es) := by
    split
    · exact hes.sublist (sublist_withoutEnds es)
    · exact hes
  rw [toStorage_own h hgo]
  rcases own_eq h hmapping with hown | ⟨k, x, hown, -⟩
  · rw [hown]
    exact Nat.zero_le 1
  · rw [hown]
    exact Nat.le_refl 1

-- ==================================================================== writing

/-- Entries behind each other are written behind each other. -/
private theorem write_append (m : Model) (leftOut : List Value)
    (es more : Entries) : write m leftOut (es ++ more)
      = write m leftOut es >>= fun _ => write m leftOut more := by
  exact List.forM_append

/-- Where the primary key is left out it may as well not be there. -/
private theorem write_others (h : m.KeepsId) (hleft : m.idField ∈ leftOut)
    (data : Entries) :
    write m leftOut data = write m leftOut (those m.namesOther data) := by
  induction data with
  | nil => rfl
  | cons e data ih =>
      rw [those_cons]
      cases hid : m.namesId e.1 with
      | true =>
          have hout : e.1.isIn leftOut = true := by
            obtain ⟨face, hface⟩ := h.faced
            refine List.any_eq_true.mpr ⟨m.idField, hleft,
              (Value.same_iff_face' hface).mpr ?_⟩
            rw [h.namesId_iff.mp hid, hface]
          rw [Model.namesOther, hid, if_neg (by decide), ← ih]
          show (writeEntry m leftOut e.1 e.2 >>= fun _ => write m leftOut data)
              = _
          unfold writeEntry
          rw [if_pos hout]
          rfl
      | false =>
          rw [Model.namesOther, hid, if_pos (by decide)]
          show (writeEntry m leftOut e.1 e.2 >>= fun _ => write m leftOut data)
            = (writeEntry m leftOut e.1 e.2 >>= fun _ =>
              write m leftOut (those m.namesOther data))
          rw [ih]

/-- The other entries are no ids. -/
private theorem adds_others (h : m.KeepsId)
    (hdata : ∀ e ∈ data, m.namesId e.1 = false) (leftOut : List Value) :
    Adds (fun step => writesId m step = false) (write m leftOut data) := by
  refine adds_forM fun e he => ?_
  have hother := hdata e he
  unfold writeEntry
  split
  · exact adds_pure ()
  · rw [show e.1.equal m.idField = false from hother,
      if_neg Bool.false_ne_true]
    refine .of_check fun stored hstored => adds_step ?_
    rw [writesId_property, hother]
    intro hreserved
    rw [hreserved, h.typeFor_idKey] at hstored
    cases hstored

/-- One entry among others is the id. -/
private theorem traversalFrom_write_id (hk : m.namesId k = true)
    (hleft : k.isIn leftOut = false) (pre post : Entries) (start : List Step) :
    traversalFrom start (write m leftOut (pre ++ (k, x) :: post)) = (do
      let before ← traversalFrom [] (write m leftOut pre)
      let after ← traversalFrom [] (write m leftOut post)
      .ok (start ++ before ++ .call .property [.idKey, x] :: after)) := by
  have hentry : write m leftOut ((k, x) :: post)
      = (Build.step .property [.idKey, x] >>= fun _ =>
        write m leftOut post) := by
    show (writeEntry m leftOut k x >>= fun _ => write m leftOut post) = _
    unfold writeEntry
    rw [hleft, if_neg Bool.false_ne_true,
      if_pos (show k.equal m.idField = true from hk)]
  rw [write_append, hentry, traversalFrom_then,
    traversalFrom_eq_append (appends_write m leftOut pre)]
  cases traversalFrom [] (write m leftOut pre) with
  | error e => rfl
  | ok before =>
      show traversalFrom (start ++ before) (Build.step .property [.idKey, x]
        >>= fun _ => _) = _
      rw [traversalFrom_step_bind,
        traversalFrom_eq_append (appends_write m leftOut post)]
      cases traversalFrom [] (write m leftOut post) with
      | error e => rfl
      | ok after =>
          show Except.ok (start ++ before ++ [.call .property [.idKey, x]]
            ++ after) = Except.ok _
          rw [List.append_assoc, List.singleton_append]

/-- Their steps stand behind each other, if both can be written. -/
private theorem traversalFrom_write_parts (pre post : Entries)
    (start : List Step) :
    traversalFrom start (write m leftOut (pre ++ post)) = (do
      let before ← traversalFrom [] (write m leftOut pre)
      let after ← traversalFrom [] (write m leftOut post)
      .ok (start ++ before ++ after)) := by
  rw [write_append, traversalFrom_then,
    traversalFrom_eq_append (appends_write m leftOut pre)]
  cases traversalFrom [] (write m leftOut pre) with
  | error e => rfl
  | ok before =>
      show traversalFrom (start ++ before) (write m leftOut post) = _
      rw [traversalFrom_eq_append (appends_write m leftOut post)]
      cases traversalFrom [] (write m leftOut post) <;> rfl

-- ================================================================== creations

/-- The steps of a creation before it writes. -/
def front (m : Model) (data : Entries) : Checked (List Step) :=
  if m.isEdge then do
    let origin ← Reference.parse (Entries.field "from" data) "from"
    let target ← Reference.parse (Entries.field "to" data) "to"
    .ok (edgeBetween m origin target)
  else .ok [.call .addVertex [m.label]]

/-- What a creation does not write: the ends of an edge. -/
def endKeys (m : Model) : List Value :=
  if m.isEdge then Reference.fields else []

/-- A creation adds an element, and writes its entries. -/
theorem create_front (m : Model) (record : Value) : create m record = (do
    let data ← Build.check (record.toEntries >>= toStorage m)
    let made ← Build.check (front m data)
    append made
    write m (endKeys m) data) := by
  unfold create front endKeys
  refine bind_congr fun data => ?_
  by_cases hkind : m.isEdge = true
  · simp only [if_pos hkind]
    rw [check_bind, bind_assoc]
    refine bind_congr fun origin => ?_
    rw [check_bind, bind_assoc]
    rfl
  · simp only [if_neg hkind]
    rfl

/-- The same, told by the steps. -/
theorem traversalFrom_create (start : List Step) (record : Value) :
    traversalFrom start (create m record) = (do
      let data ← record.toEntries >>= toStorage m
      let made ← front m data
      traversalFrom (start ++ made) (write m (endKeys m) data)) := by
  rw [create_front, traversalFrom_check_bind]
  congr 1
  funext data
  rw [traversalFrom_check_bind]
  rfl

/-- The primary key has no part in how a creation starts. -/
private theorem front_others (h : m.KeepsId) (data : Entries) :
    front m (those m.namesOther data) = front m data := by
  unfold front
  split
  · next hkind =>
    have hends : ∀ name : String, .text name ∈ Reference.fields →
        Entries.field name (those m.namesOther data)
          = Entries.field name data := by
      intro name hname
      have hother : m.namesOther (.text name) = true := by
        unfold Model.namesOther
        rw [Bool.not_eq_true', Bool.eq_false_iff]
        intro hid
        have hin := h.ends hkind
        rw [Bool.eq_false_iff] at hin
        refine hin (List.any_eq_true.mpr ⟨.text name, hname, ?_⟩)
        exact (Value.same_iff_face' rfl).mpr (h.namesId_iff.mp hid).symm
      unfold Entries.field Entries.get
      rw [lookup?_those h.respects_others hother]
    rw [hends "from" (List.mem_cons_self),
      hends "to" (List.mem_cons_of_mem _ List.mem_cons_self)]
  · rfl

/-- To add an element writes no id. -/
private theorem front_writes {made : List Step}
    (hmade : front m data = .ok made) :
    ∀ step ∈ made, writesId m step = false := by
  unfold front at hmade
  split at hmade
  · obtain ⟨origin, -, hmade⟩ := bind_eq_ok hmade
    obtain ⟨target, -, hmade⟩ := bind_eq_ok hmade
    rw [← Except.ok.inj hmade]
    intro step hstep
    simp only [edgeBetween, List.mem_cons, List.not_mem_nil, or_false] at hstep
    rcases hstep with rfl | rfl | rfl | rfl <;> rfl
  · rw [← Except.ok.inj hmade]
    intro step hstep
    rw [List.mem_singleton.mp hstep]
    rfl

/-- The primary key is none of the ends. -/
private theorem isIn_endKeys (h : m.KeepsId) (hk : m.namesId k = true) :
    k.isIn (endKeys m) = false := by
  unfold endKeys
  split
  · next hkind =>
    obtain ⟨face, hface⟩ := h.faced
    have hkface := h.namesId_iff.mp hk
    rw [hface] at hkface
    rw [← h.ends hkind]
    unfold Value.isIn
    congr 1
    funext v
    rw [Bool.eq_iff_iff, Value.same_iff_face hkface, Value.same_iff_face hface]
  · rfl

/-- Both fail alike, or the second has one step more, which gives the element
its id, and no other step of what they add writes the id. -/
def GivesId (m : Model) (x : Value) (start : List Step)
    (plain built : Checked (List Step)) : Prop :=
  (∀ e, plain = .error e → built = .error e) ∧
  ∀ steps, plain = .ok steps → ∃ before after,
    steps = start ++ before ++ after ∧
    built = .ok (start ++ before ++ .call .property [.idKey, x] :: after) ∧
    ∀ step ∈ before ++ after, writesId m step = false

/-- The entry of the primary key among the others gives the id, wherever it
stands. -/
private theorem givesId_write {pre post : Entries} {made : List Step}
    (h : m.KeepsId)
    (hk : m.namesId k = true) (hpre : ∀ e ∈ pre, m.namesId e.1 = false)
    (hpost : ∀ e ∈ post, m.namesId e.1 = false)
    (hmade : ∀ step ∈ made, writesId m step = false) (start : List Step) :
    GivesId m x start
      (traversalFrom (start ++ made) (write m (endKeys m) (pre ++ post)))
        (traversalFrom (start ++ made)
          (write m (endKeys m) (pre ++ (k, x) :: post))) := by
  rw [traversalFrom_write_parts, traversalFrom_write_id hk (isIn_endKeys h hk)]
  cases hbefore : traversalFrom [] (write m (endKeys m) pre) with
  | error e => exact ⟨fun _ he => he, fun _ hplain => (nomatch hplain)⟩
  | ok before =>
      cases hafter : traversalFrom [] (write m (endKeys m) post) with
      | error e => exact ⟨fun _ he => he, fun _ hplain => (nomatch hplain)⟩
      | ok after =>
          refine ⟨fun _ he => (nomatch he), fun steps hplain => ?_⟩
          obtain ⟨before', hbefore', hothers⟩ :=
            (adds_others h hpre _).traversalFrom hbefore
          obtain ⟨after', hafter', hothers'⟩ :=
            (adds_others h hpost _).traversalFrom hafter
          rw [List.nil_append] at hbefore' hafter'
          refine ⟨made ++ before, after, ?_, ?_, ?_⟩
          · rw [← Except.ok.inj hplain, ← List.append_assoc]
          · rw [← List.append_assoc]
            rfl
          · intro step hstep
            rw [List.mem_append, List.mem_append] at hstep
            rcases hstep with (hstep | hstep) | hstep
            · exact hmade step hstep
            · exact hothers step (hbefore' ▸ hstep)
            · exact hothers' step (hafter' ▸ hstep)

/-- A creation with a primary key is the one without it, with one more step
that gives the id. -/
theorem create_with_id (h : m.KeepsId) (hes : IsMapping es)
    (hx : lookup? m.idField es = some x) (start : List Step) :
    GivesId m x start
      (traversalFrom start (create m (.map (those m.namesOther es))))
        (traversalFrom start (create m (.map es))) := by
  obtain ⟨k, hown, hk⟩ := lookup?_own h hx hes
  rw [traversalFrom_create, traversalFrom_create]
  show GivesId m x start (toStorage m (those m.namesOther es) >>= fun data =>
    _) (toStorage m es >>= fun data => _)
  rw [← toStorage_others h es]
  cases hdata : toStorage m es with
  | error e => exact ⟨fun _ he => he, fun _ hplain => (nomatch hplain)⟩
  | ok data =>
      have hstored : those m.namesId data = [(k, x)] :=
        (toStorage_own h hdata).trans hown
      -- the one entry of the key, between those before and behind it
      obtain ⟨pre, post, rfl, hpre, -, hpost⟩ :=
        List.filter_eq_cons_iff.mp hstored
      replace hpre : ∀ e ∈ pre, m.namesId e.1 = false :=
        fun e he => Bool.eq_false_iff.mpr (hpre e he)
      replace hpost : ∀ e ∈ post, m.namesId e.1 = false :=
        fun e he => Bool.eq_false_iff.mpr
          (List.filter_eq_nil_iff.mp hpost e he)
      have hparts : those m.namesOther (pre ++ (k, x) :: post)
          = pre ++ post := by
        have hnot : m.namesOther k = false := by
          unfold Model.namesOther
          rw [hk]
          rfl
        have hrest : those m.namesOther ((k, x) :: post) = post := by
          rw [those_cons, hnot, if_neg Bool.false_ne_true, those_others hpost]
        calc those m.namesOther (pre ++ (k, x) :: post)
            = those m.namesOther pre ++ those m.namesOther ((k, x) :: post) :=
              List.filter_append _ _
          _ = pre ++ post := by rw [hrest, those_others hpre]
      show GivesId m x start
        (front m (those m.namesOther (pre ++ (k, x) :: post)) >>= fun made =>
          _)
        (front m (pre ++ (k, x) :: post) >>= fun made => _)
      rw [front_others h]
      cases hmade : front m (pre ++ (k, x) :: post) with
      | error e => exact ⟨fun _ he => he, fun _ hplain => (nomatch hplain)⟩
      | ok made =>
          have hgives :=
            givesId_write (x := x) h hk hpre hpost (front_writes hmade) start
          rw [← hparts] at hgives
          exact hgives

-- ==================================================================== changes

/-- A replacement is built as if the record had no primary key. -/
theorem replace_others (h : m.KeepsId) (id : Value) (es : Entries) :
    replace m id (.map es) = replace m id (.map (those m.namesOther es)) := by
  unfold replace
  rw [payload_others h]
  cases payload m (.map es) with
  | error e => rfl
  | ok data =>
      show (select m (byId m id) >>= fun _ => append [clearing []] >>= fun _ =>
        write m (m.idField :: Reference.fields) data)
            = (select m (byId m id) >>= fun _ => _)
      rw [write_others h List.mem_cons_self data]

/-- What changes is what does not name the primary key. -/
private theorem changes_others (h : m.KeepsId) (hes : IsMapping es) :
    changes m (.map es) = changes m (.map (those m.namesOther es)) := by
  unfold changes
  rw [payload_others h]
  cases hdata : payload m (.map es) with
  | error e => rfl
  | ok data =>
      have hkept : erase m.idField (those m.namesOther data)
          = those m.namesOther data := by
        refine erase_of_new fun e he => ?_
        have hother : m.namesOther e.1 = true := (List.mem_filter.mp he).2
        unfold Model.namesOther at hother
        rw [Bool.not_eq_true', Bool.eq_false_iff, ne_eq,
          ← sameKey_idField h] at hother
        exact Bool.eq_false_iff.mpr hother
      show (fieldsByKey m >>= fun columns =>
        writes m columns (erase m.idField data))
            = (fieldsByKey m >>= fun columns =>
          writes m columns (erase m.idField (those m.namesOther data)))
      rw [hkept, erase_id h (payload_own h hes hdata)]

/-- So is an update. -/
theorem update_others (h : m.KeepsId) (hes : IsMapping es) (filter : Value) :
    update m filter (.map es)
      = update m filter (.map (those m.namesOther es)) := by
  rw [update_eq, update_eq, changes_others h hes]

/-- A step that sets no property writes no id. -/
private theorem writesId_of_ne {name : StepName} {args : List Value}
    (hname : name ≠ .property) :
    writesId m (.call name args) = false := by
  unfold writesId
  split
  · next heq =>
    injection heq with heq
    exact absurd heq hname
  · next heq =>
    injection heq with heq
    exact absurd heq hname
  · rfl

/-- No step that reads writes. -/
private theorem writesId_reads {steps : List Step}
    (hreads : Graph.readsOnly steps = true) :
    ∀ step ∈ steps, writesId m step = false := by
  induction steps with
  | nil => exact fun _ h => (nomatch h)
  | cons first steps ih =>
      obtain ⟨name, args⟩ := first
      rw [Graph.readsOnly, Bool.and_eq_true, Bool.and_eq_true,
        Bool.not_eq_true'] at hreads
      obtain ⟨⟨hchanges, -⟩, hrest⟩ := hreads
      intro step hstep
      rcases List.mem_cons.mp hstep with rfl | hstep
      · refine writesId_of_ne ?_
        rintro rfl
        cases hchanges
      · exact ih hrest step hstep

/-- To select writes none. -/
private theorem adds_select (filter : Value) :
    Adds (fun step => writesId m step = false) (select m filter) := by
  unfold select
  exact .of_check fun selected hselect =>
    adds_append (writesId_reads (Filter.readsOnly_select hselect))

/-- A replacement gives no id. -/
theorem adds_replace (h : m.KeepsId) (id record : Value) :
    Adds (fun step => writesId m step = false) (replace m id record) := by
  unfold replace
  refine .of_check fun data _ => (adds_select _).bind fun _ => ?_
  refine (adds_append fun step hstep => ?_).bind fun _ => ?_
  · rw [List.mem_singleton.mp hstep]
    exact writesId_of_ne (by decide)
  · rw [write_others h List.mem_cons_self]
    refine adds_others h (fun e he => ?_) _
    have hother : m.namesOther e.1 = true := (List.mem_filter.mp he).2
    exact Bool.not_eq_true' _ ▸ hother

/-- No field is stored under the reserved key. -/
private theorem lookup?_idKey (h : m.KeepsId) {columns : Entries}
    (hcolumns : fieldsByKey m = .ok columns) :
    lookup? .idKey columns = none := by
  rw [Option.eq_none_iff_forall_ne_some]
  intro name hfound
  obtain ⟨e, he, hsame, -⟩ := mem_of_lookup? hfound
  obtain ⟨pairs, hpairs, hofList⟩ := bind_eq_ok hcolumns
  rw [← Except.ok.inj hofList] at he
  obtain ⟨d, hd, hkey⟩ := key_of_insertions he
  obtain ⟨f, hf, hpair⟩ := yields_mapM _ _ pairs hpairs d hd
  replace hpair : (if f.key.isKey then Except.ok (f.key, f.name)
      else .error f.key.keyFault) = Except.ok d := hpair
  split at hpair
  · rw [← Except.ok.inj hpair] at hkey
    replace hkey : f.key = e.1 := hkey
    rw [← hkey] at hsame
    exact h.key_ne hf (Value.eq_idKey_of_sameKey hsame)
  · cases hpair

/-- What an update writes stands under no name of the primary key, and not
under the reserved key. -/
private theorem changes_keys (h : m.KeepsId) {es entries : Entries}
    (hes : IsMapping es) (hchanges : changes m (.map es) = .ok entries) :
    ∀ e ∈ entries, m.namesId e.1 = false ∧ e.1 ≠ .idKey := by
  obtain ⟨data, hdata, hrest⟩ := bind_eq_ok hchanges
  obtain ⟨columns, hcolumns, hwrites⟩ := bind_eq_ok hrest
  intro e he
  obtain ⟨d, hd, hwrite⟩ := yields_mapM _ _ entries hwrites e he
  obtain ⟨stored, hstored, hentry⟩ := bind_eq_ok hwrite
  rw [← Except.ok.inj hentry]
  rw [erase_id h (payload_own h hes hdata)] at hd
  have hother : m.namesOther d.1 = true := (List.mem_filter.mp hd).2
  refine ⟨Bool.not_eq_true' _ ▸ hother, fun hreserved => ?_⟩
  replace hreserved : d.1 = .idKey := hreserved
  -- no storage key is the reserved one, so no field gives the entry a type
  rw [hreserved, lookup?_idKey h hcolumns, Option.getD_none, Model.type?,
    h.field?_idKey] at hstored
  cases hstored

/-- An update gives no id either. -/
theorem adds_update (h : m.KeepsId) (hes : IsMapping es) (filter : Value) :
    Adds (fun step => writesId m step = false)
      (update m filter (.map es)) := by
  rw [update_eq]
  refine .of_check fun entries hchanges => (adds_select _).bind fun _ => ?_
  refine (adds_append fun step hstep => ?_).bind fun _ =>
    adds_step (writesId_of_ne (by decide))
  obtain ⟨e, he, hstep⟩ := List.mem_flatMap.mp hstep
  obtain ⟨hother, hreserved⟩ := changes_keys h hes hchanges e he
  simp only [rewriting, List.mem_cons, List.not_mem_nil, or_false] at hstep
  rcases hstep with rfl | rfl
  · exact writesId_of_ne (by decide)
  · rw [writesId_property hreserved, hother]

end Query

end GraphMapper
