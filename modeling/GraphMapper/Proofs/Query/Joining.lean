/-
What a creation of an edge appends.

The references to the ends of an edge may be declared as fields too, with
columns of their own, and a creation looks for them when the record has been
brought under storage keys already. So all depends on what stands under the
names of the ends then. If it is what stood there before, and every entry has a
place of its own (`Undisturbed`), the creation appends the steps for the edge
and one step for each other entry (`runFrom_undisturbed`), or fails for the
references that the record has. If not, it never does: an entry without a place
is missing among the steps, and the same number of steps means that every entry
has one (`undisturbed_of_run`).

A model in which no storage key is the name of anything else, and in which the
ends have no columns, leaves every record undisturbed
(`undisturbed_of_separate`).

Main statement: `edge_appended`.
-/
import GraphMapper.Proofs.Query.Assigning
import GraphMapper.Proofs.Query.Leftover
import GraphMapper.Proofs.Query.PrimaryKey
import GraphMapper.Proofs.Query.References
import GraphMapper.Proofs.Query.Saving
import GraphMapper.Proofs.Record.Moving

namespace GraphMapper

namespace Record

variable {m : Model} {p q : Value × Value}

private theorem Becomes.entered_eq (hbecomes : Becomes m p q) :
    entered m p = q := by
  unfold Becomes at hbecomes
  unfold entered
  by_cases hid : p.1.equal m.idField = true
  · rw [if_pos hid] at hbecomes ⊢
    exact hbecomes.symm
  · rw [if_neg hid] at hbecomes ⊢
    obtain ⟨hkey, hform⟩ := hbecomes
    rw [formed, hform, ← hkey]
    rfl

theorem Becomes.entered (hbecomes : Becomes m p q) :
    Becomes m p (entered m p) :=
  hbecomes.entered_eq ▸ hbecomes

end Record

namespace Query

open Build Record

variable {m : Model} {es data order : Entries} {p q : Value × Value}
  {start built : List Step} {origin target : String × String} {s : String}
  {into : Value × Value → Value × Value}

-- ================================================================= statements

/-- What is written for an entry of a record: its value as the id, if it is
stored under the name of the primary key, and otherwise the stored form of its
value under its storage key. -/
def Writes (m : Model) (p q : Value × Value) : Prop := Becomes m (moved m p) q

/-- Every entry has a place, and under the names of the ends there is what was
there before. -/
structure Undisturbed (m : Model) (es : Entries) : Prop where
  placed : Placed m es
  ends : ∀ p ∈ es, ∀ s ∈ ["from", "to"],
    (moved m p).1.face? = some (.text s) ↔ p.1.face? = some (.text s)

private theorem isIn_fields_iff {key : Value} :
    key.isIn Reference.fields = true ↔ ∃ s ∈ ["from", "to"],
      key.face? = some (.text s) := by
  rw [Reference.isIn_fields]
  simp

/-- A field of the model is written in the form of its type, if no field of
another type is named like its storage key. -/
private theorem writes_iff_of_field {f : Field} (h : m.Keyed)
    (hf : f ∈ m.fields)
    (hname : p.1.face? = f.name.face?) (hother : f.key.face? ≠ m.idField.face?)
    (hshared : ∀ g ∈ m.fields, g.name.face? = f.key.face? → g.type = f.type) :
    Writes m p q ↔ q.1 = (moved m p).1 ∧
      serialize (some f.type) p.2 = .ok q.2 := by
  have hkey := face_moved h.toFaced hf hname
  obtain ⟨face, hface⟩ := h.facedId
  have hnot : ¬(moved m p).1.equal m.idField = true := fun hid =>
    hother (hkey.symm.trans
      (((Value.equal_iff_face hface).mp hid).trans hface.symm))
  unfold Writes Becomes
  rw [if_neg hnot, typeFor_of_keyed h hf hkey hshared, value_moved]

-- ==================================================================== running

/-- A creation brings the record under storage keys, checks the references, and
then writes. -/
private theorem runFrom_create (hdata : toStorage m es = .ok data)
    (start : List Step) :
    (create m (.map es)).runFrom start = match front m data with
      | .error e => (.error e, start)
      | .ok made => (write m (endKeys m) data).runFrom (start ++ made) := by
  have hentries : ((Value.map es).toEntries >>= toStorage m) = .ok data :=
    hdata
  rw [create_front, runFrom_bind, runFrom_check, hentries]
  show (check (front m data) >>= fun made => append made >>= fun _ =>
    write m (endKeys m) data).runFrom start = _
  rw [runFrom_bind, runFrom_check]
  cases front m data with
  | error e => rfl
  | ok made =>
      show (append made >>= fun _ => write m (endKeys m) data).runFrom start
          = _
      rw [runFrom_bind, runFrom_append]

/-- An entry that is no end is written, if anything is written at all. -/
private theorem becomes_of_writable {leftOut : List Value}
    (hleft : p.1.isIn leftOut = false) (hp : ¬Unwritable m leftOut p) :
    Becomes m p (entered m p) := by
  unfold Becomes entered
  by_cases hid : p.1.equal m.idField = true
  · rw [if_pos hid, if_pos hid]
  · rw [if_neg hid, if_neg hid]
    refine ⟨rfl, ?_⟩
    rw [Bool.not_eq_true] at hid
    rcases hform : serialize (typeFor m p.1) p.2 with e | w
    · refine absurd ⟨hleft, hid, ?_⟩ hp
      rw [hform]
      rfl
    · rw [formed, hform]
      rfl

/-- What has been written is one step for each entry. -/
private theorem built_of_write {leftOut : List Value}
    (hrun : (write m leftOut data).runFrom start = (.ok (), built)) :
    built = start ++ ((data.filter fun p => !p.1.isIn leftOut).map
      (entered m)).map Graph.put := by
  have hok : (traversalFrom [] (write m leftOut data)).isOk = true := by
    rw [isOk_traversalFrom]
    have hsame := appends_write m leftOut data start
    rw [hrun] at hsame
    rw [← (Prod.mk.inj hsame).1]
    rfl
  have hwritable : ∀ p ∈ data, ¬Unwritable m leftOut p := by
    intro p hp hbad
    rw [(write_fails_iff leftOut data).mpr ⟨p, hp, hbad⟩] at hok
    cases hok
  have hwrite :=
    runFrom_write
      (fun p hp hleft => becomes_of_writable hleft (hwritable p hp)) start
  exact (Prod.mk.inj (hrun.symm.trans hwrite)).2

-- ================================================================ undisturbed

/-- The references that the record has are found. -/
private theorem Undisturbed.field_eq (h : m.Faced) (hes : Entries.Distinct es)
    (hfree : Undisturbed m es) (hs : s ∈ ["from", "to"]) :
    Entries.field s (inStorage m es) = Entries.field s es := by
  have hlookup : Entries.lookup? (.text s) (inStorage m es)
      = Entries.lookup? (.text s) es := by
    refine Option.ext fun v => ?_
    rw [lookup?_inStorage_iff (hfree.placed.distinct h hes) rfl,
      hes.lookup?_eq_some_iff rfl]
    refine exists_congr fun p => and_congr_right fun hp =>
      and_congr_left fun _ => ?_
    exact hfree.ends p hp s hs
  unfold Entries.field Entries.get
  rw [hlookup]

/-- All other entries are found where they have been moved. -/
private theorem Undisturbed.others_perm (hedge : m.isEdge = true)
    (hfree : Undisturbed m es) :
    ((inStorage m es).filter fun p => !p.1.isIn (endKeys m)).Perm
      ((kept m es).map (moved m)) := by
  have hends : ∀ p ∈ es, (moved m p).1.isIn Reference.fields
      = p.1.isIn Reference.fields := by
    intro p hp
    rw [Bool.eq_iff_iff, isIn_fields_iff, isIn_fields_iff]
    exact exists_congr fun s => and_congr_right fun hs => hfree.ends p hp s hs
  unfold kept endKeys
  rw [if_pos hedge, if_pos hedge]
  refine ((inStorage_perm m es).filter _).trans ?_
  rw [List.filter_map]
  refine List.Perm.of_eq
    (congrArg (List.map (moved m)) (List.filter_congr fun p hp => ?_))
  exact congrArg (!·) (hends p hp)

/-- So a creation appends the steps for the edge, and one for each other
entry. -/
theorem runFrom_undisturbed (h : m.Faced) (hedge : m.isEdge = true)
    (hes : Entries.Distinct es) (hfree : Undisturbed m es)
    (horigin : Reference.Reads "from" (Entries.field "from" es) (.ok origin))
    (htarget : Reference.Reads "to" (Entries.field "to" es) (.ok target))
    (hwrites : ∀ p ∈ kept m es, Writes m p (into p)) (start : List Step) :
    ∃ order : Entries, order.Perm ((kept m es).map into) ∧
      (create m (.map es)).runFrom start
        = (.ok (), start ++ edgeBetween m origin target
          ++ order.map Graph.put) := by
  have hfront : front m (inStorage m es)
      = .ok (edgeBetween m origin target) := by
    unfold front
    rw [if_pos hedge, hfree.field_eq h hes (by simp),
      hfree.field_eq h hes (by simp), horigin.parse_eq, htarget.parse_eq]
    rfl
  have hperm := hfree.others_perm hedge
  have hbecomes : ∀ p ∈ inStorage m es, p.1.isIn (endKeys m) = false →
      Becomes m p (entered m p) := by
    intro p hp hother
    have hkept : p ∈ (inStorage m es).filter fun p => !p.1.isIn (endKeys m) :=
      List.mem_filter.mpr ⟨hp, by rw [hother]; rfl⟩
    obtain ⟨d, hd, rfl⟩ := List.mem_map.mp (hperm.mem_iff.mp hkept)
    exact (hwrites d hd).entered
  refine ⟨((inStorage m es).filter fun p => !p.1.isIn (endKeys m)).map
    (entered m), ?_, ?_⟩
  · refine (hperm.map _).trans (List.Perm.of_eq ?_)
    rw [List.map_map]
    exact List.map_congr_left fun p hp => (hwrites p hp).entered_eq
  · rw [runFrom_create (hfree.placed.toStorage h hes), hfront]
    exact runFrom_write hbecomes _

-- ================================================================== disturbed

/-- The ends are two entries, if both are there. -/
private theorem length_kept (hedge : m.isEdge = true)
    (hdata : Entries.Distinct data)
    (hends : ∀ s ∈ ["from", "to"], ∃ v,
      Entries.lookup? (.text s) data = some v) :
    (kept m data).length + 2 = data.length := by
  have hfaces :
      (Entries.faces (data.filter fun p => p.1.isIn Reference.fields)).Perm
        [some (.text "from"), some (.text "to")] := by
    refine (List.perm_ext_iff_of_nodup ?_ (by decide)).mpr fun face => ?_
    · exact (hdata.sublist List.filter_sublist).apart
    · unfold Entries.faces
      simp only [List.mem_map, List.mem_filter, Reference.isIn_fields]
      constructor
      · rintro ⟨p, ⟨-, hface | hface⟩, rfl⟩ <;> simp [hface]
      · intro hface
        have hface' : ∃ s ∈ ["from", "to"], face = some (.text s) := by
          simpa using hface
        obtain ⟨s, hs, rfl⟩ := hface'
        obtain ⟨v, hv⟩ := hends s hs
        obtain ⟨p, hp, hface, -⟩ := (hdata.lookup?_eq_some_iff rfl).mp hv
        exact ⟨p, ⟨hp, by simpa [hface] using hs⟩, hface⟩
  have hlength := hfaces.length_eq
  rw [length_faces] at hlength
  have hsplit := List.length_eq_length_filter_add (l := data) fun p =>
    p.1.isIn Reference.fields
  rw [hlength] at hsplit
  unfold kept
  rw [if_pos hedge, hsplit]
  exact Nat.add_comm _ _

private theorem front_eq (hedge : m.isEdge = true) (data : Entries) :
    front m data = (do
    let origin ← Reference.parse (Entries.field "from" data) "from"
    let target ← Reference.parse (Entries.field "to" data) "to"
    .ok (edgeBetween m origin target)) := if_pos hedge

/-- What has been appended was appended for what is stored. -/
theorem appended (hedge : m.isEdge = true) (hdata : toStorage m es = .ok data)
    (hrun : (create m (.map es)).runFrom start
      = (.ok (), start ++ edgeBetween m origin target
        ++ order.map Graph.put)) :
    (∀ s ∈ ["from", "to"], ∃ v, Entries.lookup? (.text s) data = some v) ∧
      order = (kept m data).map (entered m) := by
  rw [runFrom_create hdata] at hrun
  cases hfront : front m data with
  | error e =>
      rw [hfront] at hrun
      cases hrun
  | ok made =>
      rw [hfront] at hrun
      unfold front at hfront
      rw [if_pos hedge] at hfront
      obtain ⟨origin', horigin, hfront⟩ := bind_eq_ok hfront
      obtain ⟨target', htarget, hfront⟩ := bind_eq_ok hfront
      have hmade := Except.ok.inj hfront
      have hbuilt := built_of_write hrun
      rw [← hmade, List.append_assoc, List.append_assoc,
        List.append_cancel_left_eq] at hbuilt
      have hputs := (List.append_inj hbuilt rfl).2
      refine ⟨fun s hs => ?_, ?_⟩
      · simp only [List.mem_cons, List.not_mem_nil, or_false] at hs
        rcases hs with rfl | rfl
        · exact Reference.there_of_parse horigin
        · exact Reference.there_of_parse htarget
      · have horder := put_injective.list_map hputs
        unfold kept
        unfold endKeys at horder
        rw [if_pos hedge] at horder ⊢
        exact horder

/-- Nothing that is written as a property has been moved to the place of an
end. -/
private theorem not_end_of_entered (hedge : m.isEdge = true)
    (hdata : Entries.Distinct data) (hp : Writes m p q)
    (hq : q ∈ (kept m data).map (entered m)) (hs : s ∈ ["from", "to"]) :
    (moved m p).1.face? ≠ some (.text s) := by
  intro hface
  obtain ⟨d, hd, rfl⟩ := List.mem_map.mp hq
  unfold kept at hd
  rw [if_pos hedge] at hd
  obtain ⟨hd, hother⟩ := List.mem_filter.mp hd
  have hend : d.1.face? ≠ some (.text s) := by
    intro hdface
    rw [isIn_fields_iff.mpr ⟨s, hs, hdface⟩] at hother
    cases hother
  unfold Writes Becomes entered at hp
  by_cases hid : (moved m p).1.equal m.idField = true
  · rw [if_pos hid] at hp
    by_cases hdid : d.1.equal m.idField = true
    · exact hend
        ((Value.equal_iff_face ((Value.equal_iff_face' hface).mp hid)).mp hdid)
    · rw [if_neg hdid] at hp
      obtain ⟨face, hdface⟩ := hdata.faced d hd
      rw [show d.1 = .idKey from congrArg Prod.fst hp] at hdface
      cases hdface
  · rw [if_neg hid] at hp
    have hkey := hp.1
    by_cases hdid : d.1.equal m.idField = true
    · rw [if_pos hdid] at hkey
      rw [← hkey] at hface
      cases hface
    · rw [if_neg hdid] at hkey
      exact hend ((congrArg Value.face? hkey).trans hface)

/-- Ends that are moved to the places of the ends stay where they are. -/
private theorem ends_stay (hes : Entries.Distinct es) (hplaced : Placed m es)
    (hfound : ∀ s ∈ ["from", "to"], ∃ p ∈ es,
      (moved m p).1.face? = some (.text s) ∧
      p.1.isIn Reference.fields = true) : ∀ s ∈ ["from", "to"], ∃ e ∈ es,
        e.1.face? = some (.text s) ∧ (moved m e).1.face? = some (.text s) := by
  obtain ⟨a, ha, hamoved, haend⟩ := hfound "from" (by simp)
  obtain ⟨b, hb, hbmoved, hbend⟩ := hfound "to" (by simp)
  have hne : a ≠ b := by
    rintro rfl
    rw [hamoved] at hbmoved
    exact absurd hbmoved (by decide)
  -- the ends have not changed places, since one of them comes before the other
  have hown : a.1.face? = some (.text "from") ∧
      b.1.face? = some (.text "to") := by
    rw [Reference.isIn_fields] at haend hbend
    obtain ⟨-, hcrossed⟩ := hplaced.apart ha hb hne
    rw [hamoved, hbmoved] at hcrossed
    rcases haend with haface | haface
    · rcases hbend with hbface | hbface
      · exact absurd (hes.eq_of_face ha hb (haface.trans hbface.symm)) hne
      · exact ⟨haface, hbface⟩
    · rcases hbend with hbface | hbface
      · rw [haface, hbface] at hcrossed
        exact (hcrossed.elim (fun hno => hno rfl) fun hno => hno rfl).elim
      · exact absurd (hes.eq_of_face ha hb (haface.trans hbface.symm)) hne
  intro s hs
  simp only [List.mem_cons, List.not_mem_nil, or_false] at hs
  rcases hs with rfl | rfl
  · exact ⟨a, ha, hown.1, hamoved⟩
  · exact ⟨b, hb, hown.2, hbmoved⟩

/-- What has been appended shows that every entry has a place, and that no
other one is in the place of an end. -/
theorem undisturbed_of_run (h : m.Faced) (hedge : m.isEdge = true)
    (hes : Entries.Distinct es)
    (hends : ∀ s ∈ ["from", "to"], ∃ v, Entries.lookup? (.text s) es = some v)
    (hwrites : ∀ p ∈ kept m es, Writes m p (into p))
    (hperm : order.Perm ((kept m es).map into))
    (hrun : (create m (.map es)).runFrom start
      = (.ok (), start ++ edgeBetween m origin target
        ++ order.map Graph.put)) :
    Undisturbed m es := by
  obtain ⟨data, hdata, hdistinct, hwhole⟩ := toStorage_whole h hes
  obtain ⟨hthere, horder⟩ := appended hedge hdata hrun
  -- as many writes as entries, so no two entries met in one column
  have hplaced : Placed m es := by
    refine hwhole.mp ?_
    rw [← length_kept hedge hdistinct hthere, ← length_kept hedge hes hends]
    have hlength := hperm.length_eq
    rw [horder, List.length_map, List.length_map] at hlength
    rw [hlength]
  -- no entry became a reference, or it would have been left out of the writes
  have hstays : ∀ p ∈ kept m es, ∀ s ∈ ["from", "to"],
      (moved m p).1.face? ≠ some (.text s) := by
    intro p hp s hs
    refine not_end_of_entered hedge hdistinct (hwrites p hp) ?_ hs
    rw [← horder]
    exact hperm.mem_iff.mpr (List.mem_map_of_mem hp)
  have hfound : ∀ s ∈ ["from", "to"], ∃ p ∈ es,
      (moved m p).1.face? = some (.text s) ∧
      p.1.isIn Reference.fields = true := by
    intro s hs
    obtain ⟨v, hv⟩ := hthere s hs
    rw [Except.ok.inj (hdata.symm.trans (hplaced.toStorage h hes)),
      lookup?_inStorage_iff (hplaced.distinct h hes) rfl] at hv
    obtain ⟨p, hp, hface, -⟩ := hv
    refine ⟨p, hp, hface, ?_⟩
    by_contra hother
    rw [Bool.not_eq_true] at hother
    refine hstays p ?_ s hs hface
    unfold kept
    rw [if_pos hedge]
    exact List.mem_filter.mpr ⟨hp, by rw [hother]; rfl⟩
  have hend := ends_stay hes hplaced hfound
  refine ⟨hplaced, fun p hp s hs => ?_⟩
  obtain ⟨e, he, hface, hmoved⟩ := hend s hs
  by_cases hsame : p = e
  · rw [hsame]
    exact iff_of_true hmoved hface
  · refine iff_of_false (fun hpmoved => ?_) fun hpface => hsame ?_
    · exact (hplaced.apart hp he hsame).1 (hpmoved.trans hmoved.symm)
    · exact hes.eq_of_face hp he (hpface.trans hface.symm)

-- =============================================================== every record

/-- A record of a model in which no storage key is the name of anything else,
and the ends have no columns, is undisturbed. -/
theorem undisturbed_of_separate (h : m.Keyed) (hes : Entries.Distinct es)
    (hsep : Separate m (m.idField :: Reference.fields))
    (hwithin : Within m (m.idField :: Reference.fields) es)
    (hends : ∀ f ∈ m.fields, f.name.isIn Reference.fields = true →
      f.key.face? = f.name.face?) :
    Undisturbed m es := by
  refine ⟨placed_of_separate h hsep hes hwithin, fun p _ s hs => ?_⟩
  have hend : .text s ∈ m.idField :: Reference.fields := by
    refine List.mem_cons_of_mem _ ?_
    simp only [List.mem_cons, List.not_mem_nil, or_false] at hs
    rcases hs with rfl | rfl
    · exact List.mem_cons_self
    · exact List.mem_cons_of_mem _ List.mem_cons_self
  rcases moved_of_separate h.toFaced hsep hwithin p with hstays
    | ⟨f, hf, hname, hmoved, -, hothers⟩
  · rw [hstays]
  · refine iff_of_false (fun hface => hothers _ hend (hmoved.symm.trans hface))
      fun hface => ?_
    have hstays :=
      hends f hf (isIn_fields_iff.mpr ⟨s, hs, hname.symm.trans hface⟩)
    exact hothers _ hend (hstays.trans (hname.symm.trans hface))

/-- The creation of an edge from a record with both references, whose other
values have stored forms, appends the steps for the edge between what is
referred to and one step for each other entry, in some order, just when the
record is undisturbed. If it is, and the first or else the second reference is
missing, malformed or without a text, the creation fails for that and appends
nothing. The value of a field is written in the form of its type, if no field
of another type is named like its storage key. -/
theorem edge_appended (h : m.Faced) (hedge : m.isEdge = true)
    (hes : Entries.Distinct es) (start : List Step) :
    (∀ origin target into,
      Reference.Reads "from" (Entries.field "from" es) (.ok origin) →
      Reference.Reads "to" (Entries.field "to" es) (.ok target) →
      (∀ p ∈ kept m es, Writes m p (into p)) →
        ((∃ order : Entries, order.Perm ((kept m es).map into) ∧
          (create m (.map es)).runFrom start
          = (.ok (), start ++ edgeBetween m origin target
            ++ order.map Graph.put)) ↔
            Undisturbed m es)) ∧
    (Undisturbed m es →
      (∀ e, Reference.Reads "from" (Entries.field "from" es) (.error e) →
        (create m (.map es)).runFrom start = (.error e, start)) ∧
      ∀ origin e, Reference.Reads "from" (Entries.field "from" es)
        (.ok origin) →
        Reference.Reads "to" (Entries.field "to" es) (.error e) →
          (create m (.map es)).runFrom start = (.error e, start)) ∧
    (m.Keyed → ∀ f ∈ m.fields, f.key.face? ≠ m.idField.face? →
      (∀ g ∈ m.fields, g.name.face? = f.key.face? → g.type = f.type) →
      ∀ p q, p.1.face? = f.name.face? →
        (Writes m p q ↔ q.1 = (moved m p).1 ∧
          serialize (some f.type) p.2 = .ok q.2)) := by
  refine ⟨fun origin target into horigin htarget hwrites =>
      ⟨?_, fun hfree => ?_⟩, fun hfree =>
    ⟨fun e herror => ?_, fun origin e horigin herror => ?_⟩,
    fun h f hf hother hshared _ _ hname =>
      writes_iff_of_field h hf hname hother hshared⟩
  -- from the run to the record, then back; the two failures read the front
  -- alone
  · rintro ⟨order, hperm, hrun⟩
    refine undisturbed_of_run h hedge hes (fun s hs => ?_) hwrites hperm hrun
    simp only [List.mem_cons, List.not_mem_nil, or_false] at hs
    rcases hs with rfl | rfl
    · exact Reference.there_of_parse horigin.parse_eq
    · exact Reference.there_of_parse htarget.parse_eq
  · exact runFrom_undisturbed h hedge hes hfree horigin htarget hwrites start
  · rw [runFrom_create (hfree.placed.toStorage h hes), front_eq hedge,
      hfree.field_eq h hes (by simp), herror.parse_eq]
    rfl
  · rw [runFrom_create (hfree.placed.toStorage h hes), front_eq hedge,
      hfree.field_eq h hes (by simp), hfree.field_eq h hes (by simp),
      horigin.parse_eq, herror.parse_eq]
    rfl

/-- A model with a field for the vertex that an edge comes from, stored under a
column. -/
def joinModel (column : Value) : Model where
  label := .text "Follows"
  name := "Follows"
  named := rfl
  kind := .edge
  fields := [⟨.text "from", .string, column⟩,
    ⟨.text "since", .number, .text "year"⟩]
  retry := .standard
  idField := .text "id"

def joinRecord : Entries :=
  [(.text "from", .text "Person/p1"), (.text "to", .text "Person/p2"),
    (.text "since", .text "1999")]

/-- Without a column the edge is made, and with one it is not. -/
theorem edge_appended_column :
    (∃ order : Entries, order.Perm [(.text "year", .int 1999)] ∧
      (create (joinModel .null) (.map joinRecord)).runFrom []
        = (.ok (), edgeBetween (joinModel .null) ("Person", "p1")
            ("Person", "p2") ++ order.map Graph.put)) ∧
    ¬∃ order : Entries, order.Perm [(.text "year", .int 1999)] ∧
      (create (joinModel (.text "src")) (.map joinRecord)).runFrom []
        = (.ok (), edgeBetween (joinModel (.text "src")) ("Person", "p1")
            ("Person", "p2") ++ order.map Graph.put) := by
  -- both definitions meet the hypotheses; they differ in the column alone
  have hfaced : ∀ column : Value, column = .null ∨ column = .text "src" →
      (joinModel column).Faced := by
    intro column hcolumn
    have hnames :
      [some (Face.text "from"), some (Face.text "since")].Nodup := by decide
    refine ⟨fun f hf => ?_, fun f hf => ?_, hnames⟩
    · rcases List.mem_cons.mp hf with rfl | hf
      · exact ⟨_, rfl⟩
      · rw [List.mem_singleton.mp hf]
        exact ⟨_, rfl⟩
    · rcases List.mem_cons.mp hf with rfl | hf
      · rcases hcolumn with rfl | rfl <;> exact ⟨_, rfl⟩
      · rw [List.mem_singleton.mp hf]
        exact ⟨_, rfl⟩
  have hrecord : Entries.Distinct joinRecord := by
    refine ⟨fun p hp => ?_, by decide⟩
    simp only [joinRecord, List.mem_cons, List.not_mem_nil, or_false] at hp
    rcases hp with rfl | rfl | rfl <;> exact ⟨_, rfl⟩
  have horigin : Reference.Reads "from" (Entries.field "from" joinRecord)
      (.ok ("Person", "p1")) :=
    .named rfl ⟨by decide, by decide⟩ ⟨by decide, by decide⟩
  have htarget : Reference.Reads "to" (Entries.field "to" joinRecord)
      (.ok ("Person", "p2")) :=
    .named rfl ⟨by decide, by decide⟩ ⟨by decide, by decide⟩
  have hwrites : ∀ column : Value, column = .null ∨ column = .text "src" →
      ∀ p ∈ kept (joinModel column) joinRecord,
        Writes (joinModel column) p (.text "year", .int 1999) := by
    intro column hcolumn p hp
    obtain rfl : p = (.text "since", .text "1999") := List.mem_singleton.mp hp
    rcases hcolumn with rfl | rfl <;> exact ⟨rfl, rfl⟩
  obtain ⟨hkept, -⟩ := edge_appended (hfaced _ (.inl rfl)) rfl hrecord []
  obtain ⟨hlost, -⟩ := edge_appended (hfaced _ (.inr rfl)) rfl hrecord []
  refine ⟨(hkept _ _ _ horigin htarget (hwrites _ (.inl rfl))).mpr
    ⟨by decide, by decide⟩, fun happended => ?_⟩
  have hfree :=
    (hlost _ _ _ horigin htarget (hwrites _ (.inr rfl))).mp happended
  have hend := hfree.ends (.text "from", .text "Person/p1") List.mem_cons_self
    "from" (by simp)
  exact absurd (hend.mpr rfl) (by decide)

end Query

end GraphMapper
