/-
Writing a record.

Renaming takes the entries of a record that have to move, in the order of the
record, and puts each behind all others; the rest stays in place
(`toStorage_eq`). For a record of declared fields no entry gets in the way of
another one, so what is stored under a field's storage key is what the record
has for the field (`lookup?_inStorage`), and it is written as the type of that
field (`typeFor_key`).

# Halfway

Renaming goes through the keys of the record as it was and changes it under
way. So the statement that carries the induction is about a record of which
some entries have been moved and the others have not (`halfway`). The entries
of it are different as long as no storage key is the name of another field, and
then the next one that moves takes nothing with it.

Chain: `Model.Keys` and `Value.Entries`; `Record.Renaming` says what happens
without these assumptions.
-/
import GraphMapper.Proofs.Model.Keys
import GraphMapper.Proofs.Record.Stored
import GraphMapper.Proofs.Value.Entries
import GraphMapper.Record.Write

namespace GraphMapper

namespace Record

variable {m : Model} {f : Field} {es more : Entries} {p : Value × Value}
  {key : Value}

/-- A record of declared fields: a mapping, with the names of fields for its
keys. -/
structure Declared (m : Model) (es : Entries) : Prop where
  distinct : Entries.Distinct es
  plain : ∀ p ∈ es, p.1.IsPlain
  field : ∀ p ∈ es, p.1.face? = m.idField.face? ∨ ∃ f ∈ m.others,
    p.1.face? = f.name.face?

/-- A record of declared fields, however their names are spelled. -/
structure Named (m : Model) (es : Entries) : Prop where
  distinct : Entries.Distinct es
  field : ∀ p ∈ es, p.1.face? = m.idField.face? ∨ ∃ f ∈ m.others,
    p.1.face? = f.name.face?

/-- Records of declared fields name them. -/
theorem Declared.named (h : Declared m es) : Named m es :=
  ⟨h.distinct, h.field⟩

/-- In another order they do too. -/
theorem Named.perm (h : Named m es) (hperm : es.Perm more) : Named m more :=
  ⟨h.distinct.perm hperm, fun p hp => h.field p (hperm.mem_iff.mpr hp)⟩

-- ============================================================ single entries

/-- The entry has to move to the column of its field. -/
def renames (m : Model) (p : Value × Value) : Bool :=
  (m.column p.1).isGiven && !(m.column p.1).equal p.1

/-- What becomes of an entry when it is renamed. -/
def renamed (m : Model) (p : Value × Value) : Value × Value :=
  (m.column p.1, p.2)

/-- A key that stays is left where it is. -/
theorem renameKey_of_stays (hkey : p.1.isKey = true)
    (hstays : renames m p = false) (acc : Entries) :
    renameKey m acc p.1 = .ok acc := by
  have hnew : newKey? m p.1 = .ok none := by
    unfold newKey? Model.columnOf
    rw [if_pos hkey]
    show Except.ok (if renames m p = true then some (m.column p.1) else none)
        = _
    rw [hstays]
    rfl
  unfold renameKey
  rw [hnew]
  rfl

/-- One that moves is taken out and put behind the others. -/
theorem renameKey_of_renames (hkey : p.1.isKey = true)
    (hrenames : renames m p = true) (hcolumn : (m.column p.1).isKey = true)
    (acc : Entries) :
    renameKey m acc p.1
      = .ok (Entries.insert (m.column p.1) (Entries.get p.1 acc)
        (Entries.erase p.1 acc)) := by
  have hnew : newKey? m p.1 = .ok (some (m.column p.1)) := by
    unfold newKey? Model.columnOf
    rw [if_pos hkey]
    show Except.ok (if renames m p = true then some (m.column p.1) else none)
        = _
    rw [hrenames]
    rfl
  unfold renameKey
  rw [hnew]
  exact if_pos hcolumn

/-- An entry under the storage key of its field. -/
def moved (m : Model) (p : Value × Value) : Value × Value :=
  if renames m p then renamed m p else p

/-- The value moves along. -/
theorem value_moved (m : Model) (p : Value × Value) : (moved m p).2 = p.2 := by
  unfold moved
  split <;> rfl

/-- An entry for a field stands under the storage key of the field. -/
theorem face_moved (h : m.Faced) (hf : f ∈ m.fields)
    (hp : p.1.face? = f.name.face?) :
    (moved m p).1.face? = f.key.face? := by
  obtain ⟨face, hface⟩ := h.facedName f hf
  have hcolumn := h.column_eq hf hp
  unfold moved renames renamed Field.key
  rw [hcolumn]
  by_cases hgiven : f.column.isGiven = true
  · rw [hgiven, Bool.true_and, if_pos rfl]
    by_cases hequal : f.column.equal p.1 = true
    · rw [hequal, Bool.not_true, if_neg Bool.false_ne_true]
      rw [hface] at hp
      rw [hp, (Value.equal_iff_face hp).mp hequal]
    · rw [Bool.not_eq_true] at hequal
      rw [hequal, Bool.not_false, if_pos rfl]
  · rw [Bool.not_eq_true] at hgiven
    rw [hgiven, Bool.false_and, if_neg Bool.false_ne_true,
      if_neg Bool.false_ne_true, hp]

/-- A record of one field is that field under its storage key. -/
theorem toStorage_single (h : m.Faced) (hf : f ∈ m.fields)
    (hp : p.1.face? = f.name.face?) :
    toStorage m [p] = .ok [moved m p] := by
  obtain ⟨face, hface⟩ := h.facedName f hf
  rw [hface] at hp
  have hkey := Value.isKey_of_face hp
  have hself : p.1.sameKey p.1 = true := (Value.sameKey_iff_face hp).mpr hp
  show (renameKey m [p] p.1 >>= fun acc => pure acc) = _
  rw [bind_pure]
  unfold moved
  by_cases hrenames : renames m p = true
  · obtain ⟨keyFace, hkeyFace⟩ := h.facedKey f hf
    have hmoved := face_moved h hf (hp.trans hface.symm)
    rw [moved, if_pos hrenames, hkeyFace] at hmoved
    have hget : Entries.get p.1 [p] = p.2 := by
      unfold Entries.get
      rw [Entries.lookup?_cons, if_pos hself]
      rfl
    have herase : Entries.erase p.1 [p] = [] := by
      show (if p.1.sameKey p.1 = true then [] else _) = []
      rw [if_pos hself]
    rw [if_pos hrenames,
      renameKey_of_renames hkey hrenames (Value.isKey_of_face hmoved),
      hget, herase]
    rfl
  · rw [if_neg hrenames]
    exact renameKey_of_stays hkey (Bool.eq_false_iff.mpr hrenames) [p]

-- ======================================================== one after the other

/-- A record under storage keys. -/
def inStorage (m : Model) (es : Entries) : Entries :=
  es.filter (fun p => !renames m p) ++ (es.filter (renames m)).map (renamed m)

/-- A record with the first entries in their places. -/
def halfway (m : Model) (done rest : Entries) : Entries :=
  done.filter (fun p => !renames m p) ++ rest
    ++ (done.filter (renames m)).map (renamed m)

/-- When all are done, the record is in storage. -/
theorem halfway_nil (m : Model) (es : Entries) :
    halfway m es [] = inStorage m es := by
  unfold halfway inStorage
  rw [List.append_nil]

/-- The next entry moves behind all others, or stays. -/
private theorem renameKey_halfway {done rest : Entries}
    (hcolumn : renames m p = true → (m.column p.1).isKey = true)
    (hbefore : Entries.Distinct (halfway m done (p :: rest)))
    (hafter : Entries.Distinct (halfway m (done ++ [p]) rest)) :
    renameKey m (halfway m done (p :: rest)) p.1
      = .ok (halfway m (done ++ [p]) rest) := by
  have hplaced : halfway m done (p :: rest)
      = done.filter (fun p => !renames m p)
        ++ p :: (rest ++ (done.filter (renames m)).map (renamed m)) := by
    simp [halfway]
  have hmem : p ∈ halfway m done (p :: rest) := by
    rw [hplaced]
    exact List.mem_append_right _ List.mem_cons_self
  obtain ⟨face, hface⟩ := hbefore.faced p hmem
  have hkey := Value.isKey_of_face hface
  by_cases hrenames : renames m p = true
  · have hmoved : halfway m (done ++ [p]) rest
        = done.filter (fun p => !renames m p)
          ++ (rest ++ (done.filter (renames m)).map (renamed m))
            ++ [renamed m p] := by
      simp [halfway, List.filter_append, hrenames]
    have hget : Entries.get p.1 (halfway m done (p :: rest)) = p.2 := by
      unfold Entries.get
      rw [hbefore.lookup?_of_mem hmem hface hface]
      rfl
    rw [renameKey_of_renames hkey hrenames (hcolumn hrenames), hget, hmoved]
    rw [hplaced] at hbefore ⊢
    rw [hmoved] at hafter
    exact congrArg Except.ok (hbefore.insert_erase hafter)
  · rw [Bool.not_eq_true] at hrenames
    rw [renameKey_of_stays hkey hrenames]
    simp [halfway, List.filter_append, hrenames]

/-- One entry after the other finds its place, if none gets in the way of
another. -/
private theorem renameKeys_halfway (rest : Entries) {done : Entries}
    (hcolumn : ∀ p ∈ done ++ rest, renames m p = true →
      (m.column p.1).isKey = true)
    (hdistinct : ∀ first later, first ++ later = done ++ rest →
      Entries.Distinct (halfway m first later)) :
    (Entries.keys rest).foldlM (renameKey m) (halfway m done rest)
      = .ok (inStorage m (done ++ rest)) := by
  induction rest generalizing done with
  | nil =>
      rw [List.append_nil, ← halfway_nil]
      rfl
  | cons p rest ih =>
      have hregroup : done ++ p :: rest = done ++ [p] ++ rest := by simp
      have hmem : p ∈ done ++ p :: rest :=
        List.mem_append_right _ List.mem_cons_self
      show (renameKey m (halfway m done (p :: rest)) p.1 >>= fun acc =>
        (Entries.keys rest).foldlM (renameKey m) acc) = _
      rw [renameKey_halfway (hcolumn p hmem) (hdistinct _ _ rfl)
        (hdistinct _ _ hregroup.symm)]
      rw [hregroup] at hcolumn hdistinct ⊢
      exact ih hcolumn hdistinct

/-- If entries do not meet on the way, all are moved in turn. -/
theorem toStorage_of_distinct
    (hcolumn : ∀ p ∈ es, renames m p = true → (m.column p.1).isKey = true)
    (hdistinct : ∀ first later,
      first ++ later = es → Entries.Distinct (halfway m first later)) :
    toStorage m es = .ok (inStorage m es) := by
  have hstart : (Entries.keys es).foldlM (renameKey m) (halfway m [] es)
      = .ok (inStorage m ([] ++ es)) := renameKeys_halfway es hcolumn hdistinct
  rw [show halfway m [] es = es from List.append_nil es] at hstart
  exact hstart

-- ====================================================== fields that are apart

variable (h : m.Unmixed)

include h

/-- The primary key stays where it is. -/
private theorem stays_of_idField (hp : p.1.face? = m.idField.face?) :
    renames m p = false := by
  obtain ⟨face, hface⟩ := h.facedId
  have hcolumn : (m.column p.1).isGiven = false := by
    unfold Model.column
    cases hfound : m.field? p.1 with
    | none => rfl
    | some f =>
        have hsame := List.find?_some hfound
        have hname := (Value.sameKey_iff_face (hp.trans hface)).mp hsame
        exact h.column f (List.mem_of_find?_eq_some hfound)
          (hname.trans hface.symm)
  unfold renames
  rw [hcolumn]
  rfl

/-- What moves belongs to a field, and goes to its storage key. -/
private theorem field_of_renames (hes : Named m es) (hp : p ∈ es)
    (hrenames : renames m p = true) :
    ∃ f ∈ m.others, p.1.face? = f.name.face? ∧ m.column p.1 = f.key := by
  rcases hes.field p hp with hid | ⟨f, hf, hname⟩
  · rw [stays_of_idField h hid] at hrenames
    cases hrenames
  · have hcolumn := h.column_eq (Model.mem_fields_of_others hf) hname
    have hgiven : f.column.isGiven = true := by
      unfold renames at hrenames
      rw [hcolumn, Bool.and_eq_true] at hrenames
      exact hrenames.1
    refine ⟨f, hf, hname, ?_⟩
    rw [hcolumn, Field.key, if_pos hgiven]

/-- What stays is under its storage key already. -/
private theorem key_of_stays (hes : Named m es) (hp : p ∈ es)
    (hstays : renames m p = false) (hf : f ∈ m.others)
    (hname : p.1.face? = f.name.face?) : p.1.face? = f.key.face? := by
  obtain ⟨face, hface⟩ := hes.distinct.faced p hp
  unfold renames at hstays
  rw [h.column_eq (Model.mem_fields_of_others hf) hname] at hstays
  by_cases hgiven : f.column.isGiven = true
  · rw [hgiven, Bool.true_and, Bool.not_eq_false'] at hstays
    rw [Field.key, if_pos hgiven, hface,
      (Value.equal_iff_face hface).mp hstays]
  · rw [Field.key, if_neg hgiven, hname]

/-- The storage key of a field is neither the primary key nor the name of
another field. -/
private theorem name_of_key (hes : Named m es) (hp : p ∈ es)
    (hf : f ∈ m.others)
    (hkey : p.1.face? = f.key.face?) : p.1.face? = f.name.face? := by
  rcases hes.field p hp with hid | ⟨g, hg, hname⟩
  · exact absurd (hkey.symm.trans hid) (h.own f hf)
  · by_cases hsame : f.name.face? = g.name.face?
    · rw [hname, hsame]
    · exact absurd (hkey.symm.trans hname)
        (h.crossed f (Model.mem_fields_of_others hf) g
          (Model.mem_fields_of_others hg) hsame)

-- ============================================================== whole records

/-- Moving some entries gets in the way of no other. -/
private theorem distinct_renamed {kept moved : Entries}
    (hes : Named m (kept ++ moved))
    (hmoved : ∀ p ∈ moved, renames m p = true) :
    Entries.Distinct (kept ++ moved.map (renamed m)) := by
  have hfield : ∀ p ∈ moved, ∃ f ∈ m.others, p.1.face? = f.name.face? ∧
      m.column p.1 = f.key :=
    fun p hp => field_of_renames h hes (List.mem_append_right _ hp)
      (hmoved p hp)
  have hfaces : Entries.faces (kept ++ moved)
      = Entries.faces kept ++ Entries.faces moved :=
    List.map_append
  have hapart := hes.distinct.apart
  rw [hfaces] at hapart
  obtain ⟨hkept, hfirst, hbetween⟩ := List.nodup_append.mp hapart
  refine ⟨fun q hq => ?_, ?_⟩
  · rcases List.mem_append.mp hq with hq | hq
    · exact hes.distinct.faced q (List.mem_append_left _ hq)
    · obtain ⟨p, hp, rfl⟩ := List.mem_map.mp hq
      obtain ⟨f, hf, -, hcolumn⟩ := hfield p hp
      show ∃ face, (m.column p.1).face? = some face
      rw [hcolumn]
      exact h.facedKey f (Model.mem_fields_of_others hf)
  · have hmap : Entries.faces (kept ++ moved.map (renamed m))
        = Entries.faces kept ++ moved.map fun p => (m.column p.1).face? := by
      unfold Entries.faces
      rw [List.map_append, List.map_map]
      rfl
    rw [hmap]
    refine List.nodup_append.mpr ⟨hkept, ?_, fun a ha b hb hab => ?_⟩
    · -- two that move go to different columns
      refine List.pairwise_map.mpr ((List.pairwise_map.mp hfirst).imp_of_mem
        fun {p q} hp hq hne hsame => hne ?_)
      obtain ⟨f, hf, hname, hcolumn⟩ := hfield p hp
      obtain ⟨g, hg, hname', hcolumn'⟩ := hfield q hq
      rw [hcolumn, hcolumn'] at hsame
      rw [hname, hname', h.eq_of_key (Model.mem_fields_of_others hf)
        (Model.mem_fields_of_others hg) hsame]
    · -- nothing that stays is in a column that something moves to
      obtain ⟨q, hq, rfl⟩ := List.mem_map.mp ha
      obtain ⟨p, hp, rfl⟩ := List.mem_map.mp hb
      obtain ⟨f, hf, hname, hcolumn⟩ := hfield p hp
      rw [hcolumn] at hab
      have hsame := name_of_key h hes (List.mem_append_left _ hq) hf hab
      exact hbetween _ (List.mem_map_of_mem hq) _ (List.mem_map_of_mem hp)
        (hsame.trans hname.symm)

/-- Entries that name fields do not meet on the way. -/
private theorem distinct_halfway {done rest : Entries}
    (hes : Named m (done ++ rest)) :
    Entries.Distinct (halfway m done rest) := by
  refine distinct_renamed h (hes.perm ?_) fun p hp => (List.mem_filter.mp hp).2
  have hsplit :=
    (List.filter_append_perm (renames m) done).symm.append_right rest
  rw [List.append_assoc] at hsplit
  exact hsplit.trans List.perm_append_comm

/-- A record of declared fields can be brought under storage keys. -/
theorem toStorage_eq (hes : Named m es) :
    toStorage m es = .ok (inStorage m es) := by
  refine toStorage_of_distinct (fun p hp hrenames => ?_)
      fun first later hall =>
    distinct_halfway h (hall ▸ hes)
  obtain ⟨f, hf, -, hcolumn⟩ := field_of_renames h hes hp hrenames
  obtain ⟨face, hface⟩ := h.facedKey f (Model.mem_fields_of_others hf)
  rw [hcolumn]
  exact Value.isKey_of_face hface

/-- Nor in the end. -/
theorem distinct_inStorage (hes : Named m es) :
    Entries.Distinct (inStorage m es) := by
  have hdone : Entries.Distinct (halfway m es []) :=
    distinct_halfway h (by rwa [List.append_nil])
  rwa [halfway_nil] at hdone

/-- Under storage keys there is the primary key, and what belongs to other
fields. -/
theorem mem_inStorage (hes : Named m es) (hp : p ∈ inStorage m es) :
    p.1.face? = m.idField.face? ∨ ∃ f ∈ m.others, p.1.face? = f.key.face? := by
  rcases List.mem_append.mp hp with hp | hp
  · obtain ⟨hmem, hstays⟩ := List.mem_filter.mp hp
    rw [Bool.not_eq_true'] at hstays
    rcases hes.field p hmem with hid | ⟨f, hf, hname⟩
    · exact .inl hid
    · exact .inr ⟨f, hf, key_of_stays h hes hmem hstays hf hname⟩
  · obtain ⟨q, hq, rfl⟩ := List.mem_map.mp hp
    obtain ⟨hmem, hrenames⟩ := List.mem_filter.mp hq
    obtain ⟨f, hf, -, hcolumn⟩ := field_of_renames h hes hmem hrenames
    rw [renamed, hcolumn]
    exact .inr ⟨f, hf, rfl⟩

omit h in
/-- If names and storage keys are plain, then so are the keys of the stored
record. -/
theorem plain_inStorage (h : m.Apart) (hs : m.Storable) (hes : Declared m es)
    (hp : p ∈ inStorage m es) : p.1.IsPlain := by
  rcases List.mem_append.mp hp with hp | hp
  · exact hes.plain p (List.mem_filter.mp hp).1
  · obtain ⟨q, hq, rfl⟩ := List.mem_map.mp hp
    obtain ⟨hmem, hrenames⟩ := List.mem_filter.mp hq
    obtain ⟨f, hf, -, hcolumn⟩ :=
      field_of_renames (h.unmixed hs) hes.named hmem hrenames
    rw [renamed, hcolumn]
    exact h.plainKey f (Model.mem_fields_of_others hf)

/-- Under the storage key of a field there is what the record has for the
field. -/
theorem lookup?_inStorage (hes : Named m es) (hf : f ∈ m.others) :
    Entries.lookup? f.key (inStorage m es) = Entries.lookup? f.name es := by
  have hmem := Model.mem_fields_of_others hf
  obtain ⟨keyFace, hkey⟩ := h.facedKey f hmem
  obtain ⟨nameFace, hname⟩ := h.facedName f hmem
  refine Option.ext fun v => ?_
  rw [(distinct_inStorage h hes).lookup?_eq_some_iff hkey,
    hes.distinct.lookup?_eq_some_iff hname]
  -- an entry under the column came from the field's name, moved or not
  constructor
  · rintro ⟨p, hp, hface, rfl⟩
    rcases List.mem_append.mp hp with hp | hp
    · have hown := (List.mem_filter.mp hp).1
      exact ⟨p, hown,
        (name_of_key h hes hown hf (hface.trans hkey.symm)).trans hname, rfl⟩
    · obtain ⟨q, hq, rfl⟩ := List.mem_map.mp hp
      obtain ⟨hown, hrenames⟩ := List.mem_filter.mp hq
      obtain ⟨g, hg, hqname, hcolumn⟩ := field_of_renames h hes hown hrenames
      rw [renamed, hcolumn] at hface
      have hsame : g = f :=
        h.eq_of_key (Model.mem_fields_of_others hg) hmem
          (hface.trans hkey.symm)
      rw [hsame] at hqname
      exact ⟨q, hown, hqname.trans hname, rfl⟩
  · rintro ⟨p, hp, hface, rfl⟩
    have hpname : p.1.face? = f.name.face? := hface.trans hname.symm
    by_cases hrenames : renames m p = true
    · obtain ⟨g, hg, hgname, hcolumn⟩ := field_of_renames h hes hp hrenames
      have hsame : g = f :=
        h.eq_of_name (Model.mem_fields_of_others hg) hmem
          (hgname.symm.trans hpname)
      refine ⟨renamed m p, List.mem_append_right _ (List.mem_map_of_mem ?_),
        ?_, rfl⟩
      · exact List.mem_filter.mpr ⟨hp, hrenames⟩
      · rw [renamed, hcolumn, hsame, hkey]
    · rw [Bool.not_eq_true] at hrenames
      refine ⟨p, List.mem_append_left _ (List.mem_filter.mpr ⟨hp, ?_⟩), ?_,
        rfl⟩
      · rw [hrenames]
        rfl
      · rw [key_of_stays h hes hp hrenames hf hpname, hkey]

-- ================================================================= the types

omit h in
/-- A key that is equal to a column that is given tells what the field is
stored under. -/
private theorem key_of_column {face : Face} (hkey : key.face? = some face)
    (hcolumn : f.column.equal key = true)
    (hgiven : decide (face ≠ .number 0 ∧ face ≠ .text "") = true) :
    f.key.face? = some face := by
  have hface := (Value.equal_iff_face hkey).mp hcolumn
  rw [Field.key, if_pos (by rw [Value.isGiven_of_face hface, hgiven]), hface]

omit h in
/-- What is stored for a field has its type, if no field of another type is
named like its storage key. -/
theorem typeFor_of_keyed (h : m.Keyed) (hf : f ∈ m.fields)
    (hkey : key.face? = f.key.face?)
    (hshared : ∀ g ∈ m.fields, g.name.face? = f.key.face? → g.type = f.type) :
    typeFor m key = some f.type := by
  obtain ⟨face, hface⟩ := h.facedKey f hf
  rw [hface] at hkey
  unfold typeFor Model.type?
  -- by name first; only when no name fits, by column
  cases hfound : m.field? key with
  | some g =>
      have hsame := List.find?_some hfound
      have hname := (Value.sameKey_iff_face hkey).mp hsame
      have htype :=
        hshared g (List.mem_of_find?_eq_some hfound) (hname.trans hface.symm)
      rw [← htype]
      rfl
  | none =>
      have hcolumn : f.column.isGiven = true := by
        by_cases hgiven : f.column.isGiven = true
        · exact hgiven
        · rw [Field.key, if_neg hgiven] at hface
          rw [h.field?_eq hf (hkey.trans hface.symm)] at hfound
          cases hfound
      have hown : f.column.face? = some face := by
        rw [← hface, Field.key, if_pos hcolumn]
      have hequal : f.column.equal key = true :=
        (Value.equal_iff_face hkey).mpr hown
      show (m.fields.find? fun f => f.column.equal key).map (·.type) = _
      cases hcolumns : m.fields.find? fun f => f.column.equal key with
      | none => exact absurd hequal (List.find?_eq_none.mp hcolumns f hf)
      | some g =>
          have hgiven := (Value.isGiven_of_face hown).symm.trans hcolumn
          have hequal' := List.find?_some hcolumns
          have hgkey := key_of_column hkey hequal' hgiven
          rw [h.eq_of_key (List.mem_of_find?_eq_some hcolumns) hf
            (hgkey.trans hface.symm)]
          rfl

/-- In a model whose fields are apart, what is stored for a field has its
type. -/
theorem typeFor_key (hf : f ∈ m.others) (hkey : key.face? = f.key.face?) :
    typeFor m key = some f.type := by
  have hmem := Model.mem_fields_of_others hf
  refine typeFor_of_keyed h.toKeyed hmem hkey fun g hg hname => ?_
  -- a field of this name is the field itself
  by_cases hboth : f.name.face? = g.name.face?
  · rw [h.eq_of_name hg hmem hboth.symm]
  · exact absurd hname.symm (h.crossed f hmem g hg hboth)

-- ========================================================= what is stored

omit h in
/-- Writing an entry comes down to writing another one: the id under the
reserved key, or the stored form of its value. -/
def Becomes (m : Model) (p q : Value × Value) : Prop :=
  if p.1.equal m.idField then q = (.idKey, p.2)
  else q.1 = p.1 ∧ serialize (typeFor m p.1) p.2 = .ok q.2

/-- A record with an id, in which every other value has a stored form. -/
structure Complete (m : Model) (es : Entries) (id : Value) :
    Prop extends Declared m es where
  given : Entries.lookup? m.idField es = some id
  serializes : ∀ f ∈ m.others, ∀ v, Entries.lookup? f.name es = some v →
    ∃ w, serialize (some f.type) v = .ok w

/-- A record in which every value but the id has a stored form. -/
structure Writable (m : Model) (es : Entries) : Prop extends Named m es where
  serializes : ∀ f ∈ m.others, ∀ v, Entries.lookup? f.name es = some v →
    ∃ w, serialize (some f.type) v = .ok w

omit h in
/-- Complete records can be written. -/
theorem Complete.writable {id : Value} (hes : Complete m es id) :
    Writable m es :=
  ⟨hes.named, hes.serializes⟩

/-- An entry with the stored form of its value. -/
def formed (m : Model) (p : Value × Value) : Value × Value :=
  (p.1, ((serialize (typeFor m p.1) p.2).toOption).getD .null)

/-- What is written for an entry of a record that can be written. -/
def entered (m : Model) (p : Value × Value) : Value × Value :=
  if p.1.equal m.idField then (.idKey, p.2) else formed m p

/-- What is stored of a record beside the id. -/
def properties (m : Model) (es : Entries) : Entries :=
  ((inStorage m es).filter fun p => !p.1.equal m.idField).map (formed m)

/-- Under the primary key there is what the record has there. -/
theorem lookup?_inStorage_id (hes : Named m es) :
    Entries.lookup? m.idField (inStorage m es)
      = Entries.lookup? m.idField es := by
  obtain ⟨face, hface⟩ := h.facedId
  refine Option.ext fun v => ?_
  rw [(distinct_inStorage h hes).lookup?_eq_some_iff hface,
    hes.distinct.lookup?_eq_some_iff hface]
  constructor
  · rintro ⟨p, hp, hid, rfl⟩
    rcases List.mem_append.mp hp with hp | hp
    · exact ⟨p, (List.mem_filter.mp hp).1, hid, rfl⟩
    · obtain ⟨q, hq, rfl⟩ := List.mem_map.mp hp
      obtain ⟨hown, hrenames⟩ := List.mem_filter.mp hq
      obtain ⟨f, hf, -, hcolumn⟩ := field_of_renames h hes hown hrenames
      rw [renamed, hcolumn] at hid
      exact absurd (hid.trans hface.symm) (h.own f hf)
  · rintro ⟨p, hp, hid, rfl⟩
    refine ⟨p, List.mem_append_left _ (List.mem_filter.mpr ⟨hp, ?_⟩), hid, rfl⟩
    rw [stays_of_idField h (hid.trans hface.symm)]
    rfl

/-- What is written as properties has different keys. -/
theorem distinct_properties (hes : Named m es) :
    Entries.Distinct (properties m es) := by
  have hother : Entries.Distinct ((inStorage m es).filter fun p =>
      !p.1.equal m.idField) :=
    (distinct_inStorage h hes).sublist List.filter_sublist
  refine hother.congr ?_
  unfold properties Entries.keys
  rw [List.map_map]
  rfl

variable (hes : Writable m es)

include hes

/-- Each entry of such a record becomes what is written for it. -/
theorem becomes_entered (hp : p ∈ inStorage m es) :
    Becomes m p (entered m p) := by
  unfold Becomes entered
  by_cases hid : p.1.equal m.idField = true
  · rw [if_pos hid, if_pos hid]
  · rw [if_neg hid, if_neg hid]
    refine ⟨rfl, ?_⟩
    rcases mem_inStorage h hes.toNamed hp with hown | ⟨f, hf, hkey⟩
    · obtain ⟨face, hface⟩ := h.facedId
      exact absurd ((Value.equal_iff_face hface).mpr (hown.trans hface)) hid
    · obtain ⟨face, hface⟩ := h.facedKey f (Model.mem_fields_of_others hf)
      have hfound := (distinct_inStorage h hes.toNamed).lookup?_of_mem hp
        (hkey.trans hface) hface
      rw [lookup?_inStorage h hes.toNamed hf] at hfound
      obtain ⟨w, hw⟩ := hes.serializes f hf p.2 hfound
      rw [formed, typeFor_key h hf hkey, hw]
      rfl

/-- The property of a field is the stored form of what the record has for
it. -/
theorem lookup?_properties (hf : f ∈ m.others) :
    Entries.lookup? f.key (properties m es)
      = (Entries.lookup? f.name es).bind fun v =>
      (serialize (some f.type) v).toOption := by
  obtain ⟨face, hface⟩ := h.facedKey f (Model.mem_fields_of_others hf)
  obtain ⟨idFace, hidFace⟩ := h.facedId
  have hkept : ∀ p ∈ inStorage m es, p.1.sameKey f.key = true →
      (!p.1.equal m.idField) = true := by
    intro p _ hsame
    rw [Bool.not_eq_true', Bool.eq_false_iff]
    intro hequal
    have hid := (Value.equal_iff_face hidFace).mp hequal
    have hkey := (Value.sameKey_iff_face hface).mp hsame
    exact h.own f hf (hface.trans (hkey.symm.trans (hid.trans hidFace.symm)))
  have hformed : ∀ p ∈ (inStorage m es).filter fun p => !p.1.equal m.idField,
      p.1.sameKey f.key = true →
      ((serialize (typeFor m p.1) p.2).toOption).getD .null
        = ((serialize (some f.type) p.2).toOption).getD .null := by
    intro p _ hsame
    rw [typeFor_key h hf
      (((Value.sameKey_iff_face hface).mp hsame).trans hface.symm)]
  show Entries.lookup? f.key
      (((inStorage m es).filter fun p => !p.1.equal m.idField).map fun p =>
    (p.1, ((serialize (typeFor m p.1) p.2).toOption).getD .null)) = _
  rw [Entries.lookup?_map
    (fun v => ((serialize (some f.type) v).toOption).getD .null) hformed,
    Entries.lookup?_filter hkept, lookup?_inStorage h hes.toNamed hf]
  cases hfound : Entries.lookup? f.name es with
  | none => rfl
  | some v =>
      obtain ⟨w, hw⟩ := hes.serializes f hf v hfound
      simp only [Option.map_some, Option.bind_some, hw]
      rfl

-- =============================================================== properties

omit h hes

/-- Properties as the writing of records leaves them: stored forms under
storage keys. -/
structure Held (m : Model) (props : Entries) : Prop where
  distinct : Entries.Distinct props
  plain : ∀ p ∈ props, p.1.IsPlain
  owned : ∀ p ∈ props, ∃ f ∈ m.others, p.1.face? = f.key.face? ∧
    IsStored f.type p.2

/-- No entries are held as they are. -/
theorem held_nil : Held m [] :=
  ⟨Entries.distinct_nil, fun _ hp => (nomatch hp), fun _ hp => (nomatch hp)⟩

/-- One more stored form is written, or one in place of another one. -/
theorem Held.insert (hheld : Held m es) (hf : f ∈ m.others)
    (hplain : key.IsPlain) (hkey : key.face? = f.key.face?) {v : Value}
    (hv : IsStored f.type v) :
    Held m (Entries.insert key v es) := by
  obtain ⟨face, hface⟩ := hplain.faced
  refine ⟨hheld.distinct.put hface v, fun p hp => ?_, fun p hp => ?_⟩
  · rcases Entries.mem_insert hp with hp | ⟨-, heq | ⟨-, q, hq, heq⟩⟩
    · exact hheld.plain p hp
    · rw [heq]
      exact hplain
    · rw [← heq]
      exact hheld.plain q hq
  · rcases Entries.mem_insert hp with hp | ⟨hpv, heq | ⟨hsame, -⟩⟩
    · exact hheld.owned p hp
    · exact ⟨f, hf, by rw [heq, hkey], by rw [hpv]; exact hv⟩
    · have hp' := (Value.sameKey_iff_face hface).mp hsame
      exact ⟨f, hf, by rw [hp', ← hkey, hface], by rw [hpv]; exact hv⟩

end Record

end GraphMapper
