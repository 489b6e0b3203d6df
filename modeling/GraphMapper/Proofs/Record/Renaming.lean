/-
Records that lose an entry when they are brought under storage keys.

Entries are renamed one after the other, in the mapping that is being read. If
the column of one is the name of another, all depends on which of the two comes
first in the record: the later one finds a free place if the earlier one has
moved away, but an earlier one goes to where the later one still stands, and
what stood there is lost (`renameKey_over`). So a record of fields with
different storage keys is kept, every value under its storage key, if and only
if none of its entries goes to the name of a later one (`Unhindered`).

No entry is ever missing when its turn comes, so renaming always gives a
result, and each step leaves as many entries as there were or one less
(`renameKeys_length`). If none is in the way of another one, the records on the
way are distinct, and the result is known (`toStorage_of_unhindered`).

Main statement: `renaming_keeps_iff`.

Chain: `Record.RoundTrip` for fields that are read back, `Record.Writing` for
one entry; `Record.Moving` has records that are stored as a whole.
-/
import GraphMapper.Proofs.Record.RoundTrip

namespace GraphMapper

/-- Fields can be told apart by their storage keys too. The storage key of one
may be the name of another. -/
structure Model.Columned (m : Model) : Prop extends Faced m where
  keys : (m.fields.map fun f => f.key.face?).Nodup

namespace Record

variable {m : Model} {es acc : Entries} {p : Value × Value}

/-- What is stored is the record under storage keys: an entry for each one of
the record, and no other. -/
structure Keeps (m : Model) (es stored : Entries) : Prop where
  distinct : Entries.Distinct stored
  length : stored.length = es.length
  found : ∀ p ∈ es, Entries.lookup? (m.storageKey p.1) stored = some p.2

/-- No entry goes to the name of a later one. -/
def Unhindered (m : Model) (es : Entries) : Prop :=
  es.Pairwise fun p q => (moved m p).1.face? ≠ q.1.face?

instance : DecidablePred (Unhindered m) :=
  fun _ => inferInstanceAs (Decidable (List.Pairwise _ _))

-- ================================================================== one entry

/-- An entry is moved to the storage key of its field. -/
private theorem moved_of_field (h : m.Faced) (hes : OfFields m es)
    (hp : p ∈ es) : ∃ f ∈ m.fields, p.1.face? = f.name.face? ∧
      (moved m p).1.face? = f.key.face? := by
  obtain ⟨f, hf, hname⟩ := hes.field p hp
  exact ⟨f, hf, hname, face_moved h hf hname⟩

theorem face_storageKey (h : m.Faced) (hes : OfFields m es) (hp : p ∈ es) :
    (m.storageKey p.1).face? = (moved m p).1.face? := by
  obtain ⟨f, hf, hname, hkey⟩ := moved_of_field h hes hp
  rw [hkey]
  unfold Model.storageKey Field.key
  rw [h.column_eq hf hname]
  split
  · rfl
  · exact hname

/-- What an entry is to be renamed to is the storage key of a field. -/
private theorem face_column (h : m.Faced) (hrenames : renames m p = true) :
    ∃ face, (m.column p.1).face? = some face := by
  unfold renames at hrenames
  rw [Bool.and_eq_true] at hrenames
  obtain ⟨hgiven, -⟩ := hrenames
  unfold Model.column at hgiven ⊢
  cases hfound : m.field? p.1 with
  | none =>
      rw [hfound] at hgiven
      cases hgiven
  | some f =>
      rw [hfound] at hgiven
      have hkey : f.key = f.column := if_pos hgiven
      show ∃ face, f.column.face? = some face
      rw [← hkey]
      exact h.facedKey f (List.mem_of_find?_eq_some hfound)

theorem face_moved_of_face (h : m.Faced)
    (hface : ∃ face, p.1.face? = some face) :
    ∃ face, (moved m p).1.face? = some face := by
  unfold moved
  split
  · next hrenames => exact face_column h hrenames
  · exact hface

/-- Entries of different fields are moved to different keys. -/
private theorem distinct_moved (h : m.Columned) (hes : OfFields m es) :
    Entries.Distinct (es.map (moved m)) := by
  refine ⟨fun q hq => ?_, List.pairwise_map.mpr (List.pairwise_map.mpr ?_)⟩
  · obtain ⟨p, hp, rfl⟩ := List.mem_map.mp hq
    obtain ⟨f, hf, -, hkey⟩ := moved_of_field h.toFaced hes hp
    rw [hkey]
    exact h.facedKey f hf
  · refine (List.pairwise_map.mp hes.distinct.apart).imp_of_mem
      fun {p q} hp hq hne hsame => hne ?_
    obtain ⟨f, hf, hname, hkey⟩ := moved_of_field h.toFaced hes hp
    obtain ⟨g, hg, hname', hkey'⟩ := moved_of_field h.toFaced hes hq
    have hfield : f = g :=
      List.inj_on_of_nodup_map h.keys hf hg
        (hkey.symm.trans (hsame.trans hkey'))
    rw [hname, hname', hfield]

-- ========================================================= nothing in the way

/-- The places in which the entries stand on the way are of no account. -/
private theorem halfway_perm (m : Model) (first later : Entries) :
    (halfway m first later).Perm (first.map (moved m) ++ later) := by
  have hstay : (first.filter fun p => !renames m p).map (moved m)
      = first.filter fun p => !renames m p := by
    refine (List.map_congr_left fun p hp => ?_).trans (List.map_id _)
    have hstays := (List.mem_filter.mp hp).2
    rw [Bool.not_eq_true'] at hstays
    rw [moved, hstays, if_neg Bool.false_ne_true]
    rfl
  have hmove : (first.filter (renames m)).map (moved m)
      = (first.filter (renames m)).map (renamed m) :=
    List.map_congr_left fun p hp => if_pos (List.mem_filter.mp hp).2
  have hsplit := (List.filter_append_perm (renames m) first).map (moved m)
  rw [List.map_append, hmove, hstay] at hsplit
  refine List.Perm.trans ?_ (hsplit.append_right later)
  unfold halfway
  rw [List.append_assoc _ _ later]
  exact List.perm_append_comm

/-- If no entry goes to the name of a later one, none gets in the way of
another. -/
private theorem distinct_on_the_way (hes : Entries.Distinct es)
    (hmoved : Entries.Distinct (es.map (moved m))) (hfree : Unhindered m es)
    {first later : Entries} (hall : first ++ later = es) :
    Entries.Distinct (halfway m first later) := by
  subst hall
  refine Entries.Distinct.perm ?_ (halfway_perm m first later).symm
  rw [List.map_append] at hmoved
  have hlater := hes.sublist (List.sublist_append_right first later)
  have hcross := (List.pairwise_append.mp hfree).2.2
  refine ⟨fun q hq => ?_, ?_⟩
  · rcases List.mem_append.mp hq with hq | hq
    · exact hmoved.faced q (List.mem_append_left _ hq)
    · exact hlater.faced q hq
  · unfold Entries.faces
    rw [List.map_append]
    refine List.nodup_append.mpr ⟨?_, hlater.apart, fun a ha b hb => ?_⟩
    · exact (hmoved.sublist (List.sublist_append_left _ _)).apart
    · rw [List.map_map] at ha
      obtain ⟨p, hp, rfl⟩ := List.mem_map.mp ha
      obtain ⟨q, hq, rfl⟩ := List.mem_map.mp hb
      exact hcross p hp q hq

/-- So every entry finds its place, if no two have the same. -/
theorem toStorage_of_placed (h : m.Faced) (hes : Entries.Distinct es)
    (hmoved : Entries.Distinct (es.map (moved m))) (hfree : Unhindered m es) :
    toStorage m es = .ok (inStorage m es) :=
  toStorage_of_distinct
    (fun _ _ hrenames => (face_column h hrenames).elim fun _ hface =>
      Value.isKey_of_face hface)
    fun _ _ => distinct_on_the_way hes hmoved hfree

theorem toStorage_of_unhindered (h : m.Columned) (hes : OfFields m es)
    (hfree : Unhindered m es) :
    toStorage m es = .ok (inStorage m es) :=
  toStorage_of_placed h.toFaced hes.distinct (distinct_moved h hes) hfree

/-- The record under storage keys is its entries under theirs. -/
theorem inStorage_perm (m : Model) (es : Entries) :
    (inStorage m es).Perm (es.map (moved m)) := by
  have hall := halfway_perm m es []
  rwa [halfway_nil, List.append_nil] at hall

private theorem keeps_inStorage (h : m.Columned) (hes : OfFields m es) :
    Keeps m es (inStorage m es) := by
  have hperm := inStorage_perm m es
  have hdistinct := (distinct_moved h hes).perm hperm.symm
  refine ⟨hdistinct, ?_, fun p hp => ?_⟩
  · rw [hperm.length_eq, List.length_map]
  · have hmem : moved m p ∈ inStorage m es :=
      hperm.mem_iff.mpr (List.mem_map_of_mem hp)
    obtain ⟨face, hface⟩ := hdistinct.faced _ hmem
    rw [hdistinct.lookup?_of_mem hmem hface
      ((face_storageKey h.toFaced hes hp).trans hface), value_moved]

-- ======================================================= something in the way

theorem length_faces (acc : Entries) :
    (Entries.faces acc).length = acc.length :=
  List.length_map _

/-- A removal takes the face of the key away. -/
private theorem faces_erase {face : Face} {key : Value}
    (hkey : key.face? = some face) (acc : Entries) :
    Entries.faces (Entries.erase key acc)
      = (Entries.faces acc).erase (some face) := by
  induction acc with
  | nil => rfl
  | cons e acc ih =>
      rw [Entries.erase_cons]
      show _ = (e.1.face? :: Entries.faces acc).erase (some face)
      by_cases he : e.1.face? = some face
      · rw [if_pos ((Value.sameKey_iff_face hkey).mpr he), he,
          List.erase_cons_head]
      · rw [if_neg fun hsame => he ((Value.sameKey_iff_face hkey).mp hsame),
          List.erase_cons_tail (by simpa using he), ← ih]
        rfl

/-- An insertion adds the face of the key, if it is new. -/
private theorem faces_insert {face : Face} {key : Value}
    (hkey : key.face? = some face)
    (v : Value) (acc : Entries) : Entries.faces (Entries.insert key v acc)
      = if some face ∈ Entries.faces acc then Entries.faces acc
        else Entries.faces acc ++ [some face] := by
  have hhas : Entries.has key acc = true ↔ some face ∈ Entries.faces acc := by
    unfold Entries.has Entries.faces
    simp only [List.any_eq_true, Value.sameKey_iff_face hkey, List.mem_map]
  have hfaces : ∀ more : Entries,
      Entries.faces more = (Entries.keys more).map Value.face? := by
    intro more
    unfold Entries.faces Entries.keys
    rw [List.map_map]
    rfl
  rw [hfaces (Entries.insert key v acc), Entries.keys_insert]
  simp only [hhas]
  split
  · exact (hfaces acc).symm
  · rw [List.map_append, ← hfaces, List.map_singleton, hkey]

/-- The entries that are still to be renamed are all there. -/
structure Awaits (acc rest : Entries) : Prop where
  distinct : Entries.Distinct acc
  there : ∀ q ∈ rest, q.1.face? ∈ Entries.faces acc

/-- One entry has been renamed. It takes the place of a later one if it goes to
its name; nothing else is lost, and nothing else is new. -/
structure Advances (m : Model) (p : Value × Value)
    (rest acc next : Entries) : Prop where
  awaits : Awaits next rest
  length_le : next.length ≤ acc.length
  lost : (∃ q ∈ rest, (moved m p).1.face? = q.1.face?) →
    next.length < acc.length
  come : ∀ face ∈ Entries.faces next,
    face = (moved m p).1.face? ∨ face ∈ Entries.faces acc ∧ face ≠ p.1.face?

/-- An entry without a column stays. -/
private theorem advances_of_stays {rest : Entries}
    (hacc : Awaits acc (p :: rest)) (hstays : renames m p = false)
    (hothers : ∀ q ∈ rest, q.1.face? ≠ p.1.face?) :
    Advances m p rest acc acc := by
  have hmoved : moved m p = p := by
    rw [moved, hstays, if_neg Bool.false_ne_true]
  refine ⟨⟨hacc.distinct, fun q hq =>
    hacc.there q (List.mem_cons_of_mem _ hq)⟩, le_rfl, ?_,
      fun other hother => ?_⟩
  · rintro ⟨q, hq, hsame⟩
    rw [hmoved] at hsame
    exact absurd hsame.symm (hothers q hq)
  · rw [hmoved]
    exact (em (other = p.1.face?)).imp_right fun hne => ⟨hother, hne⟩

/-- One with a column is removed, and stored again under it. -/
private theorem advances_of_renames {rest : Entries} {face target : Face}
    (hacc : Awaits acc (p :: rest)) (hrenames : renames m p = true)
    (hface : p.1.face? = some face)
    (htarget : (m.column p.1).face? = some target)
    (hothers : ∀ q ∈ rest, q.1.face? ≠ p.1.face?) (v : Value) :
    Advances m p rest acc
      (Entries.insert (m.column p.1) v (Entries.erase p.1 acc)) := by
  have hmoved : (moved m p).1.face? = some target := by
    rw [moved, if_pos hrenames]
    exact htarget
  have hown : some face ∈ Entries.faces acc :=
    hface ▸ hacc.there p List.mem_cons_self
  -- first the entry is taken out, then it is put under its column
  have hleft : Entries.faces (Entries.erase p.1 acc)
      = (Entries.faces acc).erase (some face) :=
    faces_erase hface acc
  have hdistinct : Entries.Distinct (Entries.erase p.1 acc) :=
    hacc.distinct.sublist (Entries.erase_sublist _ _)
  have hlength : (Entries.erase p.1 acc).length + 1 = acc.length := by
    have hfaces := List.length_erase_add_one hown
    rwa [← hleft, length_faces, length_faces] at hfaces
  have hstill : ∀ q ∈ rest,
      q.1.face? ∈ Entries.faces (Entries.erase p.1 acc) := by
    intro q hq
    rw [hleft, List.mem_erase_of_ne (hface ▸ hothers q hq)]
    exact hacc.there q (List.mem_cons_of_mem _ hq)
  have hkept : ∀ other ∈ Entries.faces (Entries.erase p.1 acc),
      other ∈ Entries.faces acc ∧ other ≠ p.1.face? := by
    intro other hin
    rw [hleft, hacc.distinct.apart.mem_erase_iff] at hin
    exact ⟨hin.2, hface ▸ hin.1⟩
  -- from here only what is left matters
  generalize Entries.erase p.1 acc = left at *
  have hput := faces_insert htarget v left
  have hsize : (Entries.insert (m.column p.1) v left).length
      = if some target ∈ Entries.faces left then left.length
        else left.length + 1 := by
    have hfaces := congrArg List.length hput
    rwa [apply_ite List.length, List.length_append, length_faces,
      length_faces] at hfaces
  refine ⟨⟨hdistinct.put htarget _, fun q hq => ?_⟩, ?_, ?_,
    fun other hother => ?_⟩
  · rw [hput]
    split
    · exact hstill q hq
    · exact List.mem_append_left _ (hstill q hq)
  · rw [hsize]
    split <;> omega
  · rintro ⟨q, hq, hsame⟩
    have htaken : some target ∈ Entries.faces left := by
      rw [← hmoved]
      exact hsame ▸ hstill q hq
    rw [hsize, if_pos htaken]
    omega
  · rw [hput] at hother
    split at hother
    · exact .inr (hkept other hother)
    · rcases List.mem_append.mp hother with hin | hin
      · exact .inr (hkept other hin)
      · exact .inl ((List.mem_singleton.mp hin).trans hmoved.symm)

theorem renameKey_over {rest : Entries} (h : m.Faced)
    (hacc : Awaits acc (p :: rest)) (hface : ∃ face, p.1.face? = some face)
    (hothers : ∀ q ∈ rest, q.1.face? ≠ p.1.face?) :
    ∃ next, renameKey m acc p.1 = .ok next ∧ Advances m p rest acc next := by
  obtain ⟨face, hface⟩ := hface
  have hkey := Value.isKey_of_face hface
  by_cases hrenames : renames m p = true
  · obtain ⟨target, htarget⟩ := face_column h hrenames
    exact ⟨_, renameKey_of_renames hkey hrenames (Value.isKey_of_face htarget)
      acc, advances_of_renames hacc hrenames hface htarget hothers _⟩
  · rw [Bool.not_eq_true] at hrenames
    exact ⟨acc, renameKey_of_stays hkey hrenames acc,
      advances_of_stays hacc hrenames hothers⟩

/-- Renaming always comes to an end. It loses an entry if one goes to the name
of a later one, and what there is in the end has been moved there, or was no
entry to be renamed. -/
theorem renameKeys_length (h : m.Faced) (rest : Entries)
    (hacc : Awaits acc rest) (hrest : Entries.Distinct rest) :
    ∃ stored, (Entries.keys rest).foldlM (renameKey m) acc = .ok stored ∧
      Entries.Distinct stored ∧ stored.length ≤ acc.length ∧
      (¬Unhindered m rest → stored.length < acc.length) ∧
      ∀ face ∈ Entries.faces stored,
      face ∈ Entries.faces (rest.map (moved m)) ∨
        face ∈ Entries.faces acc ∧ face ∉ Entries.faces rest := by
  induction rest generalizing acc with
  | nil =>
      refine ⟨acc, rfl, hacc.distinct, le_rfl, fun hfree =>
        absurd List.Pairwise.nil hfree, ?_⟩
      exact fun face hin => .inr ⟨hin, List.not_mem_nil⟩
  | cons p rest ih =>
      obtain ⟨hface, hothers, hdistinct⟩ := Entries.Distinct.cons_iff.mp hrest
      obtain ⟨next, hnext, hawaits, hle, hlt, hfaces⟩ :=
        renameKey_over h hacc hface hothers
      obtain ⟨stored, hstored, hends, hshorter, hlost, hcome⟩ :=
        ih hawaits hdistinct
      refine ⟨stored, ?_, hends, hshorter.trans hle, fun hhindered => ?_,
        fun face hin => ?_⟩
      · show (renameKey m acc p.1 >>= fun acc =>
          (Entries.keys rest).foldlM (renameKey m) acc) = _
        rw [hnext]
        exact hstored
      · -- an entry is in the way of the first one, or of one behind it
        by_cases hfree : Unhindered m rest
        · refine lt_of_le_of_lt hshorter (hlt ?_)
          by_contra hnone
          exact hhindered (List.pairwise_cons.mpr
            ⟨fun q hq hsame => hnone ⟨q, hq, hsame⟩, hfree⟩)
        · exact lt_of_lt_of_le (hlost hfree) hle
      · rcases hcome face hin with hmoved | ⟨hin, hno⟩
        · exact .inl (List.mem_cons_of_mem _ hmoved)
        · rcases hfaces face hin with rfl | ⟨hin, hne⟩
          · exact .inl List.mem_cons_self
          · exact .inr ⟨hin, fun hmem => (List.mem_cons.mp hmem).elim hne hno⟩

private theorem toStorage_loses (h : m.Faced) (hes : OfFields m es)
    (hhindered : ¬Unhindered m es) :
    ∃ stored, toStorage m es = .ok stored ∧ stored.length < es.length := by
  have hawaits : Awaits es es :=
    ⟨hes.distinct, fun q hq => List.mem_map_of_mem hq⟩
  obtain ⟨stored, hstored, -, -, hlost, -⟩ :=
    renameKeys_length h es hawaits hes.distinct
  exact ⟨stored, hstored, hlost hhindered⟩

/-- A record of fields with different storage keys is kept under these, as far
as no entry goes to the name of a later one: then with as many entries,
whatever their order, and otherwise with less. -/
theorem renaming_keeps_iff (h : m.Columned) (hes : OfFields m es) :
    ∃ stored, toStorage m es = .ok stored ∧
      (Keeps m es stored ↔ Unhindered m es) ∧
      (¬Unhindered m es → stored.length < es.length) ∧
      (Unhindered m es → ∀ more, es.Perm more → Unhindered m more →
        ∃ other, toStorage m more = .ok other ∧ stored.Perm other) := by
  by_cases hfree : Unhindered m es
  · refine ⟨inStorage m es, toStorage_of_unhindered h hes hfree,
      iff_of_true (keeps_inStorage h hes) hfree, fun hhindered =>
        absurd hfree hhindered,
      fun _ more hperm hmore => ?_⟩
    have hfields : OfFields m more :=
      ⟨hes.distinct.perm hperm, fun p hp => hes.field p (hperm.mem_iff.mpr hp)⟩
    refine ⟨inStorage m more, toStorage_of_unhindered h hfields hmore, ?_⟩
    exact (inStorage_perm m es).trans
      ((hperm.map _).trans (inStorage_perm m more).symm)
  · obtain ⟨stored, hstored, hlost⟩ := toStorage_loses h.toFaced hes hfree
    refine ⟨stored, hstored, iff_of_false (fun hkeeps => ?_) hfree,
      fun _ => hlost, fun hfree' => absurd hfree' hfree⟩
    exact absurd hkeeps.length (Nat.ne_of_lt hlost)

/-- One field is stored under the name of another, which has a column of its
own. -/
def chainModel : Model where
  label := .text "Chain"
  name := "Chain"
  named := rfl
  kind := .vertex
  fields := [⟨.text "a", .string, .text "b"⟩, ⟨.text "b", .string, .text "c"⟩]
  retry := .standard
  idField := .text "id"

/-- Either of two orders of a record can be brought under storage keys, but one
of them is lost in part. -/
theorem renaming_keeps_iff_chain :
    (∃ stored, toStorage chainModel [(.text "b", .int 2), (.text "a", .int 1)]
      = .ok stored ∧
      Keeps chainModel [(.text "b", .int 2), (.text "a", .int 1)] stored) ∧
    ∃ stored, toStorage chainModel [(.text "a", .int 1), (.text "b", .int 2)]
      = .ok stored ∧ stored.length < 2 := by
  -- one record in two orders: the second field is out of the way only in the
  -- first
  have hmodel : chainModel.Columned := by
    refine ⟨Model.faced_of_texts (fun f hf => ?_) (fun f hf => ?_)
      (by decide), by decide⟩
    · rcases List.mem_cons.mp hf with rfl | hf
      · exact ⟨_, rfl⟩
      · rw [List.mem_singleton.mp hf]
        exact ⟨_, rfl⟩
    · rcases List.mem_cons.mp hf with rfl | hf
      · exact .inr ⟨_, rfl⟩
      · rw [List.mem_singleton.mp hf]
        exact .inr ⟨_, rfl⟩
  have hfields : ∀ {es : Entries},
      es.Perm [(.text "b", .int 2), (.text "a", .int 1)] →
      OfFields chainModel es := by
    intro es hperm
    refine ⟨Entries.Distinct.perm ⟨fun p hp => ?_, by decide⟩ hperm.symm,
      fun p hp => ?_⟩
    · rcases List.mem_cons.mp hp with rfl | hp
      · exact ⟨_, rfl⟩
      · rw [List.mem_singleton.mp hp]
        exact ⟨_, rfl⟩
    · rcases List.mem_cons.mp (hperm.mem_iff.mp hp) with rfl | hp
      · exact ⟨_, List.mem_cons_of_mem _ List.mem_cons_self, rfl⟩
      · rw [List.mem_singleton.mp hp]
        exact ⟨_, List.mem_cons_self, rfl⟩
  obtain ⟨kept, hkept, hiff, -⟩ :=
    renaming_keeps_iff hmodel (hfields (.refl _))
  obtain ⟨lost, hlost, -, hshort, -⟩ :=
    renaming_keeps_iff hmodel (hfields (.swap _ _ _))
  exact ⟨⟨kept, hkept, hiff.mpr (by decide)⟩, lost, hlost, hshort (by decide)⟩

end Record

end GraphMapper
