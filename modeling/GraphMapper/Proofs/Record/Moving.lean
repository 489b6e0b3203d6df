/-
Records whose entries have a place each under storage keys.

A record need not be one of declared fields to be brought under storage keys:
whatever has keys that can be told apart can. It is stored as a whole if no
entry goes to the name of a later one, nor to where a later one goes
(`Placed`), and otherwise it is stored with fewer entries (`toStorage_whole`):
what there is in the end has been moved there, so as many entries as before
have as many places.

In a model whose storage keys are names of nothing else, every record of
declared fields is like that.

Main statement: `toStorage_whole`.
-/
import GraphMapper.Proofs.Record.Renaming

namespace GraphMapper

/-- Entries with keys that cannot be told apart are one. -/
theorem Entries.Distinct.eq_of_face {β : Type} {es : List (Value × β)}
    {d e : Value × β} (h : Entries.Distinct es) (hd : d ∈ es) (he : e ∈ es)
    (hface : d.1.face? = e.1.face?) : d = e :=
  List.inj_on_of_nodup_map h.apart hd he hface

namespace Record

variable {m : Model} {es : Entries} {p : Value × Value} {key v : Value}

/-- No entry goes to the name of a later one, nor to where a later one goes. -/
def Placed (m : Model) (es : Entries) : Prop :=
  es.Pairwise fun p q => (moved m p).1.face? ≠ q.1.face? ∧
    (moved m p).1.face? ≠ (moved m q).1.face?

instance : DecidablePred (Placed m) :=
  fun _ => inferInstanceAs (Decidable (List.Pairwise _ _))

private theorem Placed.unhindered (hplaced : Placed m es) : Unhindered m es :=
  hplaced.imp And.left

theorem Placed.distinct (h : m.Faced) (hes : Entries.Distinct es)
    (hplaced : Placed m es) :
    Entries.Distinct (es.map (moved m)) := by
  refine ⟨fun q hq => ?_,
    List.pairwise_map.mpr (List.pairwise_map.mpr (hplaced.imp And.right))⟩
  obtain ⟨p, hp, rfl⟩ := List.mem_map.mp hq
  exact face_moved_of_face h (hes.faced p hp)

/-- Neither of two entries goes to where the other one stands or goes. -/
theorem Placed.apart {q : Value × Value} (hplaced : Placed m es) (hp : p ∈ es)
    (hq : q ∈ es) (hne : p ≠ q) : (moved m p).1.face? ≠ (moved m q).1.face? ∧
      ((moved m p).1.face? ≠ q.1.face? ∨ (moved m q).1.face? ≠ p.1.face?) := by
  let R (p q : Value × Value) : Prop :=
    (moved m p).1.face? ≠ (moved m q).1.face? ∧
      ((moved m p).1.face? ≠ q.1.face? ∨ (moved m q).1.face? ≠ p.1.face?)
  have hsymm : Std.Symm R := ⟨fun _ _ hpq => ⟨hpq.1.symm, hpq.2.symm⟩⟩
  have hboth : es.Pairwise R := hplaced.imp fun hpq => ⟨hpq.2, .inl hpq.1⟩
  exact hboth.forall hp hq hne

theorem Placed.toStorage (h : m.Faced) (hes : Entries.Distinct es)
    (hplaced : Placed m es) :
    toStorage m es = .ok (inStorage m es) :=
  toStorage_of_placed h hes (hplaced.distinct h hes) hplaced.unhindered

/-- A record can be brought under storage keys, with as many entries just when
they have a place each. -/
theorem toStorage_whole (h : m.Faced) (hes : Entries.Distinct es) :
    ∃ stored, toStorage m es = .ok stored ∧ Entries.Distinct stored ∧
      (stored.length = es.length ↔ Placed m es) := by
  have hawaits : Awaits es es := ⟨hes, fun q hq => List.mem_map_of_mem hq⟩
  obtain ⟨stored, hstored, hdistinct, -, hlost, hcome⟩ :=
    renameKeys_length h es hawaits hes
  refine ⟨stored, hstored, hdistinct, fun hlength => ?_, fun hplaced => ?_⟩
  · have hfree : Unhindered m es := by
      by_contra hhindered
      exact absurd hlength (Nat.ne_of_lt (hlost hhindered))
    have hsubset : Entries.faces stored ⊆ Entries.faces (es.map (moved m)) :=
        fun face hin =>
      (hcome face hin).resolve_right fun hleft => hleft.2 hleft.1
    have hperm : (Entries.faces stored).Perm
        (Entries.faces (es.map (moved m))) := by
      refine (List.subperm_of_subset hdistinct.apart hsubset).perm_of_length_le
        ?_
      rw [length_faces, length_faces, List.length_map, hlength]
    have hapart : (es.map fun p => (moved m p).1.face?).Nodup := by
      have hnodup := hperm.nodup_iff.mp hdistinct.apart
      unfold Entries.faces at hnodup
      rwa [List.map_map] at hnodup
    exact List.pairwise_and_iff.mpr ⟨hfree, List.pairwise_map.mp hapart⟩
  · have hstored' := (hplaced.toStorage h hes).symm.trans hstored
    rw [← Except.ok.inj hstored', (inStorage_perm m es).length_eq,
      List.length_map]

/-- Under a key there is what has been moved there. -/
theorem lookup?_inStorage_iff {face : Face}
    (hmoved : Entries.Distinct (es.map (moved m)))
    (hkey : key.face? = some face) :
    Entries.lookup? key (inStorage m es) = some v ↔
      ∃ p ∈ es, (moved m p).1.face? = some face ∧ p.2 = v := by
  have hperm := inStorage_perm m es
  rw [(hmoved.perm hperm.symm).lookup?_eq_some_iff hkey]
  simp only [hperm.mem_iff, List.mem_map,
    exists_exists_and_eq_and, value_moved]

-- ====================================================== separate storage keys

/-- The storage key of a field is its name, or neither the name of a field nor
one of the others. -/
def Separate (m : Model) (others : List Value) : Prop :=
  ∀ f ∈ m.fields, f.key.face? = f.name.face? ∨
    (∀ g ∈ m.fields, f.key.face? ≠ g.name.face?) ∧ ∀ v ∈ others,
    f.key.face? ≠ v.face?

/-- The entries of a record belong to fields or to the others. -/
def Within (m : Model) (others : List Value) (es : Entries) : Prop :=
  ∀ p ∈ es, (∃ f ∈ m.fields, p.1.face? = f.name.face?) ∨ ∃ v ∈ others,
    p.1.face? = v.face?

variable {others : List Value}

/-- Then an entry stays, or goes to the storage key of its field, which is the
key of no entry. -/
theorem moved_of_separate (h : m.Faced) (hsep : Separate m others)
    (hes : Within m others es) (p : Value × Value) :
    (moved m p).1.face? = p.1.face? ∨
      ∃ f ∈ m.fields, p.1.face? = f.name.face? ∧
      (moved m p).1.face? = f.key.face? ∧
        (∀ q ∈ es, f.key.face? ≠ q.1.face?) ∧ ∀ v ∈ others,
        f.key.face? ≠ v.face? := by
  by_cases hfield : ∃ f ∈ m.fields, p.1.face? = f.name.face?
  · obtain ⟨f, hf, hname⟩ := hfield
    have hmoved := face_moved h hf hname
    rcases hsep f hf with hsame | ⟨hnames, hothers⟩
    · exact .inl (by rw [hmoved, hsame, hname])
    · refine .inr ⟨f, hf, hname, hmoved, fun q hq => ?_, hothers⟩
      rcases hes q hq with ⟨g, hg, hqname⟩ | ⟨v, hv, hqname⟩
      · rw [hqname]
        exact hnames g hg
      · rw [hqname]
        exact hothers v hv
  · refine .inl ?_
    have hstays : renames m p = false := by
      have hfound : m.field? p.1 = none := by
        refine List.find?_eq_none.mpr fun f hf hsame => hfield ⟨f, hf, ?_⟩
        exact (Value.face_eq_of_sameKey hsame).symm
      unfold renames Model.column
      rw [hfound]
      rfl
    rw [moved, hstays, if_neg Bool.false_ne_true]

/-- So all have a place each. -/
theorem placed_of_separate (h : m.Keyed) (hsep : Separate m others)
    (hdistinct : Entries.Distinct es) (hes : Within m others es) :
    Placed m es := by
  refine (List.pairwise_map.mp hdistinct.apart).imp_of_mem
    fun {p q} hp hq hne => ?_
  rcases moved_of_separate h.toFaced hsep hes p with hstays
    | ⟨f, hf, hname, hmoved, hfree, -⟩
  · rcases moved_of_separate h.toFaced hsep hes q with hstays'
      | ⟨g, -, -, hmoved', hfree', -⟩
    · rw [hstays, hstays']
      exact ⟨hne, hne⟩
    · rw [hstays, hmoved']
      exact ⟨hne, (hfree' p hp).symm⟩
  · rw [hmoved]
    refine ⟨hfree q hq, ?_⟩
    rcases moved_of_separate h.toFaced hsep hes q with hstays'
      | ⟨g, hg, hname', hmoved', -, -⟩
    · rw [hstays']
      exact hfree q hq
    · rw [hmoved']
      intro hsame
      rw [hname, hname', h.eq_of_key hf hg hsame] at hne
      exact hne rfl

end Record

end GraphMapper
