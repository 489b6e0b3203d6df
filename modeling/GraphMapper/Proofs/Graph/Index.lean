/-
Each index of a graph finds its elements under their ids.

An index is coherent (`Index.Coherent`) when every entry stands under the id of
its element, and no two entries are of one element or could be taken for each
other. The second condition is about the key of the earlier entry and the id of
the later element: the earlier entry is the one that is found, so this is what
a removal needs in order to remove the right one.

A scalar then finds the element whose id is equal to it, and there is one at
most (`filter_eq_find?`).

# Insertion and removal

An insertion may replace an entry: that is what happens when an id is given a
second time. The element of that entry is in no index then, and what is left is
coherent (`Coherent.insert`). A removal takes the entry that is found, and by
coherence it is that of the element whose id is removed.

Chain: `Value.Entries` for what is found in a mapping; `Graph.Coherence` has
both indexes.
-/
import GraphMapper.Graph.Store
import GraphMapper.Proofs.Value.Entries

namespace GraphMapper

namespace Index

variable {ids ids' : Handle → Value} {index index' : Index}
  {id : Value} {h : Handle}

/-- Entries stand under the ids of their elements and can be told apart. -/
structure Coherent (ids : Handle → Value) (index : Index) : Prop where
  own : ∀ e ∈ index, e.1.sameKey (ids e.2) = true
  apart : index.Pairwise fun e f => e.1.sameKey (ids f.2) = false ∧ e.2 ≠ f.2

theorem coherent_nil : Coherent ids [] := ⟨fun _ he => (nomatch he), .nil⟩

theorem Coherent.tail {e : Value × Handle} (hc : Coherent ids (e :: index)) :
    Coherent ids index :=
  ⟨fun f hf => hc.own f (List.mem_cons_of_mem e hf),
    (List.pairwise_cons.mp hc.apart).2⟩

theorem Coherent.sublist (hc : Coherent ids index)
    (hs : index'.Sublist index) :
    Coherent ids index' :=
  ⟨fun e he => hc.own e (hs.subset he), hc.apart.sublist hs⟩

/-- Only the ids of elements in the index matter. -/
theorem Coherent.congr (hc : Coherent ids index)
    (hids : ∀ e ∈ index, ids' e.2 = ids e.2) :
    Coherent ids' index := by
  refine ⟨fun e he => ?_, ?_⟩
  · rw [hids e he]
    exact hc.own e he
  · refine hc.apart.imp_of_mem fun {e f} he hf hef => ?_
    rw [hids f hf]
    exact hef

-- ================================================================ removal

/-- What is removed under the id of an element is the entry of that element. -/
theorem Coherent.ne_of_mem_erase (hc : Coherent ids index) :
    ∀ e ∈ Entries.erase (ids h) index, e.2 ≠ h := by
  induction index with
  | nil => exact fun e he => nomatch he
  | cons e index ih =>
      intro f hf
      unfold Entries.erase Entries.eraseFirst at hf
      split at hf
      · next hfound =>
        -- an entry of the element behind this one could have been taken for it
        rintro rfl
        rw [((List.pairwise_cons.mp hc.apart).1 f hf).1] at hfound
        cases hfound
      · next hother =>
        rcases List.mem_cons.mp hf with rfl | hf
        · rintro rfl
          exact hother (hc.own f List.mem_cons_self)
        · exact ih hc.tail f hf

/-- Nothing else is removed. -/
theorem Coherent.erase_eq_filter (hc : Coherent ids index)
    (hmem : ∃ e ∈ index, e.2 = h) :
    Entries.erase (ids h) index = index.filter fun e => e.2 != h := by
  induction index with
  | nil =>
      obtain ⟨e, he, -⟩ := hmem
      cases he
  | cons e index ih =>
      have hapart := (List.pairwise_cons.mp hc.apart).1
      obtain ⟨f, hf, rfl⟩ := hmem
      rcases List.mem_cons.mp hf with rfl | hf
      · have hrest : index.filter (fun d => d.2 != f.2) = index :=
          List.filter_eq_self.mpr fun d hd =>
            bne_iff_ne.mpr (hapart d hd).2.symm
        rw [Entries.erase_cons, if_pos (hc.own f List.mem_cons_self),
          List.filter_cons_of_neg (by simp), hrest]
      · -- the entry in front is of another element, with another id
        obtain ⟨hid, hne⟩ := hapart f hf
        rw [Entries.erase_cons, if_neg (Bool.eq_false_iff.mp hid),
          ih hc.tail ⟨f, hf, rfl⟩]
        have hkept : (e.2 != f.2) = true := bne_iff_ne.mpr hne
        rw [List.filter_cons, hkept, if_pos rfl]

-- ============================================================== insertion

/-- An entry after an insertion is an old one, or it is of the element that was
inserted. -/
theorem mem_insert {e : Value × Handle} (he : e ∈ Entries.insert id h index) :
    e ∈ index ∨ e.2 = h := by
  induction index with
  | nil =>
      rw [List.mem_singleton.mp he]
      exact .inr rfl
  | cons first index ih =>
      unfold Entries.insert at he
      split at he
      · rcases List.mem_cons.mp he with rfl | he
        · exact .inr rfl
        · exact .inl (List.mem_cons_of_mem _ he)
      · rcases List.mem_cons.mp he with rfl | he
        · exact .inl List.mem_cons_self
        · exact (ih he).imp (List.mem_cons_of_mem _) fun heq => heq

/-- An element that is in no entry may be inserted under its id, and may take
the place of another that had the id. -/
theorem Coherent.insert (hc : Coherent ids index)
    (hid : (ids h).sameKey (ids h) = true) (hnew : ∀ e ∈ index, e.2 ≠ h) :
    Coherent ids (Entries.insert (ids h) h index) := by
  induction index with
  | nil =>
      refine ⟨fun e he => ?_, List.pairwise_singleton _ _⟩
      rw [List.mem_singleton.mp he]
      exact hid
  | cons e index ih =>
      obtain ⟨hapart, -⟩ := List.pairwise_cons.mp hc.apart
      have hnewTail : ∀ f ∈ index, f.2 ≠ h :=
        fun f hf => hnew f (List.mem_cons_of_mem e hf)
      unfold Entries.insert
      split
      · next hfound =>
        refine ⟨fun f hf => ?_,
          List.pairwise_cons.mpr ⟨fun f hf => ?_, hc.tail.apart⟩⟩
        · rcases List.mem_cons.mp hf with rfl | hf
          · exact hfound
          · exact hc.own f (List.mem_cons_of_mem e hf)
        · exact ⟨(hapart f hf).1, (hnewTail f hf).symm⟩
      · next hother =>
        have htail := ih hc.tail hnewTail
        refine ⟨fun f hf => ?_,
          List.pairwise_cons.mpr ⟨fun f hf => ?_, htail.apart⟩⟩
        · rcases List.mem_cons.mp hf with rfl | hf
          · exact hc.own f List.mem_cons_self
          · exact htail.own f hf
        · rcases mem_insert hf with hf | hf
          · exact hapart f hf
          · rw [hf]
            exact ⟨Bool.eq_false_iff.mpr hother, hnew e List.mem_cons_self⟩

-- ================================================================ looking up

/-- If no two items of a list pass, those that pass are the first that does. -/
theorem filter_eq_toList_find? {α : Type} {p : α → Bool} {l : List α}
    (hp : l.Pairwise fun a b => ¬(p a = true ∧ p b = true)) :
    l.filter p = (l.find? p).toList := by
  induction l with
  | nil => rfl
  | cons a l ih =>
      obtain ⟨ha, hl⟩ := List.pairwise_cons.mp hp
      cases hpa : p a with
      | true =>
          have hrest : l.filter p = [] :=
            List.filter_eq_nil_iff.mpr fun b hb hpb => ha b hb ⟨hpa, hpb⟩
          rw [List.filter_cons_of_pos hpa, hrest, List.find?_cons_of_pos hpa]
          rfl
      | false =>
          rw [List.filter_cons_of_neg (by rw [hpa]; exact Bool.false_ne_true),
            List.find?_cons_of_neg (by rw [hpa]; exact Bool.false_ne_true),
            ih hl]

/-- What a scalar finds is all that there is with an id equal to it. -/
theorem Coherent.filter_eq_find? (hc : Coherent ids index) {v : Value}
    {f : Face} (hv : v.face? = some f) :
    index.filter (fun e => (ids e.2).equal v)
      = (index.find? fun e => e.1.sameKey v).toList := by
  have hagree : ∀ e ∈ index, e.1.sameKey v = (ids e.2).equal v := by
    intro e he
    rw [Bool.eq_iff_iff, Value.sameKey_iff_face hv, Value.equal_iff_face hv,
      Value.face_eq_of_sameKey (hc.own e he)]
  have hfind : (index.find? fun e => e.1.sameKey v)
      = index.find? fun e => (ids e.2).equal v := by
    clear hc
    induction index with
    | nil => rfl
    | cons e index ih =>
        rw [List.find?_cons, List.find?_cons, hagree e List.mem_cons_self,
          ih fun f hf => hagree f (List.mem_cons_of_mem e hf)]
  rw [hfind]
  refine filter_eq_toList_find?
    (hc.apart.imp_of_mem fun {d e} hd he hde hboth => ?_)
  -- two such entries would have keys and ids with one face
  have hkey : d.1.face? = some f := by
    rw [Value.face_eq_of_sameKey (hc.own d hd)]
    exact (Value.equal_iff_face hv).mp hboth.1
  have hid : (ids e.2).face? = some f := (Value.equal_iff_face hv).mp hboth.2
  rw [(Value.sameKey_iff_face hid).mpr hkey] at hde
  cases hde.1

end Index

end GraphMapper
