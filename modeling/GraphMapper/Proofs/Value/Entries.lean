/-
Mappings by what is found in them.

A key that has a face is found by it, however it is spelled
(`Value.sameKey_iff_face`). So it is plain what is under such a key after an
insertion. Entries whose keys all have faces, and different ones
(`Entries.Distinct`), are a mapping as they stand: putting them into one
changes nothing (`IsMapping.ofList_eq`), and what is found under a key is what
stands there (`Distinct.lookup?_eq_some_iff`).

# Two levels

Lemmas with no assumption are on sameness alone: an insertion replaces the
first entry whose key is the same, or stands at the end. With NaN among the
keys little more can be said. The lemmas on `Distinct` entries assume faces,
and then the order of entries does not matter for what is found
(`Distinct.perm`).

Chain: `Value.Sameness`; used by all that reads or writes properties, rows or
records.
-/
import GraphMapper.Proofs.Value.Sameness
import GraphMapper.Value.Mapping

namespace GraphMapper.Entries

variable {β : Type} {key other : Value} {f : Face} {v w : β}
  {es more : List (Value × β)}

-- ================================================================ any entries

/-- The first entry is found if its key is the same. -/
theorem lookup?_cons (key : Value) (e : Value × β) (es : List (Value × β)) :
    lookup? key (e :: es) = if e.1.sameKey key then some e.2
      else lookup? key es := by
  unfold lookup?
  rw [List.find?_cons]
  cases e.1.sameKey key <;> rfl

/-- What has just been inserted is found. -/
theorem lookup?_insert_self (hkey : key.face? = some f) (v : β)
    (es : List (Value × β)) :
    lookup? key (insert key v es) = some v := by
  have hself : key.sameKey key = true := (Value.sameKey_iff_face hkey).mpr hkey
  induction es with
  | nil => rw [insert, lookup?_cons, if_pos hself]
  | cons e es ih =>
      rw [insert]
      by_cases he : e.1.sameKey key = true
      · rw [if_pos he, lookup?_cons, if_pos he]
      · rw [if_neg he, lookup?_cons, if_neg he, ih]

/-- An insertion is not noticed under a key with another face. -/
theorem lookup?_insert_of_ne (hkey : key.face? = some f)
    (hne : other.face? ≠ some f) (v : β) (es : List (Value × β)) :
    lookup? key (insert other v es) = lookup? key es := by
  have hother : ¬other.sameKey key = true :=
    fun h => hne ((Value.sameKey_iff_face hkey).mp h)
  induction es with
  | nil =>
      rw [insert, lookup?_cons, if_neg hother]
  | cons e es ih =>
      rw [insert]
      by_cases he : e.1.sameKey other = true
      · have hapart : ¬e.1.sameKey key = true := by
          intro hsame
          apply hne
          rw [← Value.face_eq_of_sameKey he]
          exact (Value.sameKey_iff_face hkey).mp hsame
        rw [if_pos he, lookup?_cons, lookup?_cons, if_neg hapart,
          if_neg hapart]
      · rw [if_neg he, lookup?_cons, lookup?_cons, ih]

/-- A key is there if something is found under it. -/
theorem has_eq_isSome (key : Value) (es : List (Value × β)) :
    has key es = (lookup? key es).isSome := by
  induction es with
  | nil => rfl
  | cons e es ih =>
      rw [lookup?_cons, has, List.any_cons]
      by_cases he : e.1.sameKey key = true
      · rw [if_pos he, he]
        rfl
      · rw [if_neg he, Bool.eq_false_iff.mpr he, Bool.false_or]
        exact ih

/-- What is found stands there under a key that is the same. -/
theorem mem_of_lookup? (h : lookup? key es = some v) :
    ∃ e ∈ es, e.1.sameKey key = true ∧ e.2 = v := by
  obtain ⟨e, he, hv⟩ := Option.map_eq_some_iff.mp h
  have hsame := List.find?_some he
  exact ⟨e, List.mem_of_find?_eq_some he, hsame, hv⟩

/-- An insertion writes one entry, under the key or under the one that is there
already. -/
theorem mem_insert {e : Value × β} (h : e ∈ insert key v es) :
    e ∈ es ∨ e.2 = v ∧ (e.1 = key ∨ e.1.sameKey key = true ∧ ∃ d ∈ es,
      d.1 = e.1) := by
  induction es with
  | nil =>
      rw [List.mem_singleton.mp h]
      exact .inr ⟨rfl, .inl rfl⟩
  | cons d es ih =>
      rw [insert] at h
      by_cases hd : d.1.sameKey key = true
      · rw [if_pos hd] at h
        rcases List.mem_cons.mp h with rfl | h
        · exact .inr ⟨rfl, .inr ⟨hd, d, List.mem_cons_self, rfl⟩⟩
        · exact .inl (List.mem_cons_of_mem _ h)
      · rw [if_neg hd] at h
        rcases List.mem_cons.mp h with rfl | h
        · exact .inl List.mem_cons_self
        · rcases ih h with he | ⟨hv, hkey⟩
          · exact .inl (List.mem_cons_of_mem _ he)
          · refine .inr ⟨hv, hkey.imp_right fun ⟨hsame, d', hd', heq⟩ =>
              ⟨hsame, d', ?_, heq⟩⟩
            exact List.mem_cons_of_mem _ hd'

/-- Only a key that is not there yet gets a place, the last one. -/
theorem keys_insert (key : Value) (v : β) (es : List (Value × β)) :
    keys (insert key v es)
      = if has key es then keys es else keys es ++ [key] := by
  induction es with
  | nil => rfl
  | cons e es ih =>
      rw [insert, has, List.any_cons]
      by_cases he : e.1.sameKey key = true
      · rw [if_pos he, he]
        rfl
      · rw [if_neg he, Bool.eq_false_iff.mpr he, Bool.false_or]
        show e.1 :: keys (insert key v es)
            = if has key es then e.1 :: keys es else _
        rw [ih]
        split <;> rfl

/-- Insertions give a mapping no other keys than theirs, and those in the order
in which they come. -/
theorem keys_insertions_sublist (es more : List (Value × β)) :
    (keys (more.foldl (fun acc d => insert d.1 d.2 acc) es)).Sublist
      (keys es ++ keys more) := by
  induction more generalizing es with
  | nil =>
      rw [show keys ([] : List (Value × β)) = [] from rfl, List.append_nil]
      exact .refl _
  | cons d more ih =>
      have hfirst : (keys (insert d.1 d.2 es)).Sublist (keys es ++ [d.1]) := by
        rw [keys_insert]
        split
        · exact List.sublist_append_left _ _
        · exact .refl _
      have hgroup : keys es ++ keys (d :: more)
          = keys es ++ [d.1] ++ keys more := by
        rw [List.append_assoc]
        rfl
      rw [hgroup]
      exact (ih (insert d.1 d.2 es)).trans (hfirst.append_right _)

/-- Insertions bring in no keys but those of what is inserted. -/
theorem key_of_insertions {e : Value × β}
    (h : e ∈ more.foldl (fun acc d => insert d.1 d.2 acc) es) :
    ∃ d ∈ es ++ more, d.1 = e.1 := by
  have hkey := (keys_insertions_sublist es more).subset (List.mem_map_of_mem h)
  rw [← show keys (es ++ more)
      = keys es ++ keys more from List.map_append] at hkey
  exact List.mem_map.mp hkey

/-- What is inserted stands there, if only the key itself is the same. -/
theorem mem_insert_self
    (h : ∀ other : Value, other.sameKey key = true → other = key) (v : β)
    (es : List (Value × β)) : (key, v) ∈ insert key v es := by
  induction es with
  | nil => exact List.mem_singleton.mpr rfl
  | cons e es ih =>
      rw [insert]
      by_cases he : e.1.sameKey key = true
      · rw [if_pos he, h e.1 he]
        exact List.mem_cons_self
      · rw [if_neg he]
        exact List.mem_cons_of_mem _ ih

/-- What stands under another key stays. -/
theorem mem_insert_of_ne {e : Value × β} (he : e ∈ es)
    (hne : e.1.sameKey key = false) (v : β) :
    e ∈ insert key v es := by
  induction es with
  | nil => cases he
  | cons d es ih =>
      rw [insert]
      rcases List.mem_cons.mp he with rfl | he
      · rw [if_neg (Bool.eq_false_iff.mp hne)]
        exact List.mem_cons_self
      · split
        · exact List.mem_cons_of_mem _ he
        · exact List.mem_cons_of_mem _ (ih he)

/-- A removal takes entries away, and no more. -/
theorem erase_sublist (key : Value) (es : List (Value × β)) :
    (erase key es).Sublist es := by
  unfold erase
  induction es with
  | nil => exact .slnil
  | cons e es ih =>
      rw [eraseFirst]
      split
      · exact List.sublist_cons_self e es
      · exact ih.cons_cons e

/-- Keys with the same face find the same. -/
theorem lookup?_congr (hkey : key.face? = some f)
    (hother : other.face? = some f) (es : List (Value × β)) :
    lookup? key es = lookup? other es := by
  induction es with
  | nil => rfl
  | cons e es ih =>
      have hsame : e.1.sameKey key = e.1.sameKey other := by
        rw [Bool.eq_iff_iff, Value.sameKey_iff_face hkey,
          Value.sameKey_iff_face hother]
      rw [lookup?_cons, lookup?_cons, hsame, ih]

/-- Entries under other keys may be left out. -/
theorem lookup?_filter {p : Value × β → Bool}
    (h : ∀ e ∈ es, e.1.sameKey key = true → p e = true) :
    lookup? key (es.filter p) = lookup? key es := by
  induction es with
  | nil => rfl
  | cons e es ih =>
      have hrest := ih fun d hd => h d (List.mem_cons_of_mem _ hd)
      rw [List.filter_cons]
      by_cases hp : p e = true
      · rw [if_pos hp, lookup?_cons, lookup?_cons, hrest]
      · have hne : ¬e.1.sameKey key = true :=
          fun hsame => hp (h e List.mem_cons_self hsame)
        rw [if_neg hp, lookup?_cons, if_neg hne, hrest]

/-- Entries may be given other values, by whatever there is under the key. -/
theorem lookup?_map {γ : Type} (change : β → γ) {into : Value × β → γ}
    (h : ∀ e ∈ es, e.1.sameKey key = true → into e = change e.2) :
    lookup? key (es.map fun e => (e.1, into e))
      = (lookup? key es).map change := by
  induction es with
  | nil => rfl
  | cons e es ih =>
      rw [List.map_cons, lookup?_cons, lookup?_cons, ih fun d hd =>
        h d (List.mem_cons_of_mem _ hd)]
      by_cases he : e.1.sameKey key = true
      · rw [if_pos he, if_pos he, h e List.mem_cons_self he]
        rfl
      · rw [if_neg he, if_neg he]

/-- Putting in what is there already changes nothing. -/
theorem insert_of_lookup? (h : lookup? key es = some v) :
    insert key v es = es := by
  induction es with
  | nil => cases h
  | cons e es ih =>
      rw [lookup?_cons] at h
      rw [insert]
      by_cases he : e.1.sameKey key = true
      · rw [if_pos he] at h ⊢
        rw [← Option.some.inj h]
      · rw [if_neg he] at h ⊢
        rw [ih h]

-- ================================================= keys that find themselves

/-- Every key is the same as itself, so that what is stored under it can be
found. -/
def IsReflexive (es : List (Value × β)) : Prop :=
  ∀ e ∈ es, e.1.sameKey e.1 = true

instance (es : List (Value × β)) : Decidable (IsReflexive es) :=
  inferInstanceAs (Decidable (∀ e ∈ es, e.1.sameKey e.1 = true))

/-- There are no keys that could fail. -/
theorem isReflexive_nil : IsReflexive ([] : List (Value × β)) :=
  fun _ h => absurd h List.not_mem_nil

/-- An entry that is there keeps its key, and a new one is put behind. -/
theorem IsReflexive.insert (h : IsReflexive es)
    (hkey : key.sameKey key = true) (v : β) :
    IsReflexive (insert key v es) := by
  induction es with
  | nil =>
      intro e he
      rw [List.mem_singleton.mp he]
      exact hkey
  | cons d es ih =>
      have hrest : IsReflexive es :=
        fun e he => h e (List.mem_cons_of_mem d he)
      intro e he
      unfold Entries.insert at he
      split at he
      · rcases List.mem_cons.mp he with rfl | he
        · exact h d List.mem_cons_self
        · exact hrest e he
      · rcases List.mem_cons.mp he with rfl | he
        · exact h e List.mem_cons_self
        · exact ih hrest e he

/-- With an entry gone, the keys of the others are what they were. -/
theorem IsReflexive.erase (h : IsReflexive es) (key : Value) :
    IsReflexive (erase key es) := by
  unfold Entries.erase
  induction es with
  | nil => exact h
  | cons d es ih =>
      have hrest : IsReflexive es :=
        fun e he => h e (List.mem_cons_of_mem d he)
      unfold Entries.eraseFirst
      split
      · exact hrest
      · intro e he
        rcases List.mem_cons.mp he with rfl | he
        · exact h e List.mem_cons_self
        · exact ih hrest e he

-- ======================================================== some of the entries

/-- The property is one of keys as a mapping tells them apart. -/
def Respects (p : Value → Bool) : Prop :=
  ∀ a b : Value, a.sameKey b = true → p a = p b

/-- The entries whose keys have a property. -/
def those (p : Value → Bool) (es : List (Value × β)) : List (Value × β) :=
  es.filter fun e => p e.1

variable {p : Value → Bool}

/-- An entry is one of those if its key is. -/
theorem those_cons (e : Value × β) (es : List (Value × β)) :
    those p (e :: es) = if p e.1 then e :: those p es else those p es :=
      List.filter_cons

/-- Their keys are those that are asked for. -/
theorem keys_those (es : List (Value × β)) :
    keys (those p es) = (keys es).filter p := by
  unfold keys those
  rw [List.filter_map]
  rfl

/-- The first entry is gone if its key is the same. -/
theorem erase_cons (key : Value) (e : Value × β) (es : List (Value × β)) :
    erase key (e :: es) = if e.1.sameKey key then es else e :: erase key es :=
      rfl

/-- What stands under none of the keys is not there to be removed. -/
theorem erase_of_new (h : ∀ e ∈ es, e.1.sameKey key = false) :
    erase key es = es := by
  induction es with
  | nil => rfl
  | cons e es ih =>
      rw [erase_cons, h e List.mem_cons_self, if_neg Bool.false_ne_true,
        ih fun d hd => h d (List.mem_cons_of_mem _ hd)]

/-- A key that is not asked for is none of theirs. -/
theorem new_of_those (hp : Respects p) (hkey : p key = false) :
    ∀ e ∈ those p es, e.1.sameKey key = false := by
  intro e he
  have hown := (List.mem_filter.mp he).2
  rw [Bool.eq_false_iff]
  intro hsame
  rw [hp _ _ hsame, hkey] at hown
  cases hown

/-- A removal may be made before or after some entries are picked out. -/
theorem those_erase (hp : Respects p) (key : Value) (es : List (Value × β)) :
    those p (erase key es) = erase key (those p es) := by
  cases hkey : p key with
  | false =>
      rw [erase_of_new (new_of_those hp hkey)]
      induction es with
      | nil => rfl
      | cons e es ih =>
          rw [erase_cons, those_cons]
          by_cases he : e.1.sameKey key = true
          · rw [if_pos he, hp _ _ he, hkey, if_neg Bool.false_ne_true]
          · rw [if_neg he, those_cons, ih]
  | true =>
      induction es with
      | nil => rfl
      | cons e es ih =>
          rw [erase_cons, those_cons]
          by_cases he : e.1.sameKey key = true
          · rw [if_pos he, hp _ _ he, hkey, if_pos rfl, erase_cons, if_pos he]
          · rw [if_neg he, those_cons, ih]
            split
            · rw [erase_cons, if_neg he]
            · rfl

/-- What is inserted is picked out with the entries like it. -/
theorem those_insert (hp : Respects p) (key : Value) (v : β)
    (es : List (Value × β)) :
    those p (insert key v es) = if p key then insert key v (those p es)
      else those p es := by
  induction es with
  | nil => rw [insert, those_cons]; rfl
  | cons e es ih =>
      rw [insert]
      by_cases he : e.1.sameKey key = true
      · rw [if_pos he, those_cons, those_cons, hp _ _ he]
        split
        · rw [insert, if_pos he]
        · rfl
      · rw [if_neg he, those_cons, those_cons, ih]
        split
        · split
          · rw [insert, if_neg he]
          · rfl
        · rfl

/-- Under a key that is asked for the same is found. -/
theorem lookup?_those (hp : Respects p) (hkey : p key = true)
    (es : List (Value × β)) :
    lookup? key (those p es) = lookup? key es := by
  refine lookup?_filter fun e _ hsame => ?_
  rw [hp _ _ hsame, hkey]

-- =========================================================== distinct entries

/-- The faces of the keys. -/
def faces (es : List (Value × β)) : List (Option Face) :=
  es.map fun e => e.1.face?

/-- All keys have faces, and no two have the same. -/
structure Distinct (es : List (Value × β)) : Prop where
  faced : ∀ e ∈ es, ∃ f, e.1.face? = some f
  apart : (faces es).Nodup

/-- There are no two keys. -/
theorem distinct_nil : Distinct ([] : List (Value × β)) :=
  ⟨fun _ h => (nomatch h), .nil⟩

/-- Fewer entries have different keys too. -/
theorem Distinct.sublist (h : Distinct es) (hsub : more.Sublist es) :
    Distinct more :=
  ⟨fun e he => h.faced e (hsub.subset he), h.apart.sublist (hsub.map _)⟩

/-- So have the same entries in another order. -/
theorem Distinct.perm (h : Distinct es) (hperm : es.Perm more) :
    Distinct more :=
  ⟨fun e he => h.faced e (hperm.mem_iff.mpr he),
    (hperm.map _).nodup_iff.mp h.apart⟩

/-- Only the keys matter. -/
theorem Distinct.congr {γ : Type} {more : List (Value × γ)} (h : Distinct es)
    (hkeys : keys more = keys es) : Distinct more := by
  have hfaces : faces more = faces es := by
    unfold faces keys at *
    have hmapped := congrArg (List.map Value.face?) hkeys
    rw [List.map_map, List.map_map] at hmapped
    exact hmapped
  refine ⟨fun e he => ?_, hfaces ▸ h.apart⟩
  have hkey : e.1 ∈ keys es := hkeys ▸ List.mem_map_of_mem he
  obtain ⟨d, hd, hde⟩ := List.mem_map.mp hkey
  rw [← hde]
  exact h.faced d hd

/-- No entry behind another one has its face. -/
theorem Distinct.cons_iff {e : Value × β} : Distinct (e :: es) ↔
    (∃ f, e.1.face? = some f) ∧ (∀ d ∈ es, d.1.face? ≠ e.1.face?) ∧
    Distinct es := by
  have hfirst : e.1.face? ∉ faces es ↔ ∀ d ∈ es, d.1.face? ≠ e.1.face? := by
    unfold faces
    simp only [List.mem_map, not_exists, not_and]
  constructor
  · intro h
    obtain ⟨hne, hrest⟩ := List.nodup_cons.mp h.apart
    exact ⟨h.faced e List.mem_cons_self, hfirst.mp hne,
      fun d hd => h.faced d (List.mem_cons_of_mem _ hd), hrest⟩
  · rintro ⟨hface, hne, hrest⟩
    refine ⟨fun d hd => ?_, List.nodup_cons.mpr ⟨hfirst.mpr hne, hrest.apart⟩⟩
    rcases List.mem_cons.mp hd with rfl | hd
    · exact hface
    · exact hrest.faced d hd

/-- What is found under a key is what stands there. -/
theorem Distinct.lookup?_eq_some_iff (h : Distinct es)
    (hkey : key.face? = some f) :
    lookup? key es = some v ↔ ∃ e ∈ es, e.1.face? = some f ∧ e.2 = v := by
  induction es with
  | nil =>
      constructor
      · exact fun hnone => (nomatch hnone)
      · rintro ⟨e, he, -⟩
        cases he
  | cons d es ih =>
      obtain ⟨-, hne, hrest⟩ := Distinct.cons_iff.mp h
      rw [lookup?_cons]
      by_cases hd : d.1.face? = some f
      · rw [if_pos ((Value.sameKey_iff_face hkey).mpr hd), Option.some_inj]
        constructor
        · exact fun hv => ⟨d, List.mem_cons_self, hd, hv⟩
        · rintro ⟨e, he, hface, hv⟩
          rcases List.mem_cons.mp he with rfl | he
          · exact hv
          · exact absurd (hface.trans hd.symm) (hne e he)
      · rw [if_neg fun hsame => hd ((Value.sameKey_iff_face hkey).mp hsame),
          ih hrest]
        constructor
        · rintro ⟨e, he, hface, hv⟩
          exact ⟨e, List.mem_cons_of_mem _ he, hface, hv⟩
        · rintro ⟨e, he, hface, hv⟩
          rcases List.mem_cons.mp he with rfl | he
          · exact absurd hface hd
          · exact ⟨e, he, hface, hv⟩

/-- An entry is what is found under its key, however that is spelled. -/
theorem Distinct.lookup?_of_mem (h : Distinct es) {e : Value × β} (he : e ∈ es)
    (hface : e.1.face? = some f) (hkey : key.face? = some f) :
    lookup? key es = some e.2 :=
  (h.lookup?_eq_some_iff hkey).mpr ⟨e, he, hface, rfl⟩

/-- Under a key with another face than all others nothing is found. -/
theorem lookup?_eq_none (hkey : key.face? = some f)
    (h : ∀ e ∈ es, e.1.face? ≠ some f) :
    lookup? key es = none := by
  induction es with
  | nil => rfl
  | cons e es ih =>
      have hne : ¬e.1.sameKey key = true := fun hsame =>
        h e List.mem_cons_self ((Value.sameKey_iff_face hkey).mp hsame)
      rw [lookup?_cons, if_neg hne]
      exact ih fun d hd => h d (List.mem_cons_of_mem _ hd)

-- =========================================================== putting together

/-- No key is the same as one behind it, so the entries are a mapping as they
stand. -/
def IsMapping (es : List (Value × β)) : Prop :=
  es.Pairwise fun d e => d.1.sameKey e.1 = false

/-- Entries under different texts are a mapping. -/
theorem isMapping_of_texts {names : List String}
    (hkeys : keys es = names.map .text) (hnodup : names.Nodup) :
    IsMapping es := by
  have hapart : (names.map Value.text).Pairwise fun a b => a.sameKey b
      = false := by
    refine List.pairwise_map.mpr (hnodup.imp fun {a b} hne => ?_)
    rw [Bool.eq_false_iff]
    intro hsame
    have hface :=
      (Value.sameKey_iff_face (show (Value.text b).face? = _ from rfl)).mp
        hsame
    exact hne (Face.text.inj (Option.some.inj hface))
  rw [← hkeys] at hapart
  exact List.pairwise_map.mp hapart

/-- A key that is not there yet goes to the end. -/
theorem insert_of_new (h : ∀ e ∈ es, e.1.sameKey key = false) (v : β) :
    insert key v es = es ++ [(key, v)] := by
  induction es with
  | nil => rfl
  | cons e es ih =>
      have hne : ¬e.1.sameKey key = true := by
        rw [h e List.mem_cons_self]
        exact Bool.false_ne_true
      rw [insert, if_neg hne, ih fun d hd => h d (List.mem_cons_of_mem _ hd)]
      rfl

/-- So do entries none of which is there yet. -/
theorem foldl_insert (h : IsMapping (es ++ more)) :
    more.foldl (fun acc e => insert e.1 e.2 acc) es = es ++ more := by
  induction more generalizing es with
  | nil => rw [List.foldl_nil, List.append_nil]
  | cons e more ih =>
      have hnew : ∀ d ∈ es, d.1.sameKey e.1 = false := fun d hd =>
        (List.pairwise_append.mp h).2.2 d hd e List.mem_cons_self
      have hregroup : es ++ [(e.1, e.2)] ++ more = es ++ e :: more := by simp
      rw [List.foldl_cons, insert_of_new hnew, ih (by rw [hregroup]; exact h),
        hregroup]

/-- Putting a mapping together changes nothing. -/
theorem IsMapping.ofList_eq (h : IsMapping es) : ofList es = es := by
  have hall : IsMapping ([] ++ es) := h
  exact foldl_insert hall

/-- An insertion leaves a mapping one. -/
theorem IsMapping.put (h : IsMapping es) (key : Value) (v : β) :
    IsMapping (insert key v es) := by
  have hkeys : (keys es).Pairwise fun a b => a.sameKey b = false :=
    List.pairwise_map.mpr h
  have hput : (keys (insert key v es)).Pairwise fun a b => a.sameKey b
      = false := by
    rw [keys_insert]
    split
    · exact hkeys
    · next hnew =>
      refine List.pairwise_append.mpr ⟨hkeys, List.pairwise_singleton _ _,
        fun a ha b hb => ?_⟩
      rw [List.mem_singleton.mp hb, Bool.eq_false_iff]
      intro hsame
      obtain ⟨d, hd, rfl⟩ := List.mem_map.mp ha
      exact hnew (List.any_eq_true.mpr ⟨d, hd, hsame⟩)
  exact List.pairwise_map.mp hput

/-- Insertions into a mapping give a mapping. -/
theorem IsMapping.insertions (h : IsMapping es) :
    IsMapping (more.foldl (fun acc e => insert e.1 e.2 acc) es) := by
  induction more generalizing es with
  | nil => exact h
  | cons e more ih => exact ih (h.put e.1 e.2)

/-- The last entry under a key is what is found there. -/
theorem lookup?_ofList (hkey : key.face? = some f)
    (h : ∀ e ∈ more, e.1.face? ≠ some f) (v : β) (es : List (Value × β)) :
    lookup? key (ofList (es ++ (key, v) :: more)) = some v := by
  have hlater : ∀ acc : List (Value × β),
      lookup? key (more.foldl (fun acc e => insert e.1 e.2 acc) acc)
        = lookup? key acc := by
    induction more with
    | nil => exact fun _ => rfl
    | cons e more ih =>
        intro acc
        rw [List.foldl_cons, ih fun d hd => h d (List.mem_cons_of_mem _ hd),
          lookup?_insert_of_ne hkey (h e List.mem_cons_self)]
  rw [ofList, List.foldl_append, List.foldl_cons, hlater,
    lookup?_insert_self hkey]

/-- Under a key there is what a mapping puts there, or else what there was. -/
theorem lookup?_insertions (hkey : key.face? = some f) (h : IsMapping more)
    (es : List (Value × β)) :
    lookup? key (more.foldl (fun acc e => insert e.1 e.2 acc) es)
      = (lookup? key more).or (lookup? key es) := by
  induction more generalizing es with
  | nil => rfl
  | cons e more ih =>
      obtain ⟨hothers, hrest⟩ := List.pairwise_cons.mp h
      rw [List.foldl_cons, ih hrest, lookup?_cons]
      by_cases he : e.1.face? = some f
      · have hnone : lookup? key more = none := by
          refine lookup?_eq_none hkey fun d hd hface => ?_
          have hsame := (Value.sameKey_iff_face hface).mpr he
          rw [hothers d hd] at hsame
          cases hsame
        rw [if_pos ((Value.sameKey_iff_face hkey).mpr he), hnone,
          Option.none_or, Option.some_or, lookup?_congr hkey he,
          lookup?_insert_self he]
      · rw [if_neg fun hsame => he ((Value.sameKey_iff_face hkey).mp hsame),
          lookup?_insert_of_ne hkey he]

/-- What is removed is the entry that stands under the key, behind others that
do not. -/
theorem erase_append (h : ∀ e ∈ es, e.1.sameKey key = false)
    (hself : key.sameKey key = true) :
    erase key (es ++ (key, v) :: more) = es ++ more := by
  induction es with
  | nil =>
      show (if key.sameKey key = true then more else _) = more
      rw [if_pos hself]
  | cons e es ih =>
      have hother : ¬e.1.sameKey key = true := by
        rw [h e List.mem_cons_self]
        exact Bool.false_ne_true
      show (if e.1.sameKey key = true then es ++ (key, v) :: more else
        e :: erase key (es ++ (key, v) :: more)) = e :: (es ++ more)
      rw [if_neg hother, ih fun d hd => h d (List.mem_cons_of_mem _ hd)]

/-- The entry that is erased is the one with the key. -/
theorem IsMapping.erase_append (h : IsMapping (es ++ (key, v) :: more))
    (hself : key.sameKey key = true) :
    erase key (es ++ (key, v) :: more) = es ++ more := by
  have hbefore := (List.pairwise_append.mp h).2.2
  exact Entries.erase_append
    (fun e he => hbefore e he _ List.mem_cons_self) hself

/-- A removal is noticed under its key only. -/
theorem lookup?_erase_of_ne {other : Value} (hkey : key.face? = some f)
    (hne : other.face? ≠ some f) (es : List (Value × β)) :
    lookup? key (erase other es) = lookup? key es := by
  induction es with
  | nil => rfl
  | cons e es ih =>
      rw [erase_cons]
      by_cases he : e.1.sameKey other = true
      · have hface : e.1.face? ≠ some f := by
          rw [Value.face_eq_of_sameKey he]
          exact hne
        rw [if_pos he, lookup?_cons, if_neg fun hsame =>
          hface ((Value.sameKey_iff_face hkey).mp hsame)]
      · rw [if_neg he, lookup?_cons, lookup?_cons, ih]

/-- There is nothing left there. -/
theorem IsMapping.lookup?_erase (h : IsMapping es)
    (hkey : key.face? = some f) :
    lookup? key (erase key es) = none := by
  induction es with
  | nil => rfl
  | cons e es ih =>
      obtain ⟨hothers, hrest⟩ := List.pairwise_cons.mp h
      rw [erase_cons]
      by_cases he : e.1.sameKey key = true
      · rw [if_pos he]
        refine lookup?_eq_none hkey fun d hd hface => ?_
        have hsame := (Value.sameKey_iff_face hface).mpr
          ((Value.sameKey_iff_face hkey).mp he)
        rw [hothers d hd] at hsame
        cases hsame
      · rw [if_neg he, lookup?_cons, if_neg he, ih hrest]

/-- Distinct entries are a mapping as they stand. -/
theorem Distinct.isMapping (h : Distinct es) : IsMapping es := by
  induction es with
  | nil => exact .nil
  | cons d es ih =>
      obtain ⟨-, hne, hrest⟩ := Distinct.cons_iff.mp h
      refine List.pairwise_cons.mpr ⟨fun e he => ?_, ih hrest⟩
      obtain ⟨f, hf⟩ := hrest.faced e he
      rw [Bool.eq_false_iff]
      exact fun hsame =>
        hne e he (hf.trans ((Value.sameKey_iff_face hf).mp hsame).symm)

/-- Distinct entries stay so when one is put in. -/
theorem Distinct.put (h : Distinct es) (hkey : key.face? = some f) (v : β) :
    Distinct (insert key v es) := by
  induction es with
  | nil =>
      exact Distinct.cons_iff.mpr ⟨⟨f, hkey⟩, fun _ hd => (nomatch hd),
        distinct_nil⟩
  | cons d es ih =>
      obtain ⟨hface, hne, hrest⟩ := Distinct.cons_iff.mp h
      rw [insert]
      by_cases hd : d.1.sameKey key = true
      · rw [if_pos hd]
        exact Distinct.cons_iff.mpr ⟨hface, hne, hrest⟩
      · rw [if_neg hd]
        have hfirst : d.1.face? ≠ some f :=
          fun hdf => hd ((Value.sameKey_iff_face hkey).mpr hdf)
        refine Distinct.cons_iff.mpr ⟨hface, fun e he => ?_, ih hrest⟩
        rcases mem_insert he with he | ⟨-, heq | ⟨hsame, -⟩⟩
        · exact hne e he
        · rw [heq, hkey]
          exact hfirst.symm
        · rw [(Value.sameKey_iff_face hkey).mp hsame]
          exact hfirst.symm

/-- A removal leaves all that is not under the key. -/
theorem Distinct.erase_eq (h : Distinct es) (hkey : key.face? = some f) :
    erase key es = es.filter fun e => !e.1.sameKey key := by
  induction es with
  | nil => rfl
  | cons d es ih =>
      obtain ⟨-, hne, hrest⟩ := Distinct.cons_iff.mp h
      rw [erase_cons, List.filter_cons]
      by_cases hd : d.1.sameKey key = true
      · have hothers : ∀ e ∈ es, (!e.1.sameKey key) = true := by
          intro e he
          rw [Bool.not_eq_true', Bool.eq_false_iff, ne_eq,
            Value.sameKey_iff_face hkey, ← (Value.sameKey_iff_face hkey).mp hd]
          exact hne e he
        rw [if_pos hd, hd, Bool.not_true, if_neg Bool.false_ne_true,
          List.filter_eq_self.mpr hothers]
      · rw [if_neg hd, Bool.eq_false_iff.mpr hd, Bool.not_false,
          if_pos rfl, ih hrest]

/-- An entry that is taken out, and put back under a new key, goes to the
end. -/
theorem Distinct.insert_erase (h : Distinct (es ++ (key, v) :: more))
    (hnew : Distinct (es ++ more ++ [(other, w)])) :
    insert other w (erase key (es ++ (key, v) :: more))
      = es ++ more ++ [(other, w)] := by
  have hmem : (key, v) ∈ es ++ (key, v) :: more :=
    List.mem_append_right _ List.mem_cons_self
  obtain ⟨f, hf⟩ := h.faced _ hmem
  rw [h.isMapping.erase_append ((Value.sameKey_iff_face hf).mpr hf)]
  refine insert_of_new (fun e he => ?_) w
  exact (List.pairwise_append.mp hnew.isMapping).2.2 e he _
    (List.mem_singleton.mpr rfl)

end GraphMapper.Entries
