/-
Sameness with scalars, NaN among them.

A NaN has no face, yet it is the same as a NaN of its payload, and found under
it as a key. So every scalar has a token, which is its face or the payload of a
NaN, and whatever is compared with a scalar is the same, and the same key, just
when it has that token (`same_iff_token`, `sameKey_iff_token`). An index that
is coherent for faces is so for tokens: what is found under a scalar is all
that there is with an id that is the same (`Index.Coherent.find?_eq_iff`).

# Why tokens and not values

A number may be stored as an id under several forms, and one that is not a
number under several payloads. A token is told by both, so a statement on ids
that are given out of the program covers the one kind of scalar that is not
equal to itself. It is not covered by equality: such an id is found under its
key, but a test for equality finds nothing.

Chain: `Graph.Index` for coherence; `Filter.Sought` uses tokens for the ids
that filters seek.
-/
import GraphMapper.Proofs.Graph.Index

namespace GraphMapper

/-- What a scalar is the same by. -/
inductive Token where
  | face (f : Face)
  | nan (payload : Nat)
  deriving DecidableEq

namespace Value

variable {a b v : Value} {t : Token}

def token? : Value → Option Token
  | .float (.nan n) => some (.nan n)
  | v => v.face?.map .face

/-- What has a face has that as its token, and a token that is a face is the
face of what has it. -/
private theorem token?_eq_face {f : Face} :
    v.token? = some (.face f) ↔ v.face? = some f := by
  unfold token?
  split
  · simp [face?, Binary64.position?]
  · simp

private theorem token?_eq_nan {n : Nat} :
    v.token? = some (.nan n) ↔ v = .float (.nan n) := by
  unfold token?
  split
  · simp [eq_comm]
  · next hnan =>
    constructor
    · intro h
      obtain ⟨f, -, hf⟩ := Option.map_eq_some_iff.mp h
      cases hf
    · rintro rfl
      exact absurd rfl (hnan n)

theorem token?_of_scalar (h : v.isScalar = true) : ∃ t, v.token? = some t := by
  by_cases hself : v.equal v = true
  · obtain ⟨f, hf⟩ := face_of_scalar h hself
    exact ⟨.face f, token?_eq_face.mpr hf⟩
  · obtain ⟨n, rfl⟩ : ∃ n, v = .float (.nan n) := by
      cases v with
      | float x =>
          cases x with
          | nan n => exact ⟨n, rfl⟩
          | _ => exact absurd ((equal_iff_face rfl).mpr rfl) hself
      | symbol r =>
          cases r with
          | fieldType t => exact absurd ((equal_iff_face rfl).mpr rfl) hself
          | _ => simp [isScalar] at h
      | bool b => exact absurd ((equal_iff_face rfl).mpr rfl) hself
      | int n => exact absurd ((equal_iff_face rfl).mpr rfl) hself
      | text s => exact absurd ((equal_iff_face rfl).mpr rfl) hself
      | date d => exact absurd ((equal_iff_face rfl).mpr rfl) hself
      | dateTime t => exact absurd ((equal_iff_face rfl).mpr rfl) hself
      | _ => simp [isScalar] at h
    exact ⟨.nan n, rfl⟩

/-- Nothing but a NaN of its payload is the same as a NaN. -/
private theorem same_nan (n : Nat) :
    a.same (.float (.nan n)) = true ↔ a = .float (.nan n) := by
  cases a with
  | float x =>
      cases x <;> simp [same, sameAtoms, equalAtoms, position?,
        Binary64.position?, Binary64.isSameNaN]
  | symbol r =>
      cases r <;> simp [same, sameAtoms, equalAtoms, position?, text?]
  | _ => simp [same, sameAtoms, equalAtoms, position?, Binary64.position?]

private theorem nan_same (n : Nat) :
    (Value.float (.nan n)).same b = true ↔ b = .float (.nan n) := by
  cases b with
  | float x =>
      cases x with
      | nan m =>
          simp only [same, sameAtoms, equalAtoms, position?,
            Binary64.position?, Binary64.isSameNaN, Bool.or_false, beq_iff_eq,
            float.injEq, Binary64.nan.injEq]
          exact eq_comm
      | _ =>
          simp [same, sameAtoms, equalAtoms, position?, Binary64.position?,
            Binary64.isSameNaN]
  | symbol r =>
      cases r <;> simp [same, sameAtoms, equalAtoms, position?, text?]
  | _ => simp [same, sameAtoms, equalAtoms, position?, Binary64.position?]

theorem same_iff_token (h : b.token? = some t) :
    a.same b = true ↔ a.token? = some t := by
  cases t with
  | face f => rw [same_iff_face (token?_eq_face.mp h), token?_eq_face]
  | nan n =>
      rw [token?_eq_nan.mp h, same_nan, token?_eq_nan]

private theorem sameMark_nan (n : Nat) :
    (Value.float (.nan n)).sameMark (.float (.nan n)) = true := by
  simp [sameMark, bearer, sameAtoms, Binary64.isSameNaN]

theorem sameKey_iff_token (h : b.token? = some t) :
    a.sameKey b = true ↔ a.token? = some t := by
  cases t with
  | face f => rw [sameKey_iff_face (token?_eq_face.mp h), token?_eq_face]
  | nan n =>
      rw [token?_eq_nan.mp h, sameKey, Bool.and_eq_true, same_nan,
        token?_eq_nan]
      constructor
      · exact And.left
      · rintro rfl
        exact ⟨rfl, sameMark_nan n⟩

private theorem sameKey_iff_token' (h : a.token? = some t) :
    a.sameKey b = true ↔ b.token? = some t := by
  cases t with
  | face f => rw [sameKey_iff_face' (token?_eq_face.mp h), token?_eq_face]
  | nan n =>
      rw [token?_eq_nan.mp h, sameKey, Bool.and_eq_true, nan_same,
        token?_eq_nan]
      constructor
      · exact And.left
      · rintro rfl
        exact ⟨rfl, sameMark_nan n⟩

/-- Keys that are the same have the same token, if they have any. -/
private theorem token?_eq_of_sameKey (h : a.sameKey b = true) :
    a.token? = b.token? := by
  cases hb : b.token? with
  | some t => exact (sameKey_iff_token hb).mp h
  | none =>
      cases ha : a.token? with
      | none => rfl
      | some t =>
          rw [(sameKey_iff_token' ha).mp h] at hb
          cases hb

end Value

-- ================================================================ in an index

namespace Index

variable {ids : Handle → Value} {index : Index} {id : Value} {h : Handle}

/-- An element is found under its own id. -/
private theorem Coherent.find?_own (hc : Coherent ids index)
    {e : Value × Handle} (he : e ∈ index) :
    index.find? (fun f => f.1.sameKey (ids e.2)) = some e := by
  induction index with
  | nil => cases he
  | cons first index ih =>
      obtain ⟨hapart, -⟩ := List.pairwise_cons.mp hc.apart
      rcases List.mem_cons.mp he with rfl | he
      · exact List.find?_cons_of_pos (hc.own e List.mem_cons_self)
      · rw [List.find?_cons_of_neg
          (by rw [(hapart e he).1]; exact Bool.false_ne_true)]
        exact ih hc.tail he

/-- What is found under a scalar is the element with an id that is the same, if
there is one. -/
theorem Coherent.find?_eq_iff (hc : Coherent ids index)
    (hid : id.isScalar = true) {e : Value × Handle} :
    index.find? (fun f => f.1.sameKey id) = some e
      ↔ e ∈ index ∧ (ids e.2).same id = true := by
  obtain ⟨t, ht⟩ := Value.token?_of_scalar hid
  constructor
  · intro hfound
    have he := List.mem_of_find?_eq_some hfound
    have hkey := List.find?_some hfound
    refine ⟨he, (Value.same_iff_token ht).mpr ?_⟩
    rw [← Value.token?_eq_of_sameKey (hc.own e he)]
    exact (Value.sameKey_iff_token ht).mp hkey
  · rintro ⟨he, hsame⟩
    have hown := hc.find?_own he
    have hagree : ∀ f : Value × Handle,
        f.1.sameKey (ids e.2) = f.1.sameKey id := by
      intro f
      rw [Bool.eq_iff_iff, Value.sameKey_iff_token ht,
        Value.sameKey_iff_token ((Value.same_iff_token ht).mp hsame)]
    simpa only [hagree] using hown

/-- A removal under the id of an element takes its entry and no other. -/
theorem Coherent.mem_erase_of_ne (hc : Coherent ids index)
    {e f : Value × Handle} (he : e ∈ index) (hf : f ∈ index)
    (hne : f.2 ≠ e.2) :
    f ∈ Entries.erase (ids e.2) index := by
  induction index with
  | nil => cases he
  | cons first index ih =>
      obtain ⟨hapart, -⟩ := List.pairwise_cons.mp hc.apart
      unfold Entries.erase Entries.eraseFirst
      split
      · next hfound =>
        rcases List.mem_cons.mp hf with rfl | hf
        · -- the first entry is found under the id of `e`, so it is `e`
          rcases List.mem_cons.mp he with rfl | he
          · exact absurd rfl hne
          · rw [(hapart e he).1] at hfound
            cases hfound
        · exact hf
      · next hother =>
        rcases List.mem_cons.mp he with rfl | he
        · exact absurd (hc.own e List.mem_cons_self) hother
        · rcases List.mem_cons.mp hf with rfl | hf
          · exact List.mem_cons_self
          · exact List.mem_cons_of_mem _ (ih hc.tail he hf)

end Index

end GraphMapper
