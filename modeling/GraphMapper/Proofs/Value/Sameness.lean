/-
When scalars are the same, and which values are the same as themselves.

A scalar other than NaN has a face: its place on the number line, its
characters, its day, its instant or what a clock on a wall shows. Whatever is
compared with such a scalar is the same, equal and the same key just when it
has that face (`sameKey_iff_face`, `equal_iff_face`). So sameness with scalars
is an equivalence, though sameness is not one in general.

A value is the same as itself if the parts of it that are used as keys can be
keys. Values that an application makes are like that, since a mapping or a set
with another key cannot be made (`isProper`). Such a value that may be a key is
the same key as itself (`sameKey_self`).

# Why faces

Sameness is defined by cases on both values, and there are many: a number may
be a truth value, an integer or a fraction, and all three may be the same. To
show that it is symmetric or transitive would take a case for every two or
three kinds. A face is one value for each of them, so a statement on two
scalars becomes an equation, and cases are needed only once, to show that faces
tell what is the same.

Chain: `Value.Equality` alone; used by `Value.Entries`, `Value.Printing` and
all that compares keys.
-/
import GraphMapper.Value.Equality

namespace GraphMapper

-- =================================================================== faces

/-- What a scalar is compared by. -/
inductive Face where
  | bottom | top
  | number (q : Rat)
  | text (s : String)
  | date (d : Date)
  | instant (micros : Int)
  | wall (micros : Int)
  deriving DecidableEq

namespace Position

/-- The place on the number line in lowest terms. -/
def face : Position → Face
  | .bottom => .bottom
  | .finite r => .number (mkRat r.num r.den)
  | .top => .top

/-- A place on the number line is nothing else. -/
@[simp] theorem face_ne (p : Position) :
    (∀ s, p.face ≠ .text s ∧ .text s ≠ p.face) ∧ ∀ d,
      p.face ≠ .date d ∧ .date d ≠ p.face := by
  cases p <;> simp [face]

/-- Two quotients are equal when they are the same in lowest terms. -/
theorem beq_iff_face (p q : Position) : p.beq q = true ↔ p.face = q.face := by
  cases p with
  | bottom => cases q <;> simp [beq, face]
  | top => cases q <;> simp [beq, face]
  | finite a =>
      cases q with
      | bottom => simp [beq, face]
      | top => simp [beq, face]
      | finite b =>
          have ha : a.den ≠ 0 := Nat.pos_iff_ne_zero.mp a.den_pos
          have hb : b.den ≠ 0 := Nat.pos_iff_ne_zero.mp b.den_pos
          simp only [beq, Ratio.beq, face, decide_eq_true_eq,
            Face.number.injEq]
          exact (Rat.mkRat_eq_iff ha hb).symm

end Position

/-- An instant, or what is shown where there is none. -/
def DateTime.face (t : DateTime) : Face :=
  match t.instant? with
  | some micros => .instant micros
  | none => .wall t.wallMicros

/-- A time is nothing else. -/
@[simp] theorem DateTime.face_ne (t : DateTime) :
    (∀ s, t.face ≠ .text s ∧ .text s ≠ t.face) ∧
      (∀ d, t.face ≠ .date d ∧ .date d ≠ t.face) ∧
    ∀ p : Position, t.face ≠ p.face ∧ p.face ≠ t.face := by
  unfold face
  refine ⟨fun s => ?_, fun d => ?_, fun p => ?_⟩
  · split <;> simp
  · split <;> simp
  · cases p <;> split <;> simp [Position.face]

/-- Two times are equal if they show the same instant or the same clock. -/
theorem DateTime.beq_iff_face (a b : DateTime) :
    a.beq b = true ↔ a.face = b.face := by
  unfold beq face
  cases a.instant? <;> cases b.instant? <;> simp

namespace Value

/-- The face of a scalar; a NaN has none, and neither has anything that is no
scalar. -/
def face? : Value → Option Face
  | .text s => some (.text s)
  | .symbol (.fieldType t) => some (.text t.word)
  | .date d => some (.date d)
  | .dateTime t => some t.face
  | .bool b => some (Position.finite (.ofInt (if b then 1 else 0))).face
  | .int n => some (Position.finite (.ofInt n)).face
  | .float x => x.position?.map Position.face
  | _ => none

variable {a b v : Value} {f : Face}

/-- An atom is equal to a text just when its characters are these, a field
type's being its word. -/
theorem equalAtoms_word {b : Value} {s : String} (hb : b.text? = some s)
    (a : Value) :
    equalAtoms a b = true ↔ a.face? = some (.text s) := by
  have hspelled : b = .text s ∨ ∃ t,
      b = .symbol (.fieldType t) ∧ t.word = s := by
    unfold text? at hb
    split at hb
    · exact .inl (congrArg Value.text (Option.some.inj hb))
    · exact .inr ⟨_, rfl, Option.some.inj hb⟩
    · cases hb
  rcases hspelled with rfl | ⟨t, rfl, rfl⟩
  all_goals
    cases a with
    | symbol r =>
        cases r with
        | fieldType t' =>
            simp only [equalAtoms, face?, text?, beq_iff_eq, Option.some.injEq,
              Face.text.injEq]
            exact eq_comm
        | _ => simp [equalAtoms, face?, text?, position?]
    | float x =>
        cases hx : x.position? <;>
          simp [equalAtoms, face?, text?, position?, hx]
    | _ => simp [equalAtoms, face?, text?, position?]

/-- A day is equal to the same day only. -/
theorem equalAtoms_date (a : Value) (d : Date) :
    equalAtoms a (.date d) = true ↔ a.face? = some (.date d) := by
  cases a with
  | symbol r => cases r <;> simp [equalAtoms, face?, position?, text?]
  | float x =>
      cases hx : x.position? <;> simp [equalAtoms, face?, position?, hx]
  | _ => simp [equalAtoms, face?, position?]

/-- A time is equal to what has its face only. -/
theorem equalAtoms_dateTime (a : Value) (t : DateTime) :
    equalAtoms a (.dateTime t) = true ↔ a.face? = some t.face := by
  cases a with
  | symbol r => cases r <;> simp [equalAtoms, face?, position?, text?]
  | float x =>
      cases hx : x.position? <;> simp [equalAtoms, face?, position?, hx]
  | dateTime t' => simp [equalAtoms, face?, DateTime.beq_iff_face]
  | _ => simp [equalAtoms, face?, position?]

/-- Numbers are compared by their places. -/
theorem equalAtoms_number {b : Value} {p : Position}
    (hb : b.position? = some (some p)) (a : Value) :
    equalAtoms a b = true ↔ a.face? = some p.face := by
  cases b <;> simp only [position?, reduceCtorEq, Option.some.injEq] at hb
  all_goals
    cases a with
    | symbol r => cases r <;> simp [equalAtoms, face?, position?, text?]
    | float x =>
        cases hx : x.position? <;>
          simp [equalAtoms, face?, position?, hx, hb, Position.beq_iff_face]
    | _ => simp [equalAtoms, face?, position?, hb, Position.beq_iff_face]

/-- An atom is equal to a scalar just when it has its face. -/
theorem equalAtoms_iff_face (h : b.face? = some f) :
    equalAtoms a b = true ↔ a.face? = some f := by
  rw [← h]
  cases b with
  | text s => exact equalAtoms_word rfl a
  | date d => exact equalAtoms_date a d
  | dateTime t => exact equalAtoms_dateTime a t
  | bool b => exact equalAtoms_number rfl a
  | int n => exact equalAtoms_number rfl a
  | float x =>
      cases hx : x.position? with
      | none => simp [face?, hx] at h
      | some p =>
          have hp : (Value.float x).face? = some p.face := by simp [face?, hx]
          rw [hp]
          exact equalAtoms_number (by simp [position?, hx]) a
  | symbol r =>
      cases r with
      | fieldType t => exact equalAtoms_word rfl a
      | _ => cases h
  | _ => cases h

/-- What has no face is equal to no scalar. -/
theorem equalAtoms_of_no_face (ha : a.face? = some f) (hb : b.face? = none) :
    equalAtoms a b = false := by
  have hnowhere : ∀ p, b.position? ≠ some (some p) := by
    intro p hp
    cases b <;> simp [position?, face?] at hp hb
    simp [hp] at hb
  have hwordless : b.text? = none := by
    cases b with
    | text s => simp [face?] at hb
    | symbol r => cases r <;> first | rfl | simp [face?] at hb
    | _ => rfl
  unfold equalAtoms
  split
  case h_7 => simp [hwordless]
  case h_9 r r' hr _ =>
    cases r with
    | fieldType t => exact absurd rfl (hr t)
    | _ => simp [face?] at ha
  case h_11 =>
    split
    · next hp => exact absurd hp (hnowhere _)
    · rfl
  all_goals first | (simp [face?] at ha; done) | simp [face?] at hb

/-- Whichever of two atoms is the scalar, they are equal when they have one
face. -/
theorem equalAtoms_iff_face' (h : a.face? = some f) :
    equalAtoms a b = true ↔ b.face? = some f := by
  cases hb : b.face? with
  | none => simp [equalAtoms_of_no_face h hb]
  | some f' =>
      rw [equalAtoms_iff_face hb, h]
      exact eq_comm

/-- Sameness of atoms is their equality unless both are NaN. -/
theorem sameAtoms_of_face (h : a.face? = some f ∨ b.face? = some f) :
    sameAtoms a b = equalAtoms a b := by
  unfold sameAtoms
  split
  · next x y =>
    have hnan : x.isSameNaN y = false := by
      cases x with
      | nan m =>
          cases y with
          | nan n => simp [face?, Binary64.position?] at h
          | _ => rfl
      | _ => rfl
    rw [hnan, Bool.false_or]
  · rfl

/-- A scalar is compared as an atom. -/
theorem same_eq_sameAtoms (h : a.face? = some f ∨ b.face? = some f) :
    a.same b = sameAtoms a b := by
  rcases h with h | h
  · cases a <;> first | rfl | exact absurd h (by simp [face?])
  · cases b <;> first | (cases a <;> rfl) | exact absurd h (by simp [face?])

/-- What is the same as a scalar has its face. -/
theorem same_iff_face (h : b.face? = some f) :
    a.same b = true ↔ a.face? = some f := by
  rw [same_eq_sameAtoms (.inr h), sameAtoms_of_face (.inr h),
    equalAtoms_iff_face h]

/-- What a scalar is the same as has its face. -/
theorem same_iff_face' (h : a.face? = some f) :
    a.same b = true ↔ b.face? = some f := by
  rw [same_eq_sameAtoms (.inl h), sameAtoms_of_face (.inl h),
    equalAtoms_iff_face' h]

/-- Scalars with one face have one mark. -/
theorem sameMark_of_face (ha : a.face? = some f) (hb : b.face? = some f) :
    a.sameMark b = true := by
  have hbearer : b.bearer = b := by
    cases b <;> first | rfl | exact absurd hb (by simp [face?])
  have hatoms : a.sameMark b = sameAtoms a b.bearer := by
    cases a <;> first | rfl | exact absurd ha (by simp [face?])
  rw [hatoms, hbearer, sameAtoms_of_face (.inl ha), equalAtoms_iff_face hb, ha]

/-- What is found under a scalar as the key stands under its face. -/
theorem sameKey_iff_face (h : b.face? = some f) :
    a.sameKey b = true ↔ a.face? = some f := by
  unfold sameKey
  rw [Bool.and_eq_true, same_iff_face h]
  exact ⟨fun hab => hab.1, fun ha => ⟨ha, sameMark_of_face ha h⟩⟩

/-- The same for keys, with the scalar first. -/
theorem sameKey_iff_face' (h : a.face? = some f) :
    a.sameKey b = true ↔ b.face? = some f := by
  unfold sameKey
  rw [Bool.and_eq_true, same_iff_face' h]
  exact ⟨fun hab => hab.1, fun hb => ⟨hb, sameMark_of_face h hb⟩⟩

/-- Keys that are the same have the same face, if they have any. -/
theorem face_eq_of_sameKey (h : a.sameKey b = true) : a.face? = b.face? := by
  cases hb : b.face? with
  | some f => exact (sameKey_iff_face hb).mp h
  | none =>
      cases ha : a.face? with
      | none => rfl
      | some f => rw [(sameKey_iff_face' ha).mp h] at hb; cases hb

/-- What is equal to a scalar has its face. -/
theorem equal_iff_face (h : b.face? = some f) :
    a.equal b = true ↔ a.face? = some f := by
  have hsame : a.equal b = equalAtoms a b := by
    cases b <;> first | (cases a <;> rfl) | exact absurd h (by simp [face?])
  rw [hsame, equalAtoms_iff_face h]

/-- What a scalar is equal to has its face. -/
theorem equal_iff_face' (h : a.face? = some f) :
    a.equal b = true ↔ b.face? = some f := by
  have hsame : a.equal b = equalAtoms a b := by
    cases a <;> first | (cases b <;> rfl) | exact absurd h (by simp [face?])
  rw [hsame, equalAtoms_iff_face' h]

/-- Values that hold no others and belong to no vocabulary: nothing, truth
values, numbers, texts, octets, days and instants. -/
def isBare : Value → Bool
  | .null | .bool _ | .int _ | .float _ | .text _ | .bytes _ | .date _
  | .dateTime _ => true
  | _ => false

/-- What is the same as such a value is one too, or a member of a vocabulary
that counts as a text. -/
theorem isBare_of_same (ha : a.isBare = true) (h : a.same b = true) :
    b.isBare = true ∨ ∃ s, b = .symbol s := by
  cases b with
  | null | bool _ | int _ | float _ | text _ | bytes _ | date _ | dateTime _ =>
      exact .inl rfl
  | symbol s => exact .inr ⟨s, rfl⟩
  | _ =>
      exfalso
      revert ha
      cases a with
      | float x => cases x <;> cases h
      | _ => first | cases h | exact Bool.false_ne_true

/-- A scalar can be a key. -/
theorem isKey_of_face (h : v.face? = some f) : v.isKey = true := by
  cases v <;> first | rfl | cases h

/-- Every scalar but NaN has a face. -/
theorem face_of_scalar (h : v.isScalar = true) (hv : v.equal v = true) :
    ∃ f, v.face? = some f := by
  cases v with
  | float x =>
      cases x with
      | nan n => simp [equal, equalAtoms, position?, Binary64.position?] at hv
      | infinite negative => exact ⟨_, rfl⟩
      | finite negative m e hc => exact ⟨_, rfl⟩
  | symbol r =>
      cases r with
      | fieldType t => exact ⟨_, rfl⟩
      | _ => simp [isScalar] at h
  | bool b => exact ⟨_, rfl⟩
  | int n => exact ⟨_, rfl⟩
  | text s => exact ⟨_, rfl⟩
  | date d => exact ⟨_, rfl⟩
  | dateTime t => exact ⟨_, rfl⟩
  | _ => simp [isScalar] at h

/-- What is the same as a value that is equal to itself is equal to it. -/
theorem equal_of_same :
    ∀ {a b : Value}, a.same b = true → b.equal b = true → a.equal b = true
  | .vertex id _, b, hsame, hb => by
      cases b with
      | vertex id' label' => exact equal_of_same (a := id) hsame hb
      -- any other value is the same only by being equal
      | _ => exact hsame
  | .edge id .., b, hsame, hb => by
      cases b with
      | edge id' => exact equal_of_same (a := id) hsame hb
      | _ => exact hsame
  | .vertexProperty id _ _, b, hsame, hb => by
      cases b with
      | vertexProperty id' => exact equal_of_same (a := id) hsame hb
      | _ => exact hsame
  | .property k v, b, hsame, hb => by
      cases b with
      | property k' v' =>
          simp only [same, equal, Bool.and_eq_true] at hsame hb ⊢
          exact ⟨equal_of_same hsame.1 hb.1, equal_of_same hsame.2 hb.2⟩
      | _ => exact hsame
  | .traverser object, b, hsame, hb => by
      cases b with
      | traverser object' => exact equal_of_same (a := object) hsame hb
      | _ => exact hsame
  | .predicate t op x bound, b, hsame, hb => by
      cases b with
      | predicate t' op' x' bound' =>
          simp only [same, equal, Bool.and_eq_true] at hsame hb ⊢
          exact ⟨⟨hsame.1.1, equal_of_same hsame.1.2 hb.1.2⟩,
            equal_of_same hsame.2 hb.2⟩
      | _ => exact hsame
  | .float x, b, hsame, hb => by
      cases b with
      | float y =>
          obtain ⟨f, hf⟩ := face_of_scalar (v := .float y) rfl hb
          rw [same_iff_face hf] at hsame
          exact (equal_iff_face hf).mpr hsame
      | _ => exact hsame
  | .null, _, hsame, _ | .bool _, _, hsame, _ | .int _, _, hsame, _
  | .text _, _, hsame, _ | .bytes _, _, hsame, _ | .date _, _, hsame, _
  | .dateTime _, _, hsame, _ | .list _, _, hsame, _ | .tuple _, _, hsame, _
  | .set _, _, hsame, _ | .map _, _, hsame, _ | .symbol _, _, hsame, _
  | .datatype _, _, hsame, _ | .path _, _, hsame, _ | .traversal _, _, hsame, _
  | .foreign _ _, _, hsame, _ => hsame

-- ============================================================== reflexivity

mutual

/-- Every value that is used as a key, in the value or in a part of it, may be
one. -/
def isProper : Value → Bool
  | .list items | .tuple items | .path items => areProper items
  | .set items => areKeys items && areProper items
  | .map entries => haveProperKeys entries
  | .vertex id label => id.isProper && label.isProper
  | .edge id label outId outLabel inId inLabel =>
    id.isProper && label.isProper && outId.isProper && outLabel.isProper &&
      inId.isProper && inLabel.isProper
  | .vertexProperty id label value =>
      id.isProper && label.isProper && value.isProper
  | .property key value => key.isProper && value.isProper
  | .traverser object => object.isProper
  | .predicate _ _ operand bound => operand.isProper && bound.isProper
  | .traversal steps => stepsAreProper steps
  | _ => true
termination_by structural v => v

/-- All values of a row are proper. -/
def areProper : List Value → Bool
  | [] => true
  | v :: vs => v.isProper && areProper vs
termination_by structural vs => vs

/-- All keys of a mapping can be keys and are proper, and the values are. -/
def haveProperKeys : List (Value × Value) → Bool
  | [] => true
  | (k, v) :: es => k.isKey && k.isProper && v.isProper && haveProperKeys es
termination_by structural es => es

/-- All arguments of steps are proper. -/
def stepsAreProper : List Step → Bool
  | [] => true
  | .call _ args :: steps => areProper args && stepsAreProper steps
termination_by structural steps => steps

end

/-- The bearer of an identity bears its own. -/
theorem bearer_bearer : ∀ v : Value, v.bearer.bearer = v.bearer
  | .vertex id _ => bearer_bearer id
  | .edge id .. => bearer_bearer id
  | .vertexProperty id _ _ => bearer_bearer id
  | .null | .bool _ | .int _ | .float _ | .text _ | .bytes _ | .date _
  | .dateTime _ | .list _ | .tuple _ | .set _ | .map _ | .symbol _
  | .datatype _ | .property _ _ | .path _ | .traverser _ | .predicate ..
  | .traversal _ | .foreign _ _ => rfl

/-- The mark of a value is that of its bearer. -/
theorem sameMark_bearer : ∀ a b : Value, a.sameMark b.bearer = a.sameMark b
  | .vertex id _, b => sameMark_bearer id b
  | .edge id .., b => sameMark_bearer id b
  | .vertexProperty id _ _, b => sameMark_bearer id b
  | .null, b | .bool _, b | .int _, b | .float _, b | .text _, b
  | .bytes _, b | .date _, b | .dateTime _, b | .list _, b | .tuple _, b
  | .set _, b | .map _, b | .symbol _, b | .datatype _, b | .property _ _, b
  | .path _, b | .traverser _, b | .predicate .., b | .traversal _, b
  | .foreign _ _, b => by simp only [sameMark, bearer_bearer]

mutual

/-- A proper value is the same as itself. -/
theorem same_self : ∀ v : Value, v.isProper = true → v.same v = true
  | .list items, h => sameItems_self items (by simpa [isProper] using h)
  | .tuple items, h => sameItems_self items (by simpa [isProper] using h)
  | .path items, h => sameItems_self items (by simpa [isProper] using h)
  | .set items, h => by
      simp only [isProper, Bool.and_eq_true] at h
      simp only [same, beq_self_eq_true, Bool.true_and]
      exact sameMembers_self items h.1 h.2 items fun _ hv => hv
  | .map entries, h => by
      simp only [same, beq_self_eq_true, Bool.true_and]
      exact sameEntries_self entries (by simpa [isProper] using h) entries
        fun _ he => he
  | .vertex id _, h => by
      simp only [isProper, Bool.and_eq_true] at h
      exact same_self id h.1
  | .edge id .., h => by
      simp only [isProper, Bool.and_eq_true] at h
      exact same_self id h.1.1.1.1.1
  | .vertexProperty id _ _, h => by
      simp only [isProper, Bool.and_eq_true] at h
      exact same_self id h.1.1
  | .property k v, h => by
      simp only [isProper, Bool.and_eq_true] at h
      simp only [same, same_self k h.1, same_self v h.2, Bool.and_true]
  | .traverser object, h => same_self object (by simpa [isProper] using h)
  | .predicate t op x bound, h => by
      simp only [isProper, Bool.and_eq_true] at h
      simp only [same, beq_self_eq_true, same_self x h.1, same_self bound h.2,
        Bool.and_true]
  | .traversal steps, h => sameSteps_self steps (by simpa [isProper] using h)
  | .null, _ => rfl
  | .bool b, _ => (same_iff_face rfl).mpr rfl
  | .int n, _ => (same_iff_face rfl).mpr rfl
  | .text s, _ => (same_iff_face rfl).mpr rfl
  | .date d, _ => (same_iff_face rfl).mpr rfl
  | .dateTime t, _ => (same_iff_face rfl).mpr rfl
  | .float x, _ => by
      -- a NaN is the same as itself though it equals nothing
      cases x with
      | nan n => simp [same, sameAtoms, Binary64.isSameNaN]
      | infinite negative => exact (same_iff_face rfl).mpr rfl
      | finite negative m e hc => exact (same_iff_face rfl).mpr rfl
  | .symbol r, _ => by
      cases r with
      | fieldType t => exact (same_iff_face rfl).mpr rfl
      | _ => simp [same, sameAtoms, equalAtoms]
  | .bytes octets, _ => by simp [same, sameAtoms, equalAtoms]
  | .datatype t, _ => by simp [same, sameAtoms, equalAtoms]
  | .foreign name mark, _ => by simp [same, sameAtoms, equalAtoms]

/-- A row is the same as itself, item by item. -/
theorem sameItems_self :
    ∀ vs : List Value, areProper vs = true → sameItems vs vs = true
  | [], _ => rfl
  | v :: vs, h => by
      simp only [areProper, Bool.and_eq_true] at h
      simp only [sameItems, same_self v h.1, sameItems_self vs h.2,
        Bool.and_true]

/-- Each member of a set is found among the members. -/
theorem sameMembers_self :
    ∀ vs : List Value, areKeys vs = true → areProper vs = true →
      ∀ all : List Value, (∀ v ∈ vs, v ∈ all) → sameMembers vs all = true
  | [], _, _, _, _ => rfl
  | v :: vs, hkeys, h, all, hall => by
      simp only [areKeys, Bool.and_eq_true] at hkeys
      simp only [areProper, Bool.and_eq_true] at h
      have hv : (all.any fun b => v.same b && v.sameMark b) = true := by
        refine List.any_eq_true.mpr ⟨v, hall v List.mem_cons_self, ?_⟩
        rw [same_self v h.1, sameMark_self v h.1 hkeys.1]
        rfl
      rw [sameMembers, hv, Bool.true_and]
      exact sameMembers_self vs hkeys.2 h.2 all fun u hu =>
        hall u (List.mem_cons_of_mem v hu)

/-- Each entry of a mapping is found in the mapping, under a key that can be
one. -/
theorem sameEntries_self :
    ∀ es : List (Value × Value), haveProperKeys es = true →
      ∀ all : List (Value × Value),
      (∀ e ∈ es, e ∈ all) → sameEntries es all = true
  | [], _, _, _ => rfl
  | (k, v) :: es, h, all, hall => by
      simp only [haveProperKeys, Bool.and_eq_true] at h
      obtain ⟨⟨⟨hkey, hk⟩, hv⟩, hes⟩ := h
      have he : (all.any fun b => k.same b.1 && k.sameMark b.1 && v.same b.2)
          = true := by
        refine List.any_eq_true.mpr ⟨(k, v), hall _ List.mem_cons_self, ?_⟩
        rw [same_self k hk, sameMark_self k hk hkey, same_self v hv]
        rfl
      rw [sameEntries, he, Bool.true_and]
      exact sameEntries_self es hes all fun u hu =>
        hall u (List.mem_cons_of_mem _ hu)

/-- Steps are the same as themselves. -/
theorem sameSteps_self : ∀ steps : List Step, stepsAreProper steps = true →
    sameSteps steps steps = true
  | [], _ => rfl
  | .call name args :: steps, h => by
      simp only [stepsAreProper, Bool.and_eq_true] at h
      simp only [sameSteps, sameStep, beq_self_eq_true,
        sameItems_self args h.1, sameSteps_self steps h.2, Bool.and_true]

/-- A proper value that may be a key has its own mark. -/
theorem sameMark_self :
    ∀ v : Value, v.isProper = true → v.isKey = true → v.sameMark v = true
  | .tuple items, h, hkey => sameMarks_self items (by simpa [isProper] using h)
      (by simpa [isKey] using hkey)
  | .path items, _, _ => by simp [sameMark, bearer]
  | .vertex id label, h, hkey => by
      simp only [isProper, Bool.and_eq_true] at h
      rw [sameMark, ← sameMark_bearer, bearer, sameMark_bearer]
      exact sameMark_self id h.1 hkey
  | .edge id .., h, hkey => by
      simp only [isProper, Bool.and_eq_true] at h
      rw [sameMark, ← sameMark_bearer, bearer, sameMark_bearer]
      exact sameMark_self id h.1.1.1.1.1 hkey
  | .vertexProperty id _ _, h, hkey => by
      simp only [isProper, Bool.and_eq_true] at h
      rw [sameMark, ← sameMark_bearer, bearer, sameMark_bearer]
      exact sameMark_self id h.1.1 hkey
  | .property k v, h, hkey => by
      simp only [isProper, Bool.and_eq_true] at h
      simp only [isKey, Bool.and_eq_true] at hkey
      simp [sameMark, bearer, sameMark_self k h.1 hkey.1,
        sameMark_self v h.2 hkey.2]
  | .list _, _, hkey | .set _, _, hkey | .map _, _, hkey
  | .traverser _, _, hkey | .predicate .., _, hkey
  | .traversal _, _, hkey => by simp [isKey] at hkey
  | .null, _, _ => rfl
  | .bool b, _, _ => sameMark_of_face rfl rfl
  | .int n, _, _ => sameMark_of_face rfl rfl
  | .text s, _, _ => sameMark_of_face rfl rfl
  | .date d, _, _ => sameMark_of_face rfl rfl
  | .dateTime t, _, _ => sameMark_of_face rfl rfl
  | .float x, _, _ => by
      cases x with
      | nan n => simp [sameMark, bearer, sameAtoms, Binary64.isSameNaN]
      | infinite negative => exact sameMark_of_face rfl rfl
      | finite negative m e hc => exact sameMark_of_face rfl rfl
  | .symbol r, _, _ => by
      cases r with
      | fieldType t => exact sameMark_of_face rfl rfl
      | _ => simp [sameMark, bearer, sameAtoms, equalAtoms]
  | .bytes octets, _, _ => by simp [sameMark, bearer, sameAtoms, equalAtoms]
  | .datatype t, _, _ => by simp [sameMark, bearer, sameAtoms, equalAtoms]
  | .foreign name mark, _, _ => by
      simp [sameMark, bearer, sameAtoms, equalAtoms]

/-- So are the marks that a set is told by. -/
theorem sameMarks_self :
    ∀ vs : List Value, areProper vs = true → areKeys vs = true →
      sameMarks vs vs = true
  | [], _, _ => rfl
  | v :: vs, h, hkeys => by
      simp only [areProper, Bool.and_eq_true] at h
      simp only [areKeys, Bool.and_eq_true] at hkeys
      simp only [sameMarks, sameMark_self v h.1 hkeys.1,
        sameMarks_self vs h.2 hkeys.2, Bool.and_true]

end

/-- A proper value that may be a key is found under itself. -/
theorem sameKey_self (h : v.isProper = true) (hkey : v.isKey = true) :
    v.sameKey v = true := by
  rw [sameKey, same_self v h, sameMark_self v h hkey]
  rfl

end Value

end GraphMapper
