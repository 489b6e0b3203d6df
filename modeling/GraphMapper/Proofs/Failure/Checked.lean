/-
What is known of a result, if there is one, and of a failure otherwise.

A computation that gives a result has got through every one of its parts. So
what each part yields can be followed from the front (`Yields.bind`), and a
result can be taken apart from the end (`bind_eq_ok`). A computation that fails
has failed at one of its parts, so it can only fail as these do
(`FailsOnly.bind`).

# The two halves of a specification

`Yields r P` says nothing of a failure and `FailsOnly E r` nothing of a
success, and each is closed under what puts computations together. That they
are separate is what makes the rest short: a module that is about results never
asks how a part may fail, and one that is about failures never asks what a part
gives.

Chain: imported wherever something is computed that may fail.
-/
import GraphMapper.Failure
import Mathlib.Data.List.Forall2

namespace GraphMapper

variable {β γ : Type} {r : Checked β}

/-- If there is a result, it is as it should be. -/
def Yields (r : Checked β) (P : β → Prop) : Prop := ∀ b, r = .ok b → P b

/-- A success has a value. -/
theorem exists_of_isOk (h : r.isOk = true) : ∃ b, r = .ok b := by
  cases r with
  | error e => cases h
  | ok b => exact ⟨b, rfl⟩

/-- The same for a result that comes with a state. -/
theorem exists_ok_of_isOk {p : Checked β × γ} (h : p.1.isOk = true) :
    ∃ b c, p = (.ok b, c) := by
  obtain ⟨outcome, c⟩ := p
  obtain ⟨b, rfl⟩ := exists_of_isOk h
  exact ⟨b, c, rfl⟩

/-- To change the value leaves it a success. -/
theorem isOk_map (r : Checked β) (f : β → γ) : (r.map f).isOk = r.isOk := by
  cases r <;> rfl

/-- What is given as it stands is all that can come of it. -/
theorem yields_pure {b : β} {P : β → Prop} (h : P b) : Yields (pure b) P := by
  intro b' hb
  rw [← Except.ok.inj hb]
  exact h

/-- A result has come by way of an earlier one. -/
theorem bind_eq_ok {k : β → Checked γ} {c : γ} (h : r >>= k = .ok c) :
    ∃ b, r = .ok b ∧ k b = .ok c := by
  cases hb : r with
  | error e => rw [hb] at h; cases h
  | ok b => rw [hb] at h; exact ⟨b, rfl, h⟩

/-- What the second part yields is known from what the first one does. -/
theorem Yields.bind {k : β → Checked γ} {P : β → Prop} {Q : γ → Prop}
    (hr : Yields r P) (hk : ∀ b, P b → Yields (k b) Q) :
    Yields (r >>= k) Q := by
  intro c hc
  obtain ⟨b, hb, hc⟩ := bind_eq_ok hc
  exact hk b (hr b hb) c hc

/-- What nothing is known of may still be gone on with. -/
theorem yields_bind {k : β → Checked γ} {Q : γ → Prop}
    (hk : ∀ b, Yields (k b) Q) :
    Yields (r >>= k) Q :=
  Yields.bind (P := fun _ => True) (fun _ _ => trivial) fun b _ => hk b

/-- What is known may be weakened. -/
theorem Yields.mono {P Q : β → Prop} (h : Yields r P) (hPQ : ∀ b, P b → Q b) :
    Yields r Q :=
  fun b hb => hPQ b (h b hb)

-- =================================================================== lists

variable {α : Type} {f : α → Checked β}

/-- All items have results, or there is none. -/
theorem isOk_mapM (f : α → Checked β) (items : List α) :
    (items.mapM f).isOk = items.all fun a => (f a).isOk := by
  induction items with
  | nil => rfl
  | cons a items ih =>
      rw [List.mapM_cons, List.all_cons, ← ih]
      cases f a with
      | error e => rfl
      | ok b => cases items.mapM f <;> rfl

/-- Each result has come from an item. -/
theorem yields_mapM (f : α → Checked β) (items : List α) :
    Yields (items.mapM f) fun bs => ∀ b ∈ bs, ∃ a ∈ items, f a = .ok b := by
  induction items with
  | nil => exact yields_pure fun _ h => (nomatch h)
  | cons a items ih =>
      rw [List.mapM_cons]
      refine Yields.bind (P := fun b => f a = .ok b) (fun b hb => hb)
        fun b hb => ?_
      refine ih.bind fun bs hbs => yields_pure fun c hc => ?_
      rcases List.mem_cons.mp hc with rfl | hc
      · exact ⟨a, List.mem_cons_self, hb⟩
      · obtain ⟨a', ha', hfa'⟩ := hbs c hc
        exact ⟨a', List.mem_cons_of_mem _ ha', hfa'⟩

/-- If every item has a result, so has the list. -/
theorem mapM_eq_ok {g : α → β} {items : List α}
    (h : ∀ a ∈ items, f a = .ok (g a)) :
    items.mapM f = .ok (items.map g) := by
  induction items with
  | nil => rfl
  | cons a items ih =>
      rw [List.mapM_cons, h a List.mem_cons_self, ih fun b hb =>
        h b (List.mem_cons_of_mem _ hb)]
      rfl

/-- Results stand in the order of their items. -/
theorem forall₂_of_mapM {items : List α} {bs : List β}
    (h : items.mapM f = .ok bs) :
    List.Forall₂ (fun a b => f a = .ok b) items bs := by
  induction items generalizing bs with
  | nil =>
      rw [← Except.ok.inj h]
      exact .nil
  | cons a items ih =>
      rw [List.mapM_cons] at h
      obtain ⟨b, hb, h⟩ := bind_eq_ok h
      obtain ⟨rest, hrest, h⟩ := bind_eq_ok h
      rw [← Except.ok.inj h]
      exact .cons hb (ih hrest)

/-- What stands in the order of the items like that is their results. -/
theorem mapM_of_forall₂ {items : List α} {bs : List β}
    (h : List.Forall₂ (fun a b => f a = .ok b) items bs) :
    items.mapM f = .ok bs := by
  induction h with
  | nil => rfl
  | cons hb _ ih =>
      rw [List.mapM_cons, hb, ih]
      rfl

/-- One pass after the other comes to one pass. -/
theorem mapM_mapM {k : β → Checked γ} {items : List α} {bs : List β}
    {cs : List γ} (hf : items.mapM f = .ok bs) (hk : bs.mapM k = .ok cs) :
    items.mapM (fun a => f a >>= k) = .ok cs := by
  induction items generalizing bs cs with
  | nil =>
      rw [← Except.ok.inj hf] at hk
      exact hk
  | cons a items ih =>
      rw [List.mapM_cons] at hf ⊢
      obtain ⟨b, hb, hf⟩ := bind_eq_ok hf
      obtain ⟨rest, hrest, hf⟩ := bind_eq_ok hf
      rw [← Except.ok.inj hf, List.mapM_cons] at hk
      obtain ⟨c, hc, hk⟩ := bind_eq_ok hk
      obtain ⟨others, hothers, hk⟩ := bind_eq_ok hk
      have hfirst : (f a >>= k) = .ok c := by
        rw [hb]
        exact hc
      rw [hfirst, ih hrest hothers, ← Except.ok.inj hk]
      rfl

/-- And one pass can be taken apart into two. -/
theorem mapM_bind_eq_ok {k : β → Checked γ} {items : List α} {cs : List γ}
    (h : items.mapM (fun a => f a >>= k) = .ok cs) :
    ∃ bs, items.mapM f = .ok bs ∧ bs.mapM k = .ok cs := by
  induction items generalizing cs with
  | nil => exact ⟨[], rfl, h⟩
  | cons a items ih =>
      rw [List.mapM_cons] at h
      obtain ⟨c, hfirst, h⟩ := bind_eq_ok h
      obtain ⟨others, hothers, h⟩ := bind_eq_ok h
      obtain ⟨b, hb, hc⟩ := bind_eq_ok hfirst
      obtain ⟨bs, hbs, hcs⟩ := ih hothers
      refine ⟨b :: bs, ?_, ?_⟩
      · rw [List.mapM_cons, hb, hbs]
        rfl
      · rw [List.mapM_cons, hc, hcs, ← Except.ok.inj h]
        rfl

-- ================================================================ failures

variable {E : Failure → Prop}

/-- If there is a failure, it is of the expected kind. -/
def FailsOnly (E : Failure → Prop) (r : Checked β) : Prop :=
  ∀ e, r = .error e → E e

/-- A success is no failure. -/
theorem failsOnly_ok (b : β) : FailsOnly E (.ok b : Checked β) :=
  fun _ h => (nomatch h)

/-- One failure, which is of the kind. -/
theorem failsOnly_error {e : Failure} (h : E e) :
    FailsOnly E (.error e : Checked β) := by
  intro e' he
  rw [← Except.error.inj he]
  exact h

/-- The failure of a whole is that of a part. -/
theorem FailsOnly.bind {k : β → Checked γ} (hr : FailsOnly E r)
    (hk : ∀ b, FailsOnly E (k b)) : FailsOnly E (r >>= k) := by
  intro e he
  cases hb : r with
  | error e' =>
      rw [hb] at he
      exact hr e (hb.trans (congrArg Except.error (Except.error.inj he)))
  | ok b =>
      rw [hb] at he
      exact hk b e he

/-- A change of the value has no part in it. -/
theorem FailsOnly.map (h : FailsOnly E r) (f : β → γ) :
    FailsOnly E (r.map f) := by
  intro e he
  cases hb : r with
  | error e' =>
      rw [hb] at he
      exact h e (hb.trans (congrArg Except.error (Except.error.inj he)))
  | ok b =>
      rw [hb] at he
      cases he

/-- A row of computations fails where its first failure is. -/
theorem failsOnly_mapM (h : ∀ a, FailsOnly E (f a)) (items : List α) :
    FailsOnly E (items.mapM f) := by
  induction items with
  | nil => exact failsOnly_ok _
  | cons a items ih =>
      rw [List.mapM_cons]
      exact (h a).bind fun _ => ih.bind fun _ => failsOnly_ok _

/-- And so does a computation that is carried along a row. -/
theorem failsOnly_foldlM {f : β → α → Checked β}
    (h : ∀ b a, FailsOnly E (f b a)) (items : List α) (b : β) :
    FailsOnly E (items.foldlM f b) := by
  induction items generalizing b with
  | nil => exact failsOnly_ok _
  | cons a items ih =>
      rw [List.foldlM_cons]
      exact (h b a).bind fun b' => ih b'

end GraphMapper
