/-
What the operations of a registry do to the pending work of open transactions.

There are three kinds of operations. Most of them only end transactions: what
is open afterwards was open before, with the work that it had (`Narrows`). That
is true of commit, rollback and expiry, and so of every row of them; an expiry
that has been looked at once need not be looked at again until the clock moves
on (`expire_expire`). One operation opens a transaction, which has no work yet
(`pending_begin`), and one puts work in place of what was there
(`pending_store_self`, `pending_store_of_ne`).

An id is used once. It names the number of the transaction, and numbers only
grow, so a new transaction can have no record of an older one in its way
(`Accounted`).

# Two relations for all operations

`Narrows` is about what is open and `Accounted` about which ids there can be,
and both are closed under the operations in a row. A caller that runs several
operations, as a commit that looks for expired transactions first does,
composes the relations and never opens the registry.

Chain: `Connector.Frame` takes `Narrows` as the condition that most calls keep;
`Fate` says exactly what ends.
-/
import GraphMapper.Transaction.Registry

namespace GraphMapper.Transactions

variable {π : Type} {r r' r'' : Transactions π} {id id' : String}

-- ========================================================= reading records

/-- A change of one record is not seen under another id. -/
private theorem find?_update_of_ne (f : Transaction π → Transaction π)
    (hf : ∀ t, (f t).id = t.id) (h : id' ≠ id)
    (records : List (Transaction π)) :
    (records.map fun t => if t.id == id then f t else t).find?
      (fun t => t.id == id') = records.find? (fun t => t.id == id') := by
  induction records with
  | nil => rfl
  | cons t records ih =>
      rw [List.map_cons, List.find?_cons, List.find?_cons, ih]
      by_cases ht : t.id = id
      · have hne : (t.id == id') = false := by
          simp only [beq_eq_false_iff_ne, ne_eq]
          exact fun heq => h (heq.symm.trans ht)
        simp only [ht, beq_self_eq_true, if_true, hf]
        rw [← ht, hne]
      · have hbeq : (t.id == id) = false := by simpa using ht
        simp only [hbeq, Bool.false_eq_true, if_false]

/-- Under its own id a changed record is found, changed. -/
private theorem find?_update_self (id : String)
    (f : Transaction π → Transaction π)
    (hf : ∀ t, (f t).id = t.id) (records : List (Transaction π)) :
    (records.map fun t => if t.id == id then f t else t).find?
      (fun t => t.id == id) = (records.find? fun t => t.id == id).map f := by
  induction records with
  | nil => rfl
  | cons t records ih =>
      rw [List.map_cons, List.find?_cons, List.find?_cons, ih]
      by_cases ht : t.id = id
      · simp [ht, hf]
      · have hbeq : (t.id == id) = false := by simpa using ht
        simp only [hbeq, Bool.false_eq_true, if_false]

/-- What is found is open. -/
private theorem isOpen_of_find? {t : Transaction π} (h : r.find? id = some t) :
    r.isOpen id = true := by
  unfold find? at h
  split at h
  · assumption
  · cases h

/-- Changes of records leave their ids. -/
private theorem ids_update (r : Transactions π) (id : String)
    (f : Transaction π → Transaction π) (hf : ∀ t, (f t).id = t.id) :
    (r.update id f).records.map (·.id) = r.records.map (·.id) := by
  unfold update
  rw [List.map_map]
  refine List.map_congr_left fun t _ => ?_
  show (if t.id == id then f t else t).id = t.id
  split
  · exact hf t
  · rfl

-- =============================================================== narrowing

/-- Nothing has been opened and no work has been changed: a transaction that is
open now was open before, with the same work. -/
structure Narrows (r r' : Transactions π) : Prop where
  issued : r'.issued = r.issued
  ids : r'.records.map (·.id) = r.records.map (·.id)
  wasOpen : ∀ id, r'.isOpen id = true → r.isOpen id = true
  pending : ∀ id, r'.isOpen id = true → r'.pending id = r.pending id

/-- Nothing has ended. -/
theorem Narrows.refl (r : Transactions π) : Narrows r r :=
  ⟨rfl, rfl, fun _ h => h, fun _ _ => rfl⟩

/-- What has ended at last has ended. -/
theorem Narrows.trans (h : Narrows r r') (h' : Narrows r' r'') :
    Narrows r r'' where
  issued := h'.issued.trans h.issued
  ids := h'.ids.trans h.ids
  wasOpen := fun id hid => h.wasOpen id (h'.wasOpen id hid)
  pending := fun id hid =>
    (h'.pending id hid).trans (h.pending id (h'.wasOpen id hid))

/-- Operations on one id after the other narrow a registry if each of them
does. -/
private theorem narrows_foldl {f : Transactions π → String → Transactions π}
    (hf : ∀ r id, Narrows r (f r id)) (ids : List String)
    (r : Transactions π) :
    Narrows r (ids.foldl f r) := by
  induction ids generalizing r with
  | nil => exact .refl r
  | cons id ids ih => exact (hf r id).trans (ih (f r id))

/-- The end of a transaction is not seen under another id, and under its own
nothing is open. -/
private theorem find?_finish {id j : String} {state : TransactionState}
    (hj : (r.finish id state).isOpen j = true) :
    r.isOpen j = true ∧ j ≠ id ∧ (r.finish id state).find? j = r.find? j := by
  obtain ⟨hopen, hne⟩ : r.isOpen j = true ∧ j ≠ id := by
    simpa [finish, isOpen, update] using hj
  have hfind : (r.finish id state).records.find? (fun t => t.id == j)
      = r.records.find? (fun t => t.id == j) :=
    find?_update_of_ne (·.finish state) (fun _ => rfl) hne r.records
  refine ⟨hopen, hne, ?_⟩
  unfold find?
  rw [hj, hopen, if_pos rfl, if_pos rfl, hfind]

/-- To end one transaction leaves the others as they are. -/
private theorem narrows_finish (r : Transactions π) (id : String)
    (state : TransactionState) :
    Narrows r (r.finish id state) := by
  refine ⟨rfl, ids_update _ _ _ fun _ => rfl, fun j hj => (find?_finish hj).1,
    fun j hj => ?_⟩
  unfold Transactions.pending
  rw [(find?_finish hj).2.2]

/-- A rollback ends one transaction at most. -/
theorem narrows_rollback (r : Transactions π) (id : String) :
    Narrows r (r.rollback id) := by
  unfold rollback
  split
  · exact narrows_finish r id _
  · exact .refl r

/-- To clear ends all of them. -/
theorem narrows_clear (r : Transactions π) : Narrows r r.clear :=
  narrows_foldl narrows_rollback r.openIds r

/-- To expire is to end some, one after the other. -/
theorem narrows_expire (r : Transactions π) (now : Int) :
    Narrows r (r.expire now) := by
  refine narrows_foldl (fun r id => ?_) r.openIds r
  unfold expireOne
  split
  · split
    · exact narrows_finish r id _
    · exact .refl r
  · exact .refl r

/-- What is found after some ids have been looked at was found before, and is
not due if its id is one of these. -/
private theorem find?_foldl_expireOne {now : Int} {ids : List String}
    {t : Transaction π} (h : (ids.foldl (expireOne now) r).find? id = some t) :
    r.find? id = some t ∧ (id ∈ ids → t.isDue now = false) := by
  induction ids generalizing r with
  | nil => exact ⟨h, fun hid => (nomatch hid)⟩
  | cons j ids ih =>
      obtain ⟨hfound, hlater⟩ := ih h
      -- whether it is due is decided at its own id; the end of another one is
      -- not seen
      have hstep : r.find? id = some t ∧ (id = j → t.isDue now = false) := by
        unfold expireOne at hfound
        split at hfound
        · next t' ht' =>
          split at hfound
          · obtain ⟨-, hne, hsame⟩ := find?_finish (isOpen_of_find? hfound)
            rw [hsame] at hfound
            exact ⟨hfound, fun heq => absurd heq hne⟩
          · next hdue =>
            refine ⟨hfound, fun heq => ?_⟩
            rw [heq, ht'] at hfound
            rw [← Option.some.inj hfound]
            simpa using hdue
        · next hnone =>
          refine ⟨hfound, fun heq => ?_⟩
          rw [heq, hnone] at hfound
          cases hfound
      refine ⟨hstep.1, fun hid => ?_⟩
      rcases List.mem_cons.mp hid with heq | hid
      · exact hstep.2 heq
      · exact hlater hid

/-- When no open transaction is due, none ends. -/
private theorem expire_of_prompt {now : Int}
    (h : ∀ id t, r.find? id = some t → t.isDue now = false) :
    r.expire now = r := by
  have hone : ∀ id, expireOne now r id = r := by
    intro id
    unfold expireOne
    split
    · next t ht => rw [if_neg (by simp [h id t ht])]
    · rfl
  unfold expire
  generalize r.openIds = ids
  induction ids with
  | nil => rfl
  | cons id ids ih => rw [List.foldl_cons, hone, ih]

/-- What was due has ended, and what is left is not due. -/
theorem expire_expire (r : Transactions π) (now : Int) :
    (r.expire now).expire now = r.expire now := by
  refine expire_of_prompt fun id t ht => ?_
  obtain ⟨hfound, hdue⟩ := find?_foldl_expireOne ht
  exact hdue (by simpa [isOpen] using isOpen_of_find? hfound)

/-- A commit hands out the pending work, and ends the transaction. -/
theorem commit_eq_ok {work : Option π} (h : r.commit id = .ok (work, r')) :
    r.pending id = .ok work ∧ Narrows r r' := by
  unfold commit at h
  unfold Transactions.pending
  cases hfind : r.find? id with
  | none => rw [hfind] at h; cases h
  | some t =>
      rw [hfind] at h
      obtain ⟨rfl, rfl⟩ := Prod.mk.inj (Except.ok.inj h)
      exact ⟨rfl, narrows_finish r id _⟩

/-- What has pending work to be asked for can be committed. -/
theorem commit_of_pending {work : Option π} (h : r.pending id = .ok work) :
    r.commit id = .ok (work, r.finish id .committed) := by
  unfold Transactions.pending at h
  unfold commit
  cases hfind : r.find? id with
  | none => rw [hfind] at h; cases h
  | some t =>
      rw [hfind] at h
      rw [← Except.ok.inj h]

/-- Only what is open has pending work to be asked for. -/
theorem isOpen_of_pending {work : Option π} (h : r.pending id = .ok work) :
    r.isOpen id = true := by
  unfold Transactions.pending at h
  split at h
  · next hfind => exact isOpen_of_find? hfind
  · cases h

-- ================================================================ storing

/-- Work is taken only for a transaction that is open. Nothing else changes. -/
theorem store_eq_ok {work : Option π} (h : r.store id work = .ok r') :
    r.isOpen id = true ∧
      r' = r.update id fun t => { t with pending := work } := by
  unfold store at h
  split at h
  · next hopen => exact ⟨hopen, (Except.ok.inj h).symm⟩
  · cases h

/-- The work that was stored is what is pending. -/
theorem pending_store_self {work old : Option π} (h : r.store id work = .ok r')
    (hold : r.pending id = .ok old) : r'.pending id = .ok work := by
  obtain ⟨hopen, rfl⟩ := store_eq_ok h
  have hself :=
    find?_update_self id (fun t : Transaction π => { t with pending := work })
      (fun _ => rfl) r.records
  unfold Transactions.pending find? at hold ⊢
  rw [hopen, if_pos rfl] at hold
  rw [show (r.update id fun t => { t with pending := work }).isOpen id
    = true from hopen, if_pos rfl,
    show (r.update id fun t => { t with pending := work }).records.find?
      (fun t => t.id == id) = _ from hself]
  cases hfind : r.records.find? (fun t => t.id == id) with
  | none => rw [hfind] at hold; cases hold
  | some t => rfl

/-- What is pending there, if anything can be asked for, is what was stored. -/
theorem eq_of_pending_store {work found : Option π}
    (h : r.store id work = .ok r') (hfound : r'.pending id = .ok found) :
    found = work := by
  obtain ⟨hopen, rfl⟩ := store_eq_ok h
  have hself :=
    find?_update_self id (fun t : Transaction π => { t with pending := work })
      (fun _ => rfl) r.records
  unfold Transactions.pending find? at hfound
  rw [show (r.update id fun t => { t with pending := work }).isOpen id
    = true from hopen, if_pos rfl,
    show (r.update id fun t => { t with pending := work }).records.find?
      (fun t => t.id == id) = _ from hself] at hfound
  cases hfind : r.records.find? (fun t => t.id == id) with
  | none => rw [hfind] at hfound; cases hfound
  | some t =>
      rw [hfind] at hfound
      exact (Except.ok.inj hfound).symm

/-- Work that is stored under one id is not seen under another. -/
theorem pending_store_of_ne {work : Option π} (h : r.store id work = .ok r')
    (hne : id' ≠ id) :
    r'.pending id' = r.pending id' := by
  obtain ⟨-, rfl⟩ := store_eq_ok h
  have hfind :=
    find?_update_of_ne (fun t : Transaction π => { t with pending := work })
      (fun _ => rfl) hne r.records
  unfold Transactions.pending find?
  rw [show (r.update id fun t => { t with pending := work }).records.find?
      (fun t => t.id == id') = _ from hfind]
  rfl

-- ============================================================= accounting

/-- The id is one of the first `n` that are handed out. -/
def IsIssued (n : Nat) (id : String) : Prop := ∃ k, k < n ∧ id = idOf (k + 1)

/-- An id that has been given out stays given out. -/
theorem IsIssued.mono {n n' : Nat} (h : IsIssued n id) (hle : n ≤ n') :
    IsIssued n' id := by
  obtain ⟨k, hk, rfl⟩ := h
  exact ⟨k, Nat.lt_of_lt_of_le hk hle, rfl⟩

/-- Different transactions have different ids. -/
private theorem idOf_injective {m n : Nat} (h : idOf m = idOf n) : m = n := by
  have hrepr : m.repr = n.repr := (String.append_right_inj "tx-").mp h
  have hdigits : Nat.toDigits 10 m = Nat.toDigits 10 n := by
    rw [← Nat.toList_repr, ← Nat.toList_repr, hrepr]
  have hread := congrArg (Nat.ofDigitChars 10 · 0) hdigits
  simpa using hread

/-- The next id has not been handed out. -/
theorem not_isIssued_next (n : Nat) : ¬IsIssued n (idOf (n + 1)) := by
  rintro ⟨k, hk, heq⟩
  have := idOf_injective heq
  omega

/-- All ids that are known have been handed out. -/
structure Accounted (r : Transactions π) : Prop where
  records : ∀ t ∈ r.records, IsIssued r.issued t.id
  openIds : ∀ id, r.isOpen id = true → IsIssued r.issued id

/-- Whoever is left was there before. -/
theorem Accounted.narrows (h : Accounted r) (hn : Narrows r r') :
    Accounted r' := by
  refine ⟨fun t ht => ?_, fun id hid => ?_⟩
  · have hmem : t.id ∈ r.records.map (·.id) := by
      rw [← hn.ids]
      exact List.mem_map_of_mem ht
    obtain ⟨t', ht', hid⟩ := List.mem_map.mp hmem
    rw [hn.issued, ← hid]
    exact h.records t' ht'
  · rw [hn.issued]
    exact h.openIds id (hn.wasOpen id hid)

/-- To store work gives out no id. -/
theorem Accounted.store {work : Option π} (h : Accounted r)
    (hs : r.store id work = .ok r') :
    Accounted r' := by
  obtain ⟨-, rfl⟩ := store_eq_ok hs
  refine ⟨fun t ht => ?_, fun j hj => h.openIds j hj⟩
  have hmem : t.id ∈ r.records.map (·.id) := by
    rw [← ids_update r id (fun t : Transaction π => { t with pending := work })
      fun _ => rfl]
    exact List.mem_map_of_mem ht
  obtain ⟨t', ht', hid⟩ := List.mem_map.mp hmem
  rw [← hid]
  exact h.records t' ht'

/-- The new id is the next number, which no record has. -/
theorem accounted_begin (h : Accounted r) (now : Int) (own : Value) :
    Accounted (r.begin now own).2 := by
  unfold begin
  simp only
  split
  · exact ⟨fun t ht => (h.records t ht).mono (Nat.le_succ _),
      fun id hid => (h.openIds id hid).mono (Nat.le_succ _)⟩
  · refine ⟨fun t ht => ?_, fun id hid => ?_⟩
    · rcases List.mem_append.mp ht with ht | ht
      · exact (h.records t ht).mono (Nat.le_succ _)
      · rw [List.mem_singleton.mp ht]
        exact ⟨r.issued, Nat.lt_succ_self _, rfl⟩
    · have hcases : id ∈ r.openIds ∨ id = idOf (r.issued + 1) := by
        simpa [isOpen] using hid
      rcases hcases with hmem | rfl
      · exact (h.openIds id (by simpa [isOpen] using hmem)).mono
          (Nat.le_succ _)
      · exact ⟨r.issued, Nat.lt_succ_self _, rfl⟩

/-- A transaction that is open after a new one may have been opened is the new
one, without work, or was open before with the same work. -/
theorem pending_begin (h : Accounted r) (now : Int) (own : Value)
    (hopen : (r.begin now own).2.isOpen id = true) :
    (¬IsIssued r.issued id ∧ (r.begin now own).2.pending id = .ok none)
      ∨ (r.isOpen id = true ∧
        (r.begin now own).2.pending id = r.pending id) := by
  unfold begin at hopen ⊢
  simp only at hopen ⊢
  split at hopen
  · exact .inr ⟨hopen, rfl⟩
  · have hcases : id ∈ r.openIds ∨ id = idOf (r.issued + 1) := by
      simpa [isOpen] using hopen
    have hopened : ∀ {records : List (Transaction π)} {issued : Nat},
        (⟨r.timeout, issued, records, r.openIds ++ [idOf (r.issued + 1)]⟩
          : Transactions π).isOpen id = true := hopen
    rcases hcases with hmem | rfl
    · have hid : r.isOpen id = true := by simpa [isOpen] using hmem
      have hne : (idOf (r.issued + 1) == id) = false := by
        simp only [beq_eq_false_iff_ne, ne_eq]
        rintro rfl
        exact not_isIssued_next _ (h.openIds _ hid)
      refine .inr ⟨hid, ?_⟩
      unfold Transactions.pending find?
      simp only [hopened, hid, if_true, List.find?_append, List.find?_cons,
        hne, List.find?_nil, Option.or_none]
    · have hnone : r.records.find? (fun t => t.id == idOf (r.issued + 1))
          = none := by
        rw [List.find?_eq_none]
        intro t ht heq
        exact not_isIssued_next _ ((beq_iff_eq.mp heq) ▸ h.records t ht)
      refine .inl ⟨not_isIssued_next _, ?_⟩
      unfold Transactions.pending find?
      simp only [hopened, if_true, List.find?_append, hnone, List.find?_cons,
        beq_self_eq_true, Option.none_or]

end GraphMapper.Transactions
