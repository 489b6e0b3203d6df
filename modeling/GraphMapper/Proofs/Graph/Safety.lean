/-
Runs that keep a graph sound.

The items that a step gets are elements that exist and do not wait for a target
(`Fit`), and the table of elements only grows, so this stays known of the items
that a step has yet to get to. A run keeps a graph sound with the edges that
wait, and gives items that fit (`Run.Safe`). When it fails, the edges that wait
are forgotten: nothing will ever enter them.

This file has the ways to put such runs together, and the steps that only look
at the graph.

# Why edges wait

An edge is begun at one vertex before its target is known. In between it is an
element that no index has, and the steps that follow may not reach it, except
for the one that gives it its target. So the edges that wait are part of what
is said of a run, before and after (`Moves`), and not only the graph.

Chain: `Graph.Coherence` for changes of a graph and `Graph.Running` for the
ways to put runs together; `Graph.Reachable` draws the conclusion.
-/
import GraphMapper.Proofs.Graph.Coherence
import GraphMapper.Proofs.Graph.Running
import GraphMapper.Proofs.Sorting.Permutation

namespace GraphMapper

open GraphMapper.Graph

/-- If the item is an element, it exists and does not wait. -/
def Fit (waiting : List Handle) (n : Nat) (item : Item) : Prop :=
  ∀ h, item = .element h → h < n ∧ h ∉ waiting

/-- Items that fit still fit in a larger graph. -/
theorem Fit.mono {waiting : List Handle} {n m : Nat} {item : Item}
    (h : Fit waiting n item) (hle : n ≤ m) : Fit waiting m item :=
  fun k hk => ⟨Nat.lt_of_lt_of_le (h k hk).1 hle, (h k hk).2⟩

namespace Run

variable {α β : Type} {n m : Nat} {before after waiting : List Handle}

/-- From a sound graph with `n` elements or more, the run gives something with
the property, in a graph that is sound and has lost no element; or it fails in
a graph that is sound. The property is about the number of elements that there
are then. Other edges may wait after the run than before. -/
def Moves (n : Nat) (before after : List Handle) (r : Run α)
    (Q : Nat → α → Prop) : Prop :=
  ∀ g, Sound before g → n ≤ g.size →
    match r.on g with
    | (.ok a, g') => Sound after g' ∧ g.size ≤ g'.size ∧ Q g'.size a
    | (.error _, g') => Sound [] g'

/-- The same edges wait after the run. -/
abbrev Safe (n : Nat) (waiting : List Handle) (r : Run α)
    (Q : Nat → α → Prop) : Prop :=
  Moves n waiting waiting r Q

/-- To answer is safe. -/
theorem safe_pure {a : α} {Q : Nat → α → Prop} (h : ∀ m, n ≤ m → Q m a) :
    Safe n waiting (pure a) Q :=
  fun _ hs hn => ⟨hs, Nat.le_refl _, h _ hn⟩

/-- To fail is. -/
theorem safe_fail {e : Failure} {Q : Nat → α → Prop} :
    Safe n waiting (fail e) Q :=
  fun _ hs _ => hs.forget (List.nil_subset _)

/-- To ask is. -/
theorem safe_ask {f : Graph → Checked α} {Q : Nat → α → Prop}
    (h : ∀ g a, Sound waiting g → n ≤ g.size → f g = .ok a → Q g.size a) :
    Safe n waiting (ask f) Q := by
  intro g hs hn
  rw [on_ask]
  cases hf : f g with
  | error e => exact hs.forget (List.nil_subset _)
  | ok a => exact ⟨hs, Nat.le_refl _, h g a hs hn hf⟩

/-- To change is if it keeps the graph sound, and no smaller. -/
theorem safe_change {f : Graph → Graph × α} {Q : Nat → α → Prop}
    (h : ∀ g, Sound waiting g → n ≤ g.size →
      Sound waiting (f g).1 ∧ g.size ≤ (f g).1.size ∧ Q (f g).1.size (f g).2) :
    Safe n waiting (change f) Q := by
  intro g hs hn
  rw [on_change]
  exact h g hs hn

/-- What a run does after the graph has grown, it does to the graph from
before. -/
theorem Moves.grown {r : Run α} {Q : Nat → α → Prop}
    (h : Moves n before after r Q) {g g' : Graph} (hs : Sound before g')
    (hn : n ≤ g'.size) (hle : g.size ≤ g'.size) :
    match r.on g' with
    | (.ok a, g'') => Sound after g'' ∧ g.size ≤ g''.size ∧ Q g''.size a
    | (.error _, g'') => Sound [] g'' := by
  have hg' := h g' hs hn
  rcases hrun : r.on g' with ⟨e | a, g''⟩
  · rw [hrun] at hg'
    exact hg'
  · rw [hrun] at hg'
    exact ⟨hg'.1, Nat.le_trans hle hg'.2.1, hg'.2.2⟩

/-- One run after the other goes on with the edges that wait by then. -/
theorem Moves.bind {r : Run α} {k : α → Run β} {P : Nat → α → Prop}
    {Q : Nat → β → Prop} (hr : Moves n before waiting r P)
    (hk : ∀ m a, n ≤ m → P m a → Moves m waiting after (k a) Q) :
    Moves n before after (r >>= k) Q := by
  intro g hs hn
  have hg := hr g hs hn
  rw [on_bind]
  rcases hrun : r.on g with ⟨e | a, g'⟩
  · rw [hrun] at hg
    exact hg
  · rw [hrun] at hg
    obtain ⟨hs', hle, ha⟩ := hg
    exact (hk g'.size a (Nat.le_trans hn hle) ha).grown hs' (Nat.le_refl _) hle

/-- What is known of items may be forgotten. -/
private theorem Moves.weaken {r : Run α} {P Q : Nat → α → Prop}
    (h : Moves n before after r P) (hPQ : ∀ m a, n ≤ m → P m a → Q m a) :
    Moves n before after r Q := by
  intro g hs hn
  have hg := h g hs hn
  rcases hrun : r.on g with ⟨e | a, g'⟩
  · rw [hrun] at hg
    exact hg
  · rw [hrun] at hg
    exact ⟨hg.1, hg.2.1, hPQ _ a (Nat.le_trans hn hg.2.1) hg.2.2⟩

/-- More edges may wait before than there need to. -/
theorem Moves.of_subset {r : Run α} {Q : Nat → α → Prop}
    (h : Moves n before after r Q) (hsub : before ⊆ waiting) :
    Moves n waiting after r Q :=
  fun g hs hn => h g (hs.forget hsub) hn

/-- To run for each item is safe if each run is. -/
theorem safe_each {f : Item → Run α} {P : Nat → α → Prop} {items : List Item}
    (hmono : ∀ m m' a, m ≤ m' → P m a → P m' a)
    (hf : ∀ m item, n ≤ m → item ∈ items → Safe m waiting (f item) P) :
    Safe n waiting (each f items) fun m as => ∀ a ∈ as, P m a := by
  induction items generalizing n with
  | nil => exact safe_pure fun m _ a ha => (nomatch ha)
  | cons item items ih =>
      refine (hf n item (Nat.le_refl _) List.mem_cons_self).bind
        fun m a hnm ha => ?_
      have hrest : Safe m waiting (each f items) fun m as => ∀ a ∈ as, P m a :=
        ih fun m' i hm hi => hf m' i (Nat.le_trans hnm hm)
          (List.mem_cons_of_mem item hi)
      refine hrest.bind fun m' as hmm has => safe_pure fun m'' hm'' b hb => ?_
      rcases List.mem_cons.mp hb with rfl | hb
      · exact hmono m m'' _ (Nat.le_trans hmm hm'') ha
      · exact hmono m' m'' b hm'' (has b hb)

/-- To keep some is, and gives some of the items. -/
private theorem safe_keep {p : Item → Run Bool} {items : List Item}
    (hp : ∀ m item, n ≤ m → item ∈ items →
      Safe m waiting (p item) fun _ _ => True) :
    Safe n waiting (keep p items) fun _ kept => ∀ item ∈ kept,
        item ∈ items := by
  induction items generalizing n with
  | nil => exact safe_pure fun _ _ _ h => h
  | cons item items ih =>
      refine (hp n item (Nat.le_refl _) List.mem_cons_self).bind
        fun m kept hnm _ => ?_
      have hrest : Safe m waiting (keep p items) fun _ kept => ∀ item ∈ kept,
          item ∈ items :=
        ih fun m' i hm hi => hp m' i (Nat.le_trans hnm hm)
          (List.mem_cons_of_mem item hi)
      refine hrest.bind fun m' rest _ hsub => safe_pure fun _ _ i hi => ?_
      split at hi
      · rcases List.mem_cons.mp hi with rfl | hi
        · exact List.mem_cons_self
        · exact List.mem_cons_of_mem item (hsub i hi)
      · exact List.mem_cons_of_mem item (hsub i hi)

/-- An item that a test keeps fits if all items do. -/
theorem safe_keep_fit {p : Item → Run Bool} {items : List Item}
    (hitems : ∀ item ∈ items, Fit waiting n item)
    (hp : ∀ m item, n ≤ m → item ∈ items →
      Safe m waiting (p item) fun _ _ => True) :
    Safe n waiting (keep p items) fun m kept => ∀ item ∈ kept,
        Fit waiting m item :=
  (safe_keep hp).weaken fun _ _ hm hsub item hi =>
    (hitems item (hsub item hi)).mono hm

/-- What is only done keeps what was known of the items. -/
theorem safe_each_unit {f : Item → Run α} {items : List Item}
    (hf : ∀ m item, n ≤ m → item ∈ items →
      Safe m waiting (f item) fun _ _ => True) :
    Safe n waiting (each f items) fun _ _ => True :=
  (safe_each (fun _ _ _ _ _ => trivial) hf).weaken fun _ _ _ _ => trivial

end Run

namespace Graph

open Run

variable {n : Nat} {waiting : List Handle} {items : List Item}

-- ============================================================ reading steps

/-- What an index gives is in it. -/
private theorem mem_of_select {index : Index} {ids : List Value}
    {found : List Handle} (h : select index ids = .ok found) :
    ∀ k ∈ found, ∃ e ∈ index, e.2 = k := by
  -- given ids are looked up one by one; no ids mean the whole index
  have hfind : ∀ {key : Value} {k : Handle},
      Entries.find key index = .ok (some k) → ∃ e ∈ index, e.2 = k := by
    intro key k hk
    unfold Entries.find at hk
    split at hk
    · obtain ⟨e, he, hek⟩ := Option.map_eq_some_iff.mp (Except.ok.inj hk)
      exact ⟨e, List.mem_of_find?_eq_some he, hek⟩
    · cases hk
  have hall : Yields (ids.mapM fun id => Entries.find id index) fun answers =>
      ∀ k, some k ∈ answers → ∃ e ∈ index, e.2 = k := by
    clear h
    induction ids with
    | nil => exact yields_pure fun k hk => (nomatch hk)
    | cons id ids ih =>
        rw [List.mapM_cons]
        refine Yields.bind (P := fun answer => ∀ k,
          some k = answer → ∃ e ∈ index,
          e.2 = k) (fun answer ha k hk => hfind (hk ▸ ha)) fun answer ha => ?_
        refine ih.bind fun answers hs => yields_pure fun k hk => ?_
        rcases List.mem_cons.mp hk with hk | hk
        · exact ha k hk
        · exact hs k hk
  unfold select at h
  split at h
  · intro k hk
    rw [← Except.ok.inj h] at hk
    exact List.mem_map.mp hk
  · cases hmap : ids.mapM fun id => Entries.find id index with
    | error e => rw [hmap] at h; cases h
    | ok answers =>
        rw [hmap] at h
        intro k hk
        rw [← Except.ok.inj h] at hk
        obtain ⟨answer, hanswer, hk⟩ := List.mem_filterMap.mp hk
        exact hall answers hmap k (hk ▸ hanswer)

/-- The elements that a traversal finds in an index fit. -/
theorem safe_source {index : Graph → Index}
    (hfit : ∀ g, Sound waiting g → ∀ e ∈ index g, e.2 < g.size ∧ e.2 ∉ waiting)
    (ids : List Value) :
    Safe n waiting (source index ids items) fun m out => ∀ item ∈ out,
      Fit waiting m item := by
  have hfound : Safe n waiting
      (Run.each (fun _ => Run.ask fun g => select (index g) ids) items)
        fun m found => ∀ hs ∈ found, ∀ h ∈ hs, h < m ∧ h ∉ waiting := by
    refine safe_each
      (fun m m' hs hm h k hk => ⟨Nat.lt_of_lt_of_le (h k hk).1 hm, (h k hk).2⟩)
        fun m item _ _ => safe_ask fun g hs hsound _ hselect k hk => ?_
    obtain ⟨e, he, rfl⟩ := mem_of_select hselect k hk
    exact hfit g hsound e he
  refine hfound.bind fun m found _ hall =>
    safe_pure fun m' hm item hitem h heq => ?_
  obtain ⟨k, hk, rfl⟩ := List.mem_map.mp hitem
  obtain ⟨hs, hhs, hmem⟩ := List.mem_flatten.mp hk
  rw [← Item.element.inj heq]
  exact ⟨Nat.lt_of_lt_of_le (hall hs hhs k hmem).1 hm, (hall hs hhs k hmem).2⟩

/-- A vertex does not wait. -/
theorem Sound.vertex_fits {g : Graph} (hs : Sound waiting g) :
    ∀ e ∈ g.vertices, e.2 < g.size ∧ e.2 ∉ waiting := by
  intro e he
  obtain ⟨hlt, hkind⟩ := hs.vertex e he
  refine ⟨hlt, fun hw => ?_⟩
  rw [(hs.waits _ hw).2.1] at hkind
  cases hkind

/-- An edge in the index does not wait. -/
theorem Sound.edge_fits {g : Graph} (hs : Sound waiting g) :
    ∀ e ∈ g.edges, e.2 < g.size ∧ e.2 ∉ waiting :=
  fun e he => ⟨(hs.edge e he).1, fun hw => (hs.waits _ hw).2.2.2 e he rfl⟩

/-- Sorting gives the items that it gets, each as often as before. -/
theorem sortAll_perm (g : Graph) (keys : List (Value × Sorting))
    (items : List Item) :
    Yields (g.sortAll keys items) fun out => out.Perm items := by
  induction keys with
  | nil => exact yields_pure (.refl _)
  | cons key keys ih =>
      refine ih.bind fun sorted hsorted => ?_
      have hkeyed : Yields (sorted.mapM fun item => do
          .ok ((← g.read key.1 item).getD .null, item)) fun keyed =>
              keyed.map (·.2) = sorted := by
        clear hsorted
        induction sorted with
        | nil => exact yields_pure rfl
        | cons item sorted ihs =>
            rw [List.mapM_cons]
            refine Yields.bind (P := fun p => p.2 = item)
              (yields_bind fun v => yields_pure rfl) fun p hp => ?_
            exact ihs.bind fun ps hps =>
              yields_pure (List.cons_eq_cons.mpr ⟨hp, hps⟩)
      refine hkeyed.bind fun keyed hitems => ?_
      have hout : ∀ {out : List (Value × Item)},
          out.Perm keyed → (out.map (·.2)).Perm items := by
        intro out hperm
        have hmapped := hperm.map (·.2)
        rw [hitems] at hmapped
        exact hmapped.trans hsorted
      split
      · exact (Sorting.sort_perm before keyed).bind fun out hperm =>
          yields_pure (hout hperm)
      · refine (Sorting.sort_perm before keyed.reverse).bind fun out hperm =>
          yields_pure ?_
        exact hout ((List.reverse_perm out).trans
          (hperm.trans (List.reverse_perm keyed)))

/-- Sorting brings in no item. -/
theorem mem_of_sortAll (g : Graph) (keys : List (Value × Sorting))
    (items : List Item) :
    Yields (g.sortAll keys items) fun out => ∀ item ∈ out, item ∈ items :=
  (sortAll_perm g keys items).mono fun _ hperm _ hitem =>
    hperm.mem_iff.mp hitem

end Graph

end GraphMapper
