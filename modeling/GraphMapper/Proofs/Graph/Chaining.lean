/-
Traversals one behind the other.

Work that has been put together from several traversals is one traversal with a
`fold` between each two of them. This file shows what running it means: the
same as running the traversals one after the other, each from the start, up to
the first one that fails.

# Why a `fold` is enough

Two things could tell a traversal that it stands behind another one.

- The steps in front of it might look ahead into it. Only `order` and `addE`
  look ahead, for `by` and `to` steps, and a `fold` is neither
  (`sortKeys_append_step`, `startsWithTo_append_step`). So the run of the first
  traversal is the same with and without what follows (`run_append_fold`).
- The items that arrive differ from the start in number and kind. A `fold`
  makes one item of them, and a traversal that begins afresh, at the vertices,
  at the edges or with a new vertex, does not look at the one item that it gets
  (`run_startsAfresh`).

Main statement: `evaluate_chained`.
-/
import GraphMapper.Proofs.Graph.Running

namespace GraphMapper

/-- Traversals put together into one, with a `fold` between each two. -/
def chained (traversals : List (List Step)) : List Step :=
  List.intercalate [.call .fold []] traversals

theorem chained_singleton (s : List Step) : chained [s] = s := by
  simp [chained, List.intercalate]

private theorem chained_cons_cons (s t : List Step) (rest : List (List Step)) :
    chained (s :: t :: rest) = s ++ .call .fold [] :: chained (t :: rest) := by
  simp [chained, List.intercalate, List.intersperse]

/-- One more traversal goes behind a `fold` of its own. -/
theorem chained_concat {traversals : List (List Step)} (h : traversals ≠ [])
    (s : List Step) :
    chained (traversals ++ [s])
      = chained traversals ++ .call .fold [] :: s := by
  induction traversals with
  | nil => exact absurd rfl h
  | cons first rest ih =>
      cases rest with
      | nil =>
          rw [List.cons_append, List.nil_append, chained_cons_cons,
            chained_singleton, chained_singleton]
      | cons second rest =>
          have hrest := ih (List.cons_ne_nil second rest)
          rw [List.cons_append] at hrest
          rw [List.cons_append, List.cons_append, chained_cons_cons, hrest,
            chained_cons_cons, List.append_assoc, List.cons_append]

namespace Graph

-- ========================================================== looking ahead

variable {name : StepName} {args : List Value}

/-- The keys of an order are found before any step that is no `by`. -/
theorem sortKeys_append_step (hby : name ≠ .orderBy) (s t : List Step) :
    sortKeys (s ++ .call name args :: t) = sortKeys s := by
  induction s with
  | nil => cases name <;> first | rfl | exact absurd rfl hby
  | cons step s ih =>
      obtain ⟨first, own⟩ := step
      cases first <;> simp [sortKeys, ih]

theorem startsWithTo_append_step (hto : name ≠ .to) (s t : List Step) :
    startsWithTo (s ++ .call name args :: t) = startsWithTo s := by
  cases s with
  | nil => cases name <;> first | rfl | exact absurd rfl hto
  | cons step s =>
      obtain ⟨first, own⟩ := step
      cases first <;> rfl

/-- A step that nothing looks ahead for runs on what the steps in front of it
have found, and these run as if nothing followed them. -/
theorem run_append_step (hby : name ≠ .orderBy) (hto : name ≠ .to)
    (s t : List Step) (phase : Phase) (items : List Item) :
    run phase (s ++ .call name args :: t) items
      = (do
        let out ← run phase s items; run .plain
            (.call name args :: t) out) := by
  induction s generalizing phase items with
  | nil =>
      have hnothing : run phase [] items = pure items := by cases phase <;> rfl
      rw [List.nil_append, hnothing, pure_bind]
      cases name <;> first | exact absurd rfl hby | exact absurd rfl hto | rfl
  | cons step s ih =>
      obtain ⟨first, own⟩ := step
      cases first
      case addEdge =>
        -- the edges enter the graph at once or wait, as they do without the
        -- step
        simp only [List.cons_append, run, startsWithTo_append_step hto,
          ih, bind_assoc]
        refine bind_congr fun edges => ?_
        split
        · rfl
        · simp only [bind_assoc]
      case sideEffect =>
        simp only [List.cons_append, run, ih]
        split
        · simp only [bind_assoc]
        · simp only [bind_assoc]
      all_goals
        cases phase <;>
          simp only [List.cons_append, run, sortKeys_append_step hby,
            ih, bind_assoc]

/-- What stands behind a `fold` runs on the one group of all that has been
found. -/
theorem run_append_fold (s t : List Step) (phase : Phase) (items : List Item) :
    run phase (s ++ .call .fold [] :: t) items
      = (do let out ← run phase s items; run .plain t [.group out]) := by
  rw [run_append_step (by decide) (by decide)]
  simp [run, perform]

-- ======================================================== beginning afresh

/-- The traversal begins at the vertices, at the edges or with a new vertex. -/
def startsAfresh : List Step → Bool
  | .call .vertices _ :: _ | .call .edges _ :: _ | .call .addVertex _ :: _ =>
      true
  | _ => false

/-- A traversal that begins afresh does not look at the item that it gets. -/
theorem run_startsAfresh {s : List Step} (h : startsAfresh s = true)
    (a b : Item) :
    run .plain s [a] = run .plain s [b] := by
  unfold startsAfresh at h
  split at h
  · simp only [run, perform, source, Run.each]
  · simp only [run, perform, source, Run.each]
  · next args rest =>
    match args with
    | [] => simp only [run, perform]
    | [label] => simp only [run, perform, Run.each]
    | _ :: _ :: _ => simp only [run, perform]
  · exact absurd h (by decide)

-- ========================================================= one by one

/-- Traversals one after the other, each from the start; the first that fails
is the last that is run. -/
def evaluateAll (g : Graph) : List (List Step) → Checked Unit × Graph
  | [] => (.ok (), g)
  | s :: rest =>
    match g.evaluate s with
    | (.ok _, g) => g.evaluateAll rest
    | (.error e, g) => (.error e, g)

/-- Running traversals that have been put together is running them one by one:
with the same graph in the end, and with the same failure if there is one. All
but the first have to begin afresh. -/
theorem evaluate_chained (s : List Step) (rest : List (List Step))
    (h : ∀ t ∈ rest, startsAfresh t = true) (g : Graph) :
    ((g.evaluate (chained (s :: rest))).1.map fun _ => (),
      (g.evaluate (chained (s :: rest))).2) = g.evaluateAll (s :: rest) := by
  suffices general : ∀ (s : List Step) (item : Item) (g : Graph),
      let out := (run .plain (chained (s :: rest)) [item]).on g
      (out.1.map fun _ => (), out.2)
        = match (run .plain s [item]).on g with
          | (.ok _, g) => g.evaluateAll rest
          | (.error e, g) => (.error e, g) by
    exact general s .start g
  clear s g
  induction rest with
  | nil =>
      intro s item g
      rw [chained_singleton]
      rcases (run .plain s [item]).on g with ⟨out | out, g'⟩ <;> rfl
  | cons t rest ih =>
      intro s item g
      have hrest := ih fun u hu => h u (List.mem_cons_of_mem t hu)
      rw [chained_cons_cons, run_append_fold, Run.on_bind]
      cases hs : (run .plain s [item]).on g with
      | mk out g' =>
          cases out with
          | error e => rfl
          | ok out =>
              have ht := h t List.mem_cons_self
              have hafresh := hrest t (.group out) g'
              rw [run_startsAfresh ht (.group out) .start] at hafresh
              exact hafresh

end Graph

end GraphMapper
