/-
Which calls are observed, and as what.

An operation that is observed tells the sink once, when it is over, so that
nothing of it comes after. What it does before it is over does not tell the
sink of an operation of this name (`Connector.SilentOn`): it submits and counts
repetitions, and a destruction is preceded by a count, which is observed under
a name of its own.

Not all of a call is the operation, though. Options and ids are read before it,
and a destruction ends with its count if that fails or finds nothing. If a call
gets no further (`Call.begins`), the operation is not observed at all.

Main statement: `observed_once_begun`.

Chain: `Connector.Frame` and `Connector.Work` for the parts of an operation;
the sample run is one on the connector of `Connector.ById`.
-/
import GraphMapper.Proofs.Connector.ById

namespace GraphMapper

/-- What an observation says about an outcome: that there is a result; or else
the code of a fault, and the name of its class where there is no code; and for
other failures the name of theirs. -/
inductive Records {α : Type} : Checked α → Bool → Value → Prop where
  | returned (a : α) : Records (.ok a) true (.text "OK")
  | coded {f : Fault} (h : f.code.isGiven = true) :
      Records (.error (.fault f)) false f.code
  | uncoded {f : Fault} (h : f.code.isGiven = false) :
    Records (.error (.fault f)) false (.text f.kind.name)
  | other {e : Failure} (h : ∀ f, e ≠ .fault f) :
      Records (.error e) false (.text e.name)

/-- What is said about a failure does not depend on what has failed. -/
theorem Records.error {α β : Type} {e : Failure} {ok : Bool} {code : Value}
    (h : Records (.error e : Checked α) ok code) :
    Records (.error e : Checked β) ok code := by
  cases h with
  | coded h => exact .coded h
  | uncoded h => exact .uncoded h
  | other h => exact .other h

namespace Call

/-- The operation that a call is observed as, with the model it is about. -/
def operation? : Call → Option (String × Option String)
  | .create model _ _ => some ("create", model)
  | .all model _ _ => some ("all", model)
  | .presence model _ => some ("exists", model)
  | .count model _ => some ("count", model)
  | .destroyAll model _ _ => some ("destroy_all", model)
  | .replaceById model _ _ _ => some ("replace_by_id", model)
  | .updateAll model _ _ _ => some ("update_all", model)
  | .commit _ => some ("commit", none)
  | .execute _ _ _ => some ("execute", none)
  | _ => none

/-- The count has found something. -/
def hasCounted (c : Connector) (model : Option String) (filter : Value) :
    Bool :=
  match (Act.count model filter c).1 with
  | .ok n => n != 0
  | .error _ => false

/-- The call gets as far as its operation. -/
def begins (c : Connector) : Call → Bool
  | .create _ _ options | .all _ _ options | .updateAll _ _ _ options =>
    (Options.ofValue options).isOk
  | .replaceById _ id _ options =>
      (Act.requireId id).isOk && (Options.ofValue options).isOk
  | .destroyAll model filter options =>
    (Options.ofValue options).isOk && hasCounted c model filter
  | _ => true

end Call

variable {α β : Type} {c c' : Connector} {operation : String}
  {model : Option String}

namespace Connector

-- =================================================================== silence

/-- Effects have been added, and none of them is an observation of the
operation. -/
def SilentOn (operation : String) (c c' : Connector) : Prop :=
  c'.sink = c.sink ∧ ∃ new, c'.effects = c.effects ++ new ∧
    ∀ e ∈ new, e.operation? ≠ some operation

/-- That an operation of one name is not observed is kept by the parts of all
others. -/
private theorem frame_silentOn :
    FrameFor (· ≠ operation) (SilentOn operation) where
  refl c := ⟨rfl, [], (List.append_nil _).symm, fun _ h => nomatch h⟩
  trans := by
    rintro a b c ⟨hsink, first, hfirst, hsilent⟩
      ⟨hsink', later, hlater, hsilent'⟩
    refine ⟨hsink'.trans hsink, first ++ later, ?_, fun e he => ?_⟩
    · rw [hlater, hfirst, List.append_assoc]
    · rcases List.mem_append.mp he with he | he
      · exact hsilent e he
      · exact hsilent' e he
  note c e _ hop := by
    refine ⟨rfl, [e], rfl, fun e' he' hsame => ?_⟩
    rw [List.mem_singleton.mp he'] at hsame
    exact hop operation hsame rfl
  advance c _ := ⟨rfl, [], (List.append_nil _).symm, fun _ h => nomatch h⟩

/-- A change that is not one of the effects. -/
private theorem silentOn_same (hsink : c'.sink = c.sink)
    (heffects : c'.effects = c.effects) :
    SilentOn operation c c' :=
  ⟨hsink, [], by rw [heffects, List.append_nil], fun _ h => nomatch h⟩

end Connector

open Connector

namespace Act

/-- To submit is no operation. -/
private theorem silentOn_submitOnce (steps : List Step) (mode : Mode) :
    Keeps (SilentOn operation) (submitOnce steps mode) := by
  refine fun c => ⟨rfl, [.submitted mode steps], rfl, fun e he => ?_⟩
  rw [List.mem_singleton.mp he]
  exact fun h => nomatch h

/-- An execution submits or stores. -/
private theorem silentOn_execute (model : Option String) (steps : List Step)
    (o : Options) (mode : Mode) :
    Keeps (SilentOn operation) (execute model steps o mode) := by
  cases ho : o.joined with
  | none =>
      exact keeps_execute frame_silentOn
        (silentOn_submitOnce steps mode) ho model
  | some tx =>
      intro c
      rw [execute_joined ho]
      cases c.transactions.store tx (some steps) <;>
        exact silentOn_same rfl rfl

/-- Nor is the change of a graph under its name. -/
private theorem silentOn_mutate (model : Option String)
    (builder : Model → Build Unit) (o : Options) (mode : Mode) :
    Keeps (SilentOn operation) (mutate model builder o mode) :=
  keeps_mutate frame_silentOn
    (fun steps => silentOn_execute model steps o mode) builder

/-- Reads are built from nothing. -/
private theorem silentOn_read {k : Value → Act β}
    (hk : ∀ v, Keeps (SilentOn operation) (k v)) (builder : Model → Build Unit)
    (o : Options) (mode : Mode) :
    Keeps (SilentOn operation)
      (build model (pure []) builder >>= fun steps =>
        execute model steps o mode >>= k) :=
  (keeps_build frame_silentOn (keeps_pure frame_silentOn []) model
    builder).bind frame_silentOn fun steps =>
      (silentOn_execute model steps o mode).bind frame_silentOn hk

/-- A count is observed as a count. -/
private theorem silentOn_count (hop : "count" ≠ operation)
    (model : Option String) (filter : Value) :
    Keeps (SilentOn operation) (count model filter) :=
  Keeps.observedAs frame_silentOn
    (silentOn_read (fun _ => keeps_check frame_silentOn _) _ _ _) hop model

/-- To take pending work is not observed. -/
private theorem silentOn_takePending (tx : String) :
    Keeps (SilentOn operation) (takePending tx) := by
  intro c
  simp only [takePending, run]
  cases c.transactions.commit tx <;> exact silentOn_same rfl rfl

-- =============================================================== observation

/-- The operation has been observed once, last of all, as what it has come
to. -/
def ObservedOnce (operation : String) (model : Option String) (c : Connector)
    (out : Checked α × Connector) : Prop :=
  ∃ before ok code, out.2.effects
      = c.effects ++ (before ++ [.observed operation ok code (named model)]) ∧
    (∀ e ∈ before, e.operation? ≠ some operation) ∧ Records out.1 ok code

/-- A sink that is there is told. -/
private theorem report_present {e : Effect} (h : c.sink ≠ .absent) :
    c.report e = c.note e := by
  unfold Connector.report Connector.tell
  cases hsink : c.sink with
  | recording => rfl
  | failing => rfl
  | absent => exact absurd hsink h

/-- A failure is recorded under its own code. -/
private theorem records_recordCode (e : Failure) :
    Records (.error e : Checked α) false e.recordCode := by
  cases e with
  | fault f =>
      simp only [Failure.recordCode]
      cases hcode : f.code.isGiven with
      | true => exact .coded hcode
      | false => exact .uncoded hcode
  | server _ _ => exact .other fun _ h => nomatch h
  | runtime _ _ => exact .other fun _ h => nomatch h
  | notImplemented _ => exact .other fun _ h => nomatch h
  | slip _ => exact .other fun _ h => nomatch h

/-- What is observed as a whole is so once, if nothing in it is. -/
private theorem observedOnce_observed {act : Act α}
    (hact : Keeps (SilentOn operation) act) (hsink : c.sink ≠ .absent)
    (model : Option String) :
    ObservedOnce operation model c (observed operation model act c) := by
  obtain ⟨hsame, before, hbefore, hsilent⟩ := hact c
  have heffects : ∀ e, ((act c).2.report e).effects
      = c.effects ++ (before ++ [e]) := fun e => by
    rw [report_present (hsame ▸ hsink), note, hbefore, List.append_assoc]
  unfold observed
  rcases hrun : act c with ⟨e | a, c'⟩
  · rw [hrun] at heffects
    exact ⟨before, false, e.recordCode, heffects _, hsilent,
      records_recordCode e⟩
  · rw [hrun] at heffects
    exact ⟨before, true, .text "OK", heffects _, hsilent, .returned a⟩

/-- Parts that come first and are silent count as parts of the operation. -/
theorem ObservedOnce.after (h : SilentOn operation c c')
    {out : Checked α × Connector}
    (hout : ObservedOnce operation model c' out) :
    ObservedOnce operation model c out := by
  obtain ⟨-, first, hfirst, hsilent⟩ := h
  obtain ⟨before, ok, code, heffects, hsilent', hrecords⟩ := hout
  refine ⟨first ++ before, ok, code, ?_, fun e he => ?_, hrecords⟩
  · rw [heffects, hfirst]
    simp only [List.append_assoc]
  · rcases List.mem_append.mp he with he | he
    · exact hsilent e he
    · exact hsilent' e he

/-- What is read first and can be read is not observed. -/
private theorem observedOnce_check {r : Checked β} {k : β → Act α}
    (hr : r.isOk = true) (hk : ∀ x, ObservedOnce operation model c (k x c)) :
    ObservedOnce operation model c ((check r >>= k) c) := by
  cases r with
  | error e => cases hr
  | ok x => exact hk x

-- ================================================================ operations

/-- A change is, once its options have been read. -/
private theorem observedOnce_changing {mode : Mode}
    {builder : Model → Build Unit}
    {options : Value} {finish : Options → Value → Act Value}
    (hfinish : ∀ o v, Keeps (SilentOn operation) (finish o v))
    (hsink : c.sink ≠ .absent)
    (hoptions : (Options.ofValue options).isOk = true) :
    ObservedOnce operation model c
      (changing operation model builder mode options finish c) := by
  refine observedOnce_check hoptions fun o =>
    observedOnce_observed ?_ hsink model
  exact (silentOn_mutate model builder o mode).bind frame_silentOn (hfinish o)

/-- A count is, from its beginning. -/
private theorem observedOnce_count (hsink : c.sink ≠ .absent)
    (filter : Value) : ObservedOnce "count" model c
      ((do pure (.int (← count model filter)) : Act Value) c) := by
  have hcount : ObservedOnce "count" model c (count model filter c) :=
    observedOnce_observed
      (silentOn_read (fun _ => keeps_check frame_silentOn _) _ _ _) hsink model
  obtain ⟨before, ok, code, heffects, hsilent, hrecords⟩ := hcount
  rw [bind_apply]
  rcases hrun : count model filter c with ⟨e | n, c'⟩
  · rw [hrun] at heffects hrecords
    exact ⟨before, ok, code, heffects, hsilent, hrecords.error⟩
  · rw [hrun] at heffects hrecords
    cases hrecords
    exact ⟨before, true, _, heffects, hsilent, .returned _⟩

/-- A list is, once its options have been read. -/
private theorem observedOnce_all (hsink : c.sink ≠ .absent) (filter : Value)
    {options : Value} (hoptions : (Options.ofValue options).isOk = true) :
    ObservedOnce "all" model c (all model filter options c) := by
  refine observedOnce_check hoptions fun o =>
    observedOnce_observed ?_ hsink model
  refine (keeps_ask frame_silentOn _).bind frame_silentOn fun m => ?_
  refine silentOn_read (fun rows => ?_) _ _ _
  split
  · exact (keeps_check frame_silentOn _).bind frame_silentOn fun _ =>
      (keeps_check frame_silentOn _).bind frame_silentOn fun _ =>
        (keeps_check frame_silentOn _).bind frame_silentOn fun _ =>
          keeps_pure frame_silentOn _
  · exact keeps_pure frame_silentOn _

/-- The count of a destruction does not count as an observation of it. -/
private theorem observedOnce_destroyAll (hsink : c.sink ≠ .absent)
    {filter options : Value} (hoptions : (Options.ofValue options).isOk = true)
    (hcounted : Call.hasCounted c model filter = true) :
    ObservedOnce "destroy_all" model c
      (destroyAll model filter options c) := by
  have hsilent : SilentOn "destroy_all" c (count model filter c).2 :=
    silentOn_count (by decide) model filter c
  unfold Call.hasCounted at hcounted
  rw [destroyAll_eq]
  refine observedOnce_check hoptions fun o => ?_
  rcases hcount : count model filter c with ⟨e | n, c'⟩
  · rw [hcount] at hcounted
    cases hcounted
  · rw [hcount] at hcounted hsilent
    have hn : n ≠ 0 := by simpa using hcounted
    rw [bind_apply_ok hcount, if_neg hn]
    refine ObservedOnce.after hsilent
      (observedOnce_observed ?_ (hsilent.1 ▸ hsink) model)
    exact (silentOn_mutate _ _ _ _).bind frame_silentOn fun _ =>
      keeps_pure frame_silentOn _

/-- A commit is, whatever there is to be committed. -/
private theorem observedOnce_commit (hsink : c.sink ≠ .absent) (tx : String) :
    ObservedOnce "commit" none c (commit tx c) := by
  refine observedOnce_observed ?_ hsink none
  refine (silentOn_takePending tx).bind frame_silentOn fun work => ?_
  split
  · exact keeps_pure frame_silentOn _
  · exact (silentOn_submitOnce _ _).bind frame_silentOn fun _ =>
      keeps_pure frame_silentOn _

/-- So is a traversal of the caller's own. -/
private theorem observedOnce_executeRaw (hsink : c.sink ≠ .absent)
    (steps : List Step) (options mode : Value) :
    ObservedOnce "execute" none c (executeRaw steps options mode c) := by
  refine observedOnce_observed ?_ hsink none
  exact (keeps_check frame_silentOn _).bind frame_silentOn fun mode =>
    (keeps_check frame_silentOn _).bind frame_silentOn fun o =>
      silentOn_execute _ _ o mode

/-- A call that gets as far as its operation is observed as that. -/
private theorem observedOnce_act {call : Call}
    (hop : call.operation? = some (operation, model))
    (hsink : c.sink ≠ .absent) (hbegins : call.begins c = true) :
    ObservedOnce operation model c (call.act c) := by
  -- one case per operation that is observed; the last line discards the others
  cases call
  case create model record options =>
    obtain ⟨rfl, rfl⟩ := Prod.mk.inj (Option.some.inj hop)
    show ObservedOnce _ _ c (create model record options c)
    rw [create_eq]
    refine observedOnce_changing (fun o v => ?_) hsink hbegins
    cases v <;> exact keeps_pure frame_silentOn _
  case all model filter options =>
    obtain ⟨rfl, rfl⟩ := Prod.mk.inj (Option.some.inj hop)
    exact observedOnce_all hsink filter hbegins
  case presence model id =>
    obtain ⟨rfl, rfl⟩ := Prod.mk.inj (Option.some.inj hop)
    refine observedOnce_observed
      (silentOn_read (fun _ => ?_) _ _ _) hsink model
    exact (keeps_check frame_silentOn _).bind frame_silentOn fun _ =>
      keeps_pure frame_silentOn _
  case count model filter =>
    obtain ⟨rfl, rfl⟩ := Prod.mk.inj (Option.some.inj hop)
    exact observedOnce_count hsink filter
  case destroyAll model filter options =>
    obtain ⟨rfl, rfl⟩ := Prod.mk.inj (Option.some.inj hop)
    obtain ⟨hoptions, hcounted⟩ := (Bool.and_eq_true _ _).mp hbegins
    exact observedOnce_destroyAll hsink hoptions hcounted
  case replaceById model id record options =>
    obtain ⟨rfl, rfl⟩ := Prod.mk.inj (Option.some.inj hop)
    obtain ⟨hid, hoptions⟩ := (Bool.and_eq_true _ _).mp hbegins
    show ObservedOnce _ _ c (replaceById model id record options c)
    rw [replaceById_eq]
    refine observedOnce_check hid fun _ => ?_
    exact observedOnce_changing (fun _ _ => keeps_pure frame_silentOn _)
      hsink hoptions
  case updateAll model filter record options =>
    obtain ⟨rfl, rfl⟩ := Prod.mk.inj (Option.some.inj hop)
    show ObservedOnce _ _ c (updateAll model filter record options c)
    rw [updateAll_eq]
    refine observedOnce_changing (fun o v => ?_) hsink hbegins
    split
    · exact keeps_pure frame_silentOn _
    · exact (keeps_check frame_silentOn _).bind frame_silentOn fun _ =>
        keeps_pure frame_silentOn _
  case commit tx =>
    obtain ⟨rfl, rfl⟩ := Prod.mk.inj (Option.some.inj hop)
    exact observedOnce_commit hsink tx
  case execute steps options mode =>
    obtain ⟨rfl, rfl⟩ := Prod.mk.inj (Option.some.inj hop)
    exact observedOnce_executeRaw hsink steps options mode
  all_goals exact absurd hop (by simp [Call.operation?])

-- ==================================================== calls that do not begin

/-- The call has come to nothing: it has failed, or has found nothing to do. -/
def Idle (out : Checked Value) : Prop :=
  (∃ e, out = .error e) ∨ out = .ok (counted (.int 0))

/-- A check that fails observes nothing, and nothing comes after it. -/
private theorem idle_check {r : Checked β} (h : r.isOk = false)
    (k : β → Act Value) : SilentOn operation c ((check r >>= k) c).2 ∧
      Idle ((check r >>= k) c).1 := by
  cases r with
  | error e => exact ⟨silentOn_same rfl rfl, .inl ⟨e, rfl⟩⟩
  | ok x => cases h

/-- A destruction that does not begin ends with its count. -/
private theorem idle_destroyAll {filter options : Value}
    (h : ((Options.ofValue options).isOk && Call.hasCounted c model filter)
      = false) :
    SilentOn "destroy_all" c (destroyAll model filter options c).2 ∧
      Idle (destroyAll model filter options c).1 := by
  rw [destroyAll_eq]
  cases ho : Options.ofValue options with
  | error e => exact idle_check rfl _
  | ok o =>
      rw [ho] at h
      have hsilent : SilentOn "destroy_all" c (count model filter c).2 :=
        silentOn_count (by decide) model filter c
      have hcounted : Call.hasCounted c model filter = false := h
      unfold Call.hasCounted at hcounted
      rw [bind_apply_ok (show check (.ok o) c = (.ok o, c) from rfl)]
      rcases hcount : count model filter c with ⟨e | n, c'⟩
      · rw [bind_apply_error hcount]
        rw [hcount] at hsilent
        exact ⟨hsilent, .inl ⟨e, rfl⟩⟩
      · rw [hcount] at hsilent hcounted
        have hn : n = 0 := by simpa using hcounted
        rw [bind_apply_ok hcount, if_pos hn]
        exact ⟨hsilent, .inr rfl⟩

/-- A call that does not begin is not observed. -/
private theorem idle_act {call : Call}
    (hop : call.operation? = some (operation, model))
    (hbegins : call.begins c = false) :
    SilentOn operation c (call.act c).2 ∧ Idle (call.act c).1 := by
  cases call
  case create model record options => exact idle_check hbegins _
  case all model filter options => exact idle_check hbegins _
  case updateAll model filter record options => exact idle_check hbegins _
  case destroyAll model filter options =>
    obtain ⟨rfl, rfl⟩ := Prod.mk.inj (Option.some.inj hop)
    exact idle_destroyAll hbegins
  case replaceById model id record options =>
    show SilentOn operation c (replaceById model id record options c).2 ∧
      Idle (replaceById model id record options c).1
    rw [replaceById_eq]
    rcases (Bool.and_eq_false_iff).mp hbegins with hid | hoptions
    · exact idle_check hid _
    · cases requireId id with
      | error e => exact idle_check rfl _
      | ok _ =>
          rw [bind_apply_ok (show check (.ok ()) c = (.ok (), c) from rfl)]
          exact idle_check hoptions _
  all_goals cases hbegins

end Act

namespace Connector

/-- With a sink, a call that gets as far as its operation is observed as that
exactly once, and as what has come of it; that is the last effect of the call,
with all submissions before it. A call that gets no further is not observed as
its operation at all. Then it has failed, or it is a destruction that has found
nothing. -/
theorem observed_once_begun {call : Call} (hsink : c.sink ≠ .absent)
    (hop : call.operation? = some (operation, model)) :
    (call.begins c = true → ∃ before ok code,
      effectsSince c (c.perform call).2
          = before ++ [.observed operation ok code (Act.named model)] ∧
        (∀ e ∈ before, e.operation? ≠ some operation) ∧
          Records (c.perform call).1 ok code) ∧
    (call.begins c = false →
      (∀ e ∈ effectsSince c (c.perform call).2,
        e.operation? ≠ some operation) ∧
        Act.Idle (c.perform call).1) := by
  refine ⟨fun hbegins => ?_, fun hbegins => ?_⟩
  · obtain ⟨before, ok, code, heffects, hsilent, hrecords⟩ :=
      Act.observedOnce_act hop hsink hbegins
    refine ⟨before, ok, code, ?_, hsilent, hrecords⟩
    have hafter : (c.perform call).2.effects = _ := heffects
    rw [effectsSince, hafter, List.drop_left]
  · obtain ⟨⟨-, new, heffects, hsilent⟩, hidle⟩ := Act.idle_act hop hbegins
    have hafter : (c.perform call).2.effects = _ := heffects
    rw [effectsSince, hafter, List.drop_left]
    exact ⟨hsilent, hidle⟩

/-- The destruction of two vertices is observed once. -/
theorem observed_once_sample : ∃ before,
    effectsSince Act.sampleConnector
        (Act.sampleConnector.perform
          (.destroyAll (some "Person") .null .null)).2
      = before ++ [.observed "destroy_all" true (.text "OK") (some "Person")] ∧
    ∀ e ∈ before, e.operation? ≠ some "destroy_all" := by
  have hbegins : Call.begins Act.sampleConnector
      (.destroyAll (some "Person") .null .null) = true :=
    by decide +kernel
  have hdone : (Act.sampleConnector.perform
      (.destroyAll (some "Person") .null .null)).1.isOk = true := by
        decide +kernel
  obtain ⟨before, ok, code, heffects, hsilent, hrecords⟩ :=
    (observed_once_begun (c := Act.sampleConnector) (by decide)
      (show Call.operation? (.destroyAll (some "Person") .null .null)
        = some _ from rfl)).1 hbegins
  cases hrun :
      (Act.sampleConnector.perform
        (.destroyAll (some "Person") .null .null)).1 with
  | error e =>
      rw [hrun] at hdone
      cases hdone
  | ok v =>
      rw [hrun] at hrecords
      cases hrecords
      exact ⟨before, heffects, hsilent⟩

-- A destruction that finds nothing ends with its count.
example : Call.begins Act.sampleConnector (.destroyAll (some "Person")
    (.map [(.text "name", .text "Zoe")]) .null) = false := by
  decide +kernel

end Connector

end GraphMapper
