/-
Creations, replacements and updates write a field alike.

A record of one field is created, replaced and updated with one and the same
write: the stored form of the value under the storage key of the field. When
the value has no stored form, all three are refused with the same failure
(`field_written_alike`).

This is so for fields whose storage key is not the name of a field of another
type (`Query.Plainly.shared`). Where it is, a creation and a replacement write
the value as a value of that other field, and an update as one of its own.

# Why only one write is compared

The three operations have other steps around the write: the vertex that is
made, the clearing, the selection, and in a replacement the primary key. They
are compared in what they write, wherever it stands (`WritesStored`), and in
when they refuse, which is before anything is submitted.

Chain: `Query.Single` for the builders, `Connector.Changes` for what becomes of
them in a connector.
-/
import GraphMapper.Proofs.Connector.ById
import GraphMapper.Proofs.Connector.Changes
import GraphMapper.Proofs.Query.Single

namespace GraphMapper

variable {c : Connector} {model : Option String} {m : Model}
  {f : Field} {v : Value}

namespace Act

open Connector

/-- A change comes down to a value in its stored form: it is refused with what
this fails with, or submits the steps for it. -/
def WritesStored (stored : Checked Value) (into : Value → List Step)
    (mode : Mode) (act : Act Value) (c : Connector) : Prop :=
  (∀ e, stored = .error e → Refused (.ok ()) e act c) ∧
    ∀ s, stored = .ok s → Submits (into s) mode act c

/-- What is built decides, if it comes down to a stored form. -/
private theorem writesStored_changing {options : Value} {o : Options}
    (ho : Options.ofValue options = .ok o) (halone : o.joined = none)
    (hmodel : c.registry.get model = .ok m) {mode : Mode}
    {finish : Options → Value → Act Value}
    (hfinish : ∀ steps o v, Keeps (Served steps mode) (finish o v))
    (operation : String) {builder : Model → Build Unit}
    {stored : Checked Value} {into : Value → List Step}
    (hbuilt : Build.traversalFrom [] (builder m) = stored.map into) :
    WritesStored stored into mode
      (changing operation model builder mode options finish) c := by
  constructor
  · intro e he
    refine (changing_comes_to ho halone hmodel (hfinish []) operation
      builder).1 e ?_
    rw [hbuilt, he]
    rfl
  · intro s hs
    refine (changing_comes_to ho halone hmodel (hfinish (into s)) operation
      builder).2 ?_
    rw [hbuilt, hs]
    rfl

/-- What is decided first and goes well may be left out. -/
theorem WritesStored.check_bind {stored : Checked Value}
    {into : Value → List Step} {mode : Mode} {first : Checked Unit}
    {act : Act Value} (hfirst : first = .ok ())
    (h : WritesStored stored into mode act c) :
    WritesStored stored into mode (check first >>= fun _ => act) c := by
  have hsame : (check first >>= fun _ => act) c = act c := by
    rw [hfirst]
    exact bind_apply_ok rfl
  constructor
  · intro e he
    obtain ⟨c', hgo, hunmoved⟩ := h.1 e he
    exact ⟨c', hsame.trans hgo, hunmoved⟩
  · intro s hs
    obtain ⟨n, hn, hgo⟩ := h.2 s hs
    exact ⟨n, hn, (congrArg (fun r => r.2.submitted) hsame).trans hgo⟩

/-- Given one field of a vertex model, a creation, a replacement and an update
have one write in common, behind whatever source they start from, or fail
alike. -/
theorem field_written_alike (hmodel : c.registry.get model = .ok m)
    (h : m.Keyed) (hvertex : m.isEdge = false) (hf : Query.Plainly m f)
    (v : Value) :
    let record := Value.map [(f.name, v)]
    let stored := Record.serialize (some f.type) v
    ∃ key : Value, key.sameKey f.key = true ∧
      let write := fun s : Value => Step.call .property [key, s]
      let created := fun s => [.call .addVertex [m.label], write s]
      let replaced :=
        fun selected s => selected ++ [Query.clearing [], write s]
      let updated := fun selected s =>
        selected ++ [Query.clearing [key], write s, .call .count []]
      (∀ start, Build.traversalFrom start (Query.create m record)
        = stored.map fun s => start ++ created s) ∧
      (∀ start id selected, Filter.select m (Query.byId m id) = .ok selected →
        Build.traversalFrom start (Query.replace m id record)
          = stored.map fun s => start ++ replaced selected s) ∧
      (∀ start filter selected, Filter.select m filter = .ok selected →
        Build.traversalFrom start (Query.update m filter record)
          = stored.map fun s => start ++ updated selected s) ∧
      ∀ options o, Options.ofValue options = .ok o → o.joined = none →
        WritesStored stored created .next (create model record options) c ∧
        (∀ id selected, requireId id = .ok () →
          Filter.select m (Query.byId m id) = .ok selected →
          WritesStored stored (replaced selected) .iterate
            (replaceById model id record options) c) ∧
        ∀ filter selected, Filter.select m filter = .ok selected →
          WritesStored stored (updated selected) .next
            (updateAll model filter record options) c := by
  intro record stored
  obtain ⟨face, hface⟩ := h.facedKey f (Model.mem_fields_of_others hf.declared)
  have hkey := Record.face_moved (p := (f.name, v)) h.toFaced
    (Model.mem_fields_of_others hf.declared) rfl
  refine ⟨(Record.moved m (f.name, v)).1,
    (Value.sameKey_iff_face hface).mpr (hkey.trans hface), ?_⟩
  -- the three traversals first, then what each operation submits
  intro write created replaced updated
  have hcreate : ∀ start, Build.traversalFrom start (Query.create m record)
      = stored.map fun s => start ++ created s :=
    fun start => Query.traversalFrom_create_single h hvertex hf rfl
  have hreplace : ∀ start id selected,
      Filter.select m (Query.byId m id) = .ok selected →
      Build.traversalFrom start (Query.replace m id record)
        = stored.map fun s => start ++ replaced selected s := by
    intro start id selected hselect
    rw [Query.traversalFrom_replace_single h hvertex hf rfl hselect]
    simp only [replaced, List.append_assoc]
    rfl
  have hupdate : ∀ start filter selected,
      Filter.select m filter = .ok selected →
      Build.traversalFrom start (Query.update m filter record)
        = stored.map fun s => start ++ updated selected s := by
    intro start filter selected hselect
    rw [Query.traversalFrom_update_single h hvertex hf rfl hselect]
    simp only [updated, List.append_assoc]
    rfl
  refine ⟨hcreate, hreplace, hupdate, fun options o ho halone => ⟨?_, ?_, ?_⟩⟩
  · rw [create_eq]
    apply writesStored_changing ho halone hmodel
    · intro steps o v
      split <;> exact keeps_pure frame_served _
    · exact hcreate []
  · intro id selected hid hselect
    rw [replaceById_eq]
    apply WritesStored.check_bind hid
    apply writesStored_changing ho halone hmodel
    · intro steps o v
      exact keeps_pure frame_served _
    · exact hreplace [] id selected hselect
  · intro filter selected hselect
    rw [updateAll_eq]
    apply writesStored_changing ho halone hmodel
    · intro steps o v
      split
      · exact keeps_pure frame_served _
      · exact (keeps_check frame_served _).bind frame_served fun _ =>
          keeps_pure frame_served _
    · exact hupdate [] filter selected hselect

/-- A number may be given as text, and is written as a number whichever way. -/
theorem field_written_alike_age :
    ∃ key : Value, key.sameKey (.text "age") = true ∧
    let record := Value.map [(.text "age", .text "12")]
    let write := Step.call .property [key, .int 12]
    Submits [.call .addVertex [.text "Person"], write] .next
      (create (some "Person") record .null) sampleConnector ∧
    Submits [.call .vertices [.text "p1"], .call .hasLabel [.text "Person"],
        Query.clearing [], write] .iterate
      (replaceById (some "Person") (.text "p1") record .null)
      sampleConnector ∧
    Submits [.call .vertices [], .call .hasLabel [.text "Person"],
        Query.clearing [key], write, .call .count []] .next
      (updateAll (some "Person") .null record .null) sampleConnector := by
  have hplain : Query.Plainly Filter.sampleModel
      ⟨.text "age", .number, .null⟩ :=
    ⟨List.mem_filter.mpr ⟨List.mem_cons_self, by decide⟩, by decide, by decide⟩
  have hstored : Record.serialize (some .number) (.text "12")
      = .ok (.int 12) := by rfl
  have hmodel : sampleConnector.registry.get (some "Person")
      = .ok Filter.sampleModel := rfl
  obtain ⟨key, hkey, -, -, -, hchanges⟩ :=
    field_written_alike hmodel Filter.sampleModel_apart.toKeyed rfl
      hplain (.text "12")
  obtain ⟨hcreate, hreplace, hupdate⟩ := hchanges .null .standard rfl rfl
  refine ⟨key, hkey, hcreate.2 _ hstored, ?_, ?_⟩
  · exact (hreplace (.text "p1") _ rfl rfl).2 _ hstored
  · exact (hupdate .null _ rfl).2 _ hstored

-- A title under a key that is the name of a number: a creation takes it for a
-- number.
example : Record.typeFor { Filter.sampleModel with
    fields := [⟨.text "title", .string, .text "size"⟩,
      ⟨.text "size", .number, .text "bytes"⟩] }
    (.text "size") = some .number := by
  decide +kernel

end Act

end GraphMapper
