import ScriptGraph.Clipping
import ScriptGraph.Proofs.Bytes.RoundTrip
import ScriptGraph.Proofs.Node.RoundTrip

/-!
Clippings that are written and read again. A text of a clipping always holds a document of its nodes;
if that describes a clipping, it is one of the same nodes in the same order, with as many literals.
-/

set_option autoImplicit false
set_option relaxedAutoImplicit false

namespace ScriptGraph

namespace Node

theorem ofJson?_readBack (n : Node) : ofJson? (n.toJson.readBack 2) = do
    return {
      uid := n.uid
      fullName := n.fullName
      position := ← Position.ofJson? (n.position.toJson.readBack 3)
      values := ← n.values.mapM fun value => Value.ofJson? (value.toJson.readBack 4)
      links := n.links.map fun link => link.bind fun l => Link.ofText? l.text
      flows := n.flows.map fun flow => flow.filter fun uid => !uid.isEmpty } := by
  have links : ((Json.array (n.links.map linkToJson)).readBack 3).list? linkOfJson? =
      some (n.links.map fun link => link.bind fun l => Link.ofText? l.text) := by
    rw [Json.list?_readBack linkOfJson? linkToJson (by decide)]
    simp only [linkOfJson?_linkToJson]
    exact List.mapM_pure
  have flows : ((Json.array (n.flows.map flowToJson)).readBack 3).list? flowOfJson? =
      some (n.flows.map fun flow => flow.filter fun uid => !uid.isEmpty) := by
    rw [Json.list?_readBack flowOfJson? flowToJson (by decide)]
    simp only [flowOfJson?_flowToJson]
    exact List.mapM_pure
  have values := Json.list?_readBack Value.ofJson? Value.toJson (by decide : 3 < Json.maxDepth) n.values
  rw [toJson, Json.readBack, if_pos (by decide)]
  simp only [Json.readBackEntries, Json.readBack_text]
  rw [ofJson?_fields, links, flows, values]
  rfl

theorem of_ofJson?_readBack {n m : Node} (reads : ofJson? (n.toJson.readBack 2) = some m) :
    m.uid = n.uid ∧ m.fullName = n.fullName ∧ m.values.length = n.values.length := by
  rw [ofJson?_readBack] at reads
  obtain ⟨position, -, reads⟩ := Option.bind_eq_some_iff.mp reads
  obtain ⟨values, found, same⟩ := Option.bind_eq_some_iff.mp reads
  cases Option.some.inj same
  exact ⟨rfl, rfl, (mapM_eq_some.mp found).length_eq.symm⟩

/-- The text of a node denotes a place, its literals are read as they are written, and the outputs that
it is linked to can be told. -/
structure Legible (n : Node) : Prop where
  position : (Position.ofJson? (n.position.toJson.readBack 3)).isSome
  values : ∀ value ∈ n.values, Value.ofJson? (value.toJson.readBack 4) = some value
  outputs : ∀ link, some link ∈ n.links → link.output < UInt64.size

instance (n : Node) : Decidable n.Legible :=
  decidable_of_iff ((Position.ofJson? (n.position.toJson.readBack 3)).isSome ∧
      (∀ value ∈ n.values, Value.ofJson? (value.toJson.readBack 4) = some value) ∧
      ∀ entry ∈ n.links, ∀ link ∈ entry, link.output < UInt64.size)
    ⟨fun ⟨position, values, outputs⟩ => ⟨position, values, fun link linked => outputs _ linked link rfl⟩,
      fun ⟨position, values, outputs⟩ =>
        ⟨position, values, fun _ listed link held => outputs link (held ▸ listed)⟩⟩

/-- A legible node is read as it was written, its place aside, if it is connected to nodes whose uids can
be told from other texts. -/
theorem Legible.ofJson?_readBack {n : Node} (legible : n.Legible)
    (links : ∀ link, some link ∈ n.links → link.node ≠ "" ∧ '|' ∉ link.node.toList)
    (flows : ∀ target, some target ∈ n.flows → target ≠ "") :
    ∃ position, ofJson? (n.toJson.readBack 2) = some { n with position } := by
  obtain ⟨position, placed⟩ := Option.isSome_iff_exists.mp legible.position
  have values := mapM_eq_self legible.values
  have linked : n.links.map (fun link => link.bind fun l => Link.ofText? l.text) = n.links := by
    conv_rhs => rw [← List.map_id n.links]
    refine List.map_congr_left fun link listed => ?_
    cases link with
    | none => rfl
    | some l =>
      obtain ⟨named, clear⟩ := links l listed
      exact Link.ofText?_text named clear (legible.outputs l listed)
  have led : n.flows.map (fun flow => flow.filter fun uid => !uid.isEmpty) = n.flows := by
    conv_rhs => rw [← List.map_id n.flows]
    refine List.map_congr_left fun flow listed => ?_
    cases flow with
    | none => rfl
    | some target =>
      have named : target.isEmpty = false := by
        rw [← Bool.not_eq_true, String.isEmpty_iff]
        exact flows target listed
      rw [Option.filter_some, named]
      rfl
  refine ⟨position, ?_⟩
  rw [Node.ofJson?_readBack, placed, values, linked, led]
  rfl

end Node

namespace Clipping

theorem ofJson?_readBack (k : Clipping) : ofJson? (k.toJson.readBack 0) =
    (k.nodes.mapM fun n => Node.ofJson? (n.toJson.readBack 2)).map Clipping.mk := by
  have fields : ∀ nodes : Json, ofJson? (.object [("nodes", nodes)]) =
      (nodes.list? Node.ofJson?).map Clipping.mk := by
    intro nodes
    change (nodes.list? Node.ofJson?).bind _ = _
    cases nodes.list? Node.ofJson? <;> rfl
  have nodes := Json.list?_readBack Node.ofJson? Node.toJson (by decide : 1 < Json.maxDepth) k.nodes
  rw [toJson, Json.readBack, if_pos (by decide)]
  simp only [Json.readBackEntries]
  rw [fields, nodes]

theorem ofText_toText (k : Clipping) : ofText k.toText =
    match k.nodes.mapM fun n => Node.ofJson? (n.toJson.readBack 2) with
    | none => .error .format
    | some nodes => .ok ⟨nodes⟩ := by
  have written : (String.ofList (Base64.encode (Deflate.deflate k.toJson.compact.toUTF8.toList))).toList =
      Base64.encode (Deflate.deflate k.toJson.compact.toUTF8.toList) := String.toList_ofList
  have held : Json.ofBytes? k.toJson.compact.toUTF8.toList = some (k.toJson.readBack 0) :=
    Json.ofText?_compact k.toJson
  rw [ofText, toText, written, Base64.trimmed_encode, Base64.decode?_encode]
  dsimp only
  rw [Deflate.inflate?_deflate]
  dsimp only
  rw [held, Option.bind_some, ofJson?_readBack]
  cases k.nodes.mapM fun n => Node.ofJson? (n.toJson.readBack 2) <;> rfl

theorem ofText_toText_of_kept {β : Type} {kept : Node → β} {k : Clipping}
    (reads : ∀ n ∈ k.nodes, ∃ m, Node.ofJson? (n.toJson.readBack 2) = some m ∧ kept m = kept n) :
    ∃ clipping, ofText k.toText = .ok clipping ∧ clipping.nodes.map kept = k.nodes.map kept := by
  obtain ⟨nodes, found, same⟩ := exists_mapM_eq_some reads
  refine ⟨⟨nodes⟩, ?_, same⟩
  rw [ofText_toText, found]

end Clipping

end ScriptGraph
