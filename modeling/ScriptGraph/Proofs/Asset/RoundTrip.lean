import ScriptGraph.Asset
import ScriptGraph.Proofs.Clipping.Plan
import ScriptGraph.Proofs.Clipping.RoundTrip

/-!
Assets and clippings that are written and read again. What was read from any document, whatever the
document left out, spelled otherwise or gave as an array, is read from its own text as it is; the one
thing that is asked of this text is that its numbers are read as they are printed.
-/

set_option autoImplicit false
set_option relaxedAutoImplicit false

namespace ScriptGraph

open Json (Parsed Rereads maxDepth)

/-! ## Graphs and layouts -/

namespace Graph

theorem ofJson?_fields (name description : String) (order version nodes : Json) :
    ofJson? (.object [("name", .text name), ("description", .text description),
        ("update_order", order), ("version", version), ("nodes", nodes)]) = do
      return {
        name
        description
        updateOrder := ← order.int32?
        version := ← version.uint32?
        nodes := ← nodes.list? Node.ofJson? } := rfl

theorem rereads {depth : Nat} (room : depth + 3 < maxDepth) : Rereads ofJson? toJson depth := by
  intro document g parsed read exact
  obtain ⟨record, found, read⟩ := Option.bind_eq_some_iff.mp read
  obtain ⟨shallow, parts⟩ := parsed.record found
  obtain ⟨name, -, read⟩ := Option.bind_eq_some_iff.mp read
  obtain ⟨description, -, read⟩ := Option.bind_eq_some_iff.mp read
  obtain ⟨order, -, read⟩ := Option.bind_eq_some_iff.mp read
  obtain ⟨version, -, read⟩ := Option.bind_eq_some_iff.mp read
  obtain ⟨nodes, held, read⟩ := Option.bind_eq_some_iff.mp read
  cases Option.some.inj read
  have exact := Json.exact_object.mp exact
  simp only [List.forall_mem_cons] at exact
  obtain ⟨-, -, -, -, exact, -⟩ := exact
  have empty : Parsed (depth + 1) (.array []) := .nil (by omega)
  have fits : version.toNat < UInt64.size := Nat.lt_trans version.toNat_lt (by decide)
  obtain ⟨_, parsed, read⟩ := parts.optional held ⟨_, empty, rfl⟩
  have held := (Node.rereads room).list parsed read exact
  rw [toJson, Json.readBack, if_pos shallow]
  simp only [Json.readBackEntries, Json.readBack_text]
  rw [ofJson?_fields, Json.readBack_integer (Json.inRange_int32 order), Json.int32?_toInt,
    Json.readBack_integer (Json.inRange_natCast fits), Json.uint32?_toNat, held]
  rfl

end Graph

theorem Json.canonical?_rereads (depth : Nat) : Rereads Json.canonical? id depth := by
  intro document record parsed read exact
  have kept := parsed.kept read
  rw [id, kept.readBack exact]
  exact kept.canonical?

theorem Layout.rereads (depth : Nat) : Rereads Layout.ofJson? Layout.toJson depth := by
  intro document layout parsed read exact
  obtain ⟨records, each, rfl⟩ := Option.map_eq_some_iff.mp read
  have written : toJson ⟨records⟩ = .array (records.map id) := by rw [List.map_id]; rfl
  rw [written] at exact ⊢
  rw [ofJson?, (Json.canonical?_rereads (depth + 1)).list parsed each exact]
  rfl

/-! ## Assets and clippings -/

theorem Asset.rereads : Rereads Asset.ofJson? Asset.toJson 0 := by
  intro document a parsed read exact
  obtain ⟨record, found, read⟩ := Option.bind_eq_some_iff.mp read
  obtain ⟨shallow, parts⟩ := parsed.record found
  obtain ⟨graph, drawn, read⟩ := Option.bind_eq_some_iff.mp read
  obtain ⟨layout, laid, read⟩ := Option.bind_eq_some_iff.mp read
  cases Option.some.inj read
  have fields : ∀ graph layout : Json, ofJson? (.object [("graph", graph), ("layout", layout)]) = do
      return ⟨← Graph.ofJson? graph, ← Layout.ofJson? layout⟩ := fun _ _ => rfl
  have exact := Json.exact_object.mp exact
  simp only [List.forall_mem_cons] at exact
  obtain ⟨exactGraph, exactLayout, -⟩ := exact
  have empty : Parsed 1 (.array []) := .nil (by decide)
  obtain ⟨_, parsed, read⟩ := parts.required drawn
  have drawn := Graph.rereads (by decide) parsed read exactGraph
  obtain ⟨_, parsed, read⟩ := parts.optional laid ⟨_, empty, rfl⟩
  have laid := Layout.rereads 1 parsed read exactLayout
  rw [toJson, Json.readBack, if_pos shallow]
  simp only [Json.readBackEntries]
  rw [fields, drawn, laid]
  rfl

namespace Clipping

theorem nodes_reread {document : Json} {k : Clipping} (parsed : Parsed 0 document)
    (read : ofJson? document = some k) (exact : k.toJson.Exact) :
    (k.nodes.mapM fun n => Node.ofJson? (n.toJson.readBack 2)) = some k.nodes := by
  obtain ⟨record, found, read⟩ := Option.bind_eq_some_iff.mp read
  obtain ⟨-, parts⟩ := parsed.record found
  obtain ⟨nodes, held, read⟩ := Option.bind_eq_some_iff.mp read
  cases Option.some.inj read
  obtain ⟨_, parsed, read⟩ := parts.required held
  have exact := Json.exact_object.mp exact _ List.mem_cons_self
  have held := (Node.rereads (by decide : 2 + 1 < maxDepth)).list parsed read exact
  rwa [Json.list?_readBack Node.ofJson? Node.toJson (by decide : 1 < maxDepth)] at held

theorem rereads : Rereads ofJson? toJson 0 := by
  intro document k parsed read exact
  rw [ofJson?_readBack, nodes_reread parsed read exact]
  rfl

theorem exists_of_ofText {text : String} {k : Clipping} (held : ofText text = .ok k) :
    ∃ document, Parsed 0 document ∧ ofJson? document = some k := by
  unfold ofText at held
  split at held
  · cases held
  · split at held
    · cases held
    · split at held
      · cases held
      · rename_i found
        cases held
        obtain ⟨document, read, found⟩ := Option.bind_eq_some_iff.mp found
        exact ⟨document, Json.ofBytes?_parsed read, found⟩

end Clipping

/-- An asset that was read from any text is read from its own, and a clipping from its own document
and text, if the numbers in them are read as they are printed: every link to an output and every flow
comes back, and so do values of each width, fields that were left out and records of unknown types. -/
theorem Asset.ofText?_toText :
    (∀ text a, Asset.ofText? text = some a → a.toJson.Exact → Asset.ofText? a.toText = some a) ∧
    (∀ bytes k, (Json.ofBytes? bytes).bind Clipping.ofJson? = some k → k.toJson.Exact →
      (Json.ofText? k.toJson.compact).bind Clipping.ofJson? = some k) ∧
    (∀ text k, Clipping.ofText text = .ok k → k.toJson.Exact → Clipping.ofText k.toText = .ok k) := by
  refine ⟨fun text a read exact => ?_, fun bytes k read exact => ?_, fun text k held exact => ?_⟩
  · obtain ⟨document, written, read⟩ := Option.bind_eq_some_iff.mp read
    rw [Asset.ofText?, Asset.toText, Json.ofText?_indented]
    exact Asset.rereads (Json.ofBytes?_parsed written) read exact
  · obtain ⟨document, written, read⟩ := Option.bind_eq_some_iff.mp read
    rw [Json.ofText?_compact]
    exact Clipping.rereads (Json.ofBytes?_parsed written) read exact
  · obtain ⟨document, parsed, read⟩ := Clipping.exists_of_ofText held
    rw [Clipping.ofText_toText, Clipping.nodes_reread parsed read exact]

def Asset.looseText : String :=
  "[[\"m\",\"\",-5,7,[[\"a\",\"S\",[0.1,-2],[],[],[\"\",\"b\"]]," ++
    "\x7b\"uid\":\"b\",\"full_name\":\"S\",\"node_values\":[\"Null\"," ++
    "\x7b\"Array\":[\x7b\"Double\":1e-7\x7d,\x7b\"Single\":3\x7d]\x7d]," ++
    "\"node_uids\":[\"a|3\",\"a\",null]\x7d]],[\x7b\"type\":\"F\",\"n\":1,\"n\":[2.50]\x7d]]"

def Asset.loose : Asset where
  graph := {
    name := "m"
    description := ""
    updateOrder := -5
    version := 7
    nodes := [⟨"a", "S", ⟨⟨0x3DCCCCCD⟩, ⟨0xC0000000⟩⟩, [], [], [none, some "b"]⟩,
      ⟨"b", "S", .origin, [.null, .array [.double ⟨0x3E7AD7F29ABCAF48⟩, .single ⟨0x40400000⟩]],
        [some ⟨"a", 3⟩, some ⟨"a", 0⟩, none], []⟩] }
  layout := ⟨[.object [("n", .array [.double ⟨0x4004000000000000⟩]), ("type", .text "F")]]⟩

theorem Asset.ofText?_toText_loose :
    (Asset.ofText? looseText = some loose ∧ Asset.ofText? loose.toText = some loose) ∧
    (Json.ofText? Clipping.chain.toJson.compact).bind Clipping.ofJson? = some Clipping.chain ∧
    Clipping.ofText Clipping.chain.toText = .ok Clipping.chain := by
  obtain ⟨assets, documents, texts⟩ := Asset.ofText?_toText
  have read : Asset.ofText? looseText = some loose := by decide +kernel
  have exact : loose.toJson.Exact := by decide +kernel
  have exactChain : Clipping.chain.toJson.Exact := by decide +kernel
  have written : (Json.ofBytes? (
      "[[[\"a\",\"Block\",[0,0],[],[],[\"b\"]],[\"b\",\"Block\"]]]").toUTF8.toList).bind
        Clipping.ofJson? = some Clipping.chain := by decide +kernel
  exact ⟨⟨read, assets looseText loose read exact⟩, documents _ _ written exactChain,
    texts _ _ Clipping.ofText_chainText exactChain⟩

end ScriptGraph
