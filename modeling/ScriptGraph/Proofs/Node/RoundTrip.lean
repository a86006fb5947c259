import ScriptGraph.Proofs.Json.Exact
import ScriptGraph.Proofs.Graph.Document
import ScriptGraph.Value.Document

/-!
Values and nodes in documents that are written and read again. Integers of any width come back, and so
do numbers with fractions that are read as they are printed. An array that was read from a document is
nested no deeper in its own, so that it is read from there as it is. Whatever was read as the links of a
node can be told from their texts, and whatever was left out is written as what stands for it, so that
the node is read as it is.
-/

set_option autoImplicit false
set_option relaxedAutoImplicit false

/-! ## Values -/

namespace ScriptGraph.Value

open Json (Parsed maxDepth readBack_entry)

/-! ## Reading values -/

theorem of_ofJson?_text {name : String} {v : Value} (read : ofJson? (.text name) = some v) :
    v = .null ∨ v = .this := by
  rw [ofJson?] at read
  split at read
  · exact .inl (Option.some.inj read).symm
  · split at read
    · exact .inr (Option.some.inj read).symm
    · cases read

theorem of_ofJson? {document : Json} {v : Value} (read : ofJson? document = some v) :
    (v = .null ∨ v = .this) ∨ ∃ entries, document = .object entries := by
  cases document with
  | text name => exact .inl (of_ofJson?_text read)
  | object entries => exact .inr ⟨entries, rfl⟩
  | _ =>
    rw [ofJson?] at read
    · cases read
    all_goals nofun

theorem of_ofJson?_array {document : Json} {vs : List Value}
    (read : ofJson? document = some (.array vs)) :
    ∃ items, document = .object [("Array", .array items)] ∧ ofJsonItems? items = some vs := by
  unfold ofJson? at read
  split at read
  · split at read
    · cases read
    · split at read <;> cases read
  · split at read
    case h_10 items =>
      obtain ⟨_, inside, same⟩ := Option.map_eq_some_iff.mp read
      cases same
      exact ⟨items, rfl, inside⟩
    all_goals first
      | cases read
      | (obtain ⟨_, -, same⟩ := Option.map_eq_some_iff.mp read
         cases same)
  · cases read

/-! ## Values from their own documents -/

private theorem bare_readBack {v : Value} (bare : v = .null ∨ v = .this) (depth : Nat) :
    ofJson? (v.toJson.readBack depth) = some v := by
  rcases bare with rfl | rfl
  · rw [toJson, Json.readBack_text]
    rfl
  · rw [toJson, Json.readBack_text]
    rfl

private theorem shallow_readBack {depth : Nat} (shallow : depth < maxDepth) {v : Value}
    (items : ∀ vs, v ≠ .array vs) (exact : v.toJson.Exact) :
    ofJson? (v.toJson.readBack depth) = some v := by
  cases v with
  | null => exact bare_readBack (.inl rfl) depth
  | this => exact bare_readBack (.inr rfl) depth
  | bool value =>
    rw [toJson, readBack_entry shallow, Json.readBack_bool]
    rfl
  | int32 value =>
    rw [toJson, readBack_entry shallow, Json.readBack_integer (Json.inRange_int32 value)]
    exact congrArg (Option.map Value.int32) (Json.int32?_toInt value)
  | int64 value =>
    rw [toJson, readBack_entry shallow, Json.readBack_integer (Json.inRange_int64 value)]
    exact congrArg (Option.map Value.int64) (Json.int64?_toInt value)
  | single value =>
    rw [toJson] at exact
    have rounded := Json.single?_readBack (Json.exact_object.mp exact _ List.mem_cons_self) (depth + 1)
    rw [toJson, readBack_entry shallow]
    exact congrArg (Option.map Value.single) rounded
  | double value =>
    rw [toJson] at exact
    have printed := Json.exact_object.mp exact _ List.mem_cons_self _ List.mem_cons_self
    rw [toJson, readBack_entry shallow, Json.readBack_leaf (.double value) printed]
    rfl
  | text value =>
    rw [toJson, readBack_entry shallow, Json.readBack_text]
    rfl
  | object id =>
    rw [toJson, readBack_entry shallow, Json.readBack_integer (Json.inRange_natCast id.toNat_lt)]
    exact congrArg (Option.map Value.object) (Json.uint64?_toNat id)
  | array vs => exact absurd rfl (items vs)

private theorem plain_readBack {depth : Nat} {document : Json} (parsed : Parsed depth document)
    {v : Value} (read : ofJson? document = some v) (items : ∀ vs, v ≠ .array vs)
    (exact : v.toJson.Exact) : ofJson? (v.toJson.readBack depth) = some v := by
  rcases of_ofJson? read with bare | ⟨entries, rfl⟩
  · exact bare_readBack bare depth
  · exact shallow_readBack parsed.of_object.1 items exact

mutual

private theorem ofJson?_readBack : ∀ {v : Value} {depth : Nat} {document : Json}, Parsed depth document →
    ofJson? document = some v → v.toJson.Exact → ofJson? (v.toJson.readBack depth) = some v
  | .array vs, depth, document, parsed, read, exact => by
    obtain ⟨items, rfl, inside⟩ := of_ofJson?_array read
    obtain ⟨shallow, parts⟩ := parsed.of_object
    obtain ⟨inner, parts⟩ := (parts _ List.mem_cons_self).of_array
    rw [toJson] at exact
    have exact := Json.exact_object.mp exact _ List.mem_cons_self
    have again := ofJsonItems?_readBack parts inside exact
    rw [toJson, readBack_entry shallow, Json.readBack, if_pos inner]
    exact congrArg (Option.map Value.array) again
  | .null, _, _, parsed, read, exact | .this, _, _, parsed, read, exact
  | .bool _, _, _, parsed, read, exact | .int32 _, _, _, parsed, read, exact
  | .int64 _, _, _, parsed, read, exact | .single _, _, _, parsed, read, exact
  | .double _, _, _, parsed, read, exact | .text _, _, _, parsed, read, exact
  | .object _, _, _, parsed, read, exact => plain_readBack parsed read nofun exact

private theorem ofJsonItems?_readBack : ∀ {vs : List Value} {depth : Nat} {items : List Json},
    (∀ item ∈ items, Parsed depth item) → ofJsonItems? items = some vs →
      (Json.array (toJsonItems vs)).Exact →
        ofJsonItems? (Json.readBackItems depth (toJsonItems vs)) = some vs
  | [], _, _, _, _, _ => rfl
  | v :: vs, depth, items, parsed, read, exact => by
    cases items with
    | nil => cases read
    | cons item items =>
      obtain ⟨first, parsed⟩ := List.forall_mem_cons.mp parsed
      rw [ofJsonItems?] at read
      obtain ⟨_, one, read⟩ := Option.bind_eq_some_iff.mp read
      obtain ⟨_, more, same⟩ := Option.bind_eq_some_iff.mp read
      cases Option.some.inj same
      obtain ⟨exactly, exact⟩ := List.forall_mem_cons.mp (Json.exact_array.mp exact)
      have again := ofJson?_readBack first one exactly
      have others := ofJsonItems?_readBack parsed more (Json.exact_array.mpr exact)
      rw [toJsonItems, Json.readBackItems, ofJsonItems?, again, others]
      rfl

end

theorem rereads (depth : Nat) : Json.Rereads ofJson? toJson depth :=
  fun _ _ => ofJson?_readBack

end ScriptGraph.Value

/-! ## Nodes -/

namespace ScriptGraph

open Json (Parsed Rereads maxDepth)

/-! ## Positions -/

theorem Position.rereads (depth : Nat) : Rereads Position.ofJson? Position.toJson depth := by
  intro document p parsed read exact
  obtain ⟨record, found, -⟩ := Option.bind_eq_some_iff.mp read
  obtain ⟨shallow, -⟩ := parsed.record found
  have fields : ∀ x y : Json, ofJson? (.object [("x", x), ("y", y)]) = do
      return ⟨← x.single?, ← y.single?⟩ := fun _ _ => rfl
  have exact := Json.exact_object.mp exact
  have x := Json.single?_readBack (exact _ List.mem_cons_self) (depth + 1)
  have y := Json.single?_readBack (exact _ (List.mem_cons_of_mem _ List.mem_cons_self)) (depth + 1)
  rw [toJson, Json.readBack, if_pos shallow]
  simp only [Json.readBackEntries]
  rw [fields, x, y]
  rfl

namespace Node

/-! ## Connections -/

theorem linkOfJson?_linkToJson (depth : Nat) (link : Option Link) :
    linkOfJson? ((linkToJson link).readBack depth) = some (link.bind fun l => Link.ofText? l.text) := by
  cases link <;> rw [linkToJson, Json.readBack_text] <;> rfl

theorem flowOfJson?_flowToJson (depth : Nat) (flow : Option Uid) :
    flowOfJson? ((flowToJson flow).readBack depth) = some (flow.filter fun uid => !uid.isEmpty) := by
  cases flow <;> rw [flowToJson, Json.readBack_text] <;> rfl

theorem linkOfJson?_rereads (depth : Nat) : Rereads linkOfJson? linkToJson depth := by
  intro document link _ read _
  obtain ⟨text, -, rfl⟩ := Option.map_eq_some_iff.mp read
  rw [linkOfJson?_linkToJson]
  cases linked : text.bind Link.ofText? with
  | none => rfl
  | some l =>
    obtain ⟨written, -, read⟩ := Option.bind_eq_some_iff.mp linked
    exact congrArg some (Link.ofText?_text_of_ofText? read)

theorem flowOfJson?_rereads (depth : Nat) : Rereads flowOfJson? flowToJson depth := by
  intro document flow _ read _
  obtain ⟨uid, -, rfl⟩ := Option.map_eq_some_iff.mp read
  rw [flowOfJson?_flowToJson, Option.filter_filter]
  simp only [Bool.and_self]

/-! ## Nodes -/

theorem ofJson?_fields (uid fullName : String) (position values links flows : Json) :
    ofJson? (.object [("uid", .text uid), ("full_name", .text fullName), ("position", position),
        ("node_values", values), ("node_uids", links), ("flow_uids", flows)]) = do
      return {
        uid
        fullName
        position := ← Position.ofJson? position
        values := ← values.list? Value.ofJson?
        links := ← links.list? linkOfJson?
        flows := ← flows.list? flowOfJson? } := rfl

theorem rereads {depth : Nat} (room : depth + 1 < maxDepth) : Rereads ofJson? toJson depth := by
  intro document n parsed read exact
  obtain ⟨record, found, read⟩ := Option.bind_eq_some_iff.mp read
  obtain ⟨shallow, parts⟩ := parsed.record found
  obtain ⟨uid, -, read⟩ := Option.bind_eq_some_iff.mp read
  obtain ⟨fullName, -, read⟩ := Option.bind_eq_some_iff.mp read
  obtain ⟨position, placed, read⟩ := Option.bind_eq_some_iff.mp read
  obtain ⟨values, held, read⟩ := Option.bind_eq_some_iff.mp read
  obtain ⟨links, linked, read⟩ := Option.bind_eq_some_iff.mp read
  obtain ⟨flows, led, read⟩ := Option.bind_eq_some_iff.mp read
  cases Option.some.inj read
  have exact := Json.exact_object.mp exact
  simp only [List.forall_mem_cons] at exact
  obtain ⟨-, -, exactPosition, exactValues, exactLinks, exactFlows, -⟩ := exact
  have empty := Parsed.nil room
  have origin : Parsed (depth + 1) (.object [("x", .integer 0), ("y", .integer 0)]) := by
    refine .object room fun entry listed => .leaf ?_
    rcases List.mem_pair.mp listed with rfl | rfl <;> exact ⟨by decide, by decide⟩
  obtain ⟨_, parsed, read⟩ := parts.optional placed ⟨_, origin, by decide⟩
  have placed := Position.rereads (depth + 1) parsed read exactPosition
  obtain ⟨_, parsed, read⟩ := parts.optional held ⟨_, empty, rfl⟩
  have held := (Value.rereads (depth + 1 + 1)).list parsed read exactValues
  obtain ⟨_, parsed, read⟩ := parts.optional linked ⟨_, empty, rfl⟩
  have linked := (linkOfJson?_rereads (depth + 1 + 1)).list parsed read exactLinks
  obtain ⟨_, parsed, read⟩ := parts.optional led ⟨_, empty, rfl⟩
  have led := (flowOfJson?_rereads (depth + 1 + 1)).list parsed read exactFlows
  rw [toJson, Json.readBack, if_pos shallow]
  simp only [Json.readBackEntries, Json.readBack_text]
  rw [ofJson?_fields, placed, held, linked, led]
  rfl

end Node

end ScriptGraph
