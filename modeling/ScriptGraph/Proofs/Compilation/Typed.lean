import ScriptGraph.Proofs.Compilation.Closed
import ScriptGraph.Proofs.Lowering.Requests
import ScriptGraph.Proofs.Snapshot.Nodes

/-!
The types of the symbols of a program. Whatever a symbol starts with fits the type that it declares,
with one exception: the literal of an assignment is given the type of the variable, whether it fits that
type or not.
-/

set_option autoImplicit false
set_option relaxedAutoImplicit false

namespace ScriptGraph

open Lowering (literal literalType Constant Stands)
open Relation (ReflTransGen)

namespace Value

variable {value : Value}

theorem null_fits (type : Option String) : Value.null.fits type := by
  cases type <;> rfl

theorem fits_objectType (value : Value) : value.fits (some objectType) := by
  unfold fits
  cases value.typeName? <;> simp

theorem fits_typeName? (value : Value) : value.fits (some (value.typeName?.getD objectType)) := by
  unfold fits
  cases value.typeName? with
  | none => rfl
  | some type => simp

end Value

/-! ## Literals -/

theorem Lowering.literalType_fits {declared : Option String} {value : Value}
    (fits : value.fits declared) : value.fits (some (literalType declared value)) := by
  unfold literalType
  split
  · split
    · exact value.fits_typeName?
    · exact fits
  · exact value.fits_typeName?

theorem Lowering.literal_fits {n : Node} {d : Definition} (fit : Node.Fit d n.values) (index : Nat) :
    (literal n d index).fits (d.inputType index) := by
  unfold literal
  cases found : n.values[index]? with
  | none => exact Value.defaultFor_fits _
  | some value => exact fit index value found

namespace Catalog

/-- Besides the intrinsic ones there are no definitions that declare variables or stand for literals. -/
def OfExterns (c : Catalog) : Prop :=
  ∀ d ∈ c.definitions, d ∈ intrinsics ∨ d.kind ≠ .variable ∧ d.kind ≠ .constant

variable {c : Catalog} {name : String} {d : Definition}

theorem OfExterns.inputType_of_variable (externs : c.OfExterns) (found : c.find? name = some d)
    (kind : d.kind = .variable) : d.inputType valueInput = Text.stripStart? Kind.variablePrefix name := by
  have known := (externs d (mem_of_find? found)).resolve_right fun other => other.1 kind
  rw [← find?_fullName found]
  exact forall_intrinsics (P := fun kind e => kind = .variable →
    e.inputType valueInput = Text.stripStart? Kind.variablePrefix e.fullName) (by decide +kernel)
    known kind

theorem OfExterns.inputType_of_constant (externs : c.OfExterns) (found : c.find? name = some d)
    (kind : d.kind = .constant) :
    d.inputType 0 = some ((d.type.or (d.outputType 0)).getD objectType) := by
  have known := (externs d (mem_of_find? found)).resolve_right fun other => other.2 kind
  exact forall_intrinsics (P := fun kind e => kind = .constant →
    e.inputType 0 = some ((e.type.or (e.outputType 0)).getD objectType)) (by decide) known kind

theorem Extends.type_of_this (extension : c.Extends) (found : c.find? name = some d)
    (kind : d.kind = .thisConstant) : d.type = some behaviourType := by
  refine extension.holds_of_kind (P := fun e => e.type = some behaviourType) found ?_ ?_
  all_goals
    rw [kind]
    decide

theorem Extends.assigned (extension : c.Extends) (found : c.find? name = some d)
    (assigns : d.kind = .setVariable ∨ d.kind = .setReturnValue) :
    d.inputType 1 = some objectType ∧ d.initialValues[1]? = some .null := by
  have known : ∀ kind, kind = .setVariable ∨ kind = .setReturnValue → kind.isNamed ∧
      ∃ pair ∈ kinds.zip intrinsics, pair.1 = kind ∧ pair.2.inputType 1 = some objectType ∧
        pair.2.initialValues[1]? = some .null := by
    rintro kind (rfl | rfl) <;> decide
  exact extension.holds_of_kind
    (P := fun e => e.inputType 1 = some objectType ∧ e.initialValues[1]? = some .null) found
    (known _ assigns).1 (known _ assigns).2

end Catalog

/-! ## Symbols -/

namespace Graph

variable {c : Catalog} {g : Graph} {type : String} {value : Value}

/-- A literal that an assignment gives to a variable of a type. -/
def Assigns (g : Graph) (type : String) (value : Value) : Prop :=
  ∃ n ∈ g.nodes, (n.kind = .setVariable ∨ n.kind = .setReturnValue) ∧ n.values[1]? = some value ∧
    ∃ uid v, n.target? = some uid ∧ g.find? uid = some v ∧ v.variableType? = some type

private theorem assigned_fits_or (extension : c.Extends) (distinct : g.uids.Nodup) {m v : Node}
    {d : Definition} {target : Uid} (stands : Stands c (g.snapshot c).1 m d)
    (assigns : d.kind = .setVariable ∨ d.kind = .setReturnValue) (bound : m.target? = some target)
    (found : (g.snapshot c).1.find? target = some v) :
    (literal m d 1).fits v.variableType? ∨
      ∃ type, v.variableType? = some type ∧ type ≠ objectType ∧ g.Assigns type (literal m d 1) := by
  obtain ⟨n, left, e, defined, kept⟩ := mem_snapshot distinct stands.listed
  obtain ⟨w, _, there, _, keptVariable⟩ := find?_of_snapshot distinct found
  obtain rfl : d = e := Option.some.inj (stands.defined.symm.trans (kept.fullName ▸ defined))
  obtain ⟨typed, initial⟩ := extension.assigned defined assigns
  refine or_iff_not_imp_left.mpr fun misfit => ?_
  have given : literal m d 1 ≠ .null := fun null => misfit (null ▸ Value.null_fits _)
  have own : n.values[1]? = some (literal m d 1) := by
    have same : literal m d 1 = (n.values[1]?).getD .null := by
      rw [literal, kept.getElem? 1, Node.getElem?_completed, initial, typed]
      cases n.values[1]? with
      | none => rfl
      | some value => simp [value.fits_objectType]
    cases here : n.values[1]? with
    | some value => rw [same, here, Option.getD_some]
    | none => exact absurd (by rw [same, here, Option.getD_none]) given
  cases declared : v.variableType? with
  | none => exact absurd (declared ▸ rfl) misfit
  | some type =>
    refine ⟨type, rfl, ?_, n, mem_of_mem_resolved distinct left, ?_, own, target, w, ?_, there, ?_⟩
    · rintro rfl
      exact misfit (declared ▸ Value.fits_objectType _)
    · rwa [Node.kind, ← Catalog.find?_kind defined]
    · rw [← kept.target? extension defined, bound]
    · rw [← keptVariable.variableType?, declared]

/-- A value fits a type, or is assigned to a variable of that type. -/
def Holds (g : Graph) (type : String) (value : Value) : Prop :=
  value.fits (some type) ∨ g.Assigns type value

private theorem holds_of_constant (extension : c.Extends) (externs : c.OfExterns)
    (distinct : g.uids.Nodup) (stated : Constant c (g.snapshot c).1 type value) :
    g.Holds type value := by
  have fit : ∀ {m : Node} {d : Definition}, Stands c (g.snapshot c).1 m d → Node.Fit d m.values := by
    intro m d stands
    obtain ⟨n, -, e, defined, kept⟩ := mem_snapshot distinct stands.listed
    obtain rfl : d = e := Option.some.inj (stands.defined.symm.trans (kept.fullName ▸ defined))
    exact kept.fit
  cases stated with
  | input stands index =>
    exact .inl (Lowering.literalType_fits (Lowering.literal_fits (fit stands) index))
  | assigned stands assigns bound found =>
    rcases assigned_fits_or extension distinct stands assigns bound found with fits | given
    · exact .inl (Lowering.literalType_fits fits)
    · obtain ⟨type, declared, other, given⟩ := given
      rw [declared, literalType]
      simp only [if_neg other]
      exact .inr given
  | @node m d stands kind =>
    refine .inl ?_
    rw [← externs.inputType_of_constant stands.defined kind]
    cases found : m.values[0]? with
    | none => exact Value.null_fits _
    | some value => exact fit stands 0 value found
  | self stands kind =>
    rw [extension.type_of_this stands.defined kind]
    exact .inl rfl
  | null => exact .inl rfl
  | count number => exact .inl rfl
  | receiver => exact .inl rfl
  | event name => exact .inl rfl

private theorem holds_of_variable (externs : c.OfExterns) (distinct : g.uids.Nodup) {m : Node}
    (listed : m ∈ (g.snapshot c).1.variableNodes) :
    g.Holds (HeapLayout.variableSymbol m).type (HeapLayout.variableSymbol m).default := by
  obtain ⟨listed, named⟩ := mem_variableNodes.mp listed
  obtain ⟨n, -, d, defined, kept⟩ := mem_snapshot distinct listed
  obtain ⟨name, named⟩ := Option.isSome_iff_exists.mp named
  have kind : d.kind = .variable := by
    rw [Catalog.find?_kind defined, ← kind_of_variableName? named, kept.kind, Node.kind]
  have typed : m.variableType? = d.inputType valueInput := by
    rw [externs.inputType_of_variable defined kind, kept.variableType?, Node.variableType?]
  refine .inl ?_
  change (m.values[valueInput]?.getD .null).fits (some (m.variableType?.getD objectType))
  cases found : m.values[valueInput]? with
  | none => exact Value.null_fits _
  | some value =>
    cases declared : m.variableType? with
    | none => exact value.fits_objectType
    | some type => exact (typed.symm.trans declared) ▸ kept.fit valueInput value found

private theorem holds_of_request {h later : HeapLayout} (extension : c.Extends)
    (externs : c.OfExterns) (distinct : g.uids.Nodup)
    (request : Lowering.Request c (g.snapshot c).1 h later)
    (holds : ∀ symbol ∈ h.symbols, g.Holds symbol.type symbol.default) :
    ∀ symbol ∈ later.symbols, g.Holds symbol.type symbol.default := by
  cases request.enlarges with
  | same unchanged =>
    rw [unchanged]
    exact holds
  | counted counted symbols counts =>
    rw [symbols, Array.forall_mem_push]
    refine ⟨?_, holds⟩
    cases counted with
    | constant stated => exact holds_of_constant extension externs distinct stated
    | intermediate type => exact .inl (Value.defaultFor_fits _)
  | parameter _ _ _ _ symbols counts =>
    rw [symbols, Array.forall_mem_push]
    exact ⟨.inl (Value.defaultFor_fits _), holds⟩

private theorem holds_of_requests {h later : HeapLayout} (extension : c.Extends)
    (externs : c.OfExterns) (distinct : g.uids.Nodup)
    (requests : ReflTransGen (Lowering.Request c (g.snapshot c).1) h later)
    (holds : ∀ symbol ∈ h.symbols, g.Holds symbol.type symbol.default) :
    ∀ symbol ∈ later.symbols, g.Holds symbol.type symbol.default := by
  induction requests with
  | refl => exact holds
  | tail _ request ih => exact holds_of_request extension externs distinct request ih

private theorem holds_ofGraph (externs : c.OfExterns) (distinct : g.uids.Nodup) :
    ∀ symbol ∈ (HeapLayout.ofGraph c (g.snapshot c).1).symbols,
      g.Holds symbol.type symbol.default := by
  intro symbol listed
  have apart := variableNodes_distinct (snapshot_live c distinct).distinct
  rw [← Array.mem_toList_iff, (HeapLayout.ofGraph_slots c apart).1] at listed
  obtain ⟨m, declared, rfl⟩ := List.mem_map.mp listed
  exact holds_of_variable externs distinct declared

/-- What a symbol of a program starts with fits the type of the symbol, unless it is a literal that the
graph assigns to a variable of that type. -/
theorem compile_typed {strict : Bool} {k : Compilation} (extension : c.Extends)
    (externs : c.OfExterns) (distinct : g.uids.Nodup) (compiles : g.compile c strict = .ok k) :
    ∀ symbol ∈ k.program.symbols,
      symbol.default.fits (some symbol.type) ∨ g.Assigns symbol.type symbol.default := by
  obtain ⟨streams, lowering, lowered, -, symbols, -⟩ := compile_eq_ok compiles
  have holds := holds_of_requests extension externs distinct (Compilation.lower_requests lowered)
    (holds_ofGraph externs distinct)
  intro symbol listed
  rw [symbols] at listed
  exact holds symbol (Array.mem_toList_iff.mp listed)

def addition : Definition :=
  { Definition.bare additionMethod with
    inputs := [⟨"a", some int32Type, .null⟩, ⟨"b", some int32Type, .null⟩]
    outputs := [⟨"result", some int32Type, .null⟩] }

def adding : Catalog := ⟨Catalog.intrinsics ++ [addition]⟩

/-- A number is set to a sum when a player joins, and to a text after that. -/
def misassigned : Graph := { Graph.empty "misassigned" with
  nodes := [
    ⟨"joined", "Event_OnPlayerJoined", .origin, [], [], [some "add"]⟩,
    ⟨"count", Kind.variablePrefix ++ int32Type, .origin,
      [.int32 0, .text "count", .bool false, .bool false, .text "none"], List.replicate 5 none, []⟩,
    ⟨"sum", additionMethod, .origin, [.int32 1, .int32 2], [none, none], []⟩,
    ⟨"add", Kind.setVariableName, .origin, [.text "count", .null, .bool false],
      [none, some ⟨"sum", 0⟩, none], [some "spoil"]⟩,
    ⟨"spoil", Kind.setVariableName, .origin, [.text "count", .text "x", .bool false],
      [none, none, none], [none]⟩] }

private theorem adding_extends : adding.Extends := Catalog.extends_intrinsics_append [addition]

private theorem adding_ofExterns : adding.OfExterns := by
  intro d (listed : d ∈ Catalog.intrinsics ++ [addition])
  rcases List.mem_append.mp listed with listed | listed
  · exact .inl listed
  · obtain rfl := List.mem_singleton.mp listed
    exact .inr (by decide)

private theorem misassigned_compile : ∃ k, misassigned.compile adding true = .ok k ∧
    k.program.symbols.map (fun symbol => (symbol.type, symbol.default)) =
      [(int32Type, .int32 0), (playerType, .null), (int32Type, .int32 1), (int32Type, .int32 2),
        (int32Type, .int32 0), (int32Type, .text "x")] := by
  have symbols : (misassigned.compile adding true).toOption.map (fun k =>
      k.program.symbols.map fun symbol => (symbol.type, symbol.default)) =
    some [(int32Type, .int32 0), (playerType, .null), (int32Type, .int32 1), (int32Type, .int32 2),
      (int32Type, .int32 0), (int32Type, .text "x")] := by
    decide +kernel
  cases compiled : misassigned.compile adding true with
  | error error =>
    rw [compiled] at symbols
    cases symbols
  | ok k =>
    rw [compiled] at symbols
    exact ⟨k, rfl, Option.some.inj symbols⟩

theorem compile_typed_misassigned : ∃ k, misassigned.compile adding true = .ok k ∧
    ∀ symbol ∈ k.program.symbols,
      symbol.default.fits (some symbol.type) ∨ misassigned.Assigns symbol.type symbol.default := by
  obtain ⟨k, compiles, -⟩ := misassigned_compile
  exact ⟨k, compiles, compile_typed adding_extends adding_ofExterns (by decide) compiles⟩

/-- The text is given the type of the number that it is assigned to. -/
theorem symbol_misfits : adding.Extends ∧ adding.OfExterns ∧ misassigned.uids.Nodup ∧
    ∃ k, misassigned.compile adding true = .ok k ∧
      ∃ symbol ∈ k.program.symbols, symbol.default.fits (some symbol.type) = false := by
  obtain ⟨k, compiles, symbols⟩ := misassigned_compile
  have listed : (int32Type, Value.text "x") ∈
      k.program.symbols.map fun symbol => (symbol.type, symbol.default) := by
    rw [symbols]
    decide
  obtain ⟨symbol, listed, same⟩ := List.mem_map.mp listed
  obtain ⟨type, default⟩ := Prod.mk.inj same
  refine ⟨adding_extends, adding_ofExterns, by decide, k, compiles, symbol, listed, ?_⟩
  rw [type, default]
  decide

end Graph

end ScriptGraph
