import ScriptGraph.Catalog.Intrinsic
import ScriptGraph.Node.Variable

/-!
Catalogs that extend the intrinsic definitions. A kind that one name alone has determines that name,
and so in such a catalog its definition.
-/

set_option autoImplicit false
set_option relaxedAutoImplicit false

namespace ScriptGraph

namespace Kind

def isNamed (kind : Kind) : Bool := (named.map Prod.snd).contains kind

private theorem mem_named_of_ofName {name : String} {kind : Kind} (found : ofName name = kind)
    (alone : kind.isNamed) : (name, kind) ∈ named := by
  unfold ofName at found
  cases hlookup : named.lookup name with
  | some other =>
    simp only [hlookup] at found
    subst found
    obtain ⟨before, after, hsplit, -⟩ := List.lookup_eq_some_iff.mp hlookup
    rw [hsplit]
    exact List.mem_append_right _ List.mem_cons_self
  | none =>
    simp only [hlookup] at found
    subst found
    exfalso
    revert alone
    split
    · decide
    · split
      · decide
      · split <;> decide

theorem name_eq {name other : String} (named : (ofName name).isNamed)
    (same : ofName name = ofName other) : name = other := by
  have hname := mem_named_of_ofName rfl named
  have hother := mem_named_of_ofName same.symm named
  revert hname hother
  generalize ofName name = kind
  intro hname hother
  simp only [Kind.named, List.mem_cons, Prod.mk.injEq, List.not_mem_nil, or_false] at hname hother
  rcases hname with ⟨rfl, rfl⟩ | ⟨rfl, rfl⟩ | ⟨rfl, rfl⟩ | ⟨rfl, rfl⟩ | ⟨rfl, rfl⟩ | ⟨rfl, rfl⟩ |
    ⟨rfl, rfl⟩ | ⟨rfl, rfl⟩ | ⟨rfl, rfl⟩ | ⟨rfl, rfl⟩ | ⟨rfl, rfl⟩ | ⟨rfl, rfl⟩ | ⟨rfl, rfl⟩ |
    ⟨rfl, rfl⟩ <;> simpa [eq_comm] using hother

end Kind

namespace Catalog

/-- A catalog in which every intrinsic definition is found unchanged. -/
def Extends (c : Catalog) : Prop :=
  ∀ d ∈ intrinsics, c.find? d.fullName = some d

/-- Every declaration of variables takes the name as a text. -/
def NamesByText (c : Catalog) : Prop :=
  ∀ name d, c.find? name = some d → Kind.ofName name = .variable →
    d.inputType nameInput = some textType

theorem find?_fullName {c : Catalog} {name : String} {d : Definition}
    (found : c.find? name = some d) : d.fullName = name := by
  have hsame := List.find?_some found
  exact beq_iff_eq.mp hsame

theorem find?_kind {c : Catalog} {name : String} {d : Definition}
    (found : c.find? name = some d) : d.kind = Kind.ofName name := by
  rw [Definition.kind, find?_fullName found]

theorem mem_of_find? {c : Catalog} {name : String} {d : Definition}
    (found : c.find? name = some d) : d ∈ c.definitions :=
  List.mem_of_find?_eq_some found

theorem Extends.find?_variableOf {c : Catalog} (extension : c.Extends) {type : String}
    (declared : type ∈ variableTypes) :
    c.find? (Kind.variablePrefix ++ type) = some (variableOf type) := by
  apply extension (variableOf type)
  have listed : variableOf type ∈ variableTypes.map variableOf := List.mem_map_of_mem declared
  simp only [intrinsics, List.mem_append, listed, or_true, true_or]

theorem Extends.eq_of_kind {c : Catalog} (extension : c.Extends) {name : String}
    {d e : Definition} (found : c.find? name = some d) (listed : e ∈ intrinsics)
    (named : e.kind.isNamed) (same : d.kind = e.kind) : d = e := by
  have hname : e.fullName = name := Kind.name_eq named (same.symm.trans (find?_kind found))
  have hother := extension e listed
  rw [hname, found] at hother
  exact Option.some.inj hother

/-! ## Kinds of the intrinsic definitions -/

def kinds : List Kind := List.flatten [
  List.replicate 11 .event, [.customEvent, .changeEvent],
  [.block, .branch, .forLoop, .foreachLoop, .whileLoop, .isValid],
  [.getVariable, .setVariable, .setReturnValue],
  List.replicate 12 .variable, List.replicate 6 .constant, [.nullConstant, .thisConstant, .comment]]

theorem kinds_intrinsics : intrinsics.map Definition.kind = kinds := by decide +kernel

private theorem map_kind_zip : (intrinsics.map fun d => (d.kind, d)) = kinds.zip intrinsics := by
  have paired : (intrinsics.map Definition.kind).zip (intrinsics.map id) =
      intrinsics.map fun d => (d.kind, d) := List.zip_map'
  rw [← paired, kinds_intrinsics, List.map_id]

theorem forall_intrinsics {P : Kind → Definition → Prop}
    (all : ∀ pair ∈ kinds.zip intrinsics, P pair.1 pair.2) {d : Definition}
    (listed : d ∈ intrinsics) : P d.kind d := by
  refine all (d.kind, d) ?_
  rw [← map_kind_zip]
  exact List.mem_map_of_mem listed

theorem exists_intrinsic {P : Kind → Definition → Prop}
    (some : ∃ pair ∈ kinds.zip intrinsics, P pair.1 pair.2) : ∃ d ∈ intrinsics, P d.kind d := by
  obtain ⟨pair, listed, holds⟩ := some
  rw [← map_kind_zip] at listed
  obtain ⟨d, known, rfl⟩ := List.mem_map.mp listed
  exact ⟨d, known, holds⟩

theorem Extends.holds_of_kind {c : Catalog} (extension : c.Extends) {P : Definition → Prop}
    {name : String} {d : Definition} (found : c.find? name = some d) (alone : d.kind.isNamed)
    (known : ∃ pair ∈ kinds.zip intrinsics, pair.1 = d.kind ∧ P pair.2) : P d := by
  obtain ⟨e, listed, same, holds⟩ := exists_intrinsic (P := fun kind e => kind = d.kind ∧ P e) known
  rwa [extension.eq_of_kind found listed (same ▸ alone) same.symm]

theorem Extends.outputs_of_loop {c : Catalog} (extension : c.Extends) {name : String}
    {d : Definition} (found : c.find? name = some d)
    (loop : d.kind = .forLoop ∨ d.kind = .foreachLoop) : d.outputs.length = 1 := by
  have single : ∀ kind, kind = .forLoop ∨ kind = .foreachLoop → kind.isNamed ∧
      ∃ pair ∈ kinds.zip intrinsics, pair.1 = kind ∧ pair.2.outputs.length = 1 := by
    rintro kind (rfl | rfl) <;> decide
  exact extension.holds_of_kind (P := fun e => e.outputs.length = 1) found (single _ loop).1
    (single _ loop).2

theorem Extends.inputType_of_customEvent {c : Catalog} (extension : c.Extends) {name : String}
    {d : Definition} (found : c.find? name = some d) (custom : d.kind = .customEvent) :
    d.inputType 0 = some textType := by
  refine extension.holds_of_kind (P := fun e => e.inputType 0 = some textType) found ?_ ?_
  all_goals
    rw [custom]
    decide

private theorem Extends.of_access {c : Catalog} (extension : c.Extends) {name : String}
    {d : Definition} (found : c.find? name = some d) (access : d.kind.access?.isSome) :
    d.inputType 0 = some textType ∧ d.flow = decide (d.kind ≠ .getVariable) ∧
      d.initialValues[0]?.bind Value.text? = none := by
  have uses : ∀ kind : Kind, kind.access?.isSome → kind.isNamed ∧
      ∃ pair ∈ kinds.zip intrinsics, pair.1 = kind ∧ pair.2.inputType 0 = some textType ∧
        pair.2.flow = decide (kind ≠ .getVariable) ∧
        pair.2.initialValues[0]?.bind Value.text? = none := by
    intro kind access
    cases kind <;> first | exact absurd access (by decide) | decide
  exact extension.holds_of_kind (P := fun e => e.inputType 0 = some textType ∧
    e.flow = decide (d.kind ≠ .getVariable) ∧ e.initialValues[0]?.bind Value.text? = none) found
    (uses _ access).1 (uses _ access).2

theorem Extends.inputType_of_access {c : Catalog} (extension : c.Extends) {name : String}
    {d : Definition} (found : c.find? name = some d) (access : d.kind.access?.isSome) :
    d.inputType 0 = some textType :=
  (extension.of_access found access).1

theorem Extends.flow_of_access {c : Catalog} (extension : c.Extends) {name : String}
    {d : Definition} (found : c.find? name = some d) (access : d.kind.access?.isSome) :
    d.flow = decide (d.kind ≠ .getVariable) :=
  (extension.of_access found access).2.1

theorem Extends.unbound_of_access {c : Catalog} (extension : c.Extends) {name : String}
    {d : Definition} (found : c.find? name = some d) (access : d.kind.access?.isSome) :
    d.initialValues[0]?.bind Value.text? = none :=
  (extension.of_access found access).2.2

/-! ## The intrinsic catalog -/

theorem intrinsic_extends : intrinsic.Extends := by
  unfold Extends
  decide +kernel

theorem extends_intrinsics_append (definitions : List Definition) :
    Extends ⟨intrinsics ++ definitions⟩ := by
  intro d listed
  obtain ⟨e, found⟩ := Option.isSome_iff_exists.mp
    (List.find?_isSome (p := fun e => e.fullName == d.fullName) |>.mpr ⟨d, listed, by simp⟩)
  have hname := List.find?_some found
  have known := intrinsic_extends e (List.mem_of_find?_eq_some found)
  rw [beq_iff_eq.mp hname, intrinsic_extends d listed] at known
  rw [find?, List.find?_append, found, Option.some_or, known]

theorem inputType_of_variable {d : Definition} (listed : d ∈ intrinsics) (kind : d.kind = .variable) :
    d.inputType nameInput = some textType :=
  forall_intrinsics (P := fun kind e => kind = .variable → e.inputType nameInput = some textType)
    (by decide) listed kind

section Registering

variable {c : Catalog} {d e : Definition}

private theorem mem_insertSorted {definitions : List Definition}
    (listed : e ∈ insertSorted d definitions) : e = d ∨ e ∈ definitions := by
  induction definitions with
  | nil => exact .inl (List.mem_singleton.mp listed)
  | cons f rest ih =>
    rw [insertSorted] at listed
    split at listed
    · exact List.mem_cons.mp listed
    · rcases List.mem_cons.mp listed with rfl | listed
      · exact .inr List.mem_cons_self
      · exact (ih listed).imp_right (List.mem_cons_of_mem f)

theorem mem_extend {definitions : List Definition} (listed : d ∈ (c.extend definitions).1.definitions) :
    d ∈ c.definitions ∨ d ∈ definitions := by
  induction definitions generalizing c with
  | nil => exact .inl listed
  | cons e rest ih =>
    rw [extend] at listed
    split at listed
    · rename_i c' registers
      unfold register at registers
      split at registers
      · cases registers
      · cases registers
        rcases ih listed with listed | listed
        · rcases mem_insertSorted listed with rfl | listed
          · exact .inr List.mem_cons_self
          · exact .inl listed
        · exact .inr (List.mem_cons_of_mem e listed)
    · exact .inl listed

end Registering

theorem mem_intrinsics {d : Definition} (listed : d ∈ intrinsic.definitions) : d ∈ intrinsics := by
  rw [intrinsic] at listed
  exact (mem_extend listed).resolve_left List.not_mem_nil

theorem intrinsic_namesByText : intrinsic.NamesByText := by
  intro name d found kind
  exact inputType_of_variable (mem_intrinsics (mem_of_find? found)) ((find?_kind found).trans kind)

end Catalog

end ScriptGraph
