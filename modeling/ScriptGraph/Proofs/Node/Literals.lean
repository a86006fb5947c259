import ScriptGraph.Editing.Literal
import ScriptGraph.Proofs.Snapshot.Restored

/-!
Literals that fit. Bringing a node in line with a definition gives it literals that fit their inputs,
provided that the defaults of the definition do.
-/

set_option autoImplicit false
set_option relaxedAutoImplicit false

namespace ScriptGraph

theorem Value.defaultFor_fits (type : Option String) : (Value.defaultFor type).fits type := by
  have null : ∀ type, Value.null.fits type := fun type => by cases type <;> rfl
  unfold Value.defaultFor
  repeat' split
  all_goals first | exact null type | (subst type; decide)

theorem Value.text?_defaultFor (type : Option String) : (Value.defaultFor type).text? = none := by
  unfold Value.defaultFor
  repeat' split
  all_goals rfl

namespace Definition

/-- Whatever an input starts with fits it. -/
def Defaults (d : Definition) : Prop := ∀ p ∈ d.inputs, p.default.fits p.type

variable {d : Definition}

theorem initial_fits {p : Parameter} (fits : p.default.fits p.type) : p.initial.fits p.type := by
  unfold Parameter.initial
  split
  · exact Value.defaultFor_fits p.type
  · exact fits

theorem Defaults.initialValues (defaults : d.Defaults) {index : Nat} {value : Value}
    (found : d.initialValues[index]? = some value) : value.fits (d.inputType index) := by
  rw [Definition.initialValues, List.getElem?_map] at found
  obtain ⟨p, there, rfl⟩ := Option.map_eq_some_iff.mp found
  rw [inputType, there]
  exact initial_fits (defaults p (List.mem_of_getElem? there))

end Definition

namespace Node

variable {d : Definition} {n : Node} {index : Nat} {value : Value} {values : List Value}

/-- Every literal fits the input that it stands at. -/
def Fit (d : Definition) (values : List Value) : Prop :=
  ∀ (index : Nat) (value : Value), values[index]? = some value → value.fits (d.inputType index)

theorem Fit.nil : Fit d [] := fun _ _ found => by cases found

theorem Fit.set (fit : Fit d values) (fits : value.fits (d.inputType index)) :
    Fit d (values.set index value) := by
  intro other found same
  rw [List.getElem?_set] at same
  split at same
  · rename_i here
    split at same
    · obtain rfl := Option.some.inj same
      exact here ▸ fits
    · cases same
  · exact fit other found same

theorem Fit.conform (fit : Fit d n.values) (defaults : d.Defaults) : Fit d (n.conform d).values := by
  intro index value found
  change (n.values ++ d.initialValues.drop n.values.length)[index]? = some value at found
  rw [List.getElem?_append] at found
  split at found
  · exact fit index value found
  · rename_i beyond
    rw [List.getElem?_drop, Nat.add_sub_cancel' (Nat.le_of_not_lt beyond)] at found
    exact defaults.initialValues found

theorem fresh_fit (defaults : d.Defaults) (uid : Uid) : Fit d (fresh uid d).values :=
  Fit.conform Fit.nil defaults

theorem settle_fit (n : Node) (d : Definition) : Fit d (n.settle d).values := by
  intro index value found
  obtain ⟨other, -, rfl⟩ := Option.map_eq_some_iff.mp ((getElem?_settled d index n.values).symm.trans found)
  split
  · assumption
  · exact Value.defaultFor_fits _

theorem settled_text? (typed : d.inputType index = some textType) :
    (settled d 0 values)[index]?.bind Value.text? = values[index]?.bind Value.text? := by
  rw [getElem?_settled, typed]
  cases values[index]? with
  | none => rfl
  | some other =>
    -- What does not fit a text is none, and gives way to null.
    cases other <;> rfl

theorem restored_fit (terminals : List (Uid × Terminal)) (d : Definition) (n : Node) :
    Fit d (n.restored terminals d).values := by
  rw [restored]
  exact settle_fit _ d

end Node

end ScriptGraph
