import ScriptGraph.Proofs.Catalog.Extension
import ScriptGraph.Proofs.Lookup
import Mathlib.Data.List.Nodup

/-!
Catalogs whose full names are distinct, as registering keeps them. In such a catalog every definition
that is listed is the one that is found, and so are all overloads.
-/

set_option autoImplicit false
set_option relaxedAutoImplicit false

namespace ScriptGraph

namespace Kind

theorem ofName_block_iff {name : String} : ofName name = .block ↔ name = blockName := by
  have hblock : ofName blockName = .block := by decide
  constructor
  · intro same
    exact name_eq (by rw [same]; decide) (same.trans hblock.symm)
  · rintro rfl
    exact hblock

private theorem afterPrefix?_append (start text : List Char) :
    Text.afterPrefix? start (start ++ text) = some text := by
  induction start with
  | nil => rfl
  | cons c start ih => rw [List.cons_append, Text.afterPrefix?, if_pos rfl, ih]

theorem ofName_variablePrefix (type : String) : ofName (variablePrefix ++ type) = .variable := by
  have starts : Text.startsWith variablePrefix (variablePrefix ++ type) = true := by
    rw [Text.startsWith, String.toList_append, afterPrefix?_append]
    rfl
  have foreign : ∀ entry ∈ named, Text.startsWith variablePrefix entry.1 = false := by decide
  have unnamed : named.lookup (variablePrefix ++ type) = none := by
    refine List.lookup_eq_none_iff.mpr fun entry listed => bne_iff_ne.mpr fun same => ?_
    rw [same, foreign entry listed] at starts
    cases starts
  have noEvent : Text.startsWith eventPrefix (variablePrefix ++ type) = false := by
    rw [Text.startsWith, String.toList_append]
    rfl
  rw [ofName, unnamed, noEvent, starts]
  rfl

theorem isEvent_ofName (name : String) :
    (ofName name).isEvent = Text.startsWith eventPrefix name := by
  unfold ofName
  split
  · rename_i kind listed
    have alike : ∀ entry ∈ named, entry.2.isEvent = Text.startsWith eventPrefix entry.1 := by decide
    exact alike (name, kind) (mem_of_lookup_eq_some listed)
  · split
    · rename_i starts
      exact starts.symm
    · rename_i differs
      rw [Bool.eq_false_iff.mpr differs]
      split
      · rfl
      · split <;> rfl

theorem startsWith_of_variable {name : String} (declares : ofName name = .variable) :
    Text.startsWith variablePrefix name := by
  unfold ofName at declares
  split at declares
  · rename_i kind listed
    have other : ∀ entry ∈ named, entry.2 ≠ .variable := by decide
    exact absurd declares (other (name, kind) (mem_of_lookup_eq_some listed))
  · split at declares
    · cases declares
    · split at declares
      · assumption
      · split at declares <;> cases declares

end Kind

namespace Catalog

/-- No two definitions have one full name. -/
def Distinct (c : Catalog) : Prop := (c.definitions.map Definition.fullName).Nodup

variable {c : Catalog} {d : Definition}

theorem Distinct.find?_of_mem (distinct : c.Distinct) (listed : d ∈ c.definitions) :
    c.find? d.fullName = some d := by
  obtain ⟨e, found⟩ := Option.isSome_iff_exists.mp
    (List.find?_isSome (p := fun e => e.fullName == d.fullName) |>.mpr ⟨d, listed, by simp⟩)
  have same : e = d := List.inj_on_of_nodup_map distinct (List.mem_of_find?_eq_some found) listed
    (find?_fullName found)
  rw [← same]
  exact same ▸ found

theorem mem_withPrefix {start : String} (listed : d ∈ c.withPrefix start) : d ∈ c.definitions :=
  (List.dropWhile_sublist _).subset ((List.takeWhile_sublist _).subset listed)

theorem mem_overloads {name : String} (listed : d ∈ c.overloads name) : d ∈ c.definitions := by
  unfold overloads at listed
  split at listed
  · exact mem_withPrefix (List.mem_filter.mp listed).1
  · cases listed

/-! ## Registering -/

theorem empty_distinct : empty.Distinct := List.nodup_nil

theorem insertSorted_perm (d : Definition) (definitions : List Definition) :
    (insertSorted d definitions).Perm (d :: definitions) := by
  induction definitions with
  | nil => exact .refl _
  | cons e rest ih =>
    rw [insertSorted]
    split
    · exact .refl _
    · exact (ih.cons e).trans (.swap d e rest)

theorem Distinct.register {c' : Catalog} (distinct : c.Distinct) (registers : c.register d = .ok c') :
    c'.Distinct := by
  unfold Catalog.register at registers
  split at registers
  · cases registers
  · rename_i unknown
    cases registers
    have names := (insertSorted_perm d c.definitions).map Definition.fullName
    refine names.nodup_iff.mpr (List.nodup_cons.mpr ⟨fun taken => unknown ?_, distinct⟩)
    obtain ⟨e, listed, same⟩ := List.mem_map.mp taken
    exact List.find?_isSome.mpr ⟨e, listed, by simpa using same⟩

theorem Distinct.extend (distinct : c.Distinct) (definitions : List Definition) :
    (c.extend definitions).1.Distinct := by
  induction definitions generalizing c with
  | nil => exact distinct
  | cons d rest ih =>
    rw [Catalog.extend]
    cases registers : c.register d with
    | error error => exact distinct
    | ok c' => exact ih (distinct.register registers)

theorem Distinct.find?_register {c' : Catalog} {name : String} {e : Definition}
    (distinct : c.Distinct) (registers : c.register d = .ok c') (found : c.find? name = some e) :
    c'.find? name = some e := by
  have listed : e ∈ c'.definitions := by
    have known := mem_of_find? found
    unfold Catalog.register at registers
    split at registers
    · cases registers
    · cases registers
      exact (insertSorted_perm d c.definitions).mem_iff.mpr (List.mem_cons_of_mem d known)
  rw [← find?_fullName found]
  exact (distinct.register registers).find?_of_mem listed

theorem Extends.extend (extension : c.Extends) (distinct : c.Distinct)
    (definitions : List Definition) : (c.extend definitions).1.Extends := by
  induction definitions generalizing c with
  | nil => exact extension
  | cons d rest ih =>
    rw [Catalog.extend]
    cases registers : c.register d with
    | error error => exact extension
    | ok c' =>
      exact ih (fun e listed => distinct.find?_register registers (extension e listed))
        (distinct.register registers)

theorem intrinsic_distinct : intrinsic.Distinct := by
  rw [intrinsic]
  exact empty_distinct.extend intrinsics

def arranged : Catalog :=
  ⟨[13, 14, 42, 40, 34, 38, 35, 36, 37, 39, 41, 11, 3, 4, 2, 8, 7, 6, 5, 9, 10, 12, 0, 1, 15, 16, 19, 18,
    21, 20, 22, 26, 23, 24, 28, 29, 25, 27, 30, 31, 32, 33, 17].filterMap fun index => intrinsics[index]?⟩

private theorem eq_of_definitions {c e : Catalog} (same : c.definitions = e.definitions) : c = e := by
  cases c
  cases e
  exact congrArg Catalog.mk same

theorem intrinsic_eq : intrinsic = arranged := by
  apply eq_of_definitions
  decide +kernel

end Catalog

end ScriptGraph
