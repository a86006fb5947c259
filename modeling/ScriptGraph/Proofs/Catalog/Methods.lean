import ScriptGraph.Proofs.Catalog.Distinct
import Mathlib.Data.List.Infix

/-!
Catalogs that have methods of a host besides intrinsic definitions. Since the names of methods neither
start like those of declarations nor are starts of them, declarations are offered in place of
declarations only.
-/

set_option autoImplicit false
set_option relaxedAutoImplicit false

namespace ScriptGraph

namespace Text

theorem afterPrefix?_eq_some {start text rest : List Char} :
    afterPrefix? start text = some rest ↔ text = start ++ rest := by
  induction start generalizing text with
  | nil =>
    rw [afterPrefix?, List.nil_append]
    exact ⟨fun same => Option.some.inj same, fun same => congrArg some same⟩
  | cons c start ih =>
    cases text with
    | nil =>
      refine ⟨fun found => ?_, fun same => ?_⟩
      · cases found
      · cases same
    | cons d text =>
      rw [afterPrefix?, List.cons_append]
      split
      · rename_i same
        rw [ih, same, List.cons_inj_right]
      · rename_i differ
        refine ⟨fun found => ?_, fun same => absurd (List.cons.inj same).1.symm differ⟩
        cases found

theorem startsWith_iff {start text : String} :
    startsWith start text ↔ start.toList <+: text.toList := by
  rw [startsWith, Option.isSome_iff_exists]
  exact exists_congr fun rest => afterPrefix?_eq_some.trans eq_comm

theorem stripStart?_eq_some {start text rest : String} :
    stripStart? start text = some rest ↔ text = start ++ rest := by
  rw [stripStart?, Option.map_eq_some_iff]
  constructor
  · rintro ⟨letters, found, rfl⟩
    apply String.toList_inj.mp
    rw [String.toList_append, String.toList_ofList]
    exact afterPrefix?_eq_some.mp found
  · rintro rfl
    refine ⟨rest.toList, ?_, String.ofList_toList⟩
    rw [afterPrefix?_eq_some, String.toList_append]

theorem cutAt?_eq_some {separator text before after : List Char}
    (cut : cutAt? separator text = some (before, after)) : text = before ++ separator ++ after := by
  induction text generalizing before with
  | nil =>
    rw [cutAt?] at cut
    split at cut
    · rename_i empty
      cases cut
      rw [List.isEmpty_iff.mp empty]
      rfl
    · cases cut
  | cons c text ih =>
    rw [cutAt?] at cut
    split at cut
    · rename_i rest found
      cases cut
      exact afterPrefix?_eq_some.mp found
    · obtain ⟨⟨before', after'⟩, found, same⟩ := Option.map_eq_some_iff.mp cut
      cases same
      rw [ih found]
      rfl

end Text

namespace Kind

theorem ofName_variable_iff {name : String} :
    ofName name = .variable ↔ variablePrefix.toList <+: name.toList := by
  refine ⟨fun declares => Text.startsWith_iff.mp (startsWith_of_variable declares), ?_⟩
  rintro ⟨type, same⟩
  have whole : name = variablePrefix ++ String.ofList type := by
    apply String.toList_inj.mp
    rw [String.toList_append, String.toList_ofList, same]
  rw [whole]
  exact ofName_variablePrefix _

theorem ofName_variable_iff_exists {name : String} :
    ofName name = .variable ↔ ∃ type, name = variablePrefix ++ type := by
  constructor
  · intro declares
    obtain ⟨letters, found⟩ := Option.isSome_iff_exists.mp (startsWith_of_variable declares)
    refine ⟨String.ofList letters, Text.stripStart?_eq_some.mp ?_⟩
    rw [Text.stripStart?, found, Option.map_some]
  · rintro ⟨type, rfl⟩
    exact ofName_variablePrefix type

end Kind

/-- The name of a method: the type that declares it, which is not named like a declaration, the
name of its own, and its signature. -/
def NamesMethod (fullName : String) : Prop :=
  ∃ type method signature : String, ¬Text.startsWith Kind.variablePrefix type ∧
    fullName = type ++ ".__" ++ method ++ "__" ++ signature

private theorem NamesMethod.toList {fullName : String} (names : NamesMethod fullName) :
    ∃ type rest, ¬Kind.variablePrefix.toList <+: type ∧
      fullName.toList = type ++ ['.'] ++ ['_', '_'] ++ rest := by
  obtain ⟨type, method, signature, other, rfl⟩ := names
  refine ⟨type.toList, (method ++ "__" ++ signature).toList, mt Text.startsWith_iff.mpr other, ?_⟩
  simp [String.toList_append]

theorem NamesMethod.kind_ne_variable {fullName : String} (names : NamesMethod fullName) :
    Kind.ofName fullName ≠ .variable := by
  obtain ⟨type, rest, other, same⟩ := names.toList
  rw [Ne, Kind.ofName_variable_iff, same, List.append_assoc]
  intro starts
  have dot : '.' ∉ Kind.variablePrefix.toList := by decide
  rcases List.prefix_or_prefix_of_prefix starts (List.prefix_append (type ++ ['.']) _) with
    short | long
  · rcases List.prefix_concat_iff.mp short with whole | short
    · exact dot (whole ▸ List.mem_append_right _ (List.mem_singleton_self _))
    · exact other short
  · exact dot (long.subset (List.mem_append_right _ (List.mem_singleton_self _)))

namespace Catalog

variable {c : Catalog} {d e : Definition} {name : String}

/-- A catalog in which every definition that is not intrinsic is that of a method. -/
def OfMethods (c : Catalog) : Prop :=
  ∀ d ∈ c.definitions, d ∈ intrinsics ∨ NamesMethod d.fullName

theorem OfMethods.mem_intrinsics (methods : c.OfMethods) (found : c.find? name = some d)
    (declares : Kind.ofName name = .variable) : d ∈ intrinsics := by
  refine (methods d (List.mem_of_find?_eq_some found)).resolve_right fun names => ?_
  exact names.kind_ne_variable (find?_fullName found ▸ declares)

theorem OfMethods.namesByText (methods : c.OfMethods) : c.NamesByText := by
  intro name d found declares
  exact inputType_of_variable (methods.mem_intrinsics found declares)
    ((find?_kind found).trans declares)

theorem intrinsic_ofMethods : intrinsic.OfMethods :=
  fun _ listed => .inl (mem_intrinsics listed)

theorem intrinsic_extend_ofMethods {definitions : List Definition}
    (methods : ∀ d ∈ definitions, NamesMethod d.fullName) :
    (intrinsic.extend definitions).1.OfMethods := by
  intro d listed
  rcases mem_extend listed with listed | listed
  · exact .inl (mem_intrinsics listed)
  · exact .inr (methods d listed)

theorem startsWith_of_mem_withPrefix {start : String} (listed : d ∈ c.withPrefix start) :
    start.toList <+: d.fullName.toList :=
  Text.startsWith_iff.mp (List.all_eq_true.mp List.all_takeWhile d listed)

theorem declares_of_mem_overloads (declares : Kind.ofName name = .variable)
    (offered : d ∈ c.overloads name) : d.kind = .variable := by
  have starts := Kind.ofName_variable_iff.mp declares
  have apart : ∀ start ∈ [Kind.constantPrefix, "Type_"], ¬Text.startsWith start name := by
    intro start listed other
    have none : ∀ start ∈ [Kind.constantPrefix, "Type_"],
        ¬(Kind.variablePrefix.toList <+: start.toList ∨ start.toList <+: Kind.variablePrefix.toList) := by
      decide
    exact none start listed
      (List.prefix_or_prefix_of_prefix starts (Text.startsWith_iff.mp other))
  have base : baseName? name = some Kind.variablePrefix := by
    rw [baseName?, if_neg (apart _ (by decide)), if_neg (apart _ (by decide)),
      if_pos (Text.startsWith_iff.mpr starts)]
  rw [overloads, base] at offered
  exact Kind.ofName_variable_iff.mpr (startsWith_of_mem_withPrefix (List.mem_filter.mp offered).1)

theorem OfMethods.not_declares_of_mem_overloads (methods : c.OfMethods)
    (found : c.find? name = some e) (other : Kind.ofName name ≠ .variable)
    (offered : d ∈ c.overloads name) : d.kind ≠ .variable := by
  intro declares
  have starts := Kind.ofName_variable_iff.mp declares
  have foreign := mt Kind.ofName_variable_iff.mpr other
  have bars : ¬['_', '_'] <:+: Kind.variablePrefix.toList := by decide
  unfold overloads at offered
  split at offered
  · rename_i base named
    have offers := startsWith_of_mem_withPrefix (List.mem_filter.mp offered).1
    have both := List.prefix_or_prefix_of_prefix offers starts
    unfold baseName? at named
    split at named
    · cases named
    · split at named
      · cases named
        revert both
        decide
      · split at named
        · rename_i starts'
          exact foreign (Text.startsWith_iff.mp starts')
        · split at named
          · rename_i declaring rest cut
            cases named
            have whole := Text.cutAt?_eq_some cut
            have outside : ¬declaring ++ ['_', '_'] <+: Kind.variablePrefix.toList := fun short =>
              bars ((List.suffix_append _ _).isInfix.trans short.isInfix)
            rw [String.toList_ofList, List.append_assoc (declaring ++ _)] at both
            rcases both with short | long
            · exact outside ((List.prefix_append _ _).trans short)
            · refine (List.prefix_or_prefix_of_prefix long (List.prefix_append _ _)).elim
                (fun long => foreign (long.trans ?_)) outside
              exact whole ▸ List.prefix_append _ _
          · cases named
            refine both.elim (fun short => ?_) foreign
            rcases methods e (List.mem_of_find?_eq_some found) with intrinsic | names
            · have all : ∀ e ∈ intrinsics, ¬e.fullName.toList <+: Kind.variablePrefix.toList := by
                decide +kernel
              exact all e intrinsic (find?_fullName found ▸ short)
            · obtain ⟨type, rest, -, same⟩ := names.toList
              rw [find?_fullName found] at same
              refine bars (List.IsInfix.trans ?_ short.isInfix)
              rw [same]
              exact List.infix_append _ _ _
  · cases offered

end Catalog

end ScriptGraph
