import ScriptGraph.Proofs.Catalog.Methods
import ScriptGraph.Proofs.Editing.Outcomes
import ScriptGraph.Proofs.Graph.Connections
import ScriptGraph.Proofs.Text.Order

/-!
What is offered in place of a definition. Definitions whose names start alike stand together in a
catalog, as registering keeps it in ascending order, so that the one stretch that is looked through
holds all of them. Names are grouped by what is left of them when the signature is cut off, but looked
up as all names that start with it; both come to the same unless a name without parts is the start of
another, or a method has no signature.
-/

set_option autoImplicit false
set_option relaxedAutoImplicit false

/-! ## Catalogs in ascending order -/

namespace ScriptGraph.Catalog

variable {c : Catalog} {d : Definition}

/-- Full names ascend. -/
def Ascending (c : Catalog) : Prop :=
  c.definitions.Pairwise fun d e => d.fullName.toList < e.fullName.toList

theorem Ascending.distinct (ascending : c.Ascending) : c.Distinct := by
  refine List.pairwise_map.mpr (ascending.imp fun before same => ?_)
  rw [same] at before
  exact List.lt_irrefl _ before

/-! ## Registering -/

theorem empty_ascending : empty.Ascending := .nil

private theorem insertSorted_ascending {definitions : List Definition}
    (ascending : definitions.Pairwise fun d e => d.fullName.toList < e.fullName.toList)
    (new : ∀ e ∈ definitions, d.fullName ≠ e.fullName) :
    (insertSorted d definitions).Pairwise fun d e => d.fullName.toList < e.fullName.toList := by
  induction definitions with
  | nil => exact List.pairwise_singleton _ _
  | cons e rest ih =>
    obtain ⟨first, ascends⟩ := List.pairwise_cons.mp ascending
    obtain ⟨differs, new⟩ := List.forall_mem_cons.mp new
    rw [insertSorted]
    split
    · rename_i before
      have before := (Text.precedes_iff _ _).mp before
      refine List.pairwise_cons.mpr ⟨fun f hf => ?_, ascending⟩
      rcases List.mem_cons.mp hf with rfl | hf
      · exact before
      · exact List.lt_trans before (first f hf)
    · rename_i after
      have after : e.fullName.toList < d.fullName.toList := by
        rcases Std.lt_trichotomy e.fullName.toList d.fullName.toList with less | same | more
        · exact less
        · exact absurd (String.toList_inj.mp same).symm differs
        · exact absurd ((Text.precedes_iff _ _).mpr more) after
      refine List.pairwise_cons.mpr ⟨fun f hf => ?_, ih ascends new⟩
      rcases List.mem_cons.mp ((insertSorted_perm d rest).mem_iff.mp hf) with rfl | hf
      · exact after
      · exact first f hf

theorem Ascending.register {c' : Catalog} (ascending : c.Ascending)
    (registers : c.register d = .ok c') : c'.Ascending := by
  unfold Catalog.register at registers
  split at registers
  · cases registers
  · rename_i unknown
    cases registers
    refine insertSorted_ascending ascending fun e he same => unknown ?_
    exact List.find?_isSome.mpr ⟨e, he, by simp [same]⟩

theorem Ascending.extend (ascending : c.Ascending) (definitions : List Definition) :
    (c.extend definitions).1.Ascending := by
  induction definitions generalizing c with
  | nil => exact ascending
  | cons d definitions ih =>
    rw [Catalog.extend]
    split
    · rename_i registers
      exact ih (ascending.register registers)
    · exact ascending

theorem intrinsic_ascending : intrinsic.Ascending := by
  rw [intrinsic]
  exact empty_ascending.extend intrinsics

/-! ## Looking up -/

section Stretch

variable {α : Type} {earlier starts : α → Bool} {entries : List α}

private theorem takeWhile_eq_filter
    (together : entries.Pairwise fun x y => starts y → starts x) :
    entries.takeWhile starts = entries.filter starts := by
  induction entries with
  | nil => rfl
  | cons x entries ih =>
    obtain ⟨first, together⟩ := List.pairwise_cons.mp together
    by_cases here : starts x
    · rw [List.takeWhile_cons_of_pos here, List.filter_cons_of_pos here, ih together]
    · rw [List.takeWhile_cons_of_neg here, List.filter_cons_of_neg here, eq_comm,
        List.filter_eq_nil_iff]
      exact fun y hy there => here (first y hy there)

private theorem stretch_eq_filter (apart : ∀ x ∈ entries, earlier x → ¬starts x)
    (together : entries.Pairwise fun x y => ¬earlier x → starts y → starts x)
    (onward : entries.Pairwise fun x y => ¬earlier x → ¬earlier y) :
    (entries.dropWhile earlier).takeWhile starts = entries.filter starts := by
  induction entries with
  | nil => rfl
  | cons x entries ih =>
    obtain ⟨apart', apart⟩ := List.forall_mem_cons.mp apart
    obtain ⟨first, together'⟩ := List.pairwise_cons.mp together
    obtain ⟨next, onward⟩ := List.pairwise_cons.mp onward
    by_cases here : earlier x
    · rw [List.dropWhile_cons_of_pos here, List.filter_cons_of_neg (apart' here),
        ih apart together' onward]
    · rw [List.dropWhile_cons_of_neg here]
      refine takeWhile_eq_filter (List.pairwise_cons.mpr ⟨fun y hy => first y hy here, ?_⟩)
      exact together'.imp_of_mem fun hx _ starts => starts (next _ hx here)

end Stretch

theorem Ascending.withPrefix_eq (ascending : c.Ascending) (start : String) :
    c.withPrefix start = c.definitions.filter fun d => Text.startsWith start d.fullName := by
  have earlier : ∀ d : Definition, Text.precedes d.fullName.toList start.toList ↔
      d.fullName.toList < start.toList := fun d => Text.precedes_iff _ _
  refine stretch_eq_filter (fun d _ before starts => ?_) (ascending.imp fun less after starts => ?_)
    (ascending.imp fun less after before => ?_)
  · exact Text.not_lt_of_prefix (Text.startsWith_iff.mp starts) ((earlier d).mp before)
  · exact Text.startsWith_iff.mpr (Text.prefix_of_between (mt (earlier _).mpr after) less
      (Text.startsWith_iff.mp starts))
  · exact after ((earlier _).mpr (List.lt_trans less ((earlier _).mp before)))

end ScriptGraph.Catalog

/-! ## Groups of names -/

namespace ScriptGraph

namespace Text

variable {separator text before after : List Char}

theorem cutAt?_append (cut : cutAt? separator text = some (before, after)) (proper : separator ≠ [])
    (other : List Char) : cutAt? separator (before ++ separator ++ other) = some (before, other) := by
  induction text generalizing before with
  | nil =>
    rw [cutAt?, if_neg (by rwa [List.isEmpty_iff])] at cut
    cases cut
  | cons c text ih =>
    rw [cutAt?] at cut
    split at cut
    · cases cut
      obtain ⟨bar, bars, rfl⟩ := List.exists_cons_of_ne_nil proper
      have found : afterPrefix? (bar :: bars) (bar :: (bars ++ other)) = some other :=
        afterPrefix?_eq_some.mpr rfl
      rw [List.nil_append, List.cons_append, cutAt?, found]
    · rename_i absent
      obtain ⟨⟨before, after⟩, found, same⟩ := Option.map_eq_some_iff.mp cut
      cases same
      have absent : afterPrefix? separator (c :: (before ++ separator ++ other)) = none := by
        refine Option.eq_none_iff_forall_ne_some.mpr fun rest here => ?_
        have first : separator <+: c :: (before ++ separator ++ other) :=
          ⟨rest, (afterPrefix?_eq_some.mp here).symm⟩
        have short : separator.length ≤ (c :: before ++ separator).length := by
          rw [List.length_append]
          omega
        have starts : separator <+: c :: before ++ separator :=
          List.prefix_of_prefix_length_le first (List.prefix_append _ other) short
        obtain ⟨rest, whole⟩ := starts.trans (List.prefix_append _ after)
        have known : afterPrefix? separator (c :: text) = some rest := by
          rw [afterPrefix?_eq_some, cutAt?_eq_some found, whole]
          rfl
        rw [known] at absent
        cases absent
      have rest := ih found
      rw [List.cons_append, List.cons_append, cutAt?, absent]
      dsimp only
      rw [rest]
      rfl

theorem not_infix_of_cutAt? (cut : cutAt? separator text = none) : ¬separator <:+: text := by
  induction text with
  | nil =>
    rw [cutAt?] at cut
    split at cut
    · cases cut
    · rename_i proper
      rw [List.infix_nil]
      exact fun empty => proper (List.isEmpty_iff.mpr empty)
  | cons c text ih =>
    rw [cutAt?] at cut
    split at cut
    · cases cut
    · rename_i absent
      rw [List.infix_cons_iff]
      rintro (⟨rest, whole⟩ | inside)
      · rw [afterPrefix?_eq_some.mpr whole.symm] at absent
        cases absent
      · exact ih (Option.map_eq_none_iff.mp cut) inside

end Text

/-! ## What names are grouped by -/

def families : List String := [Kind.constantPrefix, "Type_", Kind.variablePrefix]

/-- A name of no family. -/
def Unrelated (name : String) : Prop := ∀ family ∈ families, ¬Text.startsWith family name

/-- A name of no family that has no parts either. -/
def Whole (name : String) : Prop := Unrelated name ∧ Text.cutAt? ['_', '_'] name.toList = none

section Names

variable {name other base : String} {declaring rest : List Char}

theorem Unrelated.baseName?_of_cut (unrelated : Unrelated name)
    (cut : Text.cutAt? ['_', '_'] name.toList = some (declaring, rest)) : baseName? name =
      some (String.ofList (declaring ++ ['_', '_'] ++ Text.before ['_', '_'] rest ++ ['_', '_'])) := by
  rw [baseName?, if_neg (unrelated _ (by decide)), if_neg (unrelated _ (by decide)),
    if_neg (unrelated _ (by decide)), cut]

theorem Whole.baseName? (whole : Whole name) : baseName? name = some name := by
  obtain ⟨unrelated, uncut⟩ := whole
  rw [ScriptGraph.baseName?, if_neg (unrelated _ (by decide)), if_neg (unrelated _ (by decide)),
    if_neg (unrelated _ (by decide)), uncut]

theorem baseName?_of_family (listed : base ∈ ["Type_", Kind.variablePrefix])
    (starts : Text.startsWith base name) : baseName? name = some base := by
  have apart : ∀ family ∈ families, family ≠ base → ¬Text.startsWith family name := by
    have differ : ∀ base ∈ ["Type_", Kind.variablePrefix], ∀ family ∈ families, family ≠ base →
        ¬(base.toList <+: family.toList ∨ family.toList <+: base.toList) := by decide
    exact fun family known distinct also => differ base listed family known distinct
      (List.prefix_or_prefix_of_prefix (Text.startsWith_iff.mp starts) (Text.startsWith_iff.mp also))
  rw [List.mem_cons, List.mem_singleton] at listed
  rcases listed with rfl | rfl
  · rw [baseName?, if_neg (apart _ (by decide) (by decide)), if_pos starts]
  · rw [baseName?, if_neg (apart _ (by decide) (by decide)), if_neg (apart _ (by decide) (by decide)),
      if_pos starts]

theorem baseName?_cases (based : baseName? name = some base) :
    (base ∈ ["Type_", Kind.variablePrefix] ∧ Text.startsWith base name) ∨
    (Whole name ∧ base = name) ∨
    ∃ declaring rest, Unrelated name ∧
      Text.cutAt? ['_', '_'] name.toList = some (declaring, rest) ∧
      base.toList = declaring ++ ['_', '_'] ++ Text.before ['_', '_'] rest ++ ['_', '_'] := by
  by_cases constant : Text.startsWith Kind.constantPrefix name
  · rw [baseName?, if_pos constant] at based
    cases based
  by_cases type : Text.startsWith "Type_" name
  · rw [baseName?_of_family (by decide) type] at based
    cases based
    exact .inl ⟨by decide, type⟩
  by_cases declared : Text.startsWith Kind.variablePrefix name
  · rw [baseName?_of_family (by decide) declared] at based
    cases based
    exact .inl ⟨by decide, declared⟩
  have unrelated : Unrelated name := by
    intro family listed
    simp only [families, List.mem_cons, List.not_mem_nil, or_false] at listed
    rcases listed with rfl | rfl | rfl <;> assumption
  cases cut : Text.cutAt? ['_', '_'] name.toList with
  | none =>
    have whole : Whole name := ⟨unrelated, cut⟩
    rw [whole.baseName?] at based
    exact .inr (.inl ⟨whole, (Option.some.inj based).symm⟩)
  | some parts =>
    rw [unrelated.baseName?_of_cut cut] at based
    refine .inr (.inr ⟨parts.1, parts.2, unrelated, rfl, ?_⟩)
    rw [← Option.some.inj based, String.toList_ofList]

theorem Unrelated.of_parts (unrelated : Unrelated name)
    (starts : declaring ++ ['_', '_'] <+: name.toList) (also : declaring ++ ['_', '_'] <+: other.toList) :
    Unrelated other := by
  intro family listed related
  have plain : ∀ family ∈ families, ¬['_', '_'] <:+: family.toList := by decide
  rcases List.prefix_or_prefix_of_prefix (Text.startsWith_iff.mp related) also with short | long
  · exact unrelated family listed (Text.startsWith_iff.mpr (short.trans starts))
  · exact plain family listed ((List.suffix_append declaring _).isInfix.trans long.isInfix)

theorem baseName?_of_startsWith (based : baseName? name = some base)
    (signed : Text.startsWith base name) (whole : Whole name → other = name)
    (starts : Text.startsWith base other) : baseName? other = some base := by
  rcases baseName?_cases based with ⟨family, -⟩ | ⟨alone, rfl⟩ | ⟨declaring, rest, unrelated, cut, parts⟩
  · exact baseName?_of_family family starts
  · rw [whole alone]
    exact based
  · rw [Text.startsWith_iff, parts] at signed starts
    have whole := Text.cutAt?_eq_some cut
    obtain ⟨more, signed⟩ := signed
    rw [whole, List.append_assoc _ (Text.before _ _), List.append_assoc (declaring ++ _),
      List.append_cancel_left_eq] at signed
    -- The name has a signature, since the part before it is followed by a separator.
    cases cut' : Text.cutAt? ['_', '_'] rest with
    | none =>
      rw [Text.before, cut'] at signed
      have lengths := congrArg List.length signed
      simp only [Option.map_none, Option.getD_none, List.length_append, List.length_cons] at lengths
      omega
    | some inner =>
      have method : Text.before ['_', '_'] rest = inner.1 := by rw [Text.before, cut']; rfl
      obtain ⟨tail, same⟩ := starts
      rw [method, List.append_assoc _ inner.1, List.append_assoc (declaring ++ _)] at same
      have cutOther : Text.cutAt? ['_', '_'] other.toList =
          some (declaring, inner.1 ++ ['_', '_'] ++ tail) := by
        rw [← same]
        exact Text.cutAt?_append cut (by decide) _
      have methodOther : Text.before ['_', '_'] (inner.1 ++ ['_', '_'] ++ tail) = inner.1 := by
        rw [Text.before, Text.cutAt?_append cut' (by decide)]
        rfl
      have unrelated : Unrelated other := unrelated.of_parts
        (whole ▸ List.prefix_append _ rest) (same ▸ List.prefix_append _ _)
      rw [unrelated.baseName?_of_cut cutOther, methodOther, ← method, ← parts, String.ofList_toList]

end Names

namespace Catalog

variable {c : Catalog} {d e : Definition} {base : String}

/-- A group can be told from names that start like it: whatever is in it starts with what its names
share, and no name goes on from one without parts. -/
structure Grouped (c : Catalog) (name base : String) : Prop where
  signed : ∀ e ∈ c.definitions, ¬e.hasPointers → baseName? e.fullName = some base →
    Text.startsWith base e.fullName
  whole : Whole name → ∀ e ∈ c.definitions, ¬e.hasPointers → Text.startsWith name e.fullName →
    e.fullName = name

theorem Grouped.of_same {name other : String} (grouped : c.Grouped name base)
    (based : baseName? name = some base) (same : baseName? other = some base) :
    c.Grouped other base := by
  refine ⟨grouped.signed, fun alone => ?_⟩
  obtain rfl : other = base := Option.some.inj (alone.baseName?.symm.trans same)
  rcases baseName?_cases based with ⟨family, -⟩ | ⟨whole, rfl⟩ | ⟨declaring, rest, -, -, parts⟩
  · have related : ∀ base ∈ ["Type_", Kind.variablePrefix], base ∈ families := by decide
    exact absurd (Text.startsWith_iff.mpr (List.prefix_refl _)) (alone.1 _ (related _ family))
  · exact grouped.whole whole
  · refine absurd ?_ (Text.not_infix_of_cutAt? alone.2)
    rw [parts]
    exact (List.suffix_append _ _).isInfix

private theorem hasPointers_of_unsigned (based : baseName? d.fullName = some base)
    (pointers : d.hasPointers) (unsigned : ¬Text.startsWith base d.fullName)
    (starts : Text.startsWith base e.fullName) : e.hasPointers := by
  rcases baseName?_cases based with ⟨-, signed⟩ | ⟨-, rfl⟩ | ⟨declaring, rest, -, cut, parts⟩
  · exact absurd signed unsigned
  · exact absurd (Text.startsWith_iff.mpr (List.prefix_refl _)) unsigned
  · have whole := Text.cutAt?_eq_some cut
    cases cut' : Text.cutAt? ['_', '_'] rest with
    | none =>
      rw [Text.before, cut', Option.map_none, Option.getD_none, ← whole] at parts
      have inside : '*' ∈ base.toList :=
        parts ▸ List.mem_append_left _ (List.contains_iff_mem.mp pointers)
      exact List.contains_iff_mem.mpr ((Text.startsWith_iff.mp starts).subset inside)
    | some inner =>
      refine absurd (Text.startsWith_iff.mpr ?_) unsigned
      rw [parts, whole, Text.before, cut', Text.cutAt?_eq_some cut']
      simp

theorem Ascending.overloads_eq (ascending : c.Ascending) (listed : d ∈ c.definitions)
    (based : baseName? d.fullName = some base) (grouped : c.Grouped d.fullName base) :
    c.overloads d.fullName =
      c.definitions.filter fun e => !e.hasPointers && baseName? e.fullName == some base := by
  rw [overloads, based]
  dsimp only
  rw [ascending.withPrefix_eq, List.filter_filter]
  refine List.filter_congr fun e he => ?_
  by_cases pointers : e.hasPointers
  · rw [pointers]
    rfl
  rw [Bool.eq_false_iff.mpr pointers, Bool.not_false, Bool.true_and, Bool.true_and,
    Bool.eq_iff_iff, beq_iff_eq]
  constructor
  · intro starts
    by_cases signed : Text.startsWith base d.fullName
    · refine baseName?_of_startsWith based signed (fun whole => ?_) starts
      obtain rfl : d.fullName = base := Option.some.inj (whole.baseName?.symm.trans based)
      exact grouped.whole whole e he pointers starts
    · by_cases pointed : d.hasPointers
      · exact absurd (hasPointers_of_unsigned based pointed signed starts) pointers
      · exact absurd (grouped.signed d listed pointed based) signed
  · exact grouped.signed e he pointers

theorem Ascending.mem_overloads_iff (ascending : c.Ascending) (listed : d ∈ c.definitions)
    (based : baseName? d.fullName = some base) (grouped : c.Grouped d.fullName base) :
    e ∈ c.overloads d.fullName ↔
      e ∈ c.definitions ∧ ¬e.hasPointers ∧ baseName? e.fullName = some base := by
  rw [ascending.overloads_eq listed based grouped, List.mem_filter, Bool.and_eq_true,
    Bool.not_eq_true', beq_iff_eq, Bool.not_eq_true]

end Catalog

namespace Graph

variable {c : Catalog} {g h : Graph} {uid : Uid} {n : Node} {d e : Definition} {fullName : String}

theorem exists_setOverload (found : g.find? uid = some n) (defined : c.find? n.fullName = some d)
    (offered : e ∈ c.overloads n.fullName) : ∃ h, g.setOverload c uid e.fullName = .ok h := by
  have present : ((c.overloads n.fullName).find? fun d => d.fullName == e.fullName).isSome :=
    List.find?_isSome.mpr ⟨e, offered, by simp⟩
  obtain ⟨f, first⟩ := Option.isSome_iff_exists.mp present
  have placed : g.placed c uid = .ok (n, d) := placed_eq_ok.mpr ⟨found, defined⟩
  refine ⟨(g.update uid (switched f)).mapNodes (dropLinks uid f.outputs.length), ?_⟩
  rw [setOverload, bind_eq_ok]
  refine ⟨(n, d), placed, ?_⟩
  dsimp only
  rw [first]
  rfl

theorem fullName_of_setOverload (switches : g.setOverload c uid fullName = .ok h) :
    ∃ m, h.find? uid = some m ∧ m.fullName = fullName := by
  obtain ⟨n, d, found, -, -, rfl, rfl⟩ := setOverload_eq_ok switches
  refine ⟨dropLinks uid d.outputs.length (switched d n), ?_, rfl⟩
  rw [find?_mapNodes fun m => (m.dropLinks_fewer uid _).uid,
    find?_update fun m => (m.switched_fewer d).uid, if_pos rfl, found]
  rfl

end Graph

namespace Catalog

variable {c : Catalog} {d : Definition} {base : String}

/-- In a group that can be told from other names, being offered in place of each other relates all
definitions without pointers, and a node that has been switched can be switched back. -/
theorem Ascending.overloads_partition (ascending : c.Ascending) (listed : d ∈ c.definitions)
    (based : baseName? d.fullName = some base) (grouped : c.Grouped d.fullName base) :
    (c.overloads d.fullName =
      c.definitions.filter fun e => !e.hasPointers && baseName? e.fullName == some base) ∧
    ((c.overloads d.fullName).Pairwise fun e f => e.fullName.toList < f.fullName.toList) ∧
    (¬d.hasPointers → ∀ e ∈ c.overloads d.fullName, d ∈ c.overloads e.fullName) ∧
    (∀ e ∈ c.overloads d.fullName, ∀ f ∈ c.overloads e.fullName, f ∈ c.overloads d.fullName) ∧
    (¬d.hasPointers → ∀ (g h : Graph) (uid : Uid) (n : Node) (fullName : String),
      g.find? uid = some n → n.fullName = d.fullName → g.setOverload c uid fullName = .ok h →
      ∃ k, h.setOverload c uid d.fullName = .ok k) := by
  have offered := fun e => ascending.mem_overloads_iff (e := e) listed based grouped
  have others : ∀ e ∈ c.overloads d.fullName, ∀ f, f ∈ c.overloads e.fullName ↔
      f ∈ c.definitions ∧ ¬f.hasPointers ∧ baseName? f.fullName = some base := by
    intro e he f
    obtain ⟨known, -, same⟩ := (offered e).mp he
    exact ascending.mem_overloads_iff known same (grouped.of_same based same)
  have back : ¬d.hasPointers → ∀ e ∈ c.overloads d.fullName, d ∈ c.overloads e.fullName :=
    fun plain e he => (others e he d).mpr ⟨listed, plain, based⟩
  have equation := ascending.overloads_eq listed based grouped
  refine ⟨equation, ?_, back, fun e he f hf => ?_, fun plain g h uid n fullName found named switches => ?_⟩
  · rw [equation]
    exact ascending.sublist List.filter_sublist
  · exact (offered f).mpr ((others e he f).mp hf)
  · obtain ⟨m, e, known, -, offers, called, -⟩ := Graph.setOverload_eq_ok switches
    cases found.symm.trans known
    obtain ⟨k, there, switched⟩ := Graph.fullName_of_setOverload switches
    rw [← called] at switched
    rw [named] at offers
    have defined := ascending.distinct.find?_of_mem (mem_overloads offers)
    exact Graph.exists_setOverload there (switched ▸ defined) (switched ▸ back plain e offers)

/-- A method with three signatures, one of which takes a pointer, and a method whose name goes on from
that of the first. -/
def logging : List Definition := [
  .bare "UnityEngineDebug.__Log__SystemString__SystemVoid",
  .bare "UnityEngineDebug.__Log__SystemInt32*__SystemVoid",
  .bare "UnityEngineDebug.__LogError__SystemObject__SystemVoid",
  .bare "UnityEngineDebug.__Log__SystemObject__SystemVoid"]

theorem overloads_partition_logging :
    ((intrinsic.extend logging).1.overloads "UnityEngineDebug.__Log__SystemObject__SystemVoid" =
      (intrinsic.extend logging).1.definitions.filter fun e =>
        !e.hasPointers && baseName? e.fullName == some "UnityEngineDebug.__Log__") ∧
    ((intrinsic.extend logging).1.definitions.filter fun e =>
        !e.hasPointers && baseName? e.fullName == some "UnityEngineDebug.__Log__").map
      Definition.fullName = ["UnityEngineDebug.__Log__SystemObject__SystemVoid",
        "UnityEngineDebug.__Log__SystemString__SystemVoid"] := by
  have looked : (∀ e ∈ (intrinsic.extend logging).1.definitions, ¬e.hasPointers →
        baseName? e.fullName = some "UnityEngineDebug.__Log__" →
        Text.startsWith "UnityEngineDebug.__Log__" e.fullName) ∧
      Definition.bare "UnityEngineDebug.__Log__SystemObject__SystemVoid" ∈
        (intrinsic.extend logging).1.definitions ∧
      ((intrinsic.extend logging).1.definitions.filter fun e =>
          !e.hasPointers && baseName? e.fullName == some "UnityEngineDebug.__Log__").map
        Definition.fullName = ["UnityEngineDebug.__Log__SystemObject__SystemVoid",
          "UnityEngineDebug.__Log__SystemString__SystemVoid"] := by
    rw [intrinsic_eq]
    decide +kernel
  obtain ⟨signed, listed, names⟩ := looked
  have parted : ¬Whole "UnityEngineDebug.__Log__SystemObject__SystemVoid" :=
    fun whole => absurd whole.2 (by decide)
  have grouped : (intrinsic.extend logging).1.Grouped
      "UnityEngineDebug.__Log__SystemObject__SystemVoid" "UnityEngineDebug.__Log__" :=
    ⟨signed, fun whole => absurd whole parted⟩
  exact ⟨((intrinsic_ascending.extend logging).overloads_partition listed (by decide) grouped).1, names⟩

/-- A name without parts that another one goes on from: the other is offered in place of it, and not the
other way round. -/
theorem foreach_offered_for : baseName? "For" = some "For" ∧ baseName? "Foreach" = some "Foreach" ∧
    (intrinsic.overloads "For").map Definition.fullName = ["For", "Foreach"] ∧
    (intrinsic.overloads "Foreach").map Definition.fullName = ["Foreach"] := by
  rw [intrinsic_eq]
  decide +kernel

end Catalog

end ScriptGraph
