import ScriptGraph.Machine
import ScriptGraph.Proofs.Catalog.Distinct
import ScriptGraph.Proofs.Compilation.Closed
import ScriptGraph.Proofs.HeapLayout.Names
import ScriptGraph.Proofs.Lowering.Requests
import ScriptGraph.Proofs.Node.Names
import ScriptGraph.Proofs.Snapshot.Nodes

/-!
The names of the symbols of a program. If variables have distinct names that none of the names made by
counting starts like, no two symbols share a name: a name leads to the one slot that it was given to.
-/

set_option autoImplicit false
set_option relaxedAutoImplicit false

namespace ScriptGraph

open HeapLayout (Internal Unambiguous)
open Lowering (parameterName claimedName?)
open Relation (ReflTransGen)

/-! ## Names of parameters -/

namespace Text

def Opens (text : List Char) : Prop := ∃ c rest, text = c :: rest ∧ c ≠ '_'

variable {text : List Char} {c : Char}

theorem opens_dropWhile (listed : c ∈ text) (plain : c ≠ '_') :
    Opens (text.dropWhile (· = '_')) := by
  induction text with
  | nil => cases listed
  | cons d text ih =>
    rw [List.dropWhile_cons]
    split
    · rename_i underscore
      refine ih ((List.mem_cons.mp listed).resolve_left ?_)
      rintro rfl
      exact plain (of_decide_eq_true underscore)
    · rename_i other
      exact ⟨d, text, rfl, fun underscore => other (decide_eq_true underscore)⟩

theorem Opens.append (opens : Opens text) (more : List Char) : Opens (text ++ more) := by
  obtain ⟨c, rest, rfl, plain⟩ := opens
  exact ⟨c, rest ++ more, rfl, plain⟩

theorem Opens.nextName (opens : Opens text) : Opens (nextName text) := by
  have digit : ∀ digit < 10, digitChar digit ≠ '_' := by decide
  obtain ⟨c, rest, rfl, plain⟩ := opens
  unfold ScriptGraph.nextName
  split
  · rename_i last found
    cases rest with
    | nil =>
      obtain ⟨first, more, same⟩ := List.exists_cons_of_ne_nil (digits_plain (last + 1)).1.some
      rw [same]
      exact ⟨digitChar first, _, rfl,
        digit first ((digits_plain (last + 1)).1.small first (same ▸ List.mem_cons_self))⟩
    | cons d rest => exact ⟨c, _, rfl, plain⟩
  · exact ⟨c, _, rfl, plain⟩

theorem Opens.freeName {name : String} (opens : Opens name.toList) (taken : List String) (steps : Nat) :
    Opens (freeName taken steps name).toList := by
  induction steps generalizing name with
  | zero => exact opens
  | succ steps ih =>
    rw [ScriptGraph.freeName]
    split
    · refine ih ?_
      rw [String.toList_ofList]
      exact opens.nextName
    · exact opens

private theorem imageInRuns_eq_or {runs : List (Nat × Nat × Nat × Nat)}
    (above : ∀ run ∈ runs, 0x5F < run.2.2.2) (point : Nat) :
    imageInRuns runs point = point ∨ 0x5F < imageInRuns runs point := by
  induction runs with
  | nil => exact .inl rfl
  | cons run runs ih =>
    obtain ⟨first, last, stride, image⟩ := run
    rw [List.forall_mem_cons] at above
    rw [imageInRuns]
    split
    · exact .inr (Nat.lt_add_right _ above.1)
    · exact ih above.2

private theorem eq_of_ofNat_eq_underscore {point : Nat} (same : Char.ofNat point = '_') :
    point = 0x5F := by
  by_cases valid : point.isValidChar
  · rw [Char.ofNat, dif_pos valid] at same
    exact congrArg Char.toNat same
  · rw [Char.ofNat, dif_neg valid] at same
    cases same

theorem exists_mem_lowercase (plain : c ≠ '_') : ∃ d ∈ lowercase c, d ≠ '_' := by
  unfold lowercase caseImage
  split
  · rename_i points found
    have listed := mem_of_lookup_eq_some found
    have sequences : ∀ entry ∈ lowerSequences, entry.2.any fun point => Char.ofNat point ≠ '_' := by
      decide
    obtain ⟨point, there, other⟩ := List.any_eq_true.mp (sequences _ listed)
    exact ⟨Char.ofNat point, List.mem_map_of_mem there, of_decide_eq_true other⟩
  · refine ⟨_, List.mem_singleton_self _, fun same => ?_⟩
    have above : ∀ run ∈ lowerRuns, 0x5F < run.2.2.2 := by decide +kernel
    rcases imageInRuns_eq_or above c.toNat with stays | grows
    · rw [stays, Char.ofNat_toNat] at same
      exact plain same
    · exact absurd (eq_of_ofNat_eq_underscore same) (Nat.ne_of_gt grows)

end Text

theorem Kind.afterPrefix?_of_event {name : String} (event : ofName name = .event) :
    ∃ stem, Text.afterPrefix? eventPrefix.toList name.toList = some stem := by
  have starts := isEvent_ofName name
  rw [event] at starts
  exact Option.isSome_iff_exists.mp starts.symm

namespace Catalog

/-- Something other than underscores follows the prefix in the name of every event. -/
def NamesEvents (c : Catalog) : Prop :=
  ∀ d ∈ c.definitions, ∀ stem,
    Text.afterPrefix? Kind.eventPrefix.toList d.fullName.toList = some stem → ∃ ch ∈ stem, ch ≠ '_'

variable {c : Catalog} {name : String} {d : Definition}

theorem Extends.outputs_of_event (extension : c.Extends) (found : c.find? name = some d)
    (kind : d.kind = .customEvent ∨ d.kind = .changeEvent) : d.outputs = [] := by
  have known : ∀ kind, kind = .customEvent ∨ kind = .changeEvent → kind.isNamed ∧
      ∃ pair ∈ kinds.zip intrinsics, pair.1 = kind ∧ pair.2.outputs = [] := by
    rintro kind (rfl | rfl) <;> decide
  exact extension.holds_of_kind (P := fun e => e.outputs = []) found (known _ kind).1 (known _ kind).2

end Catalog

theorem opens_parameterName {c : Catalog} {g : Graph} {n : Node} {d : Definition} {entry : String}
    {p : Parameter} (extension : c.Extends) (events : c.NamesEvents) (event : n.isEvent)
    (defined : c.find? n.fullName = some d) (claims : claimedName? g n = some entry)
    (listed : p ∈ d.outputs) : Text.Opens (parameterName entry p).toList := by
  have kind : d.kind = n.kind := Catalog.find?_kind defined
  have plain : n.kind = .event := by
    have bare : n.kind ≠ .customEvent ∧ n.kind ≠ .changeEvent := by
      refine not_or.mp fun named => ?_
      rw [extension.outputs_of_event defined (kind ▸ named)] at listed
      exact List.not_mem_nil listed
    rw [Node.isEvent] at event
    cases same : n.kind <;> simp_all [Kind.isEvent]
  rw [claimedName?, plain, Option.some.injEq] at claims
  obtain ⟨stem, after⟩ := Kind.afterPrefix?_of_event plain
  have named : n.fullName = d.fullName := (Catalog.find?_fullName defined).symm
  obtain ⟨ch, within, other⟩ := events d (Catalog.mem_of_find? defined) stem (named ▸ after)
  have letter : ∃ ch ∈ Text.uncapitalized stem, ch ≠ '_' := by
    cases stem with
    | nil => cases within
    | cons first rest =>
      rcases List.mem_cons.mp within with rfl | within
      · obtain ⟨small, there, other⟩ := Text.exists_mem_lowercase other
        exact ⟨small, List.mem_append_left _ there, other⟩
      · exact ⟨ch, List.mem_append_right _ within, other⟩
  obtain ⟨small, there, other⟩ := letter
  rw [parameterName, String.toList_ofList, ← claims, eventEntryName, String.toList_ofList, after,
    Option.getD_some]
  exact (Text.opens_dropWhile (List.mem_cons_of_mem _ there) other).append _

/-! ## Symbols -/

namespace Graph

variable {c : Catalog} {g : Graph} {m n : Node} {name : String}

/-- Every variable has a name of its own, and none starts like the names that are made by counting. -/
structure NamesApart (g : Graph) : Prop where
  named : ∀ n ∈ g.nodes, n.isVariable → n.variableName?.isSome
  distinct : g.variableNames.Nodup
  plain : ∀ name ∈ g.variableNames, ¬Internal name

namespace NamesApart

variable (apart : g.NamesApart)
include apart

theorem eq_of_name (listed : m ∈ g.nodes) (named : m.variableName? = some name)
    (alsoListed : n ∈ g.nodes) (alsoNamed : n.variableName? = some name) : m = n := by
  have whole : g.variableNames.map some = g.variableNodes.map Node.variableName? := by
    rw [variableNames, List.map_filterMap_some_eq_filter_map_isSome, List.filter_eq_self]
    intro name listed
    obtain ⟨k, declared, rfl⟩ := List.mem_map.mp listed
    exact (mem_variableNodes.mp declared).2
  have declared : ∀ {k : Node}, k ∈ g.nodes → k.variableName? = some name → k ∈ g.variableNodes :=
    fun listed named => mem_variableNodes.mpr ⟨listed, Option.isSome_of_eq_some named⟩
  exact List.inj_on_of_nodup_map (whole ▸ apart.distinct.map fun _ _ => Option.some.inj)
    (declared listed named) (declared alsoListed alsoNamed) (named.trans alsoNamed.symm)

theorem variableName?_of_snapshot (distinct : g.uids.Nodup) (listed : m ∈ (g.snapshot c).1.nodes)
    (named : m.variableName? = some name) :
    ∃ n ∈ g.nodes, n.uid = m.uid ∧ n.variableName? = some name := by
  obtain ⟨n, left, d, -, kept⟩ := mem_snapshot distinct listed
  have there := mem_of_mem_resolved distinct left
  have declares : n.isVariable := by
    rw [Node.isVariable, ← kept.kind, kind_of_variableName? named]
    rfl
  obtain ⟨own, given⟩ := Option.isSome_iff_exists.mp (apart.named n there declares)
  refine ⟨n, there, kept.uid.symm, ?_⟩
  rw [Node.variableName?, if_pos declares] at given ⊢
  rw [Node.variableName?, if_pos (kept.isVariable ▸ declares), kept.getElem?,
    Node.getElem?_completed] at named
  obtain ⟨value, found, text⟩ := Option.bind_eq_some_iff.mp given
  rw [found, Option.some_or, Option.map_some, Option.bind_some] at named
  split at named
  · rw [found, Option.bind_some, named]
  · -- What replaces a misfit is no text.
    rw [Value.text?_defaultFor] at named
    cases named

theorem isSome_findVariable? {d : Definition} (distinct : g.uids.Nodup) (listed : n ∈ g.nodes)
    (defined : c.find? n.fullName = some d) (declares : n.isVariable)
    (typed : d.inputType nameInput = some textType) :
    ((HeapLayout.ofGraph c (g.snapshot c).1).findVariable? n.uid).isSome := by
  have left := mem_resolved_of_variable distinct listed (of_decide_eq_true declares)
    (Option.isSome_of_eq_some defined)
  obtain ⟨m, found, kept⟩ := find?_snapshot distinct left defined
  obtain ⟨name, named⟩ := Option.isSome_iff_exists.mp (apart.named n listed declares)
  rw [← kept.uid]
  exact HeapLayout.ofGraph_variable_isSome c (mem_variableNodes.mpr
    ⟨find?_mem found, Option.isSome_of_eq_some (kept.variableName? typed named)⟩)

theorem symbol_of_findVariable? {slot : Slot} (distinct : g.uids.Nodup) (listed : n ∈ g.nodes)
    (granted : (HeapLayout.ofGraph c (g.snapshot c).1).findVariable? n.uid = some slot) :
    ∃ symbol, (HeapLayout.ofGraph c (g.snapshot c).1).symbols.toList[slot]? = some symbol ∧
      n.variableName? = some symbol.name := by
  obtain ⟨symbols, keys⟩ :=
    HeapLayout.ofGraph_slots c (variableNodes_distinct (snapshot_live c distinct).distinct)
  obtain ⟨m, there, key⟩ := keys (.variable n.uid) slot granted
  obtain ⟨listedThere, isSome⟩ := mem_variableNodes.mp (List.mem_of_getElem? there)
  obtain ⟨name, named⟩ := Option.isSome_iff_exists.mp isSome
  obtain ⟨other, alsoListed, uid, own⟩ := apart.variableName?_of_snapshot distinct listedThere named
  obtain rfl : other = n := List.inj_on_of_nodup_map distinct alsoListed listed
    (uid.trans (HeapLayout.Key.variable.inj key).symm)
  refine ⟨HeapLayout.variableSymbol m, ?_, ?_⟩
  · rw [symbols, List.getElem?_map, there, Option.map_some]
  · rw [own, HeapLayout.variableSymbol, named, Option.getD_some]

private theorem unambiguous_ofGraph (distinct : g.uids.Nodup) :
    Unambiguous (HeapLayout.ofGraph c (g.snapshot c).1) := by
  have snapshotDistinct := (snapshot_live c distinct).distinct
  have declared := variableNodes_distinct snapshotDistinct
  have named : ∀ m ∈ (g.snapshot c).1.variableNodes, ∃ n ∈ g.nodes, n.uid = m.uid ∧
      n.variableName? = some (HeapLayout.variableSymbol m).name := by
    intro m listed
    obtain ⟨listed, isSome⟩ := mem_variableNodes.mp listed
    obtain ⟨name, named⟩ := Option.isSome_iff_exists.mp isSome
    rw [HeapLayout.variableSymbol, named, Option.getD_some]
    exact apart.variableName?_of_snapshot distinct listed named
  have names : (HeapLayout.ofGraph c (g.snapshot c).1).names =
      (g.snapshot c).1.variableNodes.map fun m => (HeapLayout.variableSymbol m).name := by
    rw [HeapLayout.names, (HeapLayout.ofGraph_slots c declared).1, List.map_map]
    rfl
  constructor
  · rw [names]
    refine List.Nodup.map_on (fun m listed other alsoListed same => ?_) declared.of_map
    obtain ⟨n, there, uid, name⟩ := named m listed
    obtain ⟨k, alsoThere, alsoUid, alsoName⟩ := named other alsoListed
    have source := apart.eq_of_name there name alsoThere (same ▸ alsoName)
    exact List.inj_on_of_nodup_map declared listed alsoListed
      (uid.symm.trans ((congrArg Node.uid source).trans alsoUid))
  · intro stem number stemmed listed
    rw [names] at listed
    obtain ⟨m, declares, same⟩ := List.mem_map.mp listed
    obtain ⟨n, there, -, name⟩ := named m declares
    refine absurd (HeapLayout.internal_numbered stemmed number) (apart.plain _ ?_)
    rw [← same]
    exact List.mem_filterMap.mpr
      ⟨n, mem_variableNodes.mpr ⟨there, Option.isSome_of_eq_some name⟩, name⟩

end NamesApart

private theorem unambiguous_of_request {h later : HeapLayout} (extension : c.Extends)
    (events : c.NamesEvents) (request : Lowering.Request c g h later) (unambiguous : Unambiguous h) :
    Unambiguous later := by
  cases request.enlarges with
  | same unchanged => exact unchanged ▸ unambiguous
  | counted counted symbols counts =>
    refine unambiguous.push_counted ?_ symbols rfl counts
    cases counted with
    | constant stated => exact .inl (String.toList_append ▸ List.prefix_append _ _)
    | intermediate type => exact .inr (String.toList_append ▸ List.prefix_append _ _)
  | parameter event defined claims listed symbols counts =>
    have opens := opens_parameterName extension events (List.mem_filter.mp event).2 defined claims listed
    obtain ⟨ch, rest, starts, plain⟩ := opens.freeName h.names h.names.length
    exact unambiguous.push_given symbols (unusedNameLike_not_mem _ _)
      (HeapLayout.not_internal starts plain) counts

private theorem unambiguous_of_requests {h later : HeapLayout} (extension : c.Extends)
    (events : c.NamesEvents) (requests : ReflTransGen (Lowering.Request c g) h later)
    (unambiguous : Unambiguous h) : Unambiguous later := by
  induction requests with
  | refl => exact unambiguous
  | tail _ request ih => exact unambiguous_of_request extension events request ih

end Graph

/-- Every name of a program leads to one slot, by which contents are read and written. -/
structure Program.Addressed (p : Program) : Prop where
  distinct : (p.symbols.map Symbol.name).Nodup
  slotOf : ∀ (slot : Slot) symbol, p.symbols[slot]? = some symbol →
    p.slotOf? symbol.name = some slot
  get : ∀ (slot : Slot) symbol, p.symbols[slot]? = some symbol → ∀ m : Machine, m.program = p →
    m.get? symbol.name = m.heap[slot]?
  set : ∀ (slot : Slot) symbol, p.symbols[slot]? = some symbol → ∀ m : Machine, m.program = p →
    ∀ value, m.set? symbol.name value = some { m with heap := m.heap.setIfInBounds slot value }

theorem Program.addressed_of_nodup {p : Program} (distinct : (p.symbols.map Symbol.name).Nodup) :
    p.Addressed := by
  have slotOf : ∀ (slot : Slot) symbol, p.symbols[slot]? = some symbol →
      p.slotOf? symbol.name = some slot := by
    intro slot symbol there
    obtain ⟨inside, rfl⟩ := List.getElem?_eq_some_iff.mp there
    rw [Program.slotOf?, List.findIdx?_eq_some_iff_getElem]
    refine ⟨inside, by simp, fun earlier less same => ?_⟩
    have names : (p.symbols.map Symbol.name)[earlier]? = (p.symbols.map Symbol.name)[slot]? := by
      rw [List.getElem?_map, List.getElem?_map, List.getElem?_eq_getElem (less.trans inside), there,
        Option.map_some, Option.map_some, eq_of_beq same]
    have short : earlier < (p.symbols.map Symbol.name).length := by
      rw [List.length_map]
      exact less.trans inside
    exact absurd ((List.getElem?_inj short distinct).mp names) (Nat.ne_of_lt less)
  refine ⟨distinct, slotOf, fun slot symbol there m loaded => ?_, fun slot symbol there m loaded value => ?_⟩
  · rw [Machine.get?, loaded, slotOf slot symbol there, Option.bind_some]
  · rw [Machine.set?, loaded, slotOf slot symbol there, Option.map_some]

namespace Graph

variable {c : Catalog} {g : Graph}

/-- No two symbols of a program share a name, and each variable has a slot under its own name. -/
theorem compile_unambiguous {strict : Bool} {k : Compilation} (extension : c.Extends)
    (events : c.NamesEvents) (distinct : g.uids.Nodup) (apart : g.NamesApart)
    (compiles : g.compile c strict = .ok k) :
    k.program.Addressed ∧
      (∀ n ∈ g.nodes, ∀ slot, (HeapLayout.ofGraph c (g.snapshot c).1).findVariable? n.uid = some slot →
        ∃ name, n.variableName? = some name ∧ k.program.slotOf? name = some slot) ∧
      ∀ n ∈ g.nodes, ∀ d, c.find? n.fullName = some d → n.isVariable →
        d.inputType nameInput = some textType →
        ((HeapLayout.ofGraph c (g.snapshot c).1).findVariable? n.uid).isSome := by
  obtain ⟨streams, lowering, lowered, -, symbols, -⟩ := compile_eq_ok compiles
  have addressed : k.program.Addressed := by
    refine Program.addressed_of_nodup ?_
    rw [symbols]
    exact (unambiguous_of_requests extension events (Compilation.lower_requests lowered)
      (apart.unambiguous_ofGraph distinct)).distinct
  obtain ⟨more, grown⟩ := (Compilation.lower_grows lowered).symbols
  refine ⟨addressed, fun n listed slot granted => ?_, fun n listed d defined declares typed => ?_⟩
  · obtain ⟨symbol, there, named⟩ := apart.symbol_of_findVariable? distinct listed granted
    refine ⟨symbol.name, named, addressed.slotOf slot symbol ?_⟩
    rw [symbols, grown, List.getElem?_append_left (List.getElem?_eq_some_iff.mp there).1, there]
  · exact apart.isSome_findVariable? distinct listed defined declares typed

/-! ## A parameter beside variables of its name -/

private def counted : Definition :=
  { Definition.bare "Event__Counted" with
    outputs := [⟨"total", some int32Type, .null⟩] }.withFlow [""]

def counting : Catalog := ⟨Catalog.intrinsics ++ [counted]⟩

private def number (uid name : String) : Node :=
  ⟨uid, Kind.variablePrefix ++ int32Type, .origin,
    [.int32 0, .text name, .bool true, .bool false, .text "none"], List.replicate 5 none, []⟩

def tally : Graph := { Graph.empty "tally" with
  nodes := [
    number "total" "CountedTotal",
    ⟨"counted", counted.fullName, .origin, [], [], [some "keep"]⟩,
    ⟨"keep", Kind.setVariableName, .origin, [.text "total", .null, .bool false],
      [none, some ⟨"counted", 0⟩, none], [some "reset"]⟩,
    ⟨"reset", Kind.setVariableName, .origin, [.text "other", .int32 0, .bool false],
      [none, none, none], [none]⟩,
    number "other" "CountedTotal_1"] }

private theorem counting_namesEvents : counting.NamesEvents := by
  have names : ∀ d ∈ counting.definitions,
      (Text.afterPrefix? Kind.eventPrefix.toList d.fullName.toList).all
        (·.any fun ch => ch ≠ '_') := by
    decide +kernel
  intro d listed stem after
  have holds := names d listed
  rw [after, Option.all_some, List.any_eq_true] at holds
  obtain ⟨ch, there, other⟩ := holds
  exact ⟨ch, there, of_decide_eq_true other⟩

private theorem tally_namesApart : tally.NamesApart := by
  refine ⟨by decide, by decide, fun name listed => ?_⟩
  have names : tally.variableNames = ["CountedTotal", "CountedTotal_1"] := by decide
  rw [names] at listed
  rcases List.mem_cons.mp listed with rfl | listed
  · exact HeapLayout.not_internal rfl (by decide)
  · obtain rfl := List.mem_singleton.mp listed
    exact HeapLayout.not_internal rfl (by decide)

theorem compile_unambiguous_tally : ∃ k, tally.compile counting true = .ok k ∧
    k.program.Addressed ∧
      (∀ n ∈ tally.nodes, ∀ slot,
        (HeapLayout.ofGraph counting (tally.snapshot counting).1).findVariable? n.uid = some slot →
        ∃ name, n.variableName? = some name ∧ k.program.slotOf? name = some slot) ∧
      ∀ n ∈ tally.nodes, ∀ d, counting.find? n.fullName = some d → n.isVariable →
        d.inputType nameInput = some textType →
        ((HeapLayout.ofGraph counting (tally.snapshot counting).1).findVariable? n.uid).isSome := by
  have extension : counting.Extends := by
    unfold Catalog.Extends
    decide +kernel
  have succeeds : (tally.compile counting true).isOk = true := by decide +kernel
  cases compiled : tally.compile counting true with
  | error error =>
    rw [compiled] at succeeds
    cases succeeds
  | ok k =>
    exact ⟨k, rfl, compile_unambiguous extension counting_namesEvents (by decide) tally_namesApart
      compiled⟩

/-- The parameter takes the name after theirs. -/
example : ((tally.compile counting true).toOption.map fun k =>
    k.program.symbols.map Symbol.name) =
      some ["CountedTotal", "CountedTotal_1", "CountedTotal_2", "__const_SystemInt32_0"] := by
  decide +kernel

end Graph

end ScriptGraph
