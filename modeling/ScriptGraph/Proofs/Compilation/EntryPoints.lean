import ScriptGraph.Proofs.Catalog.Distinct
import ScriptGraph.Proofs.Compilation.Program
import ScriptGraph.Proofs.Lowering.Accounted
import ScriptGraph.Proofs.Snapshot.Nodes
import Mathlib.Data.List.Find

/-!
The entry points of a program. Of the events that ask for an entry point of one name the first gets it,
and of every other event it is reported why it has none.
-/

set_option autoImplicit false
set_option relaxedAutoImplicit false

namespace ScriptGraph

open Lowering (Accounts Enters claimant? claimedName?)

theorem Node.kind_of_event {n : Node} (event : n.isEvent) (access : n.access?.isSome) :
    n.kind = .changeEvent := by
  revert event access
  rw [Node.isEvent, Node.access?]
  cases n.kind <;> decide

namespace Graph

variable {c : Catalog} {g : Graph} {n m : Node} {d : Definition} {name : String}

/-- The name of the entry point that an event asks for. It asks for none if it has no definition, if the
variable that it watches is not there, or if it is a custom event without a name. -/
def entryName? (c : Catalog) (g : Graph) (n : Node) : Option String :=
  (c.find? n.fullName).bind fun d =>
    match n.kind with
    | .customEvent =>
      ((n.values[0]?.or d.initialValues[0]?).bind Value.text?).filter fun name => name ≠ ""
    | .changeEvent => ((g.removeComments.removeUndefined c).1.targetName? n).map changeEntryName
    | _ => some (eventEntryName n.fullName)

/-- The first event that asks for an entry point of a name. -/
def starter? (c : Catalog) (g : Graph) (name : String) : Option Node :=
  g.eventNodes.find? fun n => g.entryName? c n == some name

/-- The events that are the first to ask for their entry points, in the order of the graph. -/
def starters (c : Catalog) (g : Graph) : List Node :=
  g.eventNodes.filter fun n => (g.entryName? c n).any fun name => g.starter? c name = some n

theorem starters_sublist : (g.starters c).Sublist g.nodes :=
  List.filter_sublist.trans List.filter_sublist

theorem mem_starters : n ∈ g.starters c ↔ n ∈ g.eventNodes ∧
    ∃ name, g.entryName? c n = some name ∧ g.starter? c name = some n := by
  rw [starters, List.mem_filter, Option.any_eq_true]
  simp only [decide_eq_true_iff]

theorem starter?_eq_some (first : g.starter? c name = some n) :
    n ∈ g.starters c ∧ g.entryName? c n = some name := by
  have passes := List.find?_some first
  have asks : g.entryName? c n = some name := beq_iff_eq.mp passes
  exact ⟨mem_starters.mpr ⟨List.mem_of_find?_eq_some first, name, asks, first⟩, asks⟩

/-- Why an event has no entry point, as it is reported. -/
inductive Refused (c : Catalog) (g : Graph) (reports : List Diagnostic) (n : Node) : Prop where
  | undefined (unknown : c.find? n.fullName = none)
      (reported : ⟨n.uid, .missingDefinition n.fullName⟩ ∈ reports)
  | unresolved (access : n.kind = .changeEvent)
      (missing : (g.removeComments.removeUndefined c).1.targetName? n = none)
      (reported : ⟨n.uid, .unresolvedVariable⟩ ∈ reports)
  | unnamed (custom : n.kind = .customEvent) (nameless : g.entryName? c n = none)
      (reported : ⟨n.uid, .unnamedEvent⟩ ∈ reports)
  | taken (name : String) (first : Node) (asks : g.entryName? c n = some name)
      (before : g.starter? c name = some first) (other : first ≠ n)
      (reported : ⟨n.uid, .duplicateEntry name⟩ ∈ reports)

/-! ## Events in a snapshot -/

theorem mem_resolved_of_entryName? (distinct : g.uids.Nodup) (listed : n ∈ g.nodes)
    (event : n.isEvent) (asks : g.entryName? c n = some name) : n ∈ (g.resolved c).nodes := by
  have shown : n.kind ≠ .comment := by
    intro comment
    rw [Node.isEvent, comment] at event
    cases event
  rcases mem_resolved_or_reported (c := c) distinct listed shown with
    left | ⟨unknown, -⟩ | ⟨⟨access, missing⟩, -⟩
  · exact left
  · rw [entryName?, unknown] at asks
    cases asks
  · obtain ⟨d, -, asks⟩ := Option.bind_eq_some_iff.mp asks
    rw [Node.kind_of_event event access] at asks
    simp only [missing] at asks
    cases asks

theorem kind_of_entryName?_eq_none (distinct : g.uids.Nodup) (left : n ∈ (g.resolved c).nodes)
    (asks : g.entryName? c n = none) : n.kind = .customEvent := by
  obtain ⟨-, -, defined, bound⟩ := (mem_resolved distinct).mp left
  obtain ⟨d, known⟩ := Option.isSome_iff_exists.mp defined
  rw [entryName?, known, Option.bind_some] at asks
  cases sort : n.kind <;> simp only [sort] at asks
  case customEvent => rfl
  case changeEvent =>
    rw [Option.map_eq_none_iff] at asks
    rw [asks, Node.access?, sort] at bound
    cases bound rfl
  all_goals cases asks

theorem claimedName?_snapshot (extension : c.Extends) (texts : c.NamesByText) (distinct : g.uids.Nodup)
    (left : n ∈ (g.resolved c).nodes) (defined : c.find? n.fullName = some d)
    (kept : Node.Kept d n m) : claimedName? (g.snapshot c).1 m = g.entryName? c n := by
  rw [entryName?, defined, Option.bind_some, claimedName?, kept.kind]
  cases sort : n.kind
  case customEvent =>
    have typed := extension.inputType_of_customEvent defined ((Catalog.find?_kind defined).trans sort)
    simp only [kept.text? typed, Node.getElem?_completed]
    cases (n.values[0]?.or d.initialValues[0]?).bind Value.text? with
    | none => rfl
    | some name => by_cases empty : name = "" <;> simp [empty, Option.filter]
  case changeEvent =>
    simp only [targetName?_snapshot extension texts distinct left defined kept]
  all_goals simp only [kept.fullName]

/-- A map of the nodes that are left to those of the snapshot. -/
structure Repairs (c : Catalog) (g : Graph) (repair : Node → Node) : Prop where
  nodes : (g.snapshot c).1.nodes = (g.resolved c).nodes.map repair
  kept : ∀ n d, c.find? n.fullName = some d → Node.Kept d n (repair n)

theorem exists_repairs (c : Catalog) (distinct : g.uids.Nodup) : ∃ repair, g.Repairs c repair := by
  obtain ⟨flows, same⟩ := snapshot_eq c distinct
  refine ⟨_, ?_, fun n d defined => kept_restoredBy defined ((g.resolved c).terminals c) flows⟩
  rw [same]
  rfl

namespace Repairs

variable {repair : Node → Node} (repairs : g.Repairs c repair) (extension : c.Extends)
  (texts : c.NamesByText) (distinct : g.uids.Nodup)
include repairs distinct

theorem eventNodes : (g.snapshot c).1.eventNodes = (g.resolved c).eventNodes.map repair := by
  rw [Graph.eventNodes, Graph.eventNodes, repairs.nodes, List.filter_map]
  refine congrArg _ (List.filter_congr fun n left => ?_)
  obtain ⟨d, defined⟩ := (resolved_removeUndefined distinct).defined n left
  exact (repairs.kept n d defined).isEvent

include extension texts

theorem claimedName? (left : n ∈ (g.resolved c).nodes) :
    (c.find? (repair n).fullName).isSome ∧
      Lowering.claimedName? (g.snapshot c).1 (repair n) = g.entryName? c n := by
  obtain ⟨d, defined⟩ := (resolved_removeUndefined distinct).defined n left
  have kept := repairs.kept n d defined
  refine ⟨?_, claimedName?_snapshot extension texts distinct left defined kept⟩
  rw [kept.fullName, defined]
  rfl

theorem claimant? (name : String) :
    Lowering.claimant? c (g.snapshot c).1 (g.snapshot c).1.eventNodes name =
      (g.starter? c name).map repair := by
  obtain ⟨keep, left⟩ := resolved_eq_keeping c distinct
  have filtered : (g.resolved c).nodes = g.nodes.filter keep := congrArg Graph.nodes left
  rw [Lowering.claimant?, repairs.eventNodes distinct, List.find?_map]
  congr 1
  calc (g.resolved c).eventNodes.find? _
    _ = (g.resolved c).eventNodes.find? fun n => g.entryName? c n == some name := by
      refine List.find?_congr fun n event => ?_
      obtain ⟨defined, claims⟩ :=
        repairs.claimedName? extension texts distinct (List.mem_filter.mp event).1
      rw [Function.comp_apply, defined, claims, Bool.true_and]
    _ = (g.eventNodes.filter keep).find? fun n => g.entryName? c n == some name := by
      rw [Graph.eventNodes, Graph.eventNodes, filtered, List.filter_comm]
    _ = g.starter? c name := by
      rw [List.find?_filter]
      refine List.find?_congr fun n listed => ?_
      obtain ⟨listed, event⟩ := List.mem_filter.mp listed
      rw [Bool.eq_iff_iff, decide_eq_true_iff, and_iff_right_iff_imp]
      intro asks
      have left := mem_resolved_of_entryName? distinct listed event (beq_iff_eq.mp asks)
      rw [filtered] at left
      exact (List.mem_filter.mp left).2

variable {found : List (String × Node)}

theorem starter (enters : Enters c (g.snapshot c).1 [] (g.snapshot c).1.eventNodes found)
    {entry : String × Node} (listed : entry ∈ found) :
    ∃ n, g.starter? c entry.1 = some n ∧ repair n = entry.2 ∧ n.uid = entry.2.uid := by
  have looked := lookup_eq_some_of_mem enters.distinct (show (entry.1, entry.2) ∈ found from listed)
  rw [enters.lookup, if_neg (by simp), repairs.claimant? extension texts distinct] at looked
  obtain ⟨n, first, same⟩ := Option.map_eq_some_iff.mp looked
  obtain ⟨starts, asks⟩ := starter?_eq_some first
  obtain ⟨listed, event⟩ := List.mem_filter.mp (mem_starters.mp starts).1
  obtain ⟨d, defined⟩ := (resolved_removeUndefined distinct).defined n
    (mem_resolved_of_entryName? distinct listed event asks)
  exact ⟨n, first, same, by rw [← same, (repairs.kept n d defined).uid]⟩

theorem mem_found (enters : Enters c (g.snapshot c).1 [] (g.snapshot c).1.eventNodes found)
    (first : g.starter? c name = some n) : (name, repair n) ∈ found := by
  refine mem_of_lookup_eq_some ?_
  rw [enters.lookup, if_neg (by simp), repairs.claimant? extension texts distinct, first,
    Option.map_some]

theorem uids_found (enters : Enters c (g.snapshot c).1 [] (g.snapshot c).1.eventNodes found)
    (ordered : (found.map Prod.snd).Sublist (g.snapshot c).1.eventNodes) :
    found.map (fun entry => entry.2.uid) = (g.starters c).map Node.uid := by
  have within : (found.map fun entry => entry.2.uid).Sublist g.uids := by
    have there := (ordered.trans List.filter_sublist).map Node.uid
    rw [List.map_map] at there
    refine there.trans ?_
    obtain ⟨keep, left⟩ := resolved_eq_keeping c distinct
    rw [show (g.snapshot c).1.nodes.map Node.uid = (g.resolved c).uids from uids_snapshot c g, left]
    exact (keeping_sublist keep g).map Node.uid
  have among : ((g.starters c).map Node.uid).Sublist g.uids := starters_sublist.map Node.uid
  refine (distinct.perm_iff_eq_of_sublist within among).mp ?_
  refine (List.perm_ext_iff_of_nodup (distinct.sublist within) (distinct.sublist among)).mpr
    fun uid => ⟨fun listed => ?_, fun listed => ?_⟩
  · obtain ⟨entry, there, rfl⟩ := List.mem_map.mp listed
    obtain ⟨n, first, -, uid⟩ := repairs.starter extension texts distinct enters there
    rw [← uid]
    exact List.mem_map_of_mem (starter?_eq_some first).1
  · obtain ⟨n, starts, rfl⟩ := List.mem_map.mp listed
    obtain ⟨-, name, -, first⟩ := mem_starters.mp starts
    have there := repairs.mem_found extension texts distinct enters first
    obtain ⟨k, again, -, uid⟩ := repairs.starter extension texts distinct enters there
    obtain rfl : n = k := Option.some.inj (first.symm.trans again)
    rw [uid]
    exact List.mem_map_of_mem (f := fun entry : String × Node => entry.2.uid) there

/-- The entry points that are found are those of the first events that ask for them, in the order of the
graph. -/
theorem found_eq (enters : Enters c (g.snapshot c).1 [] (g.snapshot c).1.eventNodes found)
    (ordered : (found.map Prod.snd).Sublist (g.snapshot c).1.eventNodes) :
    found.map (fun entry => some entry.1) = (g.starters c).map (g.entryName? c) := by
  have uids := repairs.uids_found extension texts distinct enters ordered
  calc found.map (fun entry => some entry.1)
    _ = found.map fun entry => (g.find? entry.2.uid).bind (g.entryName? c) := by
      refine List.map_congr_left fun entry listed => ?_
      obtain ⟨n, first, -, uid⟩ := repairs.starter extension texts distinct enters listed
      obtain ⟨starts, asks⟩ := starter?_eq_some first
      rw [← uid, find?_of_mem distinct (starters_sublist.subset starts), Option.bind_some, asks]
    _ = (g.starters c).map fun n => (g.find? n.uid).bind (g.entryName? c) := by
      have mapped := congrArg (List.map fun uid => (g.find? uid).bind (g.entryName? c)) uids
      rwa [List.map_map, List.map_map] at mapped
    _ = (g.starters c).map (g.entryName? c) := by
      refine List.map_congr_left fun n starts => ?_
      rw [find?_of_mem distinct (starters_sublist.subset starts), Option.bind_some]

theorem refused {reports : List Diagnostic} (left : n ∈ (g.resolved c).nodes) (event : n.isEvent)
    (enters : Enters c (g.snapshot c).1 [] (g.snapshot c).1.eventNodes found)
    (accounts : Accounts c (g.snapshot c).1 (g.snapshot c).1.eventNodes found reports)
    (later : n ∉ g.starters c) : g.Refused c reports n := by
  obtain ⟨defined, claims⟩ := repairs.claimedName? extension texts distinct left
  obtain ⟨d, known⟩ := (resolved_removeUndefined distinct).defined n left
  have kept := repairs.kept n d known
  have present : repair n ∈ (g.snapshot c).1.eventNodes := by
    rw [repairs.eventNodes distinct]
    exact List.mem_map_of_mem (List.mem_filter.mpr ⟨left, event⟩)
  have listed : n ∈ g.eventNodes := List.mem_filter.mpr ⟨mem_of_mem_resolved distinct left, event⟩
  cases asks : g.entryName? c n with
  | none =>
    have custom := kind_of_entryName?_eq_none distinct left asks
    refine .unnamed custom asks (kept.uid ▸ accounts.unnamed _ present defined ?_ (claims.trans asks))
    rw [kept.kind, custom]
  | some name =>
    obtain ⟨first, starts⟩ : ∃ first, g.starter? c name = some first :=
      Option.isSome_iff_exists.mp (List.find?_isSome.mpr ⟨n, listed, by rw [asks]; exact beq_self_eq_true _⟩)
    have other : first ≠ n := by
      rintro rfl
      exact later (starter?_eq_some starts).1
    refine .taken name first asks starts other (kept.uid ▸ ?_)
    refine (accounts.taken _ present name defined (claims.trans asks)).resolve_left fun there => ?_
    obtain ⟨k, alsoStarts, -, uid⟩ := repairs.starter extension texts distinct enters there
    obtain rfl : first = k := Option.some.inj (starts.symm.trans alsoStarts)
    obtain ⟨among, -⟩ := starter?_eq_some starts
    exact other (List.inj_on_of_nodup_map distinct (List.mem_filter.mp (mem_starters.mp among).1).1
      (mem_of_mem_resolved distinct left) (uid.trans kept.uid))

end Repairs

/-! ## Programs -/

/-- The entry points of a program are those of the first events that ask for them, in the order of the
graph, and of every other event there is a report why it has none. -/
theorem compile_starters {strict : Bool} {k : Compilation} (extension : c.Extends)
    (texts : c.NamesByText) (distinct : g.uids.Nodup) (compiles : g.compile c strict = .ok k) :
    k.program.entryPoints.map (fun entry => some entry.name) =
        (g.starters c).map (g.entryName? c) ∧
      (k.program.entryPoints.map EntryPoint.name).Nodup ∧
      ((g.starters c).map Node.uid).Nodup ∧
      ∀ n ∈ g.nodes, Text.startsWith Kind.eventPrefix n.fullName →
        n ∈ g.starters c ∨ g.Refused c k.diagnostics n := by
  obtain ⟨streams, lowering, lowered, laid, -, reports⟩ := compile_eq_ok compiles
  obtain ⟨found, enters, accounts, earlier, names⟩ := Lowering.streams_accounts lowered
  obtain ⟨repair, repairs⟩ := exists_repairs c distinct
  have entered : k.program.entryPoints.map EntryPoint.name = found.map Prod.fst := by
    rw [laid, Assembly.entries_names, names]
  refine ⟨?_, entered ▸ enters.distinct, ?_, fun n listed starts => ?_⟩
  · rw [← repairs.found_eq extension texts distinct enters accounts.ordered]
    have named := congrArg (List.map some) entered
    rwa [List.map_map, List.map_map] at named
  · exact distinct.sublist (starters_sublist.map Node.uid)
  · rw [reports]
    have event : n.isEvent := (Kind.isEvent_ofName n.fullName).trans starts
    have shown : n.kind ≠ .comment := by
      intro comment
      rw [Node.isEvent, comment] at event
      cases event
    rcases mem_resolved_or_reported (c := c) distinct listed shown with
      left | ⟨unknown, reported⟩ | ⟨⟨access, missing⟩, reported⟩
    · by_cases first : n ∈ g.starters c
      · exact .inl first
      · exact .inr (repairs.refused extension texts distinct left event enters accounts first)
    · exact .inr (.undefined unknown (earlier.subset reported))
    · exact .inr (.unresolved (Node.kind_of_event event access) missing (earlier.subset reported))

/-- Events that ask for entry points in all ways: two names are asked for twice, one event has no name,
one no definition, and one watches a variable that is not there. -/
def contested : Graph := { Graph.empty "contested" with
  nodes := [
    ⟨"named", Kind.customEventName, .origin, [.text "_start"], [none], [none]⟩,
    ⟨"start", "Event_Start", .origin, [], [], [none]⟩,
    ⟨"blank", Kind.customEventName, .origin, [.text ""], [none], [none]⟩,
    ⟨"short", Kind.customEventName, .origin, [], [], []⟩,
    ⟨"unheard", "Event_Unheard", .origin, [], [], [none]⟩,
    ⟨"lost", Kind.changeEventName, .origin, [.text "gone"], [none], [none]⟩,
    ⟨"watch", Kind.changeEventName, .origin, [.text "score"], [none], [none]⟩,
    ⟨"score", Kind.variablePrefix ++ int32Type, .origin,
      [.int32 0, .text "score", .bool false, .bool false, .text "none"], List.replicate 5 none, []⟩,
    ⟨"late", Kind.customEventName, .origin, [.text "_onVarChange_score"], [none], [none]⟩] }

theorem compile_starters_contested : ∃ k, contested.compile Catalog.intrinsic false = .ok k ∧
    k.program.entryPoints.map (fun entry => some entry.name) =
        (contested.starters Catalog.intrinsic).map (contested.entryName? Catalog.intrinsic) ∧
      (k.program.entryPoints.map EntryPoint.name).Nodup ∧
      ((contested.starters Catalog.intrinsic).map Node.uid).Nodup ∧
      ∀ n ∈ contested.nodes, Text.startsWith Kind.eventPrefix n.fullName →
        n ∈ contested.starters Catalog.intrinsic ∨
          contested.Refused Catalog.intrinsic k.diagnostics n := by
  have distinct : contested.uids.Nodup := by decide
  obtain ⟨p, gives⟩ :=
    exists_program Catalog.intrinsic_extends Catalog.intrinsic_namesByText distinct
  obtain ⟨k, compiles, -⟩ := compile_of_program gives
  exact ⟨k, compiles, compile_starters Catalog.intrinsic_extends Catalog.intrinsic_namesByText distinct
    compiles⟩

/-- The first event of each name starts, in the order of the graph. -/
example : (contested.starters ⟨Catalog.intrinsics⟩).map
    (fun n => (n.uid, contested.entryName? ⟨Catalog.intrinsics⟩ n)) =
      [("named", some "_start"), ("short", some "customEvent"),
        ("watch", some "_onVarChange_score")] := by
  decide +kernel

end Graph

end ScriptGraph
