import ScriptGraph.Proofs.Clipping.Copies
import ScriptGraph.Proofs.Clipping.RoundTrip
import ScriptGraph.Proofs.Compilation.Renaming
import ScriptGraph.Proofs.Compilation.Reordering
import ScriptGraph.Proofs.Session.Acyclic
import ScriptGraph.Proofs.Session.Names

/-!
Programs of copies. All nodes of a graph, copied and pasted into a session without nodes, compile to the
program of the graph but for its name, its update order and the slots of its variables: the variables
that nodes are bound to come first in the copy.
-/

set_option autoImplicit false
set_option relaxedAutoImplicit false

namespace ScriptGraph

variable {c : Catalog} {g : Graph} {t : Session}

/-- The uids that a node mentions besides those of its connections: its own, that of the variable it is
bound to, and what its full name goes on with after that of an event for the changes of a variable. -/
def Node.mentions (n : Node) : List Uid :=
  n.uid :: (n.target?.toList ++ (Text.stripStart? (Kind.changeEventName ++ "|") n.fullName).toList)

namespace Graph

/-- The uids that mean something in a graph. The empty one means that there is no node. -/
def mentions (g : Graph) : List Uid := "" :: g.nodes.flatMap Node.mentions

/-- A graph that loses nothing by being copied: its uids can be told from other texts, its variables
have names of their own, no flows lead round in a circle, no two single events are the same, and nodes
are bound to variables or to nothing that is there. -/
structure Portable (g : Graph) : Prop where
  uids : ∀ u ∈ g.uids, u ≠ "" ∧ '|' ∉ u.toList
  named : g.Named
  acyclic : g.Acyclic
  events : g.Unique Node.singleKey?
  targets : ∀ n ∈ g.nodes, ∀ m, n.target?.bind g.find? = some m → m.isVariable

theorem Portable.of_nodup (uids : ∀ u ∈ g.uids, u ≠ "" ∧ '|' ∉ u.toList)
    (named : ∀ n ∈ g.nodes, n.isVariable → n.variableName?.isSome)
    (names : (g.nodes.filterMap Node.variableName?).Nodup)
    (acyclic : ∀ n ∈ g.nodes, n.uid ∉ g.flowSuccessors n.uid)
    (events : (g.nodes.filterMap Node.singleKey?).Nodup)
    (targets : ∀ n ∈ g.nodes, ∀ m ∈ n.target?.bind g.find?, m.isVariable) : g.Portable :=
  ⟨uids, ⟨named, .of_nodup names⟩, acyclic, .of_nodup events, targets⟩

/-- Two graphs compile to programs that differ in their names, their update orders and the slots of
variables only. -/
def CompilesLike (c : Catalog) (g h : Graph) : Prop :=
  ∃ (π : Equiv.Perm Slot) (k l : Compilation),
    (∀ slot : Nat, (g.snapshot c).1.variableNodes.length ≤ slot → π slot = slot) ∧
      g.compile c false = .ok k ∧ h.compile c false = .ok l ∧ k.program.Renumbered π l.program

theorem mem_mentions_of_uid {u : Uid} (listed : u ∈ g.uids) : u ∈ g.mentions := by
  obtain ⟨n, hn, rfl⟩ := List.mem_map.mp listed
  exact List.mem_cons_of_mem _ (List.mem_flatMap.mpr ⟨n, hn, List.mem_cons_self⟩)

theorem mem_mentions_of_target {n : Node} {u : Uid} (listed : n ∈ g.nodes)
    (bound : n.target? = some u) : u ∈ g.mentions := by
  refine List.mem_cons_of_mem _ (List.mem_flatMap.mpr ⟨n, listed, List.mem_cons_of_mem _ ?_⟩)
  rw [bound]
  exact List.mem_append_left _ List.mem_cons_self

theorem mem_mentions_of_fullName {n : Node} {u : Uid} (listed : n ∈ g.nodes)
    (named : n.fullName = Kind.changeEventName ++ "|" ++ u) : u ∈ g.mentions := by
  have found : Text.stripStart? (Kind.changeEventName ++ "|") n.fullName = some u :=
    Text.stripStart?_eq_some.mpr named
  refine List.mem_cons_of_mem _ (List.mem_flatMap.mpr ⟨n, listed, List.mem_cons_of_mem _ ?_⟩)
  rw [found]
  exact List.mem_append_right _ List.mem_cons_self

theorem Portable.reads (portable : g.Portable) (formed : g.WellFormed c)
    (legible : ∀ n ∈ (g.clip g.uids).nodes, n.Legible) :
    ∃ clipping, Clipping.ofText (g.clip g.uids).toText = .ok clipping ∧
      clipping.nodes.map Node.unplaced = g.boundFirst.nodes.map Node.unplaced := by
  rw [← clip_uids formed.distinct]
  refine Clipping.ofText_toText_of_kept fun m hm => ?_
  obtain ⟨n, hn, place, same⟩ := mem_clip hm
  have links : ∀ link, some link ∈ m.links → link.node ≠ "" ∧ '|' ∉ link.node.toList := by
    rw [same]
    exact fun link linked => portable.uids _ (formed.links n hn link linked)
  have flows : ∀ target, some target ∈ m.flows → target ≠ "" := by
    rw [same]
    exact fun target leads => (portable.uids _ (formed.flows n hn target leads)).1
  obtain ⟨position, reads⟩ := (legible m hm).ofJson?_readBack links flows
  exact ⟨_, reads, rfl⟩

end Graph

namespace Session

theorem insert_renames (portable : g.Portable) (formed : g.WellFormed t.catalog)
    (blank : t.graph.nodes = []) (fresh : t.supply.Fresh g.mentions) {clipping : Clipping}
    (copied : clipping.nodes.map Node.unplaced = g.boundFirst.nodes.map Node.unplaced)
    (anchor : Position) : ∃ ρ : Uid → Uid, ρ.Injective ∧ ρ "" = "" ∧
      (t.insert clipping anchor).2.graph.unplaced =
        (({ t.graph with nodes := g.boundFirst.nodes } : Graph).rename ρ).unplaced := by
  let h : Graph := { t.graph with nodes := clipping.nodes }
  let new := t.supply.upcoming h.nodes.length
  let ρ := exchange h.uids new
  have copied : h.CopyOf g := copied
  have repeats := fun n hn => copied.mem (m := n) formed.distinct portable.targets hn
  have listed := fun u => copied.mem_uids (u := u) formed.distinct portable.targets
  have whole := copied.wellFormed formed portable.targets
  have echoes := copied.echoes formed.distinct portable.targets
  have named := portable.named.of_echoes echoes
  have unused : ∀ u ∈ g.mentions, u ∉ new := fun u mentioned drawn =>
    fresh.upcoming_unused drawn mentioned
  have length : h.uids.length = new.length := by
    simp only [new, Graph.uids, Supply.upcoming, List.length_map, List.length_range']
  have apart : (h.uids ++ new).Nodup :=
    List.nodup_append'.mpr ⟨whole.distinct, fresh.upcoming_nodup _, fun u old =>
      unused u (Graph.mem_mentions_of_uid ((listed u).mp old))⟩
  have renames : h.uids.map ρ = new := map_exchange apart length
  have empty : ρ "" = "" := exchange_eq_self
    (fun old => (portable.uids _ ((listed _).mp old)).1 rfl) (unused _ List.mem_cons_self)
  have stays : ∀ n ∈ h.nodes, ∀ u, n.target? = some u → u ∉ h.uids → ρ u = u := by
    intro n hn u bound unlisted
    obtain ⟨m, hm, position, rfl⟩ := repeats n hn
    exact exchange_eq_self unlisted (unused u (Graph.mem_mentions_of_target hm bound))
  have unheard : ∀ n ∈ h.nodes, ∀ u ∈ h.uids,
      n.fullName ≠ Kind.changeEventName ++ "|" ++ ρ u := by
    intro n hn u hu called
    obtain ⟨m, hm, position, rfl⟩ := repeats n hn
    refine unused _ (Graph.mem_mentions_of_fullName hm called) ?_
    rw [← renames]
    exact List.mem_map_of_mem hu
  have injective : ρ.Injective := (exchange_involutive apart length).injective
  have copies : Plan.Copies anchor t.supply ρ h.nodes
      (Plan.ofClipping t.catalog t.graph anchor t.supply clipping) :=
    Plan.ofClipping_copies blank whole named.named named.apart renames
  have additions := copies.additions_eq blank whole
    (portable.events.of_echoes echoes Node.Echoes.singleKey?) injective empty stays unheard
  have conforms : ∀ m ∈ h.nodes.map fun n => (Plan.shifted anchor n).rename ρ,
      ∃ d, t.catalog.find? m.fullName = some d ∧ m.Conforms d := by
    intro m hm
    obtain ⟨n, hn, rfl⟩ := List.mem_map.mp hm
    obtain ⟨d, found, conforms⟩ := whole.conforms n hn
    exact ⟨d, found, (conforms.of_same rfl rfl rfl : (Plan.shifted anchor n).Conforms d).rename ρ⟩
  have unplaced : (h.nodes.map fun n => (Plan.shifted anchor n).rename ρ).map Node.unplaced =
      (g.boundFirst.nodes.map (Node.rename ρ)).map Node.unplaced := by
    have commutes : ∀ nodes : List Node, (nodes.map (Node.rename ρ)).map Node.unplaced =
        (nodes.map Node.unplaced).map (Node.rename ρ) := fun nodes => by
      rw [List.map_map, List.map_map]
      rfl
    rw [commutes, ← copied, List.map_map, List.map_map]
    rfl
  refine ⟨ρ, injective, empty, ?_⟩
  rw [insert]
  dsimp only [touched]
  rw [additions, blank, List.nil_append, Graph.foldl_relayout_eq conforms]
  simp only [Graph.unplaced, Graph.mapNodes, Graph.rename, unplaced]

theorem insert_compilesLike (extension : t.catalog.Extends) (portable : g.Portable)
    (formed : g.WellFormed t.catalog) (blank : t.graph.nodes = []) (fresh : t.supply.Fresh g.mentions)
    {clipping : Clipping}
    (copied : clipping.nodes.map Node.unplaced = g.boundFirst.nodes.map Node.unplaced)
    (anchor : Position) : g.CompilesLike t.catalog (t.insert clipping anchor).2.graph ∨
      ¬t.catalog.NamesByText ∧ ∃ error other, g.compile t.catalog false = .error error ∧
        (t.insert clipping anchor).2.graph.compile t.catalog false = .error other := by
  obtain ⟨ρ, injective, empty, unplaced⟩ := insert_renames portable formed blank fresh copied anchor
  have ahead := Graph.boundFirst_reorders formed.distinct portable.targets
  have reorders : g.Reorders { t.graph with nodes := g.boundFirst.nodes } := ⟨ahead.same, ahead.others⟩
  obtain ⟨π, later, agree⟩ := reorders.program (c := t.catalog) formed.distinct
    ((Graph.acyclic_iff formed.distinct).mp portable.acyclic)
  have renamed : (t.insert clipping anchor).2.graph.compile t.catalog false =
      renamedOutcome ρ (Compilation.rename ρ)
        (({ t.graph with nodes := g.boundFirst.nodes } : Graph).compile t.catalog false) := by
    rw [← Graph.compile_unplaced, unplaced, Graph.compile_unplaced]
    exact Graph.compile_rename_eq extension (reorders.distinct formed.distinct) injective empty
  rcases Graph.compile_of_agree agree with ⟨k, l, original, copied, renumbered⟩ |
    ⟨error, original, copied⟩
  · rw [copied] at renamed
    exact Or.inl ⟨π, k, l.rename ρ, later, original, renamed, renumbered⟩
  · rw [copied] at renamed
    refine Or.inr ⟨fun texts => ?_, error, _, original, renamed⟩
    obtain ⟨p, gives⟩ := Graph.exists_program extension texts formed.distinct
    obtain ⟨k, compiles, -⟩ := Graph.compile_of_program gives
    cases original.symm.trans compiles

/-- All nodes of a graph, whatever has been done to it, can be copied and pasted into a session without
nodes, if the graph is portable and what is written of its nodes is legible. The copy compiles like the
graph. Neither compiles if a declaration has lost its name, which takes a catalog that
does not declare names as texts. -/
theorem copied_program (distinct : c.Distinct) (extension : c.Extends) {s : Session}
    (begun : s.Begun c fun asset => asset.graph.uids.Nodup) (actions : List Action)
    (portable : (s.after actions).graph.Portable)
    (legible : ∀ n ∈ ((s.after actions).graph.clip (s.after actions).graph.uids).nodes, n.Legible)
    (registry : t.catalog = c) (blank : t.graph.nodes = []) (ready : t.repairing = false)
    (fresh : t.supply.Fresh (s.after actions).graph.mentions) (anchor : Position) :
    ∃ uids u, t.paste ((s.after actions).copy (s.after actions).graph.uids) anchor = (.ok uids, u) ∧
      ((s.after actions).graph.CompilesLike c u.graph ∨
        ¬c.NamesByText ∧ ∃ error other, (s.after actions).graph.compile c false = .error error ∧
          u.graph.compile c false = .error other) := by
  obtain ⟨rfl, sound⟩ := begun.sound distinct
  have formed : (s.after actions).graph.WellFormed s.catalog := (after_induct (Sound s.catalog) s
    (fun _ _ _ _ _ _ change => change.sound distinct) sound).2.formed
  rw [← registry] at extension formed ⊢
  obtain ⟨clipping, reads, copied⟩ := portable.reads formed legible
  have pastes : t.paste ((s.after actions).copy (s.after actions).graph.uids) anchor =
      (.ok (t.insert clipping anchor).1, (t.insert clipping anchor).2) := by
    rw [paste, ready, copy, reads]
    rfl
  exact ⟨_, _, pastes, insert_compilesLike extension portable formed blank fresh copied anchor⟩

def assigning : List Action := [
  .addNode "Event_Start" .origin,
  .addVariable int32Type "spare" false,
  .addVariable int32Type "count" true,
  .addAccess .set "aaaa" .origin,
  .addAccess .get "aaaa" .origin,
  .connectFlow "aa" 0 "aaaaa",
  .connectValue "aaaaaa" 0 "aaaaa" 1]

def assigned : Graph := { Graph.empty "a" with
  nodes := [
    ⟨"aa", "Event_Start", .origin, [], [], [some "aaaaa"]⟩,
    ⟨"aaa", "Variable_SystemInt32", .origin,
      [.int32 0, .text "spare", .bool false, .bool false, .text "none"],
      [none, none, none, none, none], []⟩,
    ⟨"aaaa", "Variable_SystemInt32", .origin,
      [.int32 0, .text "count", .bool true, .bool false, .text "none"],
      [none, none, none, none, none], []⟩,
    ⟨"aaaaa", Kind.setVariableName, .origin, [.text "aaaa", .null, .bool false],
      [none, some ⟨"aaaaaa", 0⟩, none], [none]⟩,
    ⟨"aaaaaa", Kind.getVariableName, .origin, [.text "aaaa"], [none], []⟩] }

private theorem assigned_portable : assigned.Portable :=
  .of_nodup (by decide) (by decide) (by decide) (by decide +kernel) (by decide +kernel)
    (by decide +kernel)

theorem copied_program_assigned : ∃ uids u,
    (create Catalog.intrinsic .default (.marks 'b')).paste
      (((create Catalog.intrinsic .default (.marks 'a')).after assigning).copy
        ((create Catalog.intrinsic .default (.marks 'a')).after assigning).graph.uids) .origin =
          (.ok uids, u) ∧
      ((create Catalog.intrinsic .default (.marks 'a')).after assigning).graph.CompilesLike
        Catalog.intrinsic u.graph := by
  have made : ((create Catalog.intrinsic .default (.marks 'a')).after assigning).graph = assigned := by
    decide +kernel
  have portable : ((create Catalog.intrinsic .default (.marks 'a')).after assigning).graph.Portable := by
    rw [made]
    exact assigned_portable
  have legible : ∀ n ∈ (((create Catalog.intrinsic .default (.marks 'a')).after assigning).graph.clip
      ((create Catalog.intrinsic .default (.marks 'a')).after assigning).graph.uids).nodes, n.Legible := by
    rw [made]
    decide +kernel
  have fresh : (create Catalog.intrinsic .default (.marks 'b')).supply.Fresh
      ((create Catalog.intrinsic .default (.marks 'a')).after assigning).graph.mentions := by
    have unmarked : ∀ u ∈ assigned.mentions, u ≠ "" → u.toList.any (· ≠ 'b') := by decide +kernel
    rw [made]
    exact (Supply.marks_fresh unmarked).draw.of_subset fun u listed => List.mem_append_left _ listed
  have begun : (create Catalog.intrinsic .default (.marks 'a')).Begun Catalog.intrinsic
      fun asset => asset.graph.uids.Nodup :=
    .created .default (Supply.marks_fresh fun _ listed => absurd listed List.not_mem_nil)
  obtain ⟨uids, u, pasted, alike | ⟨lost, -⟩⟩ := copied_program Catalog.intrinsic_distinct
    Catalog.intrinsic_extends begun assigning portable legible
    (create_catalog _ .default (.marks 'b')) rfl rfl fresh .origin
  · exact ⟨uids, u, pasted, alike⟩
  · exact absurd Catalog.intrinsic_namesByText lost

def outlying : Graph := { Graph.empty "a" with
  nodes := [⟨"aa", "Event_Start", ⟨⟨0x7F61B1E6⟩, .zero⟩, [], [], [none]⟩] }

private theorem outlying_portable : outlying.Portable :=
  .of_nodup (by decide) (by decide) (by decide) (by decide +kernel) (by decide +kernel)
    (by decide +kernel)

/-- A node far out: its center is out of range, and there is no text for its place around it. -/
theorem outlying_lost :
    ((create Catalog.intrinsic .default (.marks 'a')).perform
      (.addNode "Event_Start" ⟨⟨0x7F61B1E6⟩, .zero⟩)).2.graph = outlying ∧ outlying.Portable ∧
    (∀ n ∈ outlying.nodes, n.position.x.isFinite ∧ n.position.y.isFinite) ∧
    ((create Catalog.intrinsic .default (.marks 'b')).paste
      (((create Catalog.intrinsic .default (.marks 'a')).perform
        (.addNode "Event_Start" ⟨⟨0x7F61B1E6⟩, .zero⟩)).2.copy outlying.uids) .origin).1 =
          .error (.clipping .format) := by
  have made : ((create Catalog.intrinsic .default (.marks 'a')).perform
      (.addNode "Event_Start" ⟨⟨0x7F61B1E6⟩, .zero⟩)).2.graph = outlying := by decide +kernel
  have lost : (outlying.clip outlying.uids).nodes.mapM
      (fun n => Node.ofJson? (n.toJson.readBack 2)) = none := by decide +kernel
  have unreadable : Clipping.ofText (outlying.clip outlying.uids).toText = .error .format := by
    rw [Clipping.ofText_toText, lost]
  refine ⟨made, outlying_portable, by decide +kernel, ?_⟩
  rw [paste, copy, made, unreadable]
  rfl

end Session

end ScriptGraph
