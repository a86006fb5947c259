import ScriptGraph.Proofs.Compilation.Total
import ScriptGraph.Proofs.Lowering.Mirrored
import ScriptGraph.Proofs.Lowering.Views

/-!
What the program of a graph depends on. It is the same wherever nodes are shown, and with or without
a node that is bound to a variable that does not exist.
-/

set_option autoImplicit false
set_option relaxedAutoImplicit false

namespace ScriptGraph

/-- The program that compiling a graph leniently gives. -/
def Graph.program (c : Catalog) (g : Graph) : Except CompileError Program :=
  (g.compile c false).map Compilation.program

variable {c : Catalog} {g : Graph}

namespace Compilation

theorem ofSnapshot_view {view : Node → Node} (seen : Node.View view) (strict : Bool) (snapshot : Graph)
    (diagnostics : List Diagnostic) : ofSnapshot c strict (snapshot.mapNodes view) diagnostics =
      ofSnapshot c strict snapshot diagnostics := by
  simp only [ofSnapshot, lower, HeapLayout.ofGraph_view seen, Lowering.streams_view seen]
  rfl

theorem lower_behind (c : Catalog) (snapshot : Graph) (front : List Diagnostic) :
    lower c snapshot front = (lower c snapshot []).map (Prod.map id (Lowering.behind front)) := by
  have shifted := Lowering.streams_blind c snapshot front ⟨.ofGraph c snapshot, [], 0, []⟩
  rwa [Lowering.behind, List.append_nil] at shifted

/-- A repaired snapshot has one program, whatever has been reported for it, and its own reports follow
those that there are. -/
theorem exists_ofSnapshot {snapshot : Graph} (extension : c.Extends)
    (repaired : snapshot.Repaired c) : ∃ program found, ∀ strict front,
      ofSnapshot c strict snapshot front =
        (checked strict (front ++ found)).map fun _ => ⟨program, front ++ found⟩ := by
  obtain ⟨streams, lowering, lowered⟩ := exists_lower extension repaired []
  let program : Program := ⟨snapshot.name, snapshot.updateOrder, Assembly.entries 0 streams,
    Assembly.encoded (Assembly.addressOf (Assembly.allOps streams)) (Assembly.allOps streams),
    lowering.heap.symbols.toList⟩
  refine ⟨program, lowering.diagnostics, fun strict front => ?_⟩
  have shifted := lower_behind c snapshot front
  rw [lowered] at shifted
  exact ofSnapshot_of_lower shifted strict

theorem program_ofSnapshot (c : Catalog) (snapshot : Graph) (front : List Diagnostic) :
    (ofSnapshot c false snapshot front).map program =
      (ofSnapshot c false snapshot []).map program := by
  have shifted := lower_behind c snapshot front
  cases lowered : lower c snapshot [] with
  | error error =>
    rw [lowered] at shifted
    rw [ofSnapshot_of_error shifted, ofSnapshot_of_error lowered]
  | ok result =>
    obtain ⟨streams, lowering⟩ := result
    rw [lowered] at shifted
    rw [ofSnapshot_of_lower shifted, ofSnapshot_of_lower lowered, checked_lenient, checked_lenient]
    rfl

theorem lenient_of_ofSnapshot {strict : Bool} {snapshot : Graph} {diagnostics : List Diagnostic}
    {k : Compilation} (compiles : ofSnapshot c strict snapshot diagnostics = .ok k) :
    ofSnapshot c false snapshot diagnostics = .ok k := by
  cases lowered : lower c snapshot diagnostics with
  | error error =>
    rw [ofSnapshot_of_error lowered] at compiles
    cases compiles
  | ok result =>
    obtain ⟨streams, lowering⟩ := result
    rw [ofSnapshot_of_lower lowered] at compiles ⊢
    rw [checked_lenient]
    cases passed : checked strict lowering.diagnostics with
    | error error =>
      rw [passed] at compiles
      cases compiles
    | ok _ =>
      rw [passed] at compiles
      exact compiles

end Compilation

namespace Graph

theorem program_of_compile {strict : Bool} {k : Compilation} (compiles : g.compile c strict = .ok k) :
    g.program c = .ok k.program := by
  have lenient : g.compile c false = .ok k := Compilation.lenient_of_ofSnapshot compiles
  rw [program, lenient]
  rfl

theorem compile_of_program {p : Program} (gives : g.program c = .ok p) :
    ∃ k, g.compile c false = .ok k ∧ k.program = p := by
  unfold program at gives
  cases compiled : g.compile c false with
  | error error =>
    rw [compiled] at gives
    cases gives
  | ok k =>
    rw [compiled] at gives
    exact ⟨k, rfl, Except.ok.inj gives⟩

theorem exists_program (extension : c.Extends) (texts : c.NamesByText) (distinct : g.uids.Nodup) :
    ∃ p, g.program c = .ok p := by
  obtain ⟨streams, lowering, lowered⟩ := Compilation.exists_lower extension
    (snapshot_repaired extension texts distinct) (g.snapshot c).2
  have compiles := Compilation.ofSnapshot_of_lower lowered false
  rw [Compilation.checked_lenient] at compiles
  exact ⟨_, program_of_compile compiles⟩

theorem compile_unplaced (c : Catalog) (strict : Bool) (g : Graph) :
    g.unplaced.compile c strict = g.compile c strict := by
  rw [compile, snapshot_unplaced]
  exact Compilation.ofSnapshot_view Node.view_unplaced strict _ _

theorem program_move (c : Catalog) (g : Graph) (uid : Uid) (position : Position) :
    (g.update uid fun n => { n with position }).program c = g.program c := by
  rw [program, ← compile_unplaced, move_unplaced, compile_unplaced, program]

/-! ## Nodes bound to missing variables -/

variable {n : Node}

/-- A node is bound to no node of a graph, and its uid is that of none. -/
structure Strays (g : Graph) (n : Node) : Prop where
  access : n.access?.isSome
  new : n.uid ∉ g.uids
  lost : ∀ uid, n.target? = some uid → uid ∉ (g.push n).uids

theorem Strays.filter (strays : g.Strays n) (keeps : Node → Bool) :
    ({ g with nodes := g.nodes.filter keeps } : Graph).Strays n := by
  have fewer : ∀ uid, uid ∈ (g.nodes.filter keeps).map Node.uid → uid ∈ g.uids :=
    fun uid listed => (List.filter_sublist.map Node.uid).subset listed
  refine ⟨strays.access, fun listed => strays.new (fewer _ listed), fun uid bound listed => ?_⟩
  refine strays.lost uid bound ?_
  simp only [uids, push, List.map_append, List.mem_append] at listed ⊢
  exact listed.imp_left (fewer uid)

theorem not_isVariable_of_access? (access : n.access?.isSome) : n.variableName? = none := by
  rw [Node.variableName?, if_neg]
  intro declares
  have kind : n.kind = .variable := of_decide_eq_true declares
  rw [Node.access?, kind] at access
  cases access

theorem Strays.targetName? (strays : g.Strays n) (m : Node) :
    (g.push n).targetName? m = g.targetName? m := by
  unfold Graph.targetName?
  congr 1
  funext uid
  change ((g.nodes ++ [n]).find? _).bind _ = _
  rw [List.find?_append, List.find?_singleton]
  rw [show g.nodes.find? _ = g.find? uid from rfl]
  cases g.find? uid with
  | some other => rfl
  | none =>
    rw [Option.none_or]
    split
    · exact not_isVariable_of_access? strays.access
    · rfl

theorem Strays.unresolved (strays : g.Strays n) :
    (g.push n).unresolved = g.unresolved ++ [n.uid] := by
  have lost : (g.push n).targetName? n = none := by
    rw [Graph.targetName?, Option.bind_eq_none_iff]
    intro uid bound
    cases found : (g.push n).find? uid with
    | none => rfl
    | some m =>
      obtain rfl := find?_uid found
      exact absurd (uid_mem (find?_mem found)) (strays.lost _ bound)
  have passes : (n.access?.isSome && ((g.push n).targetName? n).isNone) = true := by
    rw [strays.access, lost]
    rfl
  unfold Graph.unresolved
  rw [push, List.filter_append, List.map_append]
  congr 1
  · congr 1
    refine List.filter_congr fun m _ => ?_
    rw [← push, strays.targetName? m]
  · rw [List.filter_singleton, ← push, passes]
    rfl

private theorem foldl_remove_push (removed : List Uid) (g : Graph) (other : n.uid ∉ removed) :
    removed.foldl remove (g.push n) = (removed.foldl remove g).push n := by
  induction removed generalizing g with
  | nil => rfl
  | cons uid removed ih =>
    have first : (g.push n).remove uid = (g.remove uid).push n := by
      simp only [remove, push, List.eraseP_append]
      split
      · rfl
      · rename_i absent
        have apart : n.uid ≠ uid := fun same => other (same ▸ List.mem_cons_self)
        rw [List.eraseP_of_forall_not (l := [n]) (by simp [apart]),
          List.eraseP_of_forall_not (l := g.nodes) (by simpa using absent)]
    rw [List.foldl_cons, List.foldl_cons, first,
      ih _ fun listed => other (List.mem_cons_of_mem uid listed)]

private theorem remove_push (new : n.uid ∉ g.uids) : (g.push n).remove n.uid = g := by
  have absent : ∀ m ∈ g.nodes, ¬(m.uid == n.uid) = true := fun m listed same =>
    new (beq_iff_eq.mp same ▸ uid_mem listed)
  simp only [remove, push, List.eraseP_append]
  rw [if_neg (by simpa using absent), List.eraseP_cons_of_pos (by simp), List.append_nil]

theorem Strays.removeUnresolved (strays : g.Strays n) :
    (g.push n).removeUnresolved.1 = g.removeUnresolved.1 := by
  have named : ∀ uid ∈ g.unresolved, uid ∈ g.uids := fun uid listed =>
    (List.filter_sublist.map Node.uid).subset listed
  have others : n.uid ∉ g.unresolved := fun listed => strays.new (named _ listed)
  have left : ∀ (removed : List Uid) (h : Graph), n.uid ∉ h.uids →
      n.uid ∉ (removed.foldl remove h).uids := by
    intro removed
    induction removed with
    | nil => exact fun _ => id
    | cons uid removed ih =>
      exact fun h new => ih _ fun listed => new ((List.eraseP_sublist.map Node.uid).subset listed)
  change (g.push n).unresolved.foldl remove (g.push n) = g.unresolved.foldl remove g
  rw [strays.unresolved, List.foldl_append, foldl_remove_push _ _ others]
  exact remove_push (left _ g strays.new)

theorem Strays.program (strays : g.Strays n) (defined : (c.find? n.fullName).isSome) :
    (g.push n).program c = g.program c := by
  have shown : n.kind ≠ .comment := by
    intro kind
    have access := strays.access
    rw [Node.access?, kind] at access
    cases access
  have comments : (g.push n).removeComments = g.removeComments.push n := by
    simp [removeComments, push, List.filter_append, shown]
  have undefined : (g.removeComments.push n).removeUndefined c =
      ((g.removeComments.removeUndefined c).1.push n, (g.removeComments.removeUndefined c).2) := by
    have known : (c.find? n.fullName).isNone = false := by
      rw [← Option.not_isSome, defined]
      rfl
    simp [removeUndefined, push, List.filter_append, defined, known]
  have resolved : ((g.removeComments.removeUndefined c).1.push n).removeUnresolved.1 =
      (g.removeComments.removeUndefined c).1.removeUnresolved.1 :=
    ((strays.filter _).filter _).removeUnresolved
  have same : ((g.push n).snapshot c).1 = (g.snapshot c).1 := by
    simp only [snapshot, comments, undefined, resolved]
  simp only [Graph.program, compile, same]
  rw [Compilation.program_ofSnapshot, Compilation.program_ofSnapshot c _ (g.snapshot c).2]

end Graph

end ScriptGraph
