import ScriptGraph.Definition.Document
import ScriptGraph.Proofs.Catalog.Methods
import ScriptGraph.Proofs.Node.Flows
import ScriptGraph.Proofs.Session.Refused
import ScriptGraph.Proofs.Snapshot.Cycles

/-!
Entries that a node does not have. Edits check a port against the definition of a node and then go to
the entry of the node itself, which is there in every state that a session gets to. So are the flow
outputs that are moved when flows are laid out, and those that are cleared to break cycles. A new
declaration alone is written to without a look at how many inputs it has, and lacks entries if its
definition has too few.
-/

set_option autoImplicit false
set_option relaxedAutoImplicit false

namespace ScriptGraph

/-! ## Edits of well-formed graphs -/

namespace Ports

theorem lt_of_mem_between {first last index : Nat} (listed : index ∈ between first last) :
    index < last :=
  List.mem_range.mp (List.mem_of_mem_drop listed)

theorem lt_of_mem_valueInputs {d : Definition} {n : Node} {index : Nat}
    (offered : index ∈ (of d n).valueInputs) : index < d.inputs.length := by
  have visible : index ∈ visibleInputs d n := (List.mem_filter.mp offered).1
  unfold visibleInputs at visible
  dsimp only at visible
  split at visible
  · cases visible
  · cases visible
  · exact Nat.lt_of_lt_of_le (lt_of_mem_between visible) (Nat.min_le_left _ _)
  · exact Nat.lt_of_lt_of_le (lt_of_mem_between visible) (Nat.min_le_left _ _)
  · exact lt_of_mem_between visible
  · split at visible
    · cases visible
    · split at visible
      · cases visible
      · cases visible
      · cases visible
      · exact lt_of_mem_between visible

end Ports

namespace Graph

variable {c : Catalog} {g : Graph} {uid source target : Uid} {n : Node} {d : Definition}
  {name : String}

theorem WellFormed.conforms_of_found (formed : g.WellFormed c) (found : g.find? uid = some n)
    (defined : c.find? n.fullName = some d) : n.Conforms d := by
  obtain ⟨e, defined', conforms⟩ := formed.conforms n (find?_mem found)
  obtain rfl := Option.some.inj (defined'.symm.trans defined)
  exact conforms

theorem move_ne_missingEntry {position : Position} :
    g.move uid position ≠ .error (.missingEntry name) := by
  intro fails
  simp only [move, bind_eq_error, get_ne_missingEntry, pure_eq_error, and_false, exists_false,
    or_false] at fails

theorem removeNode_ne_missingEntry : g.removeNode c uid ≠ .error (.missingEntry name) := by
  intro fails
  simp only [removeNode, bind_eq_error, get_ne_missingEntry, pure_eq_error, and_false,
    exists_false, or_false] at fails

theorem connectValue_ne_missingEntry (formed : g.WellFormed c) {output input : Nat} :
    g.connectValue c source output target input ≠ .error (.missingEntry name) := by
  intro fails
  simp only [connectValue, guard_eq_error, bind_eq_error, placed_ne_missingEntry, Prod.exists,
    placed_eq_ok, pure_eq_error, reduceCtorEq, and_false, false_or, or_false] at fails
  obtain ⟨-, -, -, -, m, e, ⟨found, defined⟩, -, offered, -, short, -⟩ := fails
  rw [Bool.not_eq_true', Bool.not_eq_false, List.contains_iff_mem] at offered
  have inside := Ports.lt_of_mem_valueInputs offered
  have links := (formed.conforms_of_found found defined).links
  omega

theorem disconnectValue_ne_missingEntry {input : Nat} :
    g.disconnectValue target input ≠ .error (.missingEntry name) := by
  intro fails
  simp only [disconnectValue, bind_eq_error, get_ne_missingEntry, false_or] at fails
  obtain ⟨n, -, fails⟩ := fails
  split at fails <;> cases fails

theorem connectFlow_ne_missingEntry (formed : g.WellFormed c) {port : Nat} :
    g.connectFlow c source port target ≠ .error (.missingEntry name) := by
  intro fails
  simp only [connectFlow, guard_eq_error, bind_eq_error, placed_ne_missingEntry, Prod.exists,
    placed_eq_ok, pure_eq_error, reduceCtorEq, and_false, false_or, or_false] at fails
  obtain ⟨n, d, ⟨found, defined⟩, -, -, -, -, inside, -, short, -⟩ := fails
  have flows := (formed.conforms_of_found found defined).flows
  omega

theorem disconnectFlow_ne_missingEntry {port : Nat} :
    g.disconnectFlow c source port ≠ .error (.missingEntry name) := by
  intro fails
  simp only [disconnectFlow, bind_eq_error, get_ne_missingEntry, false_or] at fails
  obtain ⟨n, -, fails⟩ := fails
  split at fails <;> cases fails

theorem renameVariable_ne_missingEntry {given : String} :
    g.renameVariable uid given ≠ .error (.missingEntry name) := by
  intro fails
  simp only [renameVariable, bind_eq_error, get_ne_missingEntry, false_or] at fails
  obtain ⟨n, -, fails⟩ := fails
  split at fails
  · simp only [throw_eq_error, reduceCtorEq] at fails
  · simp only [guard_eq_error, reduceCtorEq, and_false, false_or] at fails
    obtain ⟨-, -, fails⟩ := fails
    split at fails <;> cases fails

theorem checkSingleChange_ne_missingEntry {except : Option Uid} :
    g.checkSingleChange uid except ≠ .error (.missingEntry name) := by
  unfold checkSingleChange
  split <;> exact fun same => by cases same

theorem storable_ne_missingEntry {index : Nat} {value : Value} :
    storable n d index value ≠ .error (.missingEntry name) := by
  unfold storable
  dsimp only
  split
  · split <;> exact fun same => by cases same
  · split <;> exact fun same => by cases same

theorem storeValue_ne_missingEntry {index : Nat} {value : Value} (inside : index < n.values.length) :
    g.storeValue n d index value ≠ .error (.missingEntry name) := by
  have room : ¬n.values.length ≤ index := Nat.not_le_of_lt inside
  intro fails
  simp only [storeValue, bind_eq_error, storable_ne_missingEntry, false_or, if_neg room] at fails
  obtain ⟨stored, -, fails⟩ := fails
  split at fails
  · split at fails
    · simp only [bind_eq_error, checkSingleChange_ne_missingEntry, pure_eq_error, and_false, or_self,
        exists_false] at fails
    · simp only [pure_eq_error] at fails
  · simp only [pure_eq_error] at fails

theorem setValue_ne_missingEntry (formed : g.WellFormed c) {index : Nat} {value : Value} :
    g.setValue c uid index value ≠ .error (.missingEntry name) := by
  intro fails
  simp only [setValue, bind_eq_error, placed_ne_missingEntry, Prod.exists, placed_eq_ok,
    guard_eq_error, reduceCtorEq, and_false, false_or] at fails
  obtain ⟨n, d, ⟨found, defined⟩, inside, fails⟩ := fails
  have values := (formed.conforms_of_found found defined).values
  split at fails
  · split at fails
    · simp only [bind_eq_error, renameVariable_ne_missingEntry, pure_eq_error, and_false,
        exists_false, or_self] at fails
    · simp only [throw_eq_error, reduceCtorEq] at fails
  · have room : index < n.values.length := by omega
    simp only [bind_eq_error, storeValue_ne_missingEntry room, pure_eq_error, and_false,
      exists_false, or_self] at fails

theorem setOverload_ne_missingEntry {fullName : String} :
    g.setOverload c uid fullName ≠ .error (.missingEntry name) := by
  intro fails
  simp only [setOverload, bind_eq_error, placed_ne_missingEntry, false_or] at fails
  obtain ⟨placed, -, fails⟩ := fails
  split at fails <;> cases fails

/-! ## Clearing flows -/

/-- Clears flow outputs one after the other, those of nodes that there are not aside. An output that its
node does not have is an end to it. -/
def clearEach? (g : Graph) : List (Uid × Nat) → Option Graph
  | [] => some g
  | (uid, port) :: rest =>
    match g.find? uid with
    | none => g.clearEach? rest
    | some n =>
      if port < n.flows.length then
        (g.update uid fun n => { n with flows := n.flows.set port none }).clearEach? rest
      else none

theorem clearEach?_eq {flows : List (Uid × Nat)}
    (there : ∀ uid port, (uid, port) ∈ flows →
      ∃ n, g.find? uid = some n ∧ port < n.flows.length) :
    g.clearEach? flows = some (g.clearFlows flows) := by
  induction flows generalizing g with
  | nil => rfl
  | cons flow flows ih =>
    obtain ⟨uid, port⟩ := flow
    obtain ⟨n, found, inside⟩ := there uid port List.mem_cons_self
    rw [clearEach?, found]
    dsimp only
    rw [if_pos inside]
    apply ih
    intro other index listed
    obtain ⟨m, found', inside'⟩ := there other index (List.mem_cons_of_mem _ listed)
    rw [find?_update (clearFlow_uid port)]
    by_cases same : other = uid
    · subst same
      obtain rfl := Option.some.inj (found.symm.trans found')
      refine ⟨_, by rw [if_pos rfl, found, Option.map_some], ?_⟩
      rw [List.length_set]
      exact inside'
    · exact ⟨m, by rw [if_neg same, found'], inside'⟩

theorem clearEach?_closingFlows (g : Graph) :
    g.clearEach? g.closingFlows = some g.breakFlowCycles.1 := by
  apply clearEach?_eq
  intro uid port listed
  obtain ⟨target, ⟨n, found, here⟩, -⟩ := (Search.Loop.run_sound g).cyclic uid port listed
  exact ⟨n, found, (List.getElem?_eq_some_iff.mp here).1⟩

end Graph

/-! ## Edits of a session -/

/-- What a name stands for has fewer inputs than every declaration gets. -/
def Catalog.Narrow (c : Catalog) (name : String) : Prop :=
  ∃ d, c.find? name = some d ∧ d.inputs.length ≤ publicInput

/-- The declarations that an action may add. -/
def Action.Declares : Action → String → Prop
  | .addVariable type _ _, name => name = Kind.variablePrefix ++ type
  | .addNode fullName _, name =>
    Kind.ofName fullName = .variable ∧ name = fullName ∨
      fullName = Kind.setReturnValueName ∧ name = Kind.variablePrefix ++ objectType
  | .reload, name => name = Kind.variablePrefix ++ objectType
  | _, _ => False

theorem Action.Declares.variable {action : Action} {name : String} (declares : action.Declares name) :
    Kind.ofName name = .variable := by
  cases action <;> try exact declares.elim
  case addVariable type given isPublic =>
    rw [show name = Kind.variablePrefix ++ type from declares]
    exact Kind.ofName_variablePrefix type
  case addNode fullName position =>
    rcases declares with ⟨declaration, rfl⟩ | ⟨-, rfl⟩
    · exact declaration
    · exact Kind.ofName_variablePrefix objectType
  case reload =>
    rw [show name = Kind.variablePrefix ++ objectType from declares]
    exact Kind.ofName_variablePrefix objectType

namespace Session

variable {α : Type} {c : Catalog} {s t : Session} {name : String}

theorem editing_missingEntry {edit : Outcome α}
    (misses : (s.editing edit).1 = .error (.missingEntry name)) :
    edit.1 = .error (.missingEntry name) := by
  unfold editing at misses
  split at misses
  · cases misses
  · exact misses

theorem adopt_missingEntry {result : Except EditError Graph}
    (misses : (s.adopt result).1 = .error (.missingEntry name)) :
    result = .error (.missingEntry name) := by
  have misses := editing_missingEntry misses
  cases result with
  | error error =>
    cases misses
    rfl
  | ok g => cases misses

theorem adoptWith_missingEntry {result : Except EditError (α × Graph)}
    (misses : (s.adoptWith result).1 = .error (.missingEntry name)) :
    result = .error (.missingEntry name) := by
  have misses := editing_missingEntry misses
  cases result with
  | error error =>
    cases misses
    rfl
  | ok given => cases misses

theorem adoptChange_missingEntry {result : Except EditError (Option Graph)}
    (misses : (s.adoptChange result).1 = .error (.missingEntry name)) :
    result = .error (.missingEntry name) := by
  have misses := editing_missingEntry misses
  match result with
  | .error error =>
    cases misses
    rfl
  | .ok none => cases misses
  | .ok (some g) => cases misses

theorem settle_edit_eq_error {outcome : Outcome α} {error : EditError} :
    (settle .edit outcome).1 = .error (.edit error) ↔ outcome.1 = .error error := by
  rcases outcome with ⟨refusal | result, t⟩
  · change Except.error (Refusal.edit refusal) = .error (.edit error) ↔ _
    rw [Except.error.injEq, Refusal.edit.injEq, Except.error.injEq]
  · constructor <;> exact fun same => by cases same

theorem settle_compile_ne_edit {outcome : Except CompileError Program × Session} {error : EditError} :
    (settle .compile outcome).1 ≠ .error (.edit error) := by
  rcases outcome with ⟨error | p, t⟩ <;> exact fun same => by cases same

/-! ### Declarations -/

theorem declare_missingEntry {d : Definition} {given : String} {isPublic : Bool}
    (misses : (s.declare d given isPublic).1 = .error (.missingEntry name)) :
    name = d.fullName ∧ d.inputs.length ≤ publicInput := by
  unfold declare at misses
  split at misses
  · rename_i short
    cases misses
    exact ⟨rfl, short⟩
  · cases misses

theorem addVariable_missingEntry {type given : String} {isPublic : Bool}
    (misses : (s.addVariable type given isPublic).1 = .error (.missingEntry name)) :
    name = Kind.variablePrefix ++ type ∧ s.catalog.Narrow name := by
  have misses := editing_missingEntry misses
  split at misses
  · rename_i unknown
    cases misses
    exact absurd unknown Catalog.get_ne_missingEntry
  · rename_i d found
    rw [Catalog.get_eq_ok] at found
    dsimp only at misses
    split at misses
    · cases misses
    · obtain ⟨rfl, short⟩ := declare_missingEntry misses
      have same := Catalog.find?_fullName found
      exact ⟨same, d, same ▸ found, short⟩

theorem addPlain_missingEntry {d : Definition} (found : s.catalog.find? d.fullName = some d)
    (fresh : s.supply.Fresh s.graph.uids) {position : Position}
    (misses : (s.addPlain d position).1 = .error (.missingEntry name)) :
    d.fullName = Kind.setReturnValueName ∧ name = Kind.variablePrefix ++ objectType ∧
      s.catalog.Narrow name := by
  let n : Node := { Node.fresh s.supply.draw.1 d with position }
  have there : (s.graph.push n).find? n.uid = some n := Graph.find?_push_new fresh.draw_unused
  have placed : (s.graph.push n).placed s.catalog s.supply.draw.1 = .ok (n, d) :=
    Graph.placed_eq_ok.mpr ⟨there, found⟩
  unfold addPlain place at misses
  dsimp only at misses
  split at misses
  · rename_i error t fails
    cases misses
    obtain ⟨rfl, short⟩ := prepare_missingEntry fails
    exact ⟨((prepare_error fails).2 n d placed).1, rfl, short⟩
  · cases misses

theorem addNode_missingEntry (fresh : s.supply.Fresh s.graph.uids) {fullName : String}
    {position : Position} (misses : (s.addNode fullName position).1 = .error (.missingEntry name)) :
    s.catalog.Narrow name ∧ (Action.addNode fullName position).Declares name := by
  have misses := editing_missingEntry misses
  split at misses
  · rename_i unknown
    cases misses
    exact absurd unknown Catalog.get_ne_missingEntry
  · rename_i d found
    rw [Catalog.get_eq_ok] at found
    split at misses
    · rename_i type starts
      rw [Text.stripStart?_eq_some] at starts
      split at misses
      · rename_i error t outcome
        have adds : (s.addVariable type defaultVariableName false).1 = .error (.missingEntry name) := by
          rw [outcome]
          exact misses
        obtain ⟨rfl, narrow⟩ := addVariable_missingEntry adds
        refine ⟨narrow, Or.inl ⟨?_, starts.symm⟩⟩
        rw [starts]
        exact Kind.ofName_variablePrefix type
      · cases misses
    · split at misses
      · cases misses
      · have same := Catalog.find?_fullName found
        obtain ⟨returns, rfl, narrow⟩ := addPlain_missingEntry (same.symm ▸ found) fresh misses
        exact ⟨narrow, Or.inr ⟨same.symm.trans returns, rfl⟩⟩

theorem reload_missingEntry {error : EditError} (fails : s.reload.1 = .error error) :
    error = .missingEntry (Kind.variablePrefix ++ objectType) ∧ s.catalog.Short := by
  unfold reload at fails
  dsimp only at fails
  split at fails
  · rename_i outcome
    cases fails
    obtain ⟨rfl, short⟩ := prepareEach_error outcome
    exact ⟨rfl, s.restore_work.1 ▸ short⟩
  · cases fails

/-! ### Actions -/

theorem removeNodes_ne_missingEntry {uids : List Uid} :
    (s.removeNodes uids).1 ≠ .error (.missingEntry name) := by
  intro misses
  unfold removeNodes at misses
  split at misses
  · cases misses
  · cases adoptWith_missingEntry misses

theorem moveNode_ne_missingEntry {uid : Uid} {position : Position} :
    (s.moveNode uid position).1 ≠ .error (.missingEntry name) := by
  intro misses
  have misses := editing_missingEntry misses
  split at misses
  · rename_i moves
    cases misses
    exact Graph.move_ne_missingEntry moves
  · cases misses

theorem renameVariable_ne_missingEntry {uid : Uid} {given : String} :
    (s.renameVariable uid given).1 ≠ .error (.missingEntry name) := by
  intro misses
  have misses := editing_missingEntry misses
  split at misses
  · rename_i renames
    cases misses
    exact Graph.renameVariable_ne_missingEntry renames
  · cases misses
  · cases misses

theorem setValue_ne_missingEntry (formed : s.graph.WellFormed s.catalog) {uid : Uid} {index : Nat}
    {value : Value} : (s.setValue uid index value).1 ≠ .error (.missingEntry name) := by
  intro misses
  unfold setValue at misses
  split at misses
  · rename_i outcome
    cases misses
    have sets := adoptChange_missingEntry (congrArg Prod.fst outcome)
    exact Graph.setValue_ne_missingEntry formed sets
  · cases misses

theorem addAccess_ne_missingEntry {use : Access} {variableUid : Uid} {position : Position} :
    (s.addAccess use variableUid position).1 ≠ .error (.missingEntry name) := by
  intro misses
  have misses := editing_missingEntry misses
  split at misses
  · rename_i refused
    cases misses
    simp only [checkAccess, guard_eq_error, reduceCtorEq, and_false, false_or] at refused
    obtain ⟨-, refused⟩ := refused
    split at refused
    · simp only [bind_eq_error, Graph.checkSingleChange_ne_missingEntry,
        Catalog.get_ne_missingEntry, and_false, exists_false, or_self] at refused
    · exact Catalog.get_ne_missingEntry refused
  · cases misses

theorem perform_missingEntry (formed : s.graph.WellFormed s.catalog)
    (fresh : s.supply.Fresh s.graph.uids) {action : Action}
    (misses : (s.perform action).1 = .error (.edit (.missingEntry name))) :
    s.catalog.Narrow name ∧ action.Declares name := by
  cases action <;> simp only [perform] at misses
  case addNode fullName position => exact addNode_missingEntry fresh (settle_edit_eq_error.mp misses)
  case addVariable type given isPublic =>
    obtain ⟨declares, narrow⟩ := addVariable_missingEntry (settle_edit_eq_error.mp misses)
    exact ⟨narrow, declares⟩
  case addAccess use variableUid position =>
    exact absurd (settle_edit_eq_error.mp misses) addAccess_ne_missingEntry
  case removeNode uid =>
    exact absurd (adoptWith_missingEntry (settle_edit_eq_error.mp misses))
      Graph.removeNode_ne_missingEntry
  case removeNodes uids => exact absurd (settle_edit_eq_error.mp misses) removeNodes_ne_missingEntry
  case moveNode uid position => exact absurd (settle_edit_eq_error.mp misses) moveNode_ne_missingEntry
  case connectValue source output target input =>
    exact absurd (adopt_missingEntry (settle_edit_eq_error.mp misses))
      (Graph.connectValue_ne_missingEntry formed)
  case disconnectValue target input =>
    exact absurd (adoptChange_missingEntry (settle_edit_eq_error.mp misses))
      Graph.disconnectValue_ne_missingEntry
  case connectFlow source port target =>
    exact absurd (adopt_missingEntry (settle_edit_eq_error.mp misses))
      (Graph.connectFlow_ne_missingEntry formed)
  case disconnectFlow source port =>
    exact absurd (adoptChange_missingEntry (settle_edit_eq_error.mp misses))
      Graph.disconnectFlow_ne_missingEntry
  case setValue uid index value =>
    exact absurd (settle_edit_eq_error.mp misses) (setValue_ne_missingEntry formed)
  case setOverload uid fullName =>
    exact absurd (adopt_missingEntry (settle_edit_eq_error.mp misses))
      Graph.setOverload_ne_missingEntry
  case renameVariable uid given =>
    exact absurd (settle_edit_eq_error.mp misses) renameVariable_ne_missingEntry
  case renewName => cases editing_missingEntry (settle_edit_eq_error.mp misses)
  case setUpdateOrder updateOrder => cases adopt_missingEntry (settle_edit_eq_error.mp misses)
  case saveRecord record => cases editing_missingEntry (settle_edit_eq_error.mp misses)
  case removeRecord uid => cases editing_missingEntry (settle_edit_eq_error.mp misses)
  case paste text anchor =>
    unfold paste at misses
    split at misses
    · cases misses
    · split at misses <;> cases misses
  case reload =>
    obtain ⟨same, short⟩ := reload_missingEntry (settle_edit_eq_error.mp misses)
    cases same
    exact ⟨short, rfl⟩
  case compile => exact absurd misses settle_compile_ne_edit
  case tick =>
    split at misses
    · exact absurd misses settle_compile_ne_edit
    · cases misses
  case configure settings => cases misses

/-! ## Which entries are missing -/

/-- Opening an asset, or an action in a state that a session gets to, comes upon a missing entry of a
node with a full name. -/
inductive Meets (c : Catalog) (name : String) : Prop
  | opening {asset : Asset} {settings : Settings} {supply : Supply}
      (misses : ofAsset c asset settings supply = .error (.missingEntry name)) : Meets c name
  | acting {s : Session} (begun : s.Begun c fun asset => asset.graph.uids.Nodup)
      (actions : List Action) {action : Action}
      (misses : ((s.after actions).perform action).1 = .error (.edit (.missingEntry name))) :
      Meets c name

theorem ofAsset_error {asset : Asset} {settings : Settings} {supply : Supply} {error : EditError}
    (fails : ofAsset c asset settings supply = .error error) :
    error = .missingEntry (Kind.variablePrefix ++ objectType) ∧ c.Short := by
  unfold ofAsset at fails
  split at fails
  · rename_i outcome
    cases fails
    exact reload_missingEntry (congrArg Prod.fst outcome)
  · cases fails

theorem ofAsset_opens (extension : c.Extends) (asset : Asset) (settings : Settings)
    (supply : Supply) : ∃ s, ofAsset c asset settings supply = .ok s := by
  cases opens : ofAsset c asset settings supply with
  | ok s => exact ⟨s, rfl⟩
  | error error =>
    obtain ⟨-, d, found, short⟩ := ofAsset_error opens
    obtain rfl : Catalog.variableOf objectType = d :=
      Option.some.inj ((extension.find?_variableOf (by decide)).symm.trans found)
    exact absurd short (by decide)

theorem after_missingEntry (distinct : c.Distinct)
    (begun : s.Begun c fun asset => asset.graph.uids.Nodup) (actions : List Action) {action : Action}
    (misses : ((s.after actions).perform action).1 = .error (.edit (.missingEntry name))) :
    c.Narrow name ∧ action.Declares name := by
  obtain ⟨rfl, sound⟩ := begun.after_sound distinct actions
  exact perform_missingEntry sound.formed sound.fresh misses

theorem Meets.narrow (distinct : c.Distinct) (meets : Meets c name) :
    Kind.ofName name = .variable ∧ c.Narrow name := by
  cases meets with
  | opening misses =>
    obtain ⟨same, short⟩ := ofAsset_error misses
    cases same
    exact ⟨Kind.ofName_variablePrefix objectType, short⟩
  | acting begun actions misses =>
    obtain ⟨narrow, declares⟩ := after_missingEntry distinct begun actions misses
    exact ⟨declares.variable, narrow⟩

theorem addVariable_narrow {type given : String} {isPublic : Bool}
    (narrow : s.catalog.Narrow (Kind.variablePrefix ++ type)) (whole : s.repairing = false)
    (free : isInternalName (sanitizedName given) = false) :
    (s.addVariable type given isPublic).1 = .error (.missingEntry (Kind.variablePrefix ++ type)) := by
  obtain ⟨d, found, short⟩ := narrow
  have known : s.catalog.get (Kind.variablePrefix ++ type) = .ok d := Catalog.get_eq_ok.mpr found
  simp only [addVariable, editing, whole, known, free, declare, if_pos short, Bool.false_eq_true,
    if_false, Catalog.find?_fullName found]

theorem Meets.of_narrow (declares : Kind.ofName name = .variable) (narrow : c.Narrow name) :
    Meets c name := by
  obtain ⟨type, rfl⟩ := Kind.ofName_variable_iff_exists.mp declares
  have misses : (((create c .default .strokes).after []).perform
      (.addVariable type defaultVariableName false)).1 =
        .error (.edit (.missingEntry (Kind.variablePrefix ++ type))) := by
    rw [after, List.foldl_nil, perform, settle_edit_eq_error]
    exact addVariable_narrow narrow rfl (by decide +kernel)
  exact .acting (.created .default (Supply.strokes_fresh (by simp))) [] misses

/-- Which entries are missing, and what asks for them. -/
structure MissingEntries (c : Catalog) : Prop where
  /-- A missing entry is met if a declaration has too few inputs, and it is an entry of that one. -/
  met_iff : ∀ name, Meets c name ↔ Kind.ofName name = .variable ∧ c.Narrow name
  /-- It is met when such a declaration is to be added. -/
  declares : ∀ s : Session, s.Begun c (fun asset => asset.graph.uids.Nodup) →
    ∀ (actions : List Action) (action : Action) (name : String),
      ((s.after actions).perform action).1 = .error (.edit (.missingEntry name)) →
        action.Declares name
  opens : c.Extends → ∀ asset settings supply, ∃ s, ofAsset c asset settings supply = .ok s
  /-- Laying flows out in place and clearing flows find all entries that they ask for. -/
  flows : ∀ d flows, Node.layInPlace? d flows = some (Node.laidOut d flows)
  cycles : ∀ g : Graph, g.clearEach? g.closingFlows = some g.breakFlowCycles.1

/-- In every state of every session entries are missing of declarations with too few inputs only. -/
theorem missingEntries_exact (distinct : c.Distinct) : MissingEntries c := by
  refine ⟨fun name => ⟨fun meets => meets.narrow distinct, fun narrow => ?_⟩,
    fun s begun actions action name misses => ?_, ofAsset_opens, Node.layInPlace?_eq,
    Graph.clearEach?_closingFlows⟩
  · exact .of_narrow narrow.1 narrow.2
  · exact (after_missingEntry distinct begun actions misses).2

def scantDocument : Json :=
  .array [.object [("full_name", .text "Variable_Tiny"),
    ("inputs", .array [.object [("name", .text "value")]])]]

def extended (document : Json) : Catalog × Option CatalogError :=
  Catalog.intrinsic.extend ((Definition.listOfJson? document).getD [])

theorem missingEntries_exact_scant : MissingEntries (extended scantDocument).1 :=
  missingEntries_exact (Catalog.intrinsic_distinct.extend _)

/-- The declaration is taken in, and then no variable can be declared by it. -/
theorem missingEntry_met : (extended scantDocument).2 = none ∧
    ((create (extended scantDocument).1 .default .strokes).perform
      (.addVariable "Tiny" "x" false)).1 = .error (.edit (.missingEntry "Variable_Tiny")) := by
  rw [extended, Catalog.intrinsic_eq]
  decide +kernel

end Session

end ScriptGraph
