import ScriptGraph.Proofs.Catalog.Distinct
import ScriptGraph.Proofs.Editing.Outcomes
import ScriptGraph.Proofs.Graph.Lookup
import ScriptGraph.Session.Action
import Mathlib.Logic.Relation

/-!
What operations do to the graph of a session. However an operation ends, it has made a sequence of
changes of few sorts, each of which has checked what it needs, and nothing else has happened to the
graph and to the supply of identities.
-/

set_option autoImplicit false
set_option relaxedAutoImplicit false

namespace ScriptGraph

namespace Graph

def uncommented (g : Graph) : Graph :=
  (Session.comments g).foldl (fun g n => g.extract n.uid) g

def repaired (c : Catalog) (g : Graph) : Graph :=
  ((g.uncommented.removeUndefined c).1.restoreConnections c).1

def extended (c : Catalog) (g : Graph) (additions : List Node) : Graph :=
  (additions.map Node.uid).foldl (fun g uid => g.relayout c uid)
    { g with nodes := g.nodes ++ additions }

end Graph

/-- A graph with the supply of identities for its new nodes. -/
abbrev Workspace := Graph × Supply

/-- A single change that an action makes. -/
inductive Change (c : Catalog) : Action → Workspace → Workspace → Prop
  | draw {a g p} : Change c a (g, p) (g, p.draw.2)
  | rename {a g p} (name : String) : Change c a (g, p) ({ g with name }, p)
  | reorder {a g p} (updateOrder : Int32) : Change c a (g, p) ({ g with updateOrder }, p)
  | move {a g p} (uid : Uid) (position : Position) :
    Change c a (g, p) (g.update uid fun n => { n with position }, p)
  /-- A variable is declared. -/
  | declare {a g p} {d : Definition} (found : c.find? d.fullName = some d)
      (declares : d.kind = .variable) (room : publicInput < d.inputs.length) {name : String}
      (free : isInternalName name = false ∨ name = returnVariableName) (isPublic : Bool) :
    Change c a (g, p) (g.push (Session.declaration d (g.unusedNameLike name) isPublic p.draw.1),
      p.draw.2)
  /-- A node is added that declares no variable. -/
  | add {a g p} {d : Definition} (found : c.find? d.fullName = some d)
      (other : d.kind ≠ .variable)
      (single : d.kind = .event → ∀ n ∈ g.nodes, n.fullName ≠ d.fullName) (position : Position) :
    Change c a (g, p) (g.push { Node.fresh p.draw.1 d with position }, p.draw.2)
  /-- A node is added that makes a use of a variable. -/
  | access {a g p} {use : Access} {variableUid : Uid} {d : Definition}
      (found : c.find? use.fullName = some d)
      (declared : (g.find? variableUid).any Node.isVariable)
      (single : use = .change → g.checkSingleChange variableUid none = .ok ()) (position : Position) :
    Change c a (g, p) (g.push
      { Node.fresh p.draw.1 d with
        position, values := (Node.fresh p.draw.1 d).values.set 0 (.text variableUid) }, p.draw.2)
  /-- A node is bound to the variable it needs. -/
  | bind {a g p} {uid target : Uid} {n : Node} {d : Definition} {name type : String}
      (found : g.find? uid = some n) (defined : c.find? n.fullName = some d)
      (needs : (Manner.ofName n.fullName).internalVariable? = some (name, type)) :
    Change c a (g, p) (g.update uid fun n => { n with values := n.values.set 0 (.text target) }, p)
  | removeNode {a g p} {uid : Uid} {removed : List Uid} {h : Graph}
      (removes : g.removeNode c uid = .ok (removed, h)) : Change c a (g, p) (h, p)
  | connectValue {a g p} {source target : Uid} {output input : Nat} {h : Graph}
      (connects : g.connectValue c source output target input = .ok h) : Change c a (g, p) (h, p)
  | disconnectValue {a g p} {target : Uid} {input : Nat} {h : Graph}
      (clears : g.disconnectValue target input = .ok (some h)) : Change c a (g, p) (h, p)
  | connectFlow {a g p} {source target : Uid} {port : Nat} {h : Graph}
      (connects : g.connectFlow c source port target = .ok h) : Change c a (g, p) (h, p)
  | disconnectFlow {a g p} {source : Uid} {port : Nat} {h : Graph}
      (clears : g.disconnectFlow c source port = .ok (some h)) : Change c a (g, p) (h, p)
  | renameVariable {a g p} {uid : Uid} {name given : String} {h : Graph}
      (renames : g.renameVariable uid name = .ok (given, some h)) : Change c a (g, p) (h, p)
  | setValue {a g p} {uid : Uid} {index : Nat} {value : Value} {h : Graph}
      (sets : g.setValue c uid index value = .ok (some h)) : Change c a (g, p) (h, p)
  | setOverload {uid : Uid} {fullName : String} {g p} {h : Graph}
      (switches : g.setOverload c uid fullName = .ok h) :
    Change c (.setOverload uid fullName) (g, p) (h, p)
  | repair {a g p} : Change c a (g, p) (g.repaired c, p)
  | paste {text : String} {anchor : Position} {g p} {clipping : Clipping}
      (holds : Clipping.ofText text = .ok clipping) :
    Change c (.paste text anchor) (g, p)
      (g.extended c ((Plan.ofClipping c g anchor p clipping).additions g),
        (Plan.ofClipping c g anchor p clipping).supply)

abbrev Changes (c : Catalog) (a : Action) : Workspace → Workspace → Prop :=
  Relation.ReflTransGen (Change c a)

theorem Manner.internalVariable?_name {manner : Manner} {name type : String}
    (needs : manner.internalVariable? = some (name, type)) : name = returnVariableName := by
  cases manner <;> simp_all [internalVariable?]

theorem Manner.fullName_of_internalVariable? {fullName : String}
    (needs : (ofName fullName).internalVariable?.isSome) : fullName = Kind.setReturnValueName := by
  have manner : ofName fullName = .returnValue := by
    cases manner : ofName fullName <;> rw [manner] at needs <;> first | rfl | cases needs
  have only : ∀ entry ∈ table, entry.2 = .returnValue → entry.1 = Kind.setReturnValueName := by
    decide
  unfold ofName at manner
  cases found : table.lookup fullName with
  | none =>
    rw [found] at manner
    cases manner
  | some other =>
    rw [found] at manner
    exact only _ (mem_of_lookup_eq_some found) manner

theorem changes_induct (Keeps : Graph → Supply → Prop) {c : Catalog} {a : Action}
    (step : ∀ {g h : Graph} {p q : Supply}, Change c a (g, p) (h, q) → Keeps g p → Keeps h q)
    {v w : Workspace} (changes : Changes c a v w) (start : Keeps v.1 v.2) : Keeps w.1 w.2 := by
  induction changes with
  | refl => exact start
  | tail _ change ih => exact step change ih

namespace Session

variable {α : Type} {a : Action} {s t u : Session}

def work (s : Session) : Workspace := (s.graph, s.supply)

/-- A session leads to another by changes that an action makes. -/
structure Makes (a : Action) (s t : Session) : Prop where
  catalog : t.catalog = s.catalog
  changes : Changes s.catalog a s.work t.work

namespace Makes

theorem refl (a : Action) (s : Session) : Makes a s s := ⟨rfl, .refl⟩

theorem of_eq (catalog : t.catalog = s.catalog) (work : t.work = s.work) : Makes a s t :=
  ⟨catalog, work ▸ .refl⟩

theorem single (catalog : t.catalog = s.catalog) (change : Change s.catalog a s.work t.work) :
    Makes a s t :=
  ⟨catalog, .single change⟩

theorem trans (first : Makes a s t) (second : Makes a t u) : Makes a s u :=
  ⟨second.catalog.trans first.catalog, first.changes.trans (first.catalog ▸ second.changes)⟩

theorem editing {edit : Outcome α} (makes : Makes a s edit.2) : Makes a s (s.editing edit).2 := by
  unfold Session.editing
  split
  · exact .refl a s
  · exact makes

theorem adopt {result : Except EditError Graph}
    (change : ∀ h, result = .ok h → Change s.catalog a s.work (h, s.supply)) :
    Makes a s (s.adopt result).2 := by
  refine editing ?_
  cases result with
  | error error => exact .refl a s
  | ok h => exact .single rfl (change h rfl)

theorem adoptChange {result : Except EditError (Option Graph)}
    (change : ∀ h, result = .ok (some h) → Change s.catalog a s.work (h, s.supply)) :
    Makes a s (s.adoptChange result).2 := by
  refine editing ?_
  match result, change with
  | .error error, _ => exact .refl a s
  | .ok none, _ => exact .refl a s
  | .ok (some h), change => exact .single rfl (change h rfl)

end Makes

@[simp] theorem settle_snd {ε α : Type} (refuse : ε → Refusal) (outcome : Except ε α × Session) :
    (settle refuse outcome).2 = outcome.2 := by
  rcases outcome with ⟨result | result, s⟩ <;> rfl

/-! ## Adding nodes -/

theorem declare_makes {d : Definition} (found : s.catalog.find? d.fullName = some d)
    (declares : d.kind = .variable) {name : String}
    (free : isInternalName name = false ∨ name = returnVariableName) (isPublic : Bool) :
    Makes a s (s.declare d name isPublic).2 := by
  unfold declare
  split
  · exact .refl a s
  · rename_i room
    exact .single rfl (.declare found declares (Nat.lt_of_not_le room) free isPublic)

theorem find?_declaration {c : Catalog} {type : String} {d : Definition}
    (found : c.get (Kind.variablePrefix ++ type) = .ok d) :
    c.find? d.fullName = some d ∧ d.kind = .variable := by
  rw [Catalog.get_eq_ok] at found
  refine ⟨(Catalog.find?_fullName found).symm ▸ found, ?_⟩
  rw [Catalog.find?_kind found, Kind.ofName_variablePrefix]

theorem find?_plain {c : Catalog} {fullName : String} {d : Definition}
    (found : c.find? fullName = some d)
    (other : Text.stripStart? Kind.variablePrefix fullName = none) : d.kind ≠ .variable := by
  intro declares
  rw [Catalog.find?_kind found] at declares
  have starts := Kind.startsWith_of_variable declares
  rw [Text.startsWith, ← Option.isSome_map (f := String.ofList)] at starts
  rw [Text.stripStart?] at other
  rw [other] at starts
  cases starts

theorem addVariable_makes (s : Session) (type name : String) (isPublic : Bool) :
    Makes a s (s.addVariable type name isPublic).2 := by
  refine .editing ?_
  split
  · exact .refl a s
  · rename_i d found
    obtain ⟨found, declares⟩ := find?_declaration found
    dsimp only
    split
    · exact .refl a s
    · rename_i free
      exact declare_makes found declares (.inl (Bool.not_eq_true _ ▸ free)) isPublic

theorem internalVariable_makes (s : Session) {name : String} (type : String)
    (reserved : name = returnVariableName) : Makes a s (s.internalVariable name type).2 := by
  unfold internalVariable
  split
  · exact .refl a s
  · split
    · exact .refl a s
    · rename_i d found
      obtain ⟨found, declares⟩ := find?_declaration found
      exact declare_makes found declares (.inr reserved) false

private theorem find?_declare {d : Definition} {name : String} {isPublic : Bool} {uid : Uid}
    {n : Node} (found : s.graph.find? uid = some n) :
    (s.declare d name isPublic).2.graph.find? uid = some n := by
  unfold declare
  split
  · exact found
  · exact Graph.find?_push found

private theorem find?_internalVariable (name type : String) {uid : Uid} {n : Node}
    (found : s.graph.find? uid = some n) :
    (s.internalVariable name type).2.graph.find? uid = some n := by
  unfold internalVariable
  split
  · exact found
  · split
    · exact found
    · exact find?_declare found

theorem prepare_makes (s : Session) (uid : Uid) : Makes a s (s.prepare uid).2 := by
  unfold prepare
  split
  · exact .refl a s
  · rename_i n d placed
    obtain ⟨found, defined⟩ := Graph.placed_eq_ok.mp placed
    split
    · exact .refl a s
    · rename_i name type needs
      split
      · exact .refl a s
      · have declares := internalVariable_makes (a := a) s type (Manner.internalVariable?_name needs)
        have kept := find?_internalVariable name type found
        split
        · rename_i error t outcome
          rw [outcome] at declares
          exact declares
        · rename_i target t outcome
          rw [outcome] at declares kept
          exact declares.trans
            (.single rfl (.bind kept (declares.catalog.symm ▸ defined) needs))

theorem addPlain_makes {d : Definition} (found : s.catalog.find? d.fullName = some d)
    (other : d.kind ≠ .variable)
    (single : d.kind = .event → ∀ n ∈ s.graph.nodes, n.fullName ≠ d.fullName)
    (position : Position) : Makes a s (s.addPlain d position).2 := by
  unfold addPlain
  have placed : Makes a s (s.place fun uid => { Node.fresh uid d with position }).2 :=
    .single rfl (.add found other single position)
  have prepared := placed.trans
    (prepare_makes _ (s.place fun uid => { Node.fresh uid d with position }).1)
  dsimp only
  split
  · rename_i error t outcome
    rw [outcome] at prepared
    exact prepared
  · rename_i t outcome
    rw [outcome] at prepared
    exact prepared.trans (.of_eq rfl rfl)

theorem addNode_makes (s : Session) (fullName : String) (position : Position) :
    Makes a s (s.addNode fullName position).2 := by
  refine .editing ?_
  split
  · exact .refl a s
  · rename_i d found
    rw [Catalog.get_eq_ok] at found
    split
    · rename_i type _
      have adds := addVariable_makes (a := a) s type defaultVariableName false
      split
      · rename_i error t outcome
        rw [outcome] at adds
        exact adds
      · rename_i uid t outcome
        rw [outcome] at adds
        exact adds.trans (.single rfl (.move uid position))
    · rename_i noDeclaration
      split
      · exact .refl a s
      · rename_i single
        refine addPlain_makes ((Catalog.find?_fullName found).symm ▸ found)
          (find?_plain found noDeclaration) (fun event n listed same => single ?_) position
        rw [hasEvent, Bool.and_eq_true, decide_eq_true_eq, List.any_eq_true]
        exact ⟨event, n, listed, beq_iff_eq.mpr same⟩

theorem checkAccess_eq_ok {use : Access} {variableUid : Uid} {d : Definition}
    (allows : s.checkAccess use variableUid = .ok d) :
    s.catalog.find? use.fullName = some d ∧ (s.graph.find? variableUid).any Node.isVariable ∧
      (use = .change → s.graph.checkSingleChange variableUid none = .ok ()) := by
  simp only [checkAccess, guard_eq_ok, Bool.not_eq_true', Bool.not_eq_false] at allows
  obtain ⟨declared, allows⟩ := allows
  split at allows
  · simp only [bind_eq_ok, Catalog.get_eq_ok] at allows
    obtain ⟨_, single, found⟩ := allows
    exact ⟨found, declared, fun _ => single⟩
  · rename_i other
    simp only [Catalog.get_eq_ok] at allows
    exact ⟨allows, declared, fun change => absurd change other⟩

theorem addAccess_makes (s : Session) (use : Access) (variableUid : Uid) (position : Position) :
    Makes a s (s.addAccess use variableUid position).2 := by
  refine .editing ?_
  split
  · exact .refl a s
  · rename_i d allows
    obtain ⟨found, declared, single⟩ := checkAccess_eq_ok allows
    exact .single rfl (.access found declared single position)

/-! ## Edits in place -/

theorem removeNode_makes (s : Session) (uid : Uid) : Makes a s (s.removeNode uid).2 := by
  refine .editing ?_
  split
  · exact .refl a s
  · rename_i removed graph removes
    exact .single rfl (.removeNode removes)

private theorem removeEach_changes {c : Catalog} {p : Supply} (g : Graph) (uids : List Uid) :
    Changes c a (g, p) ((g.removeEach c uids).2, p) := by
  induction uids generalizing g with
  | nil => exact .refl
  | cons uid uids ih =>
    rw [Graph.removeEach]
    split
    · exact ih g
    · rename_i removed h removes
      exact (Relation.ReflTransGen.single (.removeNode removes)).trans (ih h)

theorem removeNodes_makes (s : Session) (uids : List Uid) : Makes a s (s.removeNodes uids).2 := by
  have removes := removeEach_changes (a := a) (c := s.catalog) (p := s.supply) s.graph uids.eraseDups
  unfold removeNodes
  split
  · exact .refl a s
  · rename_i removed graph _ outcome
    rw [outcome] at removes
    exact .editing ⟨rfl, removes⟩

theorem moveNode_makes (s : Session) (uid : Uid) (position : Position) :
    Makes a s (s.moveNode uid position).2 := by
  refine .editing ?_
  split
  · exact .refl a s
  · rename_i graph moves
    simp only [Graph.move, bind_eq_ok, pure_eq_ok] at moves
    obtain ⟨n, -, rfl⟩ := moves
    exact .single rfl (.move uid position)

theorem renameVariable_makes (s : Session) (uid : Uid) (name : String) :
    Makes a s (s.renameVariable uid name).2 := by
  refine .editing ?_
  split
  · exact .refl a s
  · exact .refl a s
  · rename_i given graph renames
    exact .single rfl (.renameVariable renames)

theorem setValue_makes (s : Session) (uid : Uid) (index : Nat) (value : Value) :
    Makes a s (s.setValue uid index value).2 := by
  have sets : Makes a s (s.adoptChange (s.graph.setValue s.catalog uid index value)).2 :=
    .adoptChange fun h sets => .setValue sets
  unfold setValue
  split
  · rename_i outcome
    rw [outcome] at sets
    exact sets
  · rename_i outcome
    rw [outcome] at sets
    exact sets

theorem renewName_makes (s : Session) : Makes a s s.renewName.2 :=
  .editing ⟨rfl, (Relation.ReflTransGen.single .draw).tail (.rename _)⟩

theorem paste_makes (s : Session) (text : String) (anchor : Position) :
    Makes (.paste text anchor) s (s.paste text anchor).2 := by
  unfold paste
  split
  · exact .refl _ s
  · split
    · exact .refl _ s
    · rename_i clipping holds
      exact .single rfl (.paste holds)

/-! ## Repair -/

theorem prepareEach_makes (s : Session) (uids : List Uid) : Makes a s (s.prepareEach uids).2 := by
  induction uids generalizing s with
  | nil => exact .refl a s
  | cons uid uids ih =>
    have prepares := prepare_makes (a := a) s uid
    unfold prepareEach
    split
    · rename_i outcome
      rw [outcome] at prepares
      exact prepares
    · rename_i outcome t _ same
      rw [same] at prepares
      exact prepares.trans (ih t)

private theorem foldl_convertComment (s : Session) (comments : List Node) :
    (comments.foldl convertComment s).catalog = s.catalog ∧
      (comments.foldl convertComment s).supply = s.supply ∧
      (comments.foldl convertComment s).graph =
        comments.foldl (fun g n => g.extract n.uid) s.graph := by
  induction comments generalizing s with
  | nil => exact ⟨rfl, rfl, rfl⟩
  | cons n comments ih => exact ih (s.convertComment n)

theorem restore_work (s : Session) : s.restore.1.catalog = s.catalog ∧
    s.restore.1.work = (s.graph.repaired s.catalog, s.supply) := by
  obtain ⟨catalog, supply, graph⟩ := foldl_convertComment s (comments s.graph)
  refine ⟨catalog, Prod.ext ?_ supply⟩
  change ((s.convertComments.1.graph.removeUndefined s.catalog).1.restoreConnections s.catalog).1 = _
  rw [show s.convertComments.1.graph = s.graph.uncommented from graph]
  rfl

theorem restore_makes_reload (s : Session) : Makes a s.restore.1 s.reload.2 := by
  have begins : Makes a s.restore.1 { s.restore.1 with repairing := true } := .of_eq rfl rfl
  have prepares := begins.trans (prepareEach_makes _ s.restore.1.graph.uids)
  unfold reload
  dsimp only
  split
  · rename_i outcome
    rw [outcome] at prepares
    exact prepares
  · rename_i outcome
    rw [outcome] at prepares
    exact prepares.trans (.of_eq rfl rfl)

theorem reload_makes (s : Session) : Makes a s s.reload.2 := by
  obtain ⟨catalog, work⟩ := s.restore_work
  have restores : Makes a s s.restore.1 :=
    .single catalog (work ▸ .repair)
  exact restores.trans s.restore_makes_reload

/-! ## Histories -/

theorem compile_work (s : Session) : s.compile.2.catalog = s.catalog ∧ s.compile.2.work = s.work := by
  unfold compile
  split <;> exact ⟨rfl, rfl⟩

theorem tick_eq (s : Session) :
    s.tick = if s.dirty && s.settings.autoCompile && !s.repairing then
      (some s.compile.1, s.compile.2) else (none, s) := by
  unfold tick
  generalize s.compile = outcome
  rfl

theorem tick_work (s : Session) : s.tick.2.catalog = s.catalog ∧ s.tick.2.work = s.work := by
  rw [tick_eq]
  split
  · dsimp only
    exact s.compile_work
  · exact ⟨rfl, rfl⟩

theorem perform_makes (s : Session) (action : Action) : Makes action s (s.perform action).2 := by
  cases action <;> simp only [perform, settle_snd]
  case addNode fullName position => exact s.addNode_makes fullName position
  case addVariable type name isPublic => exact s.addVariable_makes type name isPublic
  case addAccess access variableUid position => exact s.addAccess_makes access variableUid position
  case removeNode uid => exact s.removeNode_makes uid
  case removeNodes uids => exact s.removeNodes_makes uids
  case moveNode uid position => exact s.moveNode_makes uid position
  case connectValue source output target input => exact .adopt fun h connects => .connectValue connects
  case disconnectValue target input => exact .adoptChange fun h clears => .disconnectValue clears
  case connectFlow source port target => exact .adopt fun h connects => .connectFlow connects
  case disconnectFlow source port => exact .adoptChange fun h clears => .disconnectFlow clears
  case setValue uid index value => exact s.setValue_makes uid index value
  case setOverload uid fullName => exact .adopt fun h switches => .setOverload switches
  case renameVariable uid name => exact s.renameVariable_makes uid name
  case renewName => exact s.renewName_makes
  case setUpdateOrder updateOrder =>
    refine .adopt fun h same => ?_
    cases same
    exact .reorder updateOrder
  case saveRecord record => exact .editing (.of_eq rfl rfl)
  case removeRecord uid => exact .editing (.of_eq rfl rfl)
  case paste text anchor => exact s.paste_makes text anchor
  case reload => exact s.reload_makes
  case compile => exact .of_eq s.compile_work.1 s.compile_work.2
  case tick =>
    obtain ⟨catalog, work⟩ := s.tick_work
    split
    · rename_i outcome
      rw [outcome] at catalog work
      rw [settle_snd]
      exact .of_eq catalog work
    · rename_i outcome
      rw [outcome] at catalog work
      exact .of_eq catalog work
  case configure settings => exact .of_eq rfl rfl

/-- What all changes that an action makes keep holds after it. A switch to an overload and a paste are
one change of the graph that there was before. -/
theorem perform_induct (Keeps : Graph → Supply → Prop) (s : Session) (action : Action)
    (step : (∀ uid fullName, action ≠ .setOverload uid fullName) →
      (∀ text anchor, action ≠ .paste text anchor) → ∀ {g h : Graph} {p q : Supply},
        Change s.catalog action (g, p) (h, q) → Keeps g p → Keeps h q)
    (whole : ∀ {h : Graph} {q : Supply}, Change s.catalog action s.work (h, q) →
      Keeps s.graph s.supply → Keeps h q)
    (start : Keeps s.graph s.supply) :
    Keeps (s.perform action).2.graph (s.perform action).2.supply := by
  by_cases switching : ∃ uid fullName, action = .setOverload uid fullName
  · obtain ⟨uid, fullName, rfl⟩ := switching
    simp only [perform, settle_snd, setOverload, adopt, editing]
    split
    · exact start
    · split
      · exact start
      · rename_i h switches
        exact whole (.setOverload switches) start
  · by_cases pasting : ∃ text anchor, action = .paste text anchor
    · obtain ⟨text, anchor, rfl⟩ := pasting
      simp only [perform, settle_snd, paste]
      split
      · exact start
      · split
        · exact start
        · rename_i clipping holds
          exact whole (.paste holds) start
    · have switches : ∀ uid fullName, action ≠ .setOverload uid fullName := fun uid fullName same =>
        switching ⟨uid, fullName, same⟩
      have pastes : ∀ text anchor, action ≠ .paste text anchor := fun text anchor same =>
        pasting ⟨text, anchor, same⟩
      exact changes_induct Keeps (step switches pastes) (s.perform_makes action).changes start

theorem create_catalog (c : Catalog) (settings : Settings) (supply : Supply) :
    (create c settings supply).catalog = c := rfl

theorem after_induct (Keeps : Graph → Supply → Prop) {actions : List Action} (s : Session)
    (step : ∀ action ∈ actions, ∀ {g h : Graph} {p q : Supply},
      Change s.catalog action (g, p) (h, q) → Keeps g p → Keeps h q)
    (start : Keeps s.graph s.supply) :
    (s.after actions).catalog = s.catalog ∧
      Keeps (s.after actions).graph (s.after actions).supply := by
  induction actions generalizing s with
  | nil => exact ⟨rfl, start⟩
  | cons action actions ih =>
    obtain ⟨catalog, changes⟩ := s.perform_makes action
    have kept : Keeps (s.perform action).2.graph (s.perform action).2.supply :=
      changes_induct Keeps (step action List.mem_cons_self) changes start
    have rest := ih (s.perform action).2 (fun other listed => by
      rw [catalog]
      exact step other (List.mem_cons_of_mem _ listed)) kept
    exact ⟨rest.1.trans catalog, rest.2⟩

end Session

end ScriptGraph
