import ScriptGraph.Proofs.Session.Marks

/-!
Refused edits change nothing. Whatever an edit is refused for is looked at before the session is
touched, except for one thing: a node that sets the return value of a program stays when the variable
for that value cannot be declared.
-/

set_option autoImplicit false
set_option relaxedAutoImplicit false

namespace ScriptGraph

/-- A refusal says that the variable for the return value of a program cannot be declared. -/
def Refusal.BlamesReturnVariable : Refusal → Prop
  | .edit (.absentDefinition name) => name = Kind.variablePrefix ++ objectType
  | .edit (.missingEntry name) => name = Kind.variablePrefix ++ objectType
  | _ => False

namespace Session

variable {ε α : Type} {c : Catalog} {s t : Session}

def Spared (s : Session) (aside : ε → Prop) (outcome : Except ε α × Session) : Prop :=
  ∀ error, outcome.1 = .error error → outcome.2 = s ∨ aside error

namespace Spared

variable {aside : ε → Prop}

theorem of_refused (error : ε) : s.Spared aside ((.error error, s) : Except ε α × Session) :=
  fun _ _ => .inl rfl

theorem of_done (result : α) (t : Session) :
    s.Spared aside ((.ok result, t) : Except ε α × Session) :=
  fun _ refuses => by cases refuses

theorem settle {refuse : ε → Refusal} {aside : Refusal → Prop} {outcome : Except ε α × Session}
    (spared : s.Spared (fun error => aside (refuse error)) outcome) :
    s.Spared aside (Session.settle refuse outcome) := by
  rcases outcome with ⟨error | result, t⟩
  · intro refusal refuses
    cases refuses
    exact spared error rfl
  · exact of_done _ _

end Spared

variable {aside : EditError → Prop}

namespace Spared

theorem editing {edit : Outcome α} (spared : s.Spared aside edit) :
    s.Spared aside (s.editing edit) := by
  unfold Session.editing
  split
  · exact of_refused _
  · exact spared

theorem adopt (result : Except EditError Graph) : s.Spared aside (s.adopt result) := by
  refine editing ?_
  cases result with
  | error error => exact of_refused error
  | ok g => exact of_done _ _

theorem adoptWith (result : Except EditError (α × Graph)) : s.Spared aside (s.adoptWith result) := by
  refine editing ?_
  cases result with
  | error error => exact of_refused error
  | ok given => exact of_done _ _

theorem adoptChange (result : Except EditError (Option Graph)) :
    s.Spared aside (s.adoptChange result) := by
  refine editing ?_
  match result with
  | .error error => exact of_refused error
  | .ok none => exact of_done _ _
  | .ok (some g) => exact of_done _ _

end Spared

/-! ## Edits -/

theorem declare_spared (s : Session) (d : Definition) (name : String) (isPublic : Bool) :
    s.Spared aside (s.declare d name isPublic) := by
  unfold declare
  split
  · exact .of_refused _
  · exact .of_done _ _

theorem addVariable_spared (s : Session) (type name : String) (isPublic : Bool) :
    s.Spared aside (s.addVariable type name isPublic) := by
  refine .editing ?_
  split
  · exact .of_refused _
  · dsimp only
    split
    · exact .of_refused _
    · exact s.declare_spared _ _ _

theorem addAccess_spared (s : Session) (use : Access) (variableUid : Uid) (position : Position) :
    s.Spared aside (s.addAccess use variableUid position) := by
  refine .editing ?_
  split
  · exact .of_refused _
  · exact .of_done _ _

theorem removeNodes_spared (s : Session) (uids : List Uid) :
    s.Spared aside (s.removeNodes uids) := by
  unfold removeNodes
  split
  · exact .of_done _ _
  · exact .adoptWith _

theorem moveNode_spared (s : Session) (uid : Uid) (position : Position) :
    s.Spared aside (s.moveNode uid position) := by
  refine .editing ?_
  split
  · exact .of_refused _
  · exact .of_done _ _

theorem renameVariable_spared (s : Session) (uid : Uid) (name : String) :
    s.Spared aside (s.renameVariable uid name) := by
  refine .editing ?_
  split
  · exact .of_refused _
  · exact .of_done _ _
  · exact .of_done _ _

theorem setValue_spared (s : Session) (uid : Uid) (index : Nat) (value : Value) :
    s.Spared aside (s.setValue uid index value) := by
  have sets : s.Spared aside (s.adoptChange (s.graph.setValue s.catalog uid index value)) :=
    .adoptChange _
  unfold setValue
  split
  · rename_i outcome
    rw [outcome] at sets
    intro error refuses
    cases refuses
    exact sets _ rfl
  · exact .of_done _ _

theorem paste_spared {aside : PasteError → Prop} (s : Session) (text : String) (anchor : Position) :
    s.Spared aside (s.paste text anchor) := by
  unfold paste
  split
  · exact .of_refused _
  · split
    · exact .of_refused _
    · exact .of_done _ _

/-! ## Nodes that need a variable -/

theorem internalVariable_blames {name : String} {error : EditError}
    (fails : s.internalVariable name objectType = (.error error, t)) :
    (Refusal.edit error).BlamesReturnVariable := by
  unfold internalVariable at fails
  split at fails
  · cases fails
  · split at fails
    · rename_i unknown
      unfold Catalog.get at unknown
      split at unknown <;> cases unknown
      cases fails
      rfl
    · rename_i d known
      unfold declare at fails
      split at fails
      · cases fails
        exact Catalog.find?_fullName (Catalog.get_eq_ok.mp known)
      · cases fails

theorem prepare_blames {uid : Uid} {n : Node} {d : Definition} {error : EditError}
    (placed : s.graph.placed s.catalog uid = .ok (n, d))
    (fails : s.prepare uid = (.error error, t)) : (Refusal.edit error).BlamesReturnVariable := by
  unfold prepare at fails
  rw [placed] at fails
  dsimp only at fails
  split at fails
  · cases fails
  · rename_i name type needs
    split at fails
    · cases fails
    · split at fails
      · rename_i declaration
        cases fails
        obtain rfl := Manner.internalVariable?_type needs
        exact internalVariable_blames declaration
      · cases fails

theorem addPlain_spared {d : Definition} (found : s.catalog.find? d.fullName = some d)
    (fresh : s.supply.Fresh s.graph.uids) (position : Position) :
    s.Spared (fun error => d.fullName = Kind.setReturnValueName ∧
      (Refusal.edit error).BlamesReturnVariable) (s.addPlain d position) := by
  let n : Node := { Node.fresh s.supply.draw.1 d with position }
  have there : (s.graph.push n).find? n.uid = some n := Graph.find?_push_new fresh.draw_unused
  have placed : (s.graph.push n).placed s.catalog s.supply.draw.1 = .ok (n, d) :=
    Graph.placed_eq_ok.mpr ⟨there, found⟩
  unfold addPlain place
  dsimp only
  split
  · rename_i error t fails
    intro _ refuses
    cases refuses
    exact .inr ⟨((prepare_error fails).2 n d placed).1, prepare_blames placed fails⟩
  · exact .of_done _ _

theorem addNode_spared (fresh : s.supply.Fresh s.graph.uids) (fullName : String)
    (position : Position) :
    s.Spared (fun error => fullName = Kind.setReturnValueName ∧
      (Refusal.edit error).BlamesReturnVariable) (s.addNode fullName position) := by
  refine .editing ?_
  split
  · exact .of_refused _
  · rename_i d found
    rw [Catalog.get_eq_ok] at found
    split
    · rename_i type _
      have adds : s.Spared (fun _ => False) (s.addVariable type defaultVariableName false) :=
        s.addVariable_spared type defaultVariableName false
      split
      · rename_i outcome
        rw [outcome] at adds
        exact fun error refuses => .inl ((adds error refuses).resolve_right id)
      · exact .of_done _ _
    · split
      · exact .of_refused _
      · have name := Catalog.find?_fullName found
        exact name ▸ addPlain_spared (name.symm ▸ found) fresh position

/-! ## Histories -/

/-- An operation that is refused leaves the session as it is, unless it adds a node that sets the
return value in vain. -/
theorem perform_spared (fresh : s.supply.Fresh s.graph.uids) {action : Action}
    (edits : action.edits) (other : action ≠ .reload) :
    s.Spared (fun refusal => (∃ position, action = .addNode Kind.setReturnValueName position) ∧
      refusal.BlamesReturnVariable) (s.perform action) := by
  cases action <;> simp only [perform]
  case addNode fullName position =>
    refine .settle fun error refuses => ?_
    refine (addNode_spared fresh fullName position error refuses).imp_right ?_
    rintro ⟨rfl, blames⟩
    exact ⟨⟨position, rfl⟩, blames⟩
  case addVariable type name isPublic => exact .settle (s.addVariable_spared type name isPublic)
  case addAccess use variableUid position =>
    exact .settle (s.addAccess_spared use variableUid position)
  case removeNode uid => exact .settle (.adoptWith _)
  case removeNodes uids => exact .settle (s.removeNodes_spared uids)
  case moveNode uid position => exact .settle (s.moveNode_spared uid position)
  case connectValue source output target input => exact .settle (.adopt _)
  case disconnectValue target input => exact .settle (.adoptChange _)
  case connectFlow source port target => exact .settle (.adopt _)
  case disconnectFlow source port => exact .settle (.adoptChange _)
  case setValue uid index value => exact .settle (s.setValue_spared uid index value)
  case setOverload uid fullName => exact .settle (.adopt _)
  case renameVariable uid name => exact .settle (s.renameVariable_spared uid name)
  case renewName => exact .settle (.editing (.of_done _ _))
  case setUpdateOrder updateOrder => exact .settle (.adopt _)
  case saveRecord record => exact .settle (.editing (.of_done _ _))
  case removeRecord uid => exact .settle (.editing (.of_done _ _))
  case paste text anchor => exact .settle (s.paste_spared text anchor)
  case reload => exact absurd rfl other
  case compile => cases edits
  case tick => cases edits
  case configure settings => exact .of_done _ _

/-- In every state that a session gets to, an edit or a clipping that is refused changes nothing at all,
unless a node is added for whose return value no variable can be declared. -/
theorem after_refused (begun : s.Begun c fun _ => True) (actions : List Action) {action : Action}
    (edits : action.edits) (other : action ≠ .reload) {refusal : Refusal}
    (refuses : ((s.after actions).perform action).1 = .error refusal)
    (declares : ∀ position, action = .addNode Kind.setReturnValueName position →
      ¬refusal.BlamesReturnVariable) :
    ((s.after actions).perform action).2 = s.after actions := by
  obtain ⟨-, fresh⟩ := begun.fresh
  obtain ⟨-, fresh⟩ := after_induct (fun g p => p.Fresh g.uids) s
    (fun _ _ _ _ _ _ change => change.fresh) fresh
  refine (perform_spared fresh edits other refusal refuses).resolve_right ?_
  rintro ⟨⟨position, adds⟩, blames⟩
  exact declares position adds blames

/-- A declaration under a name that is reserved, in a session that has a variable already. -/
theorem after_refused_reserved :
    (((create Catalog.intrinsic .default .strokes).after
      [.addVariable int32Type "count" true]).perform (.addVariable int32Type "__count" true)).2 =
        (create Catalog.intrinsic .default .strokes).after [.addVariable int32Type "count" true] := by
  have refuses : (((create Catalog.intrinsic .default .strokes).after
      [.addVariable int32Type "count" true]).perform (.addVariable int32Type "__count" true)).1 =
        .error (.edit (.reservedName "__count")) := by decide +kernel
  exact after_refused (.created .default (Supply.strokes_fresh (by simp))) _ rfl
    (fun same => by cases same) refuses fun _ same => by cases same

def undeclared : Catalog := (Catalog.empty.extend
  [{ Definition.bare Kind.setReturnValueName with
      inputs := [⟨"variable", some textType, .null⟩] }.withFlow [""]]).1

/-- The node that sets the return value is refused, and stays in the graph. -/
theorem refused_and_stays :
    ((create undeclared .default .strokes).perform (.addNode Kind.setReturnValueName .origin)).1 =
        .error (.edit (.absentDefinition (Kind.variablePrefix ++ objectType))) ∧
      ((create undeclared .default .strokes).perform
        (.addNode Kind.setReturnValueName .origin)).2 ≠ create undeclared .default .strokes := by
  refine ⟨by decide +kernel, fun same => ?_⟩
  have stays : ((create undeclared .default .strokes).perform
      (.addNode Kind.setReturnValueName .origin)).2.graph.uids = ["||"] := by decide +kernel
  rw [same] at stays
  cases stays

end Session

end ScriptGraph
