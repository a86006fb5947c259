import ScriptGraph.Proofs.Compilation.Program
import ScriptGraph.Proofs.Session.WellFormed

/-!
Which edits tell that the graph has changed. One that does not leaves the program of the graph alone,
be it that it moves a node, that it is refused, or that it adds a node in vain.
-/

set_option autoImplicit false
set_option relaxedAutoImplicit false

namespace ScriptGraph

/-- Whether an action leaves compiling to others. -/
def Action.edits : Action → Bool
  | .compile | .tick => false
  | _ => true

theorem Manner.internalVariable?_type {manner : Manner} {name type : String}
    (needs : manner.internalVariable? = some (name, type)) : type = objectType := by
  cases manner <;> simp_all [internalVariable?]

theorem Catalog.get_ne_missingEntry {c : Catalog} {name missing : String} :
    c.get name ≠ .error (.missingEntry missing) := by
  unfold get
  cases c.find? name <;> exact fun same => by cases same

theorem Graph.get_ne_missingEntry {g : Graph} {uid : Uid} {missing : String} :
    g.get uid ≠ .error (.missingEntry missing) := by
  unfold get
  cases g.find? uid <;> exact fun same => by cases same

theorem Graph.placed_ne_missingEntry {c : Catalog} {g : Graph} {uid : Uid} {missing : String} :
    g.placed c uid ≠ .error (.missingEntry missing) := by
  intro fails
  simp only [placed, bind_eq_error, get_ne_missingEntry, Catalog.get_ne_missingEntry, pure_eq_error,
    and_false, exists_false, or_self] at fails

/-- The declaration of the variable for the return value lacks inputs that every declaration gets. -/
def Catalog.Short (c : Catalog) : Prop :=
  ∃ d, c.find? (Kind.variablePrefix ++ objectType) = some d ∧ d.inputs.length ≤ publicInput

namespace Session

variable {α : Type} {c : Catalog} {s t : Session}

/-! ## Edits -/

/-- An edit leaves the last program alone. It tells that the graph has changed, or else the graph has
the program that it had; a repair that is broken off leaves that open. -/
structure Marks (s t : Session) : Prop where
  kept : t.program = s.program
  told : t.repairing = true ∨ t.dirty = true ∨ t.repairing = s.repairing ∧ t.dirty = s.dirty ∧
    t.graph.program s.catalog = s.graph.program s.catalog
  whole : t.repairing = true → s.repairing = true ∨ s.catalog.Short

namespace Marks

theorem of_dirty (kept : t.program = s.program) (dirty : t.dirty = true)
    (repairing : t.repairing = s.repairing) : Marks s t :=
  ⟨kept, .inr (.inl dirty), fun broken => .inl (repairing ▸ broken)⟩

theorem of_program (kept : t.program = s.program) (dirty : t.dirty = s.dirty)
    (repairing : t.repairing = s.repairing)
    (program : t.graph.program s.catalog = s.graph.program s.catalog) : Marks s t :=
  ⟨kept, .inr (.inr ⟨repairing, dirty, program⟩), fun broken => .inl (repairing ▸ broken)⟩

theorem refl (s : Session) : Marks s s := of_program rfl rfl rfl rfl

theorem touched (s : Session) (g : Graph) : Marks s (s.touched g) := of_dirty rfl rfl rfl

theorem move (marks : Marks s t) (uid : Uid) (position : Position) :
    Marks s { t with graph := t.graph.update uid fun n => { n with position } } :=
  ⟨marks.kept, marks.told.imp_right (Or.imp_right fun same => ⟨same.1, same.2.1,
    (Graph.program_move s.catalog t.graph uid position).trans same.2.2⟩), marks.whole⟩

theorem editing {edit : Outcome α} (marks : Marks s edit.2) : Marks s (s.editing edit).2 := by
  unfold Session.editing
  split
  · exact refl s
  · exact marks

theorem adopt (result : Except EditError Graph) : Marks s (s.adopt result).2 := by
  refine editing ?_
  cases result with
  | error error => exact refl s
  | ok g => exact touched s g

theorem adoptWith (result : Except EditError (α × Graph)) : Marks s (s.adoptWith result).2 := by
  refine editing ?_
  cases result with
  | error error => exact refl s
  | ok given => exact touched s given.2

theorem adoptChange (result : Except EditError (Option Graph)) :
    Marks s (s.adoptChange result).2 := by
  refine editing ?_
  match result with
  | .error error => exact refl s
  | .ok none => exact refl s
  | .ok (some g) => exact touched s g

end Marks

theorem declare_marks (s : Session) (d : Definition) (name : String) (isPublic : Bool) :
    Marks s (s.declare d name isPublic).2 := by
  unfold declare
  split
  · exact .refl s
  · exact .of_dirty rfl rfl rfl

theorem addVariable_marks (s : Session) (type name : String) (isPublic : Bool) :
    Marks s (s.addVariable type name isPublic).2 := by
  refine .editing ?_
  split
  · exact .refl s
  · dsimp only
    split
    · exact .refl s
    · exact declare_marks s _ _ _

theorem addAccess_marks (s : Session) (use : Access) (variableUid : Uid) (position : Position) :
    Marks s (s.addAccess use variableUid position).2 := by
  refine .editing ?_
  split
  · exact .refl s
  · exact .of_dirty rfl rfl rfl

theorem removeNodes_marks (s : Session) (uids : List Uid) : Marks s (s.removeNodes uids).2 := by
  unfold removeNodes
  split
  · exact .refl s
  · exact .adoptWith _

theorem moveNode_marks (s : Session) (uid : Uid) (position : Position) :
    Marks s (s.moveNode uid position).2 := by
  refine .editing ?_
  split
  · exact .refl s
  · rename_i g moves
    simp only [Graph.move, bind_eq_ok, pure_eq_ok] at moves
    obtain ⟨n, -, rfl⟩ := moves
    exact (Marks.refl s).move uid position

theorem renameVariable_marks (s : Session) (uid : Uid) (name : String) :
    Marks s (s.renameVariable uid name).2 := by
  refine .editing ?_
  split
  · exact .refl s
  · exact .refl s
  · exact .touched s _

theorem setValue_marks (s : Session) (uid : Uid) (index : Nat) (value : Value) :
    Marks s (s.setValue uid index value).2 := by
  have sets : Marks s (s.adoptChange (s.graph.setValue s.catalog uid index value)).2 :=
    .adoptChange _
  unfold setValue
  split
  · rename_i outcome
    rw [outcome] at sets
    exact sets
  · rename_i outcome
    rw [outcome] at sets
    exact sets

theorem paste_marks (s : Session) (text : String) (anchor : Position) :
    Marks s (s.paste text anchor).2 := by
  unfold paste
  split
  · exact .refl s
  · split
    · exact .refl s
    · exact .of_dirty rfl rfl rfl

/-! ## Nodes that need a variable -/

theorem internalVariable_error {name type : String} {error : EditError}
    (fails : s.internalVariable name type = (.error error, t)) : t = s := by
  unfold internalVariable at fails
  split at fails
  · cases fails
  · split at fails
    · exact (congrArg Prod.snd fails).symm
    · unfold declare at fails
      split at fails
      · exact (congrArg Prod.snd fails).symm
      · cases fails

theorem prepare_error {uid : Uid} {error : EditError}
    (fails : s.prepare uid = (.error error, t)) : t = s ∧
      ∀ n d, s.graph.placed s.catalog uid = .ok (n, d) →
        n.fullName = Kind.setReturnValueName ∧ n.target?.any s.graph.contains = false := by
  unfold prepare at fails
  split at fails
  · rename_i outcome
    exact ⟨(congrArg Prod.snd fails).symm, fun n d placed => by cases outcome.symm.trans placed⟩
  · rename_i m e outcome
    split at fails
    · cases fails
    · rename_i name type needs
      split at fails
      · cases fails
      · rename_i unbound
        split at fails
        · rename_i declaration
          cases fails
          refine ⟨internalVariable_error declaration, fun n d placed => ?_⟩
          cases outcome.symm.trans placed
          exact ⟨Manner.fullName_of_internalVariable? (needs ▸ rfl), Bool.not_eq_true _ ▸ unbound⟩
        · cases fails

theorem prepare_keeps (s : Session) (uid : Uid) :
    (s.prepare uid).2.program = s.program ∧ (s.prepare uid).2.repairing = s.repairing := by
  have declares : ∀ d name isPublic, (s.declare d name isPublic).2.program = s.program ∧
      (s.declare d name isPublic).2.repairing = s.repairing := by
    intro d name isPublic
    unfold declare
    split <;> exact ⟨rfl, rfl⟩
  have needs : ∀ name type, (s.internalVariable name type).2.program = s.program ∧
      (s.internalVariable name type).2.repairing = s.repairing := by
    intro name type
    unfold internalVariable
    split
    · exact ⟨rfl, rfl⟩
    · split
      · exact ⟨rfl, rfl⟩
      · exact declares _ _ _
  unfold prepare
  split
  · exact ⟨rfl, rfl⟩
  · split
    · exact ⟨rfl, rfl⟩
    · split
      · exact ⟨rfl, rfl⟩
      · rename_i name type _ _
        have kept := needs name type
        split
        · rename_i outcome
          rw [outcome] at kept
          exact kept
        · rename_i outcome
          rw [outcome] at kept
          exact kept

theorem addPlain_marks {d : Definition} (found : s.catalog.find? d.fullName = some d)
    (fresh : s.supply.Fresh s.graph.uids) (position : Position) :
    Marks s (s.addPlain d position).2 := by
  let n : Node := { Node.fresh s.supply.draw.1 d with position }
  let placed : Session := { s with graph := s.graph.push n, supply := s.supply.draw.2 }
  have kept := placed.prepare_keeps s.supply.draw.1
  unfold addPlain place
  dsimp only
  split
  · rename_i error t fails
    obtain ⟨rfl, lost⟩ := prepare_error fails
    have there : (s.graph.push n).find? n.uid = some n := Graph.find?_push_new fresh.draw_unused
    obtain ⟨name, unbound⟩ := lost n d (Graph.placed_eq_ok.mpr ⟨there, found⟩)
    have strays : s.graph.Strays n := by
      refine ⟨?_, fresh.draw_unused, fun uid bound listed => ?_⟩
      · rw [Node.access?, Node.kind, name]
        rfl
      · obtain ⟨m, there⟩ := Graph.find?_isSome_of_mem listed
        rw [bound] at unbound
        rw [Option.any_some, Graph.contains, show placed.graph.find? uid = some m from there]
          at unbound
        cases unbound
    have defined : (s.catalog.find? n.fullName).isSome := by
      rw [show n.fullName = d.fullName from rfl, found]
      rfl
    exact .of_program rfl rfl rfl (strays.program defined)
  · rename_i t outcome
    rw [outcome] at kept
    exact .of_dirty kept.1 rfl kept.2

theorem addNode_marks (fresh : s.supply.Fresh s.graph.uids) (fullName : String)
    (position : Position) : Marks s (s.addNode fullName position).2 := by
  refine .editing ?_
  split
  · exact .refl s
  · rename_i d found
    rw [Catalog.get_eq_ok] at found
    split
    · rename_i type _
      have adds := addVariable_marks s type defaultVariableName false
      split
      · rename_i outcome
        rw [outcome] at adds
        exact adds
      · rename_i uid t outcome
        rw [outcome] at adds
        exact adds.move uid position
    · split
      · exact .refl s
      · exact addPlain_marks ((Catalog.find?_fullName found).symm ▸ found) fresh position

/-! ## Repair -/

theorem prepareEach_keeps (s : Session) (uids : List Uid) :
    (s.prepareEach uids).2.program = s.program ∧
      (s.prepareEach uids).2.repairing = s.repairing := by
  induction uids generalizing s with
  | nil => exact ⟨rfl, rfl⟩
  | cons uid uids ih =>
    have kept := s.prepare_keeps uid
    unfold prepareEach
    split
    · rename_i outcome
      rw [outcome] at kept
      exact kept
    · rename_i outcome
      rw [outcome] at kept
      exact ⟨(ih _).1.trans kept.1, (ih _).2.trans kept.2⟩

theorem internalVariable_missingEntry {name missing : String}
    (fails : s.internalVariable name objectType = (.error (.missingEntry missing), t)) :
    missing = Kind.variablePrefix ++ objectType ∧ s.catalog.Short := by
  unfold internalVariable at fails
  split at fails
  · cases fails
  · split at fails
    · rename_i unknown
      cases fails
      exact absurd unknown Catalog.get_ne_missingEntry
    · rename_i d known
      rw [Catalog.get_eq_ok] at known
      unfold declare at fails
      split at fails
      · rename_i short
        cases fails
        exact ⟨Catalog.find?_fullName known, d, known, short⟩
      · cases fails

theorem prepare_missingEntry {uid : Uid} {missing : String}
    (fails : s.prepare uid = (.error (.missingEntry missing), t)) :
    missing = Kind.variablePrefix ++ objectType ∧ s.catalog.Short := by
  unfold prepare at fails
  split at fails
  · rename_i outcome
    cases fails
    exact absurd outcome Graph.placed_ne_missingEntry
  · split at fails
    · cases fails
    · rename_i name type needs
      split at fails
      · cases fails
      · split at fails
        · rename_i declaration
          cases fails
          obtain rfl := Manner.internalVariable?_type needs
          exact internalVariable_missingEntry declaration
        · cases fails

theorem prepareEach_error {uids : List Uid} {error : EditError}
    (fails : s.prepareEach uids = (.error error, t)) :
    error = .missingEntry (Kind.variablePrefix ++ objectType) ∧ s.catalog.Short := by
  induction uids generalizing s with
  | nil => cases fails
  | cons uid uids ih =>
    unfold prepareEach at fails
    split at fails
    · rename_i outcome
      cases fails
      obtain ⟨rfl, short⟩ := prepare_missingEntry outcome
      exact ⟨rfl, short⟩
    · rename_i outcome t' _ same
      have catalog := (prepare_makes (a := .reload) s uid).catalog
      rw [same] at catalog
      exact catalog ▸ ih fails

theorem restore_program (s : Session) : s.restore.1.program = s.program := by
  change ((comments s.graph).foldl convertComment s).program = s.program
  generalize comments s.graph = converted
  induction converted generalizing s with
  | nil => rfl
  | cons n converted ih => exact ih (s.convertComment n)

theorem reload_marks (s : Session) : Marks s s.reload.2 := by
  have kept := prepareEach_keeps { s.restore.1 with repairing := true } s.restore.1.graph.uids
  rw [restore_program] at kept
  unfold reload
  dsimp only
  split
  · rename_i outcome
    rw [outcome] at kept
    obtain ⟨-, short⟩ := prepareEach_error outcome
    exact ⟨kept.1, .inl kept.2, fun _ => .inr (s.restore_work.1 ▸ short)⟩
  · rename_i outcome
    rw [outcome] at kept
    exact ⟨kept.1, .inr (.inl rfl), fun broken => by cases broken⟩

theorem perform_marks (fresh : s.supply.Fresh s.graph.uids) {action : Action}
    (edits : action.edits) : Marks s (s.perform action).2 := by
  cases action <;> simp only [perform, settle_snd]
  case addNode fullName position => exact addNode_marks fresh fullName position
  case addVariable type name isPublic => exact s.addVariable_marks type name isPublic
  case addAccess access variableUid position => exact s.addAccess_marks access variableUid position
  case removeNode uid => exact .adoptWith _
  case removeNodes uids => exact s.removeNodes_marks uids
  case moveNode uid position => exact s.moveNode_marks uid position
  case connectValue source output target input => exact .adopt _
  case disconnectValue target input => exact .adoptChange _
  case connectFlow source port target => exact .adopt _
  case disconnectFlow source port => exact .adoptChange _
  case setValue uid index value => exact s.setValue_marks uid index value
  case setOverload uid fullName => exact .adopt _
  case renameVariable uid name => exact s.renameVariable_marks uid name
  case renewName => exact .editing (.of_dirty rfl rfl rfl)
  case setUpdateOrder updateOrder => exact .adopt _
  case saveRecord record => exact .editing (.of_program rfl rfl rfl rfl)
  case removeRecord uid => exact .editing (.of_program rfl rfl rfl rfl)
  case paste text anchor => exact s.paste_marks text anchor
  case reload => exact s.reload_marks
  case compile => cases edits
  case tick => cases edits
  case configure settings => exact .of_program rfl rfl rfl rfl

end Session

end ScriptGraph
