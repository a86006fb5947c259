import ScriptGraph.Proofs.Session.Marks
import ScriptGraph.Proofs.Session.Names

/-!
Reserved names in a session. No name that starts with two underscores can be asked for, but one may be
given: whoever asks for a single underscore while another variable has that name gets a reserved one.
That is the only way. In all other histories, the variables with reserved names are those that nodes
for the return value have declared; every other variable can be renamed and is listed before them.
-/

set_option autoImplicit false
set_option relaxedAutoImplicit false

namespace ScriptGraph

/-! ## Histories -/

/-- Whether an action adds a node or a variable, renames a variable, or sets a literal. -/
def Action.writes : Action → Bool
  | .addNode .. | .addVariable .. | .renameVariable .. | .setValue .. => true
  | _ => false

def Action.returns : Action → Bool
  | .addNode fullName _ => fullName = Kind.setReturnValueName
  | _ => false

namespace Session

/-- The nodes that an action adds. -/
def additions (s : Session) (action : Action) : List Uid :=
  (s.perform action).2.graph.uids.filter fun uid => !s.graph.contains uid

/-- The nodes that are added in a history along with nodes that set the return value. -/
def returnNodes (s : Session) : List Action → List Uid
  | [] => []
  | action :: actions =>
    (if action.returns then s.additions action else []) ++ (s.perform action).2.returnNodes actions

/-- The name that an action asks for a variable to be given, and the names that are taken. -/
def request? (s : Session) : Action → Option (String × List String)
  | .addVariable _ name _ => some (sanitizedName name, s.graph.variableNames)
  | .renameVariable uid name => some (sanitizedName name, s.graph.otherNames uid)
  | .setValue uid index value =>
    if (s.graph.find? uid).any Node.isVariable && index = nameInput then
      value.text?.map fun name => (sanitizedName name, s.graph.otherNames uid)
    else none
  | _ => none

/-- Whether an action gives a name to a variable for which it asks for a single underscore that
another variable is called by. -/
def doubles (s : Session) (action : Action) : Bool :=
  (s.perform action).1.isOk &&
    (s.request? action).any fun request => request.1 = "_" && request.2.contains "_"

/-- Whether some action of a history doubles an underscore. -/
def everDoubles (s : Session) : List Action → Bool
  | [] => false
  | action :: actions => s.doubles action || (s.perform action).2.everDoubles actions

end Session

/-! ## What nodes are called -/

namespace Graph

variable {g : Graph} {uid u : Uid} {n : Node} {x : Option String}

/-- The nodes of a graph with the names of the variables that they declare. -/
def roster (g : Graph) : List (Uid × Option String) :=
  g.nodes.map fun n => (n.uid, n.variableName?)

theorem mem_roster : (u, x) ∈ g.roster ↔ ∃ n ∈ g.nodes, n.uid = u ∧ n.variableName? = x := by
  simp [roster]

theorem mem_uids_iff : u ∈ g.uids ↔ ∃ x, (u, x) ∈ g.roster := by
  simp [roster, uids]

theorem mem_roster_iff_find? (distinct : g.uids.Nodup) :
    (u, x) ∈ g.roster ↔ (g.find? u).map Node.variableName? = some x := by
  rw [mem_roster, Option.map_eq_some_iff]
  refine exists_congr fun n => ?_
  rw [find?_eq_some_iff distinct, and_assoc]

theorem roster_push (g : Graph) (n : Node) :
    (g.push n).roster = g.roster ++ [(n.uid, n.variableName?)] :=
  List.map_append

theorem roster_update {change : Node → Node} (keeps : ∀ n, (change n).uid = n.uid)
    (kept : ∀ n ∈ g.nodes, n.uid = uid → (change n).variableName? = n.variableName?) :
    (g.update uid change).roster = g.roster := by
  change (updateFirst uid change g.nodes).map _ = g.nodes.map _
  generalize g.nodes = nodes at kept
  induction nodes with
  | nil => rfl
  | cons n nodes ih =>
    rw [List.forall_mem_cons] at kept
    rw [updateFirst]
    split
    · rename_i here
      rw [List.map_cons, List.map_cons, keeps, kept.1 here]
    · rw [List.map_cons, List.map_cons, ih kept.2]

theorem mem_roster_rename (distinct : g.uids.Nodup) (found : g.find? uid = some n)
    (called : n.variableName?.isSome) (given : String) :
    (u, x) ∈ (g.update uid fun n =>
        { n with values := n.values.set nameInput (.text given) }).roster ↔
      u = uid ∧ x = some given ∨ u ≠ uid ∧ (u, x) ∈ g.roster := by
  have keeps : ∀ n : Node,
      { n with values := n.values.set nameInput (.text given) }.uid = n.uid := fun _ => rfl
  have renamed := Node.variableName?_setName (Node.isVariable_of_named called)
    (Node.nameInput_lt called) given
  rw [mem_roster_iff_find? ((uids_update keeps).symm ▸ distinct), mem_roster_iff_find? distinct,
    find?_update keeps]
  by_cases here : u = uid
  · simp [here, found, renamed, eq_comm]
  · simp [here]

/-- The names of variables on a list are those for the return value. -/
structure ReturnsAt (g : Graph) (internal : List Uid) : Prop where
  placed : ∀ u ∈ internal, u ∈ g.uids
  called : ∀ u ∈ internal, ∀ name, (u, some name) ∈ g.roster → name = returnVariableName

/-- No other variable has a reserved name. -/
def Apart (g : Graph) (internal : List Uid) : Prop :=
  ∀ u name, (u, some name) ∈ g.roster → isInternalName name → u ∈ internal

end Graph

namespace Session

variable {s t : Session} {action : Action} {actions : List Action} {uid : Uid} {d : Definition}
  {internal : List Uid}

/-! ## What an action does to names -/

/-- What an action does to the names of nodes: it adds some, or renames one. -/
inductive Registers (s : Session) (action : Action) : Prop
  | added (more : List (Uid × Option String))
      (roster : (s.perform action).2.graph.roster = s.graph.roster ++ more)
      (new : ∀ entry ∈ more, entry.1 ∉ s.graph.uids)
      (returned : action.returns → ∀ u name, (u, some name) ∈ more → name = returnVariableName)
      (doubled : s.doubles action ↔
        ¬action.returns ∧ ∃ u name, (u, some name) ∈ more ∧ isInternalName name)
  | renamed {uid : Uid} {current given : String} (there : (uid, some current) ∈ s.graph.roster)
      (plain : ¬isInternalName current)
      (roster : ∀ u x, (u, x) ∈ (s.perform action).2.graph.roster ↔
        u = uid ∧ x = some given ∨ u ≠ uid ∧ (u, x) ∈ s.graph.roster)
      (other : ¬action.returns) (doubled : s.doubles action ↔ isInternalName given)

theorem mem_additions {u : Uid} : u ∈ s.additions action ↔
    u ∈ (s.perform action).2.graph.uids ∧ u ∉ s.graph.uids := by
  rw [additions, List.mem_filter, Bool.not_eq_true', ← Bool.not_eq_true, Graph.contains_iff]

private theorem mem_step {u : Uid} :
    u ∈ internal ++ (if action.returns then s.additions action else []) ↔
      u ∈ internal ∨ action.returns ∧ u ∈ s.additions action := by
  split <;> simp_all

namespace Registers

theorem uids (registers : s.Registers action) {u : Uid} (there : u ∈ s.graph.uids) :
    u ∈ (s.perform action).2.graph.uids := by
  rw [Graph.mem_uids_iff] at there ⊢
  obtain ⟨x, there⟩ := there
  cases registers with
  | added more roster _ _ _ => exact ⟨x, roster ▸ List.mem_append_left _ there⟩
  | @renamed uid _ given _ _ roster _ _ =>
    by_cases here : u = uid
    · exact ⟨some given, (roster _ _).mpr (.inl ⟨here, rfl⟩)⟩
    · exact ⟨x, (roster _ _).mpr (.inr ⟨here, there⟩)⟩

private theorem not_mem (keeps : s.graph.ReturnsAt internal) {current : String}
    (there : (uid, some current) ∈ s.graph.roster) (plain : ¬isInternalName current) :
    uid ∉ internal := by
  intro listed
  rw [keeps.called uid listed current there] at plain
  exact plain (by decide)

theorem returnsAt (registers : s.Registers action) (keeps : s.graph.ReturnsAt internal) :
    (s.perform action).2.graph.ReturnsAt
      (internal ++ if action.returns then s.additions action else []) := by
  constructor
  case placed =>
    intro u listed
    rcases mem_step.mp listed with listed | ⟨-, listed⟩
    · exact registers.uids (keeps.placed u listed)
    · exact (mem_additions.mp listed).1
  case called =>
    intro u listed name called
    cases registers with
    | added more roster new returned _ =>
      rw [roster, List.mem_append] at called
      rcases mem_step.mp listed with listed | ⟨returns, listed⟩ <;> rcases called with called | called
      · exact keeps.called u listed name called
      · exact absurd (keeps.placed u listed) (new _ called)
      · exact absurd (Graph.mem_uids_iff.mpr ⟨_, called⟩) (mem_additions.mp listed).2
      · exact returned returns u name called
    | renamed there plain roster other _ =>
      have listed := (mem_step.mp listed).resolve_right fun added => other added.1
      rcases (roster _ _).mp called with ⟨rfl, -⟩ | ⟨-, called⟩
      · exact absurd listed (not_mem keeps there plain)
      · exact keeps.called u listed name called

/-- Reserved names are given for the return value only, unless the action doubles an underscore; they
are never taken away. -/
theorem apart_iff (registers : s.Registers action) (keeps : s.graph.ReturnsAt internal)
    (distinct : s.graph.uids.Nodup) :
    (s.perform action).2.graph.Apart (internal ++ if action.returns then s.additions action else []) ↔
      s.graph.Apart internal ∧ ¬s.doubles action := by
  have before : ∀ {u x}, (u, x) ∈ s.graph.roster →
      u ∈ internal ++ (if action.returns then s.additions action else []) → u ∈ internal :=
    fun there listed => (mem_step.mp listed).resolve_right fun added =>
      (mem_additions.mp added.2).2 (Graph.mem_uids_iff.mpr ⟨_, there⟩)
  cases registers with
  | added more roster new returned doubled =>
    constructor
    · refine fun apart => ⟨fun u name called reserved => before called (apart u name ?_ reserved),
        fun doubles => ?_⟩
      · exact roster ▸ List.mem_append_left _ called
      · obtain ⟨other, u, name, called, reserved⟩ := doubled.mp doubles
        have listed := apart u name (roster ▸ List.mem_append_right _ called) reserved
        have old := (mem_step.mp listed).resolve_right fun added => other added.1
        exact new _ called (keeps.placed u old)
    · rintro ⟨apart, single⟩ u name called reserved
      rw [mem_step]
      rw [roster, List.mem_append] at called
      rcases called with called | called
      · exact .inl (apart u name called reserved)
      · -- Without a node for the return value, the action would double an underscore.
        have returns : action.returns := by
          by_contra other
          exact single (doubled.mpr ⟨other, u, name, called, reserved⟩)
        refine .inr ⟨returns, mem_additions.mpr ⟨?_, new _ called⟩⟩
        exact Graph.mem_uids_iff.mpr ⟨_, roster ▸ List.mem_append_right _ called⟩
  | @renamed uid current given there plain roster other doubled =>
    -- The name that is given up is not reserved, so that all reserved ones stay.
    have only : ∀ {name}, (uid, some name) ∈ s.graph.roster → ¬isInternalName name := by
      intro name called
      rw [Graph.mem_roster_iff_find? distinct] at there called
      cases there.symm.trans called
      exact plain
    constructor
    · refine fun apart => ⟨fun u name called reserved => before called (apart u name ?_ reserved),
        fun doubles => ?_⟩
      · refine (roster _ _).mpr (.inr ⟨?_, called⟩)
        rintro rfl
        exact only called reserved
      · have listed := apart uid given ((roster _ _).mpr (.inl ⟨rfl, rfl⟩)) (doubled.mp doubles)
        exact not_mem keeps there plain (before there listed)
    · rintro ⟨apart, single⟩ u name called reserved
      rcases (roster _ _).mp called with ⟨rfl, same⟩ | ⟨-, called⟩
      · cases same
        exact absurd (doubled.mpr reserved) single
      · exact List.mem_append_left _ (apart u name called reserved)

end Registers

private theorem Registers.of_same (roster : (s.perform action).2.graph.roster = s.graph.roster)
    (single : ¬s.doubles action) : s.Registers action :=
  .added [] (by rw [roster, List.append_nil]) (fun _ listed => absurd listed List.not_mem_nil)
    (fun _ _ _ listed => absurd listed List.not_mem_nil)
    ⟨fun doubles => absurd doubles single, fun ⟨_, _, _, listed, _⟩ => absurd listed List.not_mem_nil⟩

private theorem Registers.of_refused {error : Refusal} (fails : s.perform action = (.error error, s)) :
    s.Registers action :=
  .of_same (by rw [fails]) (by simp [doubles, fails, Except.isOk, Except.toBool])

theorem doubles_iff {name : String} {taken : List String}
    (requests : s.request? action = some (name, taken)) :
    s.doubles action ↔ (s.perform action).1.isOk ∧ name = "_" ∧ "_" ∈ taken := by
  simp [doubles, requests]

private theorem doubles_iff_isInternalName {name : String} {taken : List String}
    (requests : s.request? action = some (name, taken)) (succeeds : (s.perform action).1.isOk)
    (free : isInternalName name = false) :
    s.doubles action ↔ isInternalName (unusedNameLike taken name) := by
  rw [doubles_iff requests, isInternalName_unusedNameLike, free]
  simp [succeeds]

/-! ### Adding variables -/

def declared (s : Session) (d : Definition) (name : String) (isPublic : Bool) : Session :=
  { s with
    graph := s.graph.push (declaration d (s.graph.unusedNameLike name) isPublic s.supply.draw.1)
    supply := s.supply.draw.2
    dirty := true }

theorem declare_eq (s : Session) (d : Definition) (name : String) (isPublic : Bool) :
    s.declare d name isPublic =
      if d.inputs.length ≤ publicInput then (.error (.missingEntry d.fullName), s)
      else (.ok s.supply.draw.1, s.declared d name isPublic) :=
  rfl

theorem roster_declared (declares : d.kind = .variable) (room : publicInput < d.inputs.length)
    (s : Session) (name : String) (isPublic : Bool) :
    (s.declared d name isPublic).graph.roster =
      s.graph.roster ++ [(s.supply.draw.1, some (s.graph.unusedNameLike name))] := by
  rw [declared, Graph.roster_push, declaration_variableName? declares room]
  rfl

theorem addVariable_cases (s : Session) (type name : String) (isPublic : Bool) :
    (∃ error, s.addVariable type name isPublic = (.error error, s)) ∨
      ∃ d, d.kind = .variable ∧ publicInput < d.inputs.length ∧
        isInternalName (sanitizedName name) = false ∧
        s.addVariable type name isPublic =
          (.ok s.supply.draw.1, s.declared d (sanitizedName name) isPublic) := by
  unfold addVariable editing
  split
  · exact .inl ⟨_, rfl⟩
  · split
    · exact .inl ⟨_, rfl⟩
    · rename_i d found
      dsimp only
      rw [declare_eq]
      split
      · exact .inl ⟨_, rfl⟩
      · rename_i free
        split
        · exact .inl ⟨_, rfl⟩
        · rename_i room
          exact .inr ⟨d, (find?_declaration found).2, Nat.lt_of_not_le room,
            Bool.not_eq_true _ ▸ free, rfl⟩

theorem addVariable_registers (fresh : s.supply.Fresh s.graph.uids) (type name : String)
    (isPublic : Bool) : s.Registers (.addVariable type name isPublic) := by
  have requests : s.request? (.addVariable type name isPublic) =
      some (sanitizedName name, s.graph.variableNames) := rfl
  rcases s.addVariable_cases type name isPublic with ⟨error, fails⟩ | ⟨d, declares, room, free, adds⟩
  · exact .of_refused (by rw [perform, fails]; rfl)
  · have succeeds : (s.perform (.addVariable type name isPublic)).1.isOk := by
      rw [perform, adds]
      rfl
    have plain : ¬(Action.addVariable type name isPublic).returns := Bool.false_ne_true
    refine .added [(s.supply.draw.1, some (s.graph.unusedNameLike (sanitizedName name)))] ?_ ?_
      (fun returns => absurd returns plain) ?_
    · rw [perform, adds]
      exact roster_declared declares room s _ isPublic
    · rintro entry listed
      rw [List.mem_singleton.mp listed]
      exact fresh.draw_unused
    · rw [doubles_iff_isInternalName requests succeeds free]
      simp [Action.returns, Graph.unusedNameLike]

/-! ### Adding nodes -/

private theorem internalVariable_roster (s : Session) (type : String) :
    (s.internalVariable returnVariableName type).2.graph.roster = s.graph.roster ∨
      (s.internalVariable returnVariableName type).2.graph.roster =
        s.graph.roster ++ [(s.supply.draw.1, some returnVariableName)] := by
  unfold internalVariable
  split
  · exact .inl rfl
  · rename_i absent
    split
    · exact .inl rfl
    · rename_i d found
      rw [declare_eq]
      split
      · exact .inl rfl
      · rename_i room
        have given : s.graph.unusedNameLike returnVariableName = returnVariableName :=
          unusedNameLike_eq_self (Graph.not_mem_variableNames absent)
        refine .inr ((roster_declared (find?_declaration found).2 (Nat.lt_of_not_le room) s _
          false).trans ?_)
        rw [given]

private theorem prepare_roster (s : Session) (uid : Uid) :
    (s.prepare uid).2.graph.roster = s.graph.roster ∨
      (∃ n, s.graph.find? uid = some n ∧ n.fullName = Kind.setReturnValueName) ∧
        (s.prepare uid).2.graph.roster =
          s.graph.roster ++ [(s.supply.draw.1, some returnVariableName)] := by
  unfold prepare
  split
  · exact .inl rfl
  · rename_i n d placed
    split
    · exact .inl rfl
    · rename_i name type needs
      obtain rfl := Manner.internalVariable?_name needs
      have sets := Manner.fullName_of_internalVariable? (by rw [needs]; rfl)
      have declares := s.internalVariable_roster type
      split
      · exact .inl rfl
      · split
        · rename_i outcome
          rw [outcome] at declares
          exact declares.imp_right fun more => ⟨⟨n, (Graph.placed_eq_ok.mp placed).1, sets⟩, more⟩
        · rename_i target t outcome
          have bound : (t.graph.update uid fun n =>
              { n with values := n.values.set 0 (.text target) }).roster = t.graph.roster :=
            Graph.roster_update (fun _ => rfl) fun n _ _ => Node.variableName?_set fun _ => by decide
          rw [outcome] at declares
          dsimp only at declares ⊢
          rw [bound]
          exact declares.imp_right fun more => ⟨⟨n, (Graph.placed_eq_ok.mp placed).1, sets⟩, more⟩

private theorem addPlain_roster (fresh : s.supply.Fresh s.graph.uids) (other : d.kind ≠ .variable)
    (position : Position) :
    ∃ more, (s.addPlain d position).2.graph.roster =
        s.graph.roster ++ (s.supply.draw.1, none) :: more ∧
      (more = [] ∨ d.fullName = Kind.setReturnValueName ∧
        more = [(s.supply.draw.2.draw.1, some returnVariableName)]) := by
  let n : Node := { Node.fresh s.supply.draw.1 d with position }
  let placed : Session := { s with graph := s.graph.push n, supply := s.supply.draw.2 }
  have unnamed : n.variableName? = none :=
    Node.variableName?_eq_none fun declares => other (of_decide_eq_true declares)
  have start : placed.graph.roster = s.graph.roster ++ [(s.supply.draw.1, none)] := by
    rw [Graph.roster_push, unnamed]
    rfl
  have there : placed.graph.find? s.supply.draw.1 = some n := Graph.find?_push_new fresh.draw_unused
  have after : (s.addPlain d position).2.graph = (placed.prepare s.supply.draw.1).2.graph := by
    unfold addPlain place
    dsimp only
    split
    · rename_i outcome
      rw [outcome]
    · rename_i outcome
      rw [outcome]
  rw [after]
  rcases placed.prepare_roster s.supply.draw.1 with same | ⟨⟨m, found, sets⟩, more⟩
  · exact ⟨[], same.trans start, .inl rfl⟩
  · cases there.symm.trans found
    refine ⟨_, ?_, .inr ⟨sets, rfl⟩⟩
    rw [more, start, List.append_assoc]
    rfl

def declaredAt (s : Session) (d : Definition) (position : Position) : Session :=
  let t := s.declared d (sanitizedName defaultVariableName) false
  { t with graph := t.graph.update s.supply.draw.1 fun n => { n with position } }

theorem addNode_cases (s : Session) (fullName : String) (position : Position) :
    (∃ error, s.addNode fullName position = (.error error, s)) ∨
      (∃ d, d.kind = .variable ∧ publicInput < d.inputs.length ∧
        fullName ≠ Kind.setReturnValueName ∧
        isInternalName (sanitizedName defaultVariableName) = false ∧
        s.addNode fullName position = (.ok s.supply.draw.1, s.declaredAt d position)) ∨
      ∃ d, d.fullName = fullName ∧ d.kind ≠ .variable ∧
        s.addNode fullName position = s.addPlain d position := by
  unfold addNode editing
  split
  · exact .inl ⟨_, rfl⟩
  · split
    · exact .inl ⟨_, rfl⟩
    · rename_i d found
      rw [Catalog.get_eq_ok] at found
      split
      · rename_i type starts
        have other : fullName ≠ Kind.setReturnValueName := by
          rintro rfl
          have none : Text.stripStart? Kind.variablePrefix Kind.setReturnValueName = none := by decide
          cases none.symm.trans starts
        rcases s.addVariable_cases type defaultVariableName false with
          ⟨error, fails⟩ | ⟨e, declares, room, free, adds⟩
        · rw [fails]
          exact .inl ⟨_, rfl⟩
        · rw [adds]
          exact .inr (.inl ⟨e, declares, room, other, free, rfl⟩)
      · rename_i other
        split
        · exact .inl ⟨_, rfl⟩
        · exact .inr (.inr ⟨d, Catalog.find?_fullName found, find?_plain found other, rfl⟩)

theorem addNode_registers (fresh : s.supply.Fresh s.graph.uids) (fullName : String)
    (position : Position) : s.Registers (.addNode fullName position) := by
  have single : ¬s.doubles (.addNode fullName position) := by simp [doubles, request?]
  have after : (s.perform (.addNode fullName position)).2 = (s.addNode fullName position).2 := by
    rw [perform, settle_snd]
  rcases s.addNode_cases fullName position with
    ⟨error, fails⟩ | ⟨d, declares, room, other, free, adds⟩ | ⟨d, rfl, other, adds⟩
  · exact .of_refused (by rw [perform, fails]; rfl)
  · have moved : ∀ g : Graph, (g.update s.supply.draw.1 fun n => { n with position }).roster =
        g.roster := fun g => Graph.roster_update (fun _ => rfl) fun _ _ _ => rfl
    have plain : sanitizedName defaultVariableName ≠ "_" := by decide +kernel
    have given : ¬isInternalName (s.graph.unusedNameLike (sanitizedName defaultVariableName)) := by
      rw [Graph.unusedNameLike, isInternalName_unusedNameLike, free]
      simp [plain]
    refine .added [(s.supply.draw.1, some (s.graph.unusedNameLike (sanitizedName
      defaultVariableName)))] ?_ ?_ ?_ ?_
    · rw [after, adds]
      exact (moved _).trans (roster_declared declares room s _ false)
    · rintro entry listed
      rw [List.mem_singleton.mp listed]
      exact fresh.draw_unused
    · exact fun returns => absurd (of_decide_eq_true returns) other
    · simpa [single] using fun _ => Bool.not_eq_true _ ▸ given
  · obtain ⟨more, roster, alone⟩ := addPlain_roster fresh other position
    rw [← adds] at roster
    have named : ∀ u name, (u, some name) ∈ (s.supply.draw.1, none) :: more →
        d.fullName = Kind.setReturnValueName ∧ name = returnVariableName := by
      intro u name listed
      rcases List.mem_cons.mp listed with same | listed
      · cases same
      · rcases alone with rfl | ⟨sets, rfl⟩
        · cases listed
        · cases List.mem_singleton.mp listed
          exact ⟨sets, rfl⟩
    refine .added ((s.supply.draw.1, none) :: more) (after ▸ roster) ?_
      (fun _ u name listed => (named u name listed).2) ?_
    · intro entry listed
      have later := fresh.draw.draw_unused
      rw [List.mem_append, not_or] at later
      rcases alone with rfl | ⟨-, rfl⟩
      · rw [List.mem_singleton.mp listed]
        exact fresh.draw_unused
      · rcases List.mem_pair.mp listed with rfl | rfl
        · exact fresh.draw_unused
        · exact later.1
    · refine ⟨fun doubles => absurd doubles single, ?_⟩
      rintro ⟨plain, u, name, listed, -⟩
      exact absurd (decide_eq_true (named u name listed).1) plain

/-! ### Renaming -/

private theorem not_mem_otherNames (named : s.graph.Named) {n : Node}
    {current : String} (found : s.graph.find? uid = some n) (called : n.variableName? = some current) :
    current ∉ s.graph.otherNames uid := by
  intro taken
  obtain ⟨m, hm, other, called'⟩ := Graph.mem_otherNames.mp taken
  refine named.apart n (Graph.find?_mem found) m hm ?_ current called called'
  rw [Graph.find?_uid found]
  exact other.symm

private theorem rename_registers (distinct : s.graph.uids.Nodup) (named : s.graph.Named) {name : String}
    (requests : s.request? action = some (sanitizedName name, s.graph.otherNames uid))
    (other : ¬action.returns) {given : String} {changed : Option Graph}
    (renames : s.graph.renameVariable uid name = .ok (given, changed))
    (succeeds : (s.perform action).1.isOk)
    (takes : (s.perform action).2.graph = changed.getD s.graph) : s.Registers action := by
  obtain ⟨n, current, found, called, plain, free, outcome⟩ := Graph.renameVariable_eq_ok_iff.mp renames
  dsimp only at outcome
  split at outcome
  · rename_i same
    cases outcome
    refine .of_same (by rw [takes]; rfl) fun doubles => ?_
    obtain ⟨-, lone, taken⟩ := (doubles_iff requests).mp doubles
    rw [← lone, same] at taken
    exact not_mem_otherNames named found called taken
  · cases outcome
    have there : (uid, some current) ∈ s.graph.roster :=
      Graph.mem_roster.mpr ⟨n, Graph.find?_mem found, Graph.find?_uid found, called⟩
    refine .renamed there (Bool.not_eq_true _ ▸ plain) (fun u x => ?_) other
      (doubles_iff_isInternalName requests succeeds free)
    rw [takes]
    exact Graph.mem_roster_rename distinct found (called ▸ rfl) _

theorem renameVariable_registers (distinct : s.graph.uids.Nodup) (named : s.graph.Named) (uid : Uid)
    (name : String) : s.Registers (.renameVariable uid name) := by
  have refused : ∀ error, s.renameVariable uid name = (.error error, s) →
      s.Registers (.renameVariable uid name) :=
    fun error fails => .of_refused (by rw [perform, fails]; rfl)
  by_cases steady : s.repairing
  · exact refused .underRepair (by rw [renameVariable, editing, if_pos steady])
  cases renames : s.graph.renameVariable uid name with
  | error error => exact refused error (by rw [renameVariable, editing, if_neg steady, renames])
  | ok outcome =>
    obtain ⟨given, changed⟩ := outcome
    refine rename_registers distinct named rfl Bool.false_ne_true renames ?_ ?_ <;>
      cases changed <;> simp [perform, renameVariable, editing, steady, renames, settle, touched,
        Except.isOk, Except.toBool]

private theorem storeValue_roster {g h : Graph} {n : Node} {index : Nat} {value : Value}
    (distinct : g.uids.Nodup) (found : g.find? uid = some n) (other : n.isVariable → index ≠ nameInput)
    (stores : g.storeValue n d index value = .ok h) : h.roster = g.roster := by
  obtain ⟨stored, -, -, rfl⟩ := Graph.storeValue_eq_ok stores
  refine Graph.roster_update (fun _ => rfl) fun m hm here => ?_
  obtain rfl := Graph.eq_of_find? distinct found hm (here.trans (Graph.find?_uid found))
  exact Node.variableName?_set other

theorem setValue_registers (distinct : s.graph.uids.Nodup) (named : s.graph.Named) (uid : Uid)
    (index : Nat) (value : Value) : s.Registers (.setValue uid index value) := by
  have refused : ∀ error, s.setValue uid index value = (.error error, s) →
      s.Registers (.setValue uid index value) :=
    fun error fails => .of_refused (by rw [perform, fails]; rfl)
  by_cases steady : s.repairing
  · exact refused .underRepair (by simp [setValue, adoptChange, editing, steady])
  cases sets : s.graph.setValue s.catalog uid index value with
  | error error => exact refused error (by simp [setValue, adoptChange, editing, steady, sets])
  | ok changed =>
    have succeeds : (s.perform (.setValue uid index value)).1.isOk := by
      cases changed <;> simp [perform, setValue, adoptChange, editing, steady, sets, settle,
        Except.isOk, Except.toBool]
    have takes : (s.perform (.setValue uid index value)).2.graph = changed.getD s.graph := by
      cases changed <;> simp [perform, setValue, adoptChange, editing, steady, sets, settle, touched]
    obtain ⟨n, d, found, -, ⟨other, h, stores, rfl⟩ | ⟨declares, place, name, text, given, renames⟩⟩ :=
      Graph.setValue_ok sets
    · refine .of_same (takes ▸ storeValue_roster distinct found other stores) ?_
      have silent : s.request? (.setValue uid index value) = none := by
        rw [request?, found]
        simpa using fun declares place => absurd place (other declares)
      simp [doubles, silent]
    · refine rename_registers distinct named ?_ Bool.false_ne_true renames succeeds takes
      simp [request?, found, declares, place, text]

/-! ## Whole histories -/

theorem perform_registers (sound : Sound s.catalog s.graph s.supply) (named : s.graph.Named)
    (writes : action.writes) : s.Registers action := by
  cases action <;> first | exact absurd writes Bool.false_ne_true | skip
  case addNode fullName position => exact addNode_registers sound.fresh fullName position
  case addVariable type name isPublic => exact addVariable_registers sound.fresh type name isPublic
  case setValue uid index value => exact setValue_registers sound.formed.distinct named uid index value
  case renameVariable uid name => exact renameVariable_registers sound.formed.distinct named uid name

private theorem addNode_steady (s : Session) (fullName : String) (position : Position) :
    (s.addNode fullName position).2.repairing = s.repairing := by
  rcases s.addNode_cases fullName position with
    ⟨error, fails⟩ | ⟨d, -, -, -, -, adds⟩ | ⟨d, -, -, adds⟩
  · rw [fails]
  · rw [adds]
    rfl
  · have kept := ((s.place fun uid => { Node.fresh uid d with position }).2.prepare_keeps
      s.supply.draw.1).2
    rw [adds]
    unfold addPlain
    dsimp only
    split
    all_goals
      rename_i outcome
      change ((s.place _).2.prepare s.supply.draw.1) = _ at outcome
      rw [outcome] at kept
      exact kept

theorem perform_steady (writes : action.writes) : (s.perform action).2.repairing = s.repairing := by
  cases action <;> first | exact absurd writes Bool.false_ne_true | skip
  case addVariable type name isPublic =>
    rw [perform, settle_snd]
    rcases s.addVariable_cases type name isPublic with ⟨error, fails⟩ | ⟨d, -, -, -, adds⟩
    · rw [fails]
    · rw [adds]
      rfl
  case addNode fullName position =>
    rw [perform, settle_snd]
    exact s.addNode_steady fullName position
  case setValue uid index value =>
    have kept : (s.adoptChange (s.graph.setValue s.catalog uid index value)).2.repairing =
        s.repairing := by
      unfold adoptChange editing
      split
      · rfl
      · split <;> rfl
    rw [perform, settle_snd]
    unfold setValue
    split
    all_goals
      rename_i outcome
      rw [outcome] at kept
      exact kept
  case renameVariable uid name =>
    rw [perform, settle_snd]
    unfold renameVariable editing
    split
    · rfl
    · split <;> rfl

/-- A session with all that actions that write rely on. -/
structure Ready (s : Session) (internal : List Uid) : Prop where
  distinct : s.catalog.Distinct
  methods : s.catalog.OfMethods
  sound : Sound s.catalog s.graph s.supply
  named : s.graph.Named
  steady : s.repairing = false
  returns : s.graph.ReturnsAt internal

theorem Ready.perform (ready : s.Ready internal) (writes : action.writes) :
    (s.perform action).2.Ready (internal ++ if action.returns then s.additions action else []) := by
  have catalog := (s.perform_makes action).catalog
  have pastes : ∀ text anchor, action ≠ .paste text anchor := by
    rintro text anchor rfl
    cases writes
  have kept : Sound s.catalog (s.perform action).2.graph (s.perform action).2.supply ∧
      (s.perform action).2.graph.Named :=
    perform_named ready.distinct ready.methods ready.sound ready.named
      fun text anchor same => absurd same (pastes text anchor)
  constructor
  case distinct => exact catalog ▸ ready.distinct
  case methods => exact catalog ▸ ready.methods
  case sound => exact catalog ▸ kept.1
  case named => exact kept.2
  case steady => exact (perform_steady writes).trans ready.steady
  case returns => exact (perform_registers ready.sound ready.named writes).returnsAt ready.returns

/-- After a history no other variable has a reserved name exactly if none had one before and no action
has doubled an underscore. -/
theorem Ready.after (ready : s.Ready internal) (writes : ∀ action ∈ actions, action.writes) :
    (s.after actions).Ready (internal ++ s.returnNodes actions) ∧
      ((s.after actions).graph.Apart (internal ++ s.returnNodes actions) ↔
        s.graph.Apart internal ∧ ¬s.everDoubles actions) := by
  induction actions generalizing s internal with
  | nil => simpa [Session.after, returnNodes, everDoubles] using ready
  | cons action actions ih =>
    rw [List.forall_mem_cons] at writes
    have step := (perform_registers ready.sound ready.named writes.1).apart_iff ready.returns
      ready.sound.formed.distinct
    obtain ⟨later, apart⟩ := ih (ready.perform writes.1) writes.2
    rw [List.append_assoc] at later apart
    refine ⟨later, apart.trans ?_⟩
    rw [step, everDoubles, Bool.or_eq_true, not_or, and_assoc]

/-! ## What is promised -/

/-- What is promised of the variables of a session, but for those that are internal. -/
structure Reserves (s : Session) (internal : List Uid) : Prop where
  /-- They have no reserved names. -/
  apart : ∀ n ∈ s.graph.nodes, ∀ name, n.variableName? = some name → isInternalName name →
    n.uid ∈ internal
  /-- They can be renamed. -/
  renames : ∀ n ∈ s.graph.nodes, n.isVariable → n.uid ∉ internal →
    ∀ name, ¬isInternalName (sanitizedName name) → ∃ given, (s.renameVariable n.uid name).1 = .ok given
  /-- All variables are listed, and no internal one before one that is not. -/
  listed : ∀ n ∈ s.graph.nodes, n.isVariable → n.uid ∈ s.graph.declaredVariables.map Variable.uid
  order : s.graph.declaredVariables.Pairwise fun v w => v.uid ∈ internal → w.uid ∈ internal
  /-- Internal variables have the name for the return value. -/
  internals : ∀ n ∈ s.graph.nodes, n.isVariable → n.uid ∈ internal →
    n.variableName? = some returnVariableName

private theorem Ready.renames (ready : s.Ready internal) {n : Node} {current name : String}
    (listed : n ∈ s.graph.nodes) (called : n.variableName? = some current)
    (plain : ¬isInternalName current) (free : ¬isInternalName (sanitizedName name)) :
    ∃ given, (s.renameVariable n.uid name).1 = .ok given := by
  have found := Graph.find?_of_mem ready.sound.formed.distinct listed
  have renames : ∃ outcome, s.graph.renameVariable n.uid name = .ok outcome :=
    ⟨_, Graph.renameVariable_eq_ok_iff.mpr ⟨n, current, found, called, Bool.not_eq_true _ ▸ plain,
      Bool.not_eq_true _ ▸ free, rfl⟩⟩
  obtain ⟨⟨given, changed⟩, renames⟩ := renames
  refine ⟨given, ?_⟩
  rw [renameVariable, editing, ready.steady, if_neg Bool.false_ne_true, renames]
  cases changed <;> rfl

private theorem isSome_listing {n : Node} (declares : n.isVariable)
    (called : n.variableName?.isSome) : n.variable?.isSome := by
  obtain ⟨name, called⟩ := Option.isSome_iff_exists.mp called
  have starts := Kind.startsWith_of_variable (of_decide_eq_true declares)
  obtain ⟨rest, starts⟩ := Option.isSome_iff_exists.mp starts
  have type : n.variableType? = some (String.ofList rest) := by
    rw [Node.variableType?, Text.stripStart?, starts]
    rfl
  rw [ Node.variable?, called, type]
  rfl

private theorem uid_of_listing {n : Node} {v : Variable} (declares : n.variable? = some v) :
    v.uid = n.uid := by
  unfold Node.variable? at declares
  cases called : n.variableName? <;> rw [called] at declares
  · cases declares
  · cases type : n.variableType? <;> rw [type] at declares <;> cases declares
    rfl

private theorem Ready.order (ready : s.Ready internal) (apart : s.graph.Apart internal) :
    s.graph.variableNodes.Pairwise fun n m => n.uid ∈ internal → m.uid ∈ internal := by
  have user : ∀ n ∈ s.graph.nodes, n.variableName?.isSome → n.uid ∈ internal →
      n.variableName?.any isInternalName := by
    intro n hn called listed
    obtain ⟨name, called⟩ := Option.isSome_iff_exists.mp called
    rw [called, ready.returns.called n.uid listed name (Graph.mem_roster.mpr ⟨n, hn, rfl, called⟩)]
    decide
  have reserved : ∀ m ∈ s.graph.nodes, m.variableName?.any isInternalName → m.uid ∈ internal := by
    intro m hm reserved
    obtain ⟨name, called, reserved⟩ := (Option.any_eq_true _ _).mp reserved
    exact apart m.uid name (Graph.mem_roster.mpr ⟨m, hm, rfl, called⟩) reserved
  have last : ∀ m ∈ (s.graph.nodes.filter fun n => n.variableName?.isSome).filter
      fun n => n.variableName?.any isInternalName, m.uid ∈ internal := by
    intro m hm
    obtain ⟨hm, there⟩ := List.mem_filter.mp hm
    exact reserved m (List.mem_filter.mp hm).1 there
  refine List.pairwise_append.mpr ⟨?_, ?_, fun n _ m hm _ => last m hm⟩
  · refine List.pairwise_of_forall_mem_list fun n hn m _ listed => ?_
    obtain ⟨hn, other⟩ := List.mem_filter.mp hn
    obtain ⟨hn, called⟩ := List.mem_filter.mp hn
    rw [user n hn called listed] at other
    cases other
  · exact List.pairwise_of_forall_mem_list fun n _ m hm _ => last m hm

theorem Ready.reserves_iff (ready : s.Ready internal) : s.Reserves internal ↔
    s.graph.Apart internal := by
  have named : ∀ n ∈ s.graph.nodes, n.isVariable → ∃ name, n.variableName? = some name :=
    fun n hn declares => Option.isSome_iff_exists.mp (ready.named.named n hn declares)
  constructor
  · intro reserves u name entry reserved
    obtain ⟨n, hn, rfl, called⟩ := Graph.mem_roster.mp entry
    exact reserves.apart n hn name called reserved
  · intro apart
    have apart' : ∀ n ∈ s.graph.nodes, ∀ name, n.variableName? = some name →
        isInternalName name → n.uid ∈ internal := fun n hn name called reserved =>
      apart n.uid name (Graph.mem_roster.mpr ⟨n, hn, rfl, called⟩) reserved
    constructor
    case apart => exact apart'
    case renames =>
      intro n hn declares user name free
      obtain ⟨current, called⟩ := named n hn declares
      exact ready.renames hn called (fun reserved => user (apart' n hn current called reserved)) free
    case listed =>
      intro n hn declares
      have called := ready.named.named n hn declares
      obtain ⟨v, there⟩ := Option.isSome_iff_exists.mp (isSome_listing declares called)
      exact List.mem_map.mpr ⟨v, List.mem_filterMap.mpr
        ⟨n, Graph.mem_variableNodes.mpr ⟨hn, called⟩, there⟩, uid_of_listing there⟩
    case order =>
      refine List.pairwise_filterMap.mpr ((ready.order apart).imp fun later v declares w declares' => ?_)
      rw [uid_of_listing declares, uid_of_listing declares']
      exact later
    case internals =>
      intro n hn declares listed
      obtain ⟨name, called⟩ := named n hn declares
      rw [called, ready.returns.called n.uid listed name (Graph.mem_roster.mpr ⟨n, hn, rfl, called⟩)]

/-- Whatever names are asked for in a history that starts without nodes, no variable has a reserved name
but those that nodes for the return value have declared, and every other one can be renamed and is listed
before them, exactly if no single underscore is asked for while another variable is called by it. -/
theorem after_reserves_iff {c : Catalog} (distinct : c.Distinct) (methods : c.OfMethods)
    (settings : Settings) {supply : Supply} (fresh : supply.Fresh [])
    (writes : ∀ action ∈ actions, action.writes) :
    ((create c settings supply).after actions).Reserves
        ((create c settings supply).returnNodes actions) ↔
      (create c settings supply).everDoubles actions = false := by
  have sound := (Begun.sound distinct (.created settings fresh)).2
  have ready : (create c settings supply).Ready [] :=
    ⟨distinct, methods, sound, ⟨fun n hn => absurd hn List.not_mem_nil,
      fun n hn => absurd hn List.not_mem_nil⟩, rfl, ⟨fun u listed => absurd listed List.not_mem_nil,
      fun u listed => absurd listed List.not_mem_nil⟩⟩
  have start : (create c settings supply).graph.Apart [] :=
    fun u name called => absurd called List.not_mem_nil
  obtain ⟨later, apart⟩ := ready.after writes
  rw [List.nil_append] at later apart
  rw [later.reserves_iff, apart, Bool.not_eq_true]
  exact and_iff_right start

def handing : List Action := [
  .addVariable int32Type "_" false,
  .addNode Kind.setReturnValueName .origin,
  .addVariable int32Type "__speed" true,
  .addVariable int32Type "speed" true,
  .renameVariable "aa" "speed",
  .setValue "aaaaa" nameInput (.text "_")]

theorem after_reserves_handed :
    ((create Catalog.intrinsic .default (.marks 'a')).after handing).Reserves ["aaa", "aaaa"] ∧
      ((create Catalog.intrinsic .default (.marks 'a')).after handing).graph.variableNames =
        ["speed_1", "_", "__returnValue"] := by
  have runs : (create Catalog.intrinsic .default (.marks 'a')).everDoubles handing = false ∧
      (create Catalog.intrinsic .default (.marks 'a')).returnNodes handing = ["aaa", "aaaa"] ∧
      ((create Catalog.intrinsic .default (.marks 'a')).after handing).graph.variableNames =
        ["speed_1", "_", "__returnValue"] := by
    rw [Catalog.intrinsic_eq]
    decide +kernel
  obtain ⟨single, internal, names⟩ := runs
  have reserves := (after_reserves_iff Catalog.intrinsic_distinct Catalog.intrinsic_ofMethods .default
    (Supply.marks_fresh fun _ listed => absurd listed List.not_mem_nil) (by decide)).mpr single
  exact ⟨internal ▸ reserves, names⟩

/-- Two variables are asked to be called by a single underscore. -/
def doubling : List Action := [
  .addVariable int32Type "_" false,
  .addVariable int32Type "_" false]

/-- The second one gets a reserved name, and can never be renamed. -/
theorem second_underscore_reserved :
    ((create Catalog.intrinsic .default (.marks 'a')).after doubling).graph.variableNames =
        ["_", "__1"] ∧
      (((create Catalog.intrinsic .default (.marks 'a')).after doubling).renameVariable "aaa"
        "speed").1 = .error (.reservedName "__1") ∧
      ¬((create Catalog.intrinsic .default (.marks 'a')).after doubling).Reserves
        ((create Catalog.intrinsic .default (.marks 'a')).returnNodes doubling) := by
  have runs : ((create Catalog.intrinsic .default (.marks 'a')).after doubling).graph.variableNames =
        ["_", "__1"] ∧
      (((create Catalog.intrinsic .default (.marks 'a')).after doubling).renameVariable "aaa"
        "speed").1 = .error (.reservedName "__1") ∧
      ∃ n ∈ ((create Catalog.intrinsic .default (.marks 'a')).after doubling).graph.nodes,
        n.variableName? = some "__1" ∧
          n.uid ∉ (create Catalog.intrinsic .default (.marks 'a')).returnNodes doubling := by
    rw [Catalog.intrinsic_eq]
    decide +kernel
  obtain ⟨names, refused, n, hn, called, other⟩ := runs
  exact ⟨names, refused, fun reserves => other (reserves.apart n hn "__1" called (by decide))⟩

end Session

end ScriptGraph
