import ScriptGraph.Proofs.Clipping.Copies
import ScriptGraph.Proofs.Graph.WellFormed
import ScriptGraph.Proofs.Session.Marks
import ScriptGraph.Proofs.Session.Names
import ScriptGraph.Proofs.Session.Valid
import ScriptGraph.Proofs.Snapshot.Untouched
import ScriptGraph.Session.Reload

/-!
Repairing settles. A repair leaves no comment among the nodes, and the record of each is found under the
uid that the comment had. What it leaves has nothing to mend, and every node that sets the return value
has the variable for it, so a second repair reports nothing and changes nothing.
-/

set_option autoImplicit false
set_option relaxedAutoImplicit false

/-! ## Comments -/

namespace ScriptGraph

namespace Layout

variable {uid other : Uid} {text : String} {position : Position} {records : List Json}

theorem replaces_comment (old : Json) :
    replaces (comment uid text position) old = (uid? old == some uid) := by
  have type : type? (comment uid text position) = some commentType := rfl
  have named : uid? (comment uid text position) = some uid := rfl
  have many : singleTypes.contains commentType = false := by decide
  simp only [replaces, type, named, Option.any_some, many, Bool.false_eq_true, if_false,
    Option.isSome_some, Bool.true_and]

theorem find?_addComment (l : Layout) :
    (l.addComment uid text position).find? uid = some (comment uid text position) := by
  have here : (uid? (comment uid text position) == some uid) = true := beq_self_eq_true (some uid)
  change (put _ l.records).find? _ = _
  induction l.records with
  | nil => rw [put, List.find?_cons, here]
  | cons old rest ih =>
    rw [put, replaces_comment]
    split
    · rw [List.find?_cons, here]
    · rename_i otherwise
      rw [List.find?_cons, Bool.eq_false_iff.mpr otherwise]
      exact ih

theorem find?_addComment_other (l : Layout) (differs : uid ≠ other) :
    (l.addComment uid text position).find? other = l.find? other := by
  have named : uid? (comment uid text position) = some uid := rfl
  have aside : (uid? (comment uid text position) == some other) = false := by
    simpa [named] using differs
  change (put _ l.records).find? _ = l.records.find? _
  induction l.records with
  | nil => rw [put, List.find?_cons, aside]
  | cons old rest ih =>
    rw [put, replaces_comment]
    split
    · rename_i replaced
      have gone : (uid? old == some other) = false := by
        rw [beq_iff_eq.mp replaced]
        simpa using differs
      rw [List.find?_cons, List.find?_cons, aside, gone]
    · rw [List.find?_cons, List.find?_cons, ih]

end Layout

namespace Session

/-- The record that a comment becomes. -/
def recordOf (n : Node) : Json := Layout.comment n.uid (commentText n) n.position

private theorem find?_foldl_other {comments : List Node} {uid : Uid} (s : Session)
    (absent : uid ∉ comments.map Node.uid) :
    (comments.foldl convertComment s).layout.find? uid = s.layout.find? uid := by
  induction comments generalizing s with
  | nil => rfl
  | cons n comments ih =>
    rw [List.map_cons, List.mem_cons, not_or] at absent
    exact (ih (s.convertComment n) absent.2).trans
      (Layout.find?_addComment_other s.layout (Ne.symm absent.1))

private theorem find?_foldl_convertComment {comments : List Node} (s : Session)
    (distinct : (comments.map Node.uid).Nodup) : ∀ n ∈ comments,
      (comments.foldl convertComment s).layout.find? n.uid = some (recordOf n) := by
  induction comments generalizing s with
  | nil => exact fun n listed => absurd listed List.not_mem_nil
  | cons first comments ih =>
    rw [List.map_cons, List.nodup_cons] at distinct
    intro n listed
    rcases List.mem_cons.mp listed with rfl | listed
    · exact (find?_foldl_other (s.convertComment n) distinct.1).trans
        (Layout.find?_addComment s.layout)
    · exact ih (s.convertComment first) distinct.2 n listed

theorem restore_comments (s : Session) (distinct : s.graph.uids.Nodup) {n : Node}
    (listed : n ∈ s.graph.nodes) (kind : n.kind = .comment) :
    s.restore.1.layout.find? n.uid = some (recordOf n) := by
  have apart : ((comments s.graph).map Node.uid).Nodup :=
    distinct.sublist (List.filter_sublist.map Node.uid)
  exact find?_foldl_convertComment s apart n (List.mem_filter.mpr ⟨listed, decide_eq_true kind⟩)

end Session

namespace Graph

variable {c : Catalog} {g : Graph} {n : Node}

theorem mem_foldl_extract (distinct : g.uids.Nodup) {uids : List Uid}
    (listed : n ∈ (uids.foldl extract g).nodes) :
    n.uid ∉ uids ∧ ∃ m ∈ g.nodes, m.uid = n.uid ∧ m.fullName = n.fullName := by
  induction uids generalizing g with
  | nil => exact ⟨List.not_mem_nil, n, listed, rfl, rfl⟩
  | cons uid uids ih =>
    obtain ⟨absent, m, hm, same, name⟩ := ih (distinct_extract distinct) listed
    obtain ⟨k, hk, rfl⟩ := List.mem_map.mp hm
    rw [nodes_remove distinct, List.mem_filter, decide_eq_true_iff] at hk
    refine ⟨fun gone => ?_, k, hk.1, same, name⟩
    rcases List.mem_cons.mp gone with here | gone
    · exact hk.2 (same.trans here)
    · exact absent gone

theorem kind_of_repaired (distinct : g.uids.Nodup) (listed : n ∈ (g.repaired c).nodes) :
    n.kind ≠ .comment := by
  obtain ⟨-, defined⟩ := uncommented_resolved (c := c) distinct
  obtain ⟨m, hm, d, -, rfl⟩ := mem_restoreConnections defined listed
  have there := (List.mem_filter.mp hm).1
  rw [uncommented, ← List.foldl_map] at there
  obtain ⟨absent, k, hk, same, name⟩ := mem_foldl_extract distinct there
  intro kind
  have comments : k ∈ Session.comments g := by
    refine List.mem_filter.mpr ⟨hk, decide_eq_true ?_⟩
    rw [Node.kind, name]
    exact kind
  exact absent (same ▸ List.mem_map_of_mem comments)

end Graph

end ScriptGraph

/-! ## Settled graphs -/

namespace ScriptGraph

namespace Graph

variable {c : Catalog} {g h : Graph} {uid target : Uid} {n : Node} {d : Definition}

/-! ## Mended graphs -/

theorem repaired_mended (c : Catalog) (distinct : g.uids.Nodup) : (g.repaired c).Mended c := by
  obtain ⟨-, defined⟩ := uncommented_resolved c distinct
  have onward : ∀ u v, (g.repaired c).Leads u v → v ≠ u := by
    rintro u v ⟨n, listed, rfl, there⟩
    obtain ⟨m, -, d, -, rfl⟩ := mem_restoreConnections defined listed
    rw [Node.restored_uid]
    exact Node.restored_onward there
  exact ⟨repaired_valid c distinct, repaired_wellFormed c distinct,
    fun n listed => kind_of_repaired distinct listed, onward⟩

theorem Mended.push (mended : g.Mended c) (new : n.uid ∉ g.uids)
    (found : c.find? n.fullName = some d) (conforms : n.Conforms d) (fit : Node.Fit d n.values)
    (kind : n.kind ≠ .comment) (links : ∀ link, some link ∉ n.links)
    (flows : ∀ target, some target ∉ n.flows) : (g.push n).Mended c := by
  have fits : ∀ e, c.find? n.fullName = some e → Node.Fit e n.values := by
    intro e known
    obtain rfl : d = e := Option.some.inj (found.symm.trans known)
    exact fit
  refine ⟨mended.toValid.push links flows fits, mended.formed.push new found conforms links flows,
    fun m listed => ?_, fun u v leads => mended.onward u v (leads_of_push flows leads)⟩
  rcases List.mem_append.mp listed with listed | listed
  · exact mended.uncommented m listed
  · rw [List.mem_singleton.mp listed]
    exact kind

theorem Mended.setLiteral (mended : g.Mended c) {index : Nat} {value : Value}
    (fits : ∀ n ∈ g.nodes, n.uid = uid → ∀ d, c.find? n.fullName = some d →
      value.fits (d.inputType index)) :
    (g.update uid fun n => { n with values := n.values.set index value }).Mended c := by
  refine ⟨mended.toValid.setLiteral fits, mended.formed.setLiteral index value, fun m listed => ?_,
    fun u v leads => mended.onward u v (leads_of_update leads fun _ => ⟨rfl, rfl⟩)⟩
  rcases mem_update listed with there | ⟨n, there, -, rfl⟩
  · exact mended.uncommented m there
  · exact mended.uncommented n there

/-! ## The variable for the return value -/

/-- The node that declares the variable for the return value, by its uid. -/
def returnVariable? (g : Graph) : Option Uid :=
  (g.findVariable? returnVariableName).map Node.uid

theorem returnVariable?_push (declared : g.returnVariable? = some target) :
    (g.push n).returnVariable? = some target := by
  obtain ⟨m, found, rfl⟩ := Option.map_eq_some_iff.mp declared
  have there : (g.push n).findVariable? returnVariableName = some m := by
    change (g.nodes ++ [n]).find? _ = _
    rw [List.find?_append, show g.nodes.find? _ = some m from found, Option.some_or]
  rw [returnVariable?, there, Option.map_some]

theorem returnVariable?_push_new (absent : g.findVariable? returnVariableName = none)
    (named : n.variableName? = some returnVariableName) :
    (g.push n).returnVariable? = some n.uid := by
  have there : (g.push n).findVariable? returnVariableName = some n := by
    change (g.nodes ++ [n]).find? _ = _
    rw [List.find?_append, show g.nodes.find? _ = none from absent, Option.none_or, List.find?_cons,
      named, decide_eq_true rfl]
  rw [returnVariable?, there, Option.map_some]

theorem returnVariable?_setTarget (g : Graph) (uid : Uid) (value : Value) :
    (g.update uid fun n => { n with values := n.values.set 0 value }).returnVariable? =
      g.returnVariable? := by
  have same : ∀ n : Node,
      { n with values := n.values.set 0 value }.variableName? = n.variableName? :=
    fun n => Node.variableName?_set fun _ => by decide
  change ((updateFirst uid _ g.nodes).find? _).map Node.uid = (g.nodes.find? _).map Node.uid
  induction g.nodes with
  | nil => rfl
  | cons n nodes ih =>
    rw [updateFirst]
    split
    · rw [List.find?_cons, List.find?_cons, same]
      split <;> rfl
    · rw [List.find?_cons, List.find?_cons]
      split
      · rfl
      · exact ih

/-- A node that sets the return value is bound to a node of the graph, or else to the variable for
that value. -/
def Prepared (g : Graph) (n : Node) : Prop :=
  n.fullName = Kind.setReturnValueName → n.target?.any g.contains ∨
    ∃ target, g.returnVariable? = some target ∧ n.values[0]? = some (.text target)

theorem Prepared.of_more (prepared : g.Prepared n) (there : ∀ u ∈ g.uids, u ∈ h.uids)
    (declared : ∀ target, g.returnVariable? = some target → h.returnVariable? = some target) :
    h.Prepared n := by
  intro name
  refine (prepared name).imp (fun bound => ?_) fun ⟨target, found, here⟩ =>
    ⟨target, declared target found, here⟩
  obtain ⟨target, same, contained⟩ := (Option.any_eq_true _ _).mp bound
  obtain ⟨m, found⟩ := Option.isSome_iff_exists.mp contained
  obtain ⟨m', found'⟩ := find?_isSome_of_mem (there target (find?_uid found ▸ uid_mem (find?_mem found)))
  rw [same, Option.any_some, contains, found']
  rfl

theorem setLiteral_eq_self (distinct : g.uids.Nodup) (listed : n ∈ g.nodes) {index : Nat}
    {value : Value} (here : n.values[index]? = some value) :
    (g.update n.uid fun n => { n with values := n.values.set index value }) = g := by
  have same : { n with values := n.values.set index value } = n := by
    obtain ⟨inside, rfl⟩ := List.getElem?_eq_some_iff.mp here
    rw [List.set_getElem_self]
  have nodes : (g.update n.uid fun n => { n with values := n.values.set index value }).nodes =
      g.nodes := by
    rw [nodes_update distinct]
    refine (List.map_congr_left fun m hm => ?_).trans (List.map_id g.nodes)
    split
    · rename_i uids
      obtain rfl := List.inj_on_of_nodup_map distinct hm listed uids
      exact same
    · rfl
  rw [update, show updateFirst n.uid _ g.nodes = g.nodes from nodes]

end Graph

namespace Session

variable {c : Catalog} {s t : Session} {uid : Uid} {uids rest pending : List Uid} {n : Node}

/-! ## Binding nodes to the variables they need -/

private theorem target_fits (extension : c.Extends) {name : String} {d : Definition}
    (sets : name = Kind.setReturnValueName) (found : c.find? name = some d) (text : String) :
    (Value.text text).fits (d.inputType 0) := by
  have access : d.kind.access?.isSome := by
    rw [Catalog.find?_kind found, sets]
    rfl
  rw [extension.inputType_of_access found access]
  exact Node.text_fits text

private def returnDefinition : Definition := Catalog.variableOf objectType

private def returnDeclaration (uid : Uid) : Node :=
  declaration returnDefinition returnVariableName false uid

private theorem returnDeclaration_named (uid : Uid) :
    (returnDeclaration uid).variableName? = some returnVariableName :=
  declaration_variableName? (by decide) (by decide) returnVariableName false uid

private theorem returnDeclaration_fit (uid : Uid) :
    Node.Fit returnDefinition (returnDeclaration uid).values := by
  have defaults : returnDefinition.Defaults := by
    unfold Definition.Defaults
    decide +kernel
  have names : returnDefinition.inputType nameInput = some textType := rfl
  exact declaration_fit defaults (fun text => names ▸ Node.text_fits text)
    (fun flag => by cases flag <;> decide) _ false _

/-- A repair under way: the graph is mended, and nodes that are not pending have what they need. -/
structure Preparing (c : Catalog) (pending : List Uid) (s : Session) : Prop where
  catalog : s.catalog = c
  mended : s.graph.Mended c
  fresh : s.supply.Fresh s.graph.uids
  placed : ∀ uid ∈ pending, uid ∈ s.graph.uids
  prepared : ∀ n ∈ s.graph.nodes, n.uid ∉ pending → s.graph.Prepared n

namespace Preparing

theorem next (preparing : Preparing c (uid :: rest) s)
    (here : ∀ n ∈ s.graph.nodes, n.uid = uid → s.graph.Prepared n) : Preparing c rest s := by
  refine { preparing with
    placed := fun u listed => preparing.placed u (List.mem_cons_of_mem uid listed)
    prepared := fun n listed idle => ?_ }
  by_cases same : n.uid = uid
  · exact here n listed same
  · exact preparing.prepared n listed fun waits => (List.mem_cons.mp waits).elim same idle

theorem bind (extension : c.Extends) (preparing : Preparing c (uid :: rest) s) {target : Uid}
    (declared : s.graph.returnVariable? = some target) (found : s.graph.find? uid = some n)
    (sets : n.fullName = Kind.setReturnValueName) :
    Preparing c rest { s with graph := s.graph.update uid fun n =>
      { n with values := n.values.set 0 (.text target) } } := by
  have distinct := preparing.mended.formed.distinct
  have uids : (s.graph.update uid fun n =>
      { n with values := n.values.set 0 (.text target) }).uids = s.graph.uids :=
    s.graph.uids_setLiteral 0 (.text target)
  have kept := s.graph.returnVariable?_setTarget uid (.text target)
  have fits : ∀ m ∈ s.graph.nodes, m.uid = uid → ∀ d, c.find? m.fullName = some d →
      (Value.text target).fits (d.inputType 0) := by
    intro m listed here d known
    obtain rfl := Graph.eq_of_find? distinct found listed here
    exact target_fits extension sets known target
  refine ⟨preparing.catalog, preparing.mended.setLiteral fits, uids ▸ preparing.fresh,
    fun u listed => ?_, fun m listed idle => ?_⟩
  · exact uids ▸ preparing.placed u (List.mem_cons_of_mem uid listed)
  · change m ∈ (s.graph.update uid _).nodes at listed
    rw [Graph.nodes_update distinct] at listed
    obtain ⟨k, hk, rfl⟩ := List.mem_map.mp listed
    split
    · rename_i here
      obtain rfl := Graph.eq_of_find? distinct found hk here
      intro _
      obtain ⟨d, known, conforms⟩ := preparing.mended.formed.conforms k hk
      have access : d.kind.access?.isSome := by
        rw [Catalog.find?_kind known, sets]
        rfl
      have room : 0 < k.values.length := by
        have typed := extension.inputType_of_access known access
        have inputs : 0 < d.inputs.length := by
          refine Nat.pos_of_ne_zero fun none => ?_
          rw [Definition.inputType, List.eq_nil_of_length_eq_zero none] at typed
          cases typed
        exact Nat.lt_of_lt_of_le inputs conforms.values
      exact Or.inr ⟨target, kept.trans declared, List.getElem?_set_self room⟩
    · rename_i other
      have waiting : k.uid ∉ uid :: rest := fun waits => (List.mem_cons.mp waits).elim other
        (by rwa [if_neg other] at idle)
      exact (preparing.prepared k hk waiting).of_more (fun u there => uids ▸ there)
        fun v found => kept.trans found

private theorem declared (preparing : Preparing c pending s)
    (known : c.find? returnDefinition.fullName = some returnDefinition) :
    Preparing c pending { s with
      graph := s.graph.push (returnDeclaration s.supply.draw.1)
      supply := s.supply.draw.2
      dirty := true } := by
  have kind : returnDefinition.kind = .variable := by decide
  have mended : (s.graph.push (returnDeclaration s.supply.draw.1)).Mended c :=
    preparing.mended.push preparing.fresh.draw_unused known (declaration_conforms _ _ false _)
      (returnDeclaration_fit _) (fun comment => by cases kind.symm.trans comment)
      (fun _ => Node.fresh_links) fun _ => Node.fresh_flows
  refine ⟨preparing.catalog, mended, ?_, fun u listed => ?_, fun m listed idle => ?_⟩
  · rw [Graph.uids_push]
    exact preparing.fresh.draw
  · rw [Graph.uids_push]
    exact List.mem_append_left _ (preparing.placed u listed)
  · rcases List.mem_append.mp listed with listed | listed
    · refine (preparing.prepared m listed idle).of_more (fun u there => ?_) fun target declared =>
        Graph.returnVariable?_push declared
      rw [Graph.uids_push]
      exact List.mem_append_left _ there
    · intro sets
      obtain rfl := List.mem_singleton.mp listed
      have other : returnDefinition.fullName ≠ Kind.setReturnValueName := by decide
      exact absurd sets other

theorem internalVariable (extension : c.Extends) (preparing : Preparing c pending s) :
    ∃ target t, s.internalVariable returnVariableName objectType = (.ok target, t) ∧
      t.layout = s.layout ∧ Preparing c pending t ∧ t.graph.returnVariable? = some target ∧
      ∀ u m, s.graph.find? u = some m → t.graph.find? u = some m := by
  unfold Session.internalVariable
  cases found : s.graph.findVariable? returnVariableName with
  | some m =>
    refine ⟨m.uid, s, rfl, rfl, preparing, ?_, fun _ _ => id⟩
    rw [Graph.returnVariable?, found, Option.map_some]
  | none =>
    have known : s.catalog.find? returnDefinition.fullName = some returnDefinition := by
      rw [preparing.catalog]
      exact extension.find?_variableOf (by decide)
    have room : publicInput < returnDefinition.inputs.length := by decide
    let v := returnDeclaration s.supply.draw.1
    have declares : s.declare returnDefinition returnVariableName false = (.ok v.uid,
        { s with graph := s.graph.push v, supply := s.supply.draw.2, dirty := true }) := by
      rw [declare, if_neg (Nat.not_le_of_gt room), Graph.unusedNameLike,
        unusedNameLike_eq_self (Graph.not_mem_variableNames found)]
      rfl
    refine ⟨v.uid, { s with graph := s.graph.push v, supply := s.supply.draw.2, dirty := true }, ?_,
      rfl, preparing.declared (preparing.catalog ▸ known),
      Graph.returnVariable?_push_new found (returnDeclaration_named _), fun u m => Graph.find?_push⟩
    rw [show s.catalog.get (Kind.variablePrefix ++ objectType) = .ok returnDefinition from
      Catalog.get_eq_ok.mpr known]
    exact declares

theorem prepare (extension : c.Extends) (preparing : Preparing c (uid :: rest) s) :
    ∃ t, s.prepare uid = (.ok (), t) ∧ t.layout = s.layout ∧ Preparing c rest t := by
  obtain ⟨n, found⟩ := Graph.find?_isSome_of_mem (preparing.placed uid List.mem_cons_self)
  have distinct := preparing.mended.formed.distinct
  obtain ⟨d, known, -⟩ := preparing.mended.formed.conforms n (Graph.find?_mem found)
  have placed : s.graph.placed s.catalog uid = .ok (n, d) :=
    Graph.placed_eq_ok.mpr ⟨found, preparing.catalog ▸ known⟩
  have only : s.graph.Prepared n → Preparing c rest s := fun prepared =>
    preparing.next fun m listed here => Graph.eq_of_find? distinct found listed here ▸ prepared
  unfold Session.prepare
  simp only [placed]
  cases needs : (Manner.ofName n.fullName).internalVariable? with
  | none =>
    refine ⟨s, rfl, rfl, only fun sets => ?_⟩
    rw [sets] at needs
    cases needs
  | some need =>
    obtain ⟨name, type⟩ := need
    obtain rfl := Manner.internalVariable?_name needs
    obtain rfl := Manner.internalVariable?_type needs
    dsimp only
    split
    · rename_i bound
      exact ⟨s, rfl, rfl, only fun _ => Or.inl bound⟩
    · obtain ⟨target, t, declares, layout, preparing, declared, kept⟩ :=
        preparing.internalVariable extension
      have sets := Manner.fullName_of_internalVariable? (by rw [needs]; rfl)
      rw [declares]
      exact ⟨_, rfl, layout, preparing.bind extension declared (kept uid n found) sets⟩

theorem prepareEach (extension : c.Extends) (preparing : Preparing c uids s) :
    ∃ t, s.prepareEach uids = (.ok (), t) ∧ t.layout = s.layout ∧ Preparing c [] t := by
  induction uids generalizing s with
  | nil => exact ⟨s, rfl, rfl, preparing⟩
  | cons uid uids ih =>
    obtain ⟨t, prepares, layout, preparing⟩ := preparing.prepare extension
    obtain ⟨u, rest, layout', preparing⟩ := ih preparing
    refine ⟨u, ?_, layout'.trans layout, preparing⟩
    rw [Session.prepareEach, prepares]
    exact rest

end Preparing

/-! ## Repairing what is repaired -/

theorem prepare_eq (mended : s.graph.Mended s.catalog) (listed : n ∈ s.graph.nodes)
    (prepared : s.graph.Prepared n) : s.prepare n.uid = (.ok (), s) := by
  have distinct := mended.formed.distinct
  obtain ⟨d, known, -⟩ := mended.formed.conforms n listed
  have placed : s.graph.placed s.catalog n.uid = .ok (n, d) :=
    Graph.placed_eq_ok.mpr ⟨Graph.find?_of_mem distinct listed, known⟩
  unfold prepare
  simp only [placed]
  cases needs : (Manner.ofName n.fullName).internalVariable? with
  | none => rfl
  | some need =>
    obtain ⟨name, type⟩ := need
    obtain rfl := Manner.internalVariable?_name needs
    have sets := Manner.fullName_of_internalVariable? (by rw [needs]; rfl)
    dsimp only
    split
    · rfl
    · rename_i unbound
      obtain ⟨target, declared, here⟩ := (prepared sets).resolve_left unbound
      obtain ⟨m, found, rfl⟩ := Option.map_eq_some_iff.mp declared
      have there : s.internalVariable returnVariableName type = (.ok m.uid, s) := by
        rw [internalVariable, found]
      simp only [there, Graph.setLiteral_eq_self distinct listed here]

theorem prepareEach_eq (mended : s.graph.Mended s.catalog)
    (prepared : ∀ n ∈ s.graph.nodes, s.graph.Prepared n) (listed : ∀ uid ∈ uids, uid ∈ s.graph.uids) :
    s.prepareEach uids = (.ok (), s) := by
  induction uids with
  | nil => rfl
  | cons uid uids ih =>
    obtain ⟨n, hn, rfl⟩ := List.mem_map.mp (listed uid List.mem_cons_self)
    rw [prepareEach, prepare_eq mended hn (prepared n hn)]
    exact ih fun u there => listed u (List.mem_cons_of_mem _ there)

theorem restore_eq (mended : s.graph.Mended s.catalog) : s.restore = (s, []) := by
  have none : comments s.graph = [] :=
    List.filter_eq_nil_iff.mpr fun n listed comment =>
      mended.uncommented n listed (of_decide_eq_true comment)
  unfold restore convertComments
  simp only [none, List.foldl_nil, List.map_nil, mended.removeUndefined_eq,
    mended.restoreConnections_eq, List.append_nil]

/-- Nothing is left to repair, and every node has what it needs. -/
structure Settled (s : Session) : Prop where
  mended : s.graph.Mended s.catalog
  prepared : ∀ n ∈ s.graph.nodes, s.graph.Prepared n

theorem Settled.reload_eq (settled : s.Settled) :
    s.reload = (.ok [], { s with repairing := false, dirty := true, diagnostics := [] }) := by
  have prepares : ({ s with repairing := true } : Session).prepareEach s.graph.uids =
      (.ok (), { s with repairing := true }) :=
    prepareEach_eq settled.mended settled.prepared fun _ => id
  unfold reload
  simp only [restore_eq settled.mended, prepares]

theorem reload_settles (extension : s.catalog.Extends) (distinct : s.graph.uids.Nodup)
    (fresh : s.supply.Fresh s.graph.uids) : ∃ diagnostics t, s.reload = (.ok diagnostics, t) ∧
      t.catalog = s.catalog ∧ t.Settled ∧ t.layout = s.restore.1.layout := by
  obtain ⟨catalog, work⟩ := s.restore_work
  have graph : s.restore.1.graph = s.graph.repaired s.catalog := congrArg Prod.fst work
  have supply : s.restore.1.supply = s.supply := congrArg Prod.snd work
  have preparing : Preparing s.catalog s.restore.1.graph.uids
      { s.restore.1 with repairing := true } := by
    refine ⟨catalog, ?_, ?_, fun _ => id, fun n listed idle => ?_⟩
    · rw [graph]
      exact Graph.repaired_mended s.catalog distinct
    · rw [graph, supply]
      exact fresh.of_subset fun _ => Graph.mem_uids_of_repaired
    · exact absurd (Graph.uid_mem listed) idle
  obtain ⟨t, prepares, layout, preparing⟩ := preparing.prepareEach extension
  refine ⟨s.restore.2, { t with repairing := false, dirty := true, diagnostics := s.restore.2 }, ?_,
    preparing.catalog, ⟨?_, fun n listed => preparing.prepared n listed List.not_mem_nil⟩, layout⟩
  · unfold reload
    simp only [prepares]
  · rw [preparing.catalog]
    exact preparing.mended

/-- Prepared nodes that set the return value are bound to a node of the graph, unless the variable for
that value has an empty uid: the uid of a target cannot be empty. -/
theorem Settled.bound (settled : s.Settled)
    (listed : n ∈ s.graph.nodes) (sets : n.fullName = Kind.setReturnValueName) :
    (∃ uid ∈ s.graph.uids, n.target? = some uid) ∨ s.graph.returnVariable? = some "" := by
  rcases settled.prepared n listed sets with bound | ⟨target, declared, here⟩
  · obtain ⟨uid, target, contained⟩ := (Option.any_eq_true _ _).mp bound
    obtain ⟨m, found⟩ := Option.isSome_iff_exists.mp contained
    exact Or.inl ⟨uid, Graph.find?_uid found ▸ Graph.uid_mem (Graph.find?_mem found), target⟩
  · by_cases empty : target = ""
    · exact Or.inr (empty ▸ declared)
    · obtain ⟨m, found, rfl⟩ := Option.map_eq_some_iff.mp declared
      refine Or.inl ⟨m.uid, Graph.uid_mem (List.mem_of_find?_eq_some found), ?_⟩
      have access : n.access?.isSome := by
        rw [Node.access?, Node.kind, sets]
        rfl
      rw [Node.target?, if_pos access, here]
      exact Option.filter_eq_some_iff.mpr ⟨rfl, by simpa using empty⟩

/-- Opening an asset repairs it completely, and only once: the graph that it gets has nothing to mend,
every node that sets the return value is bound, and the texts of comments are kept in records. -/
theorem ofAsset_settles (extension : c.Extends) {asset : Asset} (distinct : asset.graph.uids.Nodup)
    {supply : Supply} (fresh : supply.Fresh asset.graph.uids) (settings : Settings) :
    ∃ s, ofAsset c asset settings supply = .ok s ∧ s.graph.Mended c ∧
      (∀ n ∈ s.graph.nodes, n.fullName = Kind.setReturnValueName →
        (∃ uid ∈ s.graph.uids, n.target? = some uid) ∨ s.graph.returnVariable? = some "") ∧
      (∀ n ∈ asset.graph.nodes, n.kind = .comment → s.layout.find? n.uid = some (recordOf n)) ∧
      ∃ t, s.reload = (.ok [], t) ∧ t.graph = s.graph ∧ t.layout = s.layout := by
  let start : Session :=
    { create c settings supply with graph := asset.graph, layout := asset.layout }
  have later : start.supply.Fresh start.graph.uids :=
    fresh.draw.of_subset fun _ listed => List.mem_append_left _ listed
  obtain ⟨diagnostics, s, reloads, catalog, settled, layout⟩ :=
    reload_settles (s := start) extension distinct later
  have opens : ofAsset c asset settings supply = .ok s := by
    unfold ofAsset
    simp only [show ({ create c settings supply with
      graph := asset.graph, layout := asset.layout } : Session).reload = _ from reloads]
  refine ⟨s, opens, ?_, fun n listed sets => settled.bound listed sets, fun n listed kind => ?_,
    _, settled.reload_eq, rfl, rfl⟩
  · have mended := settled.mended
    rwa [catalog] at mended
  · rw [layout]
    exact start.restore_comments distinct listed kind

/-- An old asset: a comment that flows lead to, a node nobody knows, and nodes that set a return value
for which there is no variable. -/
def legacy : Asset := ⟨{ Graph.empty "legacy" with
  nodes := [
    ⟨"note", Kind.commentName, .origin, [.text "remember"], [], []⟩,
    ⟨"start", Kind.eventPrefix ++ "Start", .origin, [], [], [some "note", some "first"]⟩,
    ⟨"first", Kind.setReturnValueName, .origin, [.text "gone", .int32 1], [none, some ⟨"first", 0⟩],
      [some "unknown", some "second"]⟩,
    ⟨"second", Kind.setReturnValueName, .origin, [.bool true], [], [some "start"]⟩,
    ⟨"unknown", "Unknown", .origin, [], [], []⟩] }, .empty⟩

theorem ofAsset_settles_legacy : ∃ s, ofAsset Catalog.intrinsic legacy .default .strokes = .ok s ∧
    s.graph.Mended Catalog.intrinsic ∧
    (∀ n ∈ s.graph.nodes, n.fullName = Kind.setReturnValueName →
      (∃ uid ∈ s.graph.uids, n.target? = some uid) ∨ s.graph.returnVariable? = some "") ∧
    (∀ n ∈ legacy.graph.nodes, n.kind = .comment → s.layout.find? n.uid = some (recordOf n)) ∧
    ∃ t, s.reload = (.ok [], t) ∧ t.graph = s.graph ∧ t.layout = s.layout :=
  ofAsset_settles Catalog.intrinsic_extends (by decide) (Supply.strokes_fresh (by decide)) .default

/-- An asset whose variable for the return value has an empty uid. -/
def hollow : Asset := ⟨{ Graph.empty "hollow" with
  nodes := [
    ⟨"", Kind.variablePrefix ++ objectType, .origin, [.null, .text returnVariableName], [], []⟩,
    ⟨"return", Kind.setReturnValueName, .origin, [], [], []⟩] }, .empty⟩

/-- The empty uid stands for no target, so the node that sets the return value stays unbound. -/
theorem ofAsset_hollow : hollow.graph.uids.Nodup ∧ Supply.strokes.Fresh hollow.graph.uids ∧
    ∃ s, ofAsset Catalog.intrinsic hollow .default .strokes = .ok s ∧
      ∃ n ∈ s.graph.nodes, n.fullName = Kind.setReturnValueName ∧
        ¬∃ uid ∈ s.graph.uids, n.target? = some uid := by
  have opens : (ofAsset Catalog.intrinsic hollow .default .strokes).isOk := by decide +kernel
  obtain ⟨s, opens⟩ := exists_eq_ok opens
  have unbound : ((ofAsset Catalog.intrinsic hollow .default .strokes).toOption.any fun s =>
      s.graph.nodes.any fun n =>
        n.fullName == Kind.setReturnValueName && n.target?.isNone) = true := by decide +kernel
  rw [opens] at unbound
  obtain ⟨n, listed, unbound⟩ := List.any_eq_true.mp unbound
  rw [Bool.and_eq_true, beq_iff_eq, Option.isNone_iff_eq_none] at unbound
  refine ⟨by decide, Supply.marks_fresh (by decide), s, opens, n, listed, unbound.1, ?_⟩
  rintro ⟨uid, -, target⟩
  rw [unbound.2] at target
  cases target

end Session

end ScriptGraph
