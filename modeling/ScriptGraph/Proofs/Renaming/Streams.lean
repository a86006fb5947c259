import ScriptGraph.Proofs.Renaming.Inputs

/-!
The streams of a renamed graph are those of the graph. The nodes that flows lead to are never read
for what they are bound to, except by assignments, so no literal shows the renaming.
-/

set_option autoImplicit false
set_option relaxedAutoImplicit false

namespace ScriptGraph.Lowering

variable {ρ : Uid → Uid}

/-! ## Flows -/

section Flows

variable {feed feed' : List Uid → Link → Step Supply}
  {follow follow' : Uid → Target → Step (List Op)} {n : Node} {d : Definition}

def TracksFlows (ρ : Uid → Uid) (follow follow' : Uid → Target → Step (List Op)) (n : Node) :
    Prop :=
  ∀ next, some next ∈ n.flows → ∀ exit, Tracks ρ id (follow next exit) (follow' (ρ next) exit)

theorem port_tracks (flows : TracksFlows ρ follow follow' n) (index : Nat) (exit : Target) :
    Tracks ρ id (port follow n index exit) (port follow' (n.rename ρ) index exit) := by
  have hflow : (n.rename ρ).flows[index]?.join = n.flows[index]?.join.map ρ := by
    rw [Node.rename_flows, List.getElem?_map]
    cases n.flows[index]? <;> rfl
  unfold port
  rw [hflow]
  cases found : n.flows[index]?.join with
  | some next =>
    rw [Option.join_eq_some_iff] at found
    exact flows next (List.mem_of_getElem? found) exit
  | none => exact Tracks.pure id [Op.jump exit]

theorem chains_tracks {uids : List Uid}
    (flows : ∀ uid ∈ uids, ∀ exit, Tracks ρ id (follow uid exit) (follow' (ρ uid) exit))
    (exit : Target) :
    Tracks ρ id (chains follow exit uids) (chains follow' exit (uids.map ρ)) := by
  induction uids with
  | nil => exact Tracks.pure id [Op.jump exit]
  | cons uid rest ih =>
    rw [List.forall_mem_cons] at flows
    cases rest with
    | nil => exact flows.1 exit
    | cons next rest =>
      refine Tracks.newLabel.bind fun after => ?_
      refine (flows.1 (.label after)).bind fun code => ?_
      refine (ih flows.2).bind fun others => ?_
      exact Tracks.pure id (code ++ .label after :: others)

theorem choice_tracks (flows : TracksFlows ρ follow follow' n) (condition : Slot) (exit : Target) :
    Tracks ρ id (choice follow n condition exit) (choice follow' (n.rename ρ) condition exit) := by
  refine Tracks.newLabel.bind fun otherwise => ?_
  refine (port_tracks flows 0 exit).bind fun first => ?_
  refine (port_tracks flows 1 exit).bind fun second => ?_
  exact Tracks.pure id
    (.jumpUnless condition (.label otherwise) :: first ++ .label otherwise :: second)

theorem branch_tracks (feeds : TracksFeed ρ feed feed') (flows : TracksFlows ρ follow follow' n)
    (unbound : n.access? = none) (exit : Target) :
    Tracks ρ id (branch feed follow n d exit) (branch feed' follow' (n.rename ρ) d exit) := by
  refine (input_tracks feeds unbound 0 []).bind fun condition => ?_
  refine (choice_tracks flows condition.slot exit).bind fun chosen => ?_
  exact Tracks.pure id (condition.code ++ chosen)

theorem validity_tracks (feeds : TracksFeed ρ feed feed') (flows : TracksFlows ρ follow follow' n)
    (unbound : n.access? = none) (exit : Target) :
    Tracks ρ id (validity feed follow n d exit) (validity feed' follow' (n.rename ρ) d exit) := by
  refine (input_tracks feeds unbound 0 []).bind fun object => ?_
  refine (Tracks.scratch boolType).bind fun valid => ?_
  refine (choice_tracks flows valid exit).bind fun chosen => ?_
  exact Tracks.pure id (object.code ++ .call isValidMethod [object.slot, valid] :: chosen)

theorem whileLoop_tracks (feeds : TracksFeed ρ feed feed') (flows : TracksFlows ρ follow follow' n)
    (unbound : n.access? = none) (exit : Target) :
    Tracks ρ id (whileLoop feed follow n d exit) (whileLoop feed' follow' (n.rename ρ) d exit) := by
  refine Tracks.newLabel.bind fun header => ?_
  refine Tracks.newLabel.bind fun done => ?_
  refine (input_tracks feeds unbound 0 []).bind fun condition => ?_
  refine (port_tracks flows 0 (.label header)).bind fun body => ?_
  refine (port_tracks flows 1 exit).bind fun after => ?_
  exact Tracks.pure id (.label header :: condition.code ++
    .jumpUnless condition.slot (.label done) :: body ++ .label done :: after)

theorem counting_tracks (flows : TracksFlows ρ follow follow' n) (index stop step inRange : Slot)
    (opening : List Op) (exit : Target) :
    Tracks ρ id (counting follow n index stop step inRange opening exit)
      (counting follow' (n.rename ρ) index stop step inRange opening exit) := by
  refine Tracks.newLabel.bind fun header => ?_
  refine Tracks.newLabel.bind fun increment => ?_
  refine Tracks.newLabel.bind fun done => ?_
  refine (port_tracks flows 0 (.label increment)).bind fun body => ?_
  refine (port_tracks flows 1 exit).bind fun after => ?_
  exact Tracks.pure id _

theorem forLoop_tracks (injective : ρ.Injective) (feeds : TracksFeed ρ feed feed')
    (flows : TracksFlows ρ follow follow' n) (unbound : n.access? = none) (exit : Target) :
    Tracks ρ id (forLoop feed follow n d exit) (forLoop feed' follow' (n.rename ρ) d exit) := by
  refine (input_tracks feeds unbound 0 []).bind fun start => ?_
  refine (input_tracks feeds unbound 1 start.evaluated).bind fun stop => ?_
  refine (input_tracks feeds unbound 2 stop.evaluated).bind fun step => ?_
  refine (Tracks.output injective n.uid 0).bind fun index => ?_
  refine (Tracks.scratch boolType).bind fun inRange => ?_
  refine (counting_tracks flows index stop.slot step.slot inRange [] exit).bind fun loop => ?_
  exact Tracks.pure id (start.code ++ stop.code ++ step.code ++ .copy start.slot index :: loop)

theorem foreachLoop_tracks (injective : ρ.Injective) (feeds : TracksFeed ρ feed feed')
    (flows : TracksFlows ρ follow follow' n) (unbound : n.access? = none) (exit : Target) :
    Tracks ρ id (foreachLoop feed follow n d exit)
      (foreachLoop feed' follow' (n.rename ρ) d exit) := by
  refine (input_tracks feeds unbound 0 []).bind fun array => ?_
  refine (Tracks.output injective n.uid 0).bind fun item => ?_
  refine (Tracks.constant int32Type (.int32 0)).bind fun first => ?_
  refine (Tracks.constant int32Type (.int32 1)).bind fun one => ?_
  refine (Tracks.scratch int32Type).bind fun index => ?_
  refine (Tracks.scratch int32Type).bind fun length => ?_
  refine (Tracks.scratch boolType).bind fun inRange => ?_
  refine (counting_tracks flows index length one inRange _ exit).bind fun loop => ?_
  exact Tracks.pure id (array.code ++ .copy first index ::
    .call arrayLengthMethod [array.slot, length] :: loop)

theorem call_tracks (injective : ρ.Injective) (feeds : TracksFeed ρ feed feed')
    (flows : TracksFlows ρ follow follow' n) (unbound : n.access? = none) (exit : Target) :
    Tracks ρ id (call feed follow n d exit) (call feed' follow' (n.rename ρ) d exit) := by
  refine (inputs_tracks feeds unbound _ []).bind fun supplies => ?_
  refine (callOf_tracks injective supplies).bind fun code => ?_
  refine (port_tracks flows 0 exit).bind fun rest => ?_
  exact Tracks.pure id (code ++ rest)

variable {g : Graph}

theorem watched_rename (injective : ρ.Injective) (empty : ρ "" = "") :
    watched (g.rename ρ) = (watched g).map ρ := by
  have hfilter : (g.rename ρ).nodes.filter (fun n => n.kind = .changeEvent) =
      (g.nodes.filter fun n => n.kind = .changeEvent).map (Node.rename ρ) :=
    Graph.rename_filter fun _ _ => rfl
  rw [watched, hfilter, watched, List.filterMap_map, List.map_filterMap]
  congr 1
  funext n
  exact Node.rename_target? injective empty

theorem notice_tracks (injective : ρ.Injective) (empty : ρ "" = "") (target : Uid)
    (variableNode : Node) : Tracks ρ id (notice g n d target variableNode)
      (notice (g.rename ρ) (n.rename ρ) d (ρ target) (variableNode.rename ρ)) := by
  have hsends : (n.rename ρ).values[2]? = n.values[2]? :=
    Node.rename_values_getElem? (Nat.succ_pos 1)
  unfold notice sendChange
  rw [hsends, watched_rename injective empty, contains_map injective, Node.rename_variableName?]
  split
  · refine (Tracks.constant _ _).bind fun this => ?_
    refine (Tracks.constant _ _).bind fun event => ?_
    exact Tracks.pure id [Op.call sendEventMethod [this, event]]
  · exact Tracks.pure id []

theorem assignment_tracks (injective : ρ.Injective) (empty : ρ "" = "")
    (feeds : TracksFeed ρ feed feed') (flows : TracksFlows ρ follow follow' n) (exit : Target) :
    Tracks ρ id (assignment g feed follow n d exit)
      (assignment (g.rename ρ) feed' follow' (n.rename ρ) d exit) := by
  have htarget : Tracks ρ ρ (present n.uid n.target?) (present (ρ n.uid) (n.target?.map ρ)) :=
    Tracks.present ρ n.uid n.target?
  rw [← Node.rename_target? injective empty] at htarget
  rw [assignment_eq, assignment_eq]
  refine htarget.bind fun target => ?_
  have hvariable : Tracks ρ (Node.rename ρ) (present target (g.find? target))
      (present (ρ target) ((g.find? target).map (Node.rename ρ))) :=
    Tracks.present (Node.rename ρ) target (g.find? target)
  rw [← Graph.rename_find? injective] at hvariable
  refine hvariable.bind fun variableNode => ?_
  refine (Tracks.variableSlot injective target).bind fun slot => ?_
  refine (inputAs_tracks feeds (Or.inr Nat.one_pos) _ []).bind fun value => ?_
  refine (notice_tracks injective empty target variableNode).bind fun change => ?_
  refine (port_tracks flows 0 exit).bind fun rest => ?_
  exact Tracks.pure id (value.code ++ .copy value.slot slot :: change ++ rest)

end Flows

section Graphs

variable {c : Catalog} {g : Graph} {n : Node} {d : Definition}

theorem unbound_of_called (extension : c.Extends) (defined : c.find? n.fullName = some d)
    (flowInput : d.hasFlowInput) (no_set : d.kind ≠ .setVariable)
    (no_return : d.kind ≠ .setReturnValue) : n.access? = none := by
  have same : d.kind = n.kind := Catalog.find?_kind defined
  obtain ⟨flow, event⟩ := Bool.and_eq_true_iff.mp flowInput
  rw [← Option.not_isSome_iff_eq_none]
  intro access
  rw [Node.access?, ← same] at access
  have hflow := extension.flow_of_access defined access
  cases kind : d.kind with
  | getVariable => simp [kind, flow] at hflow
  | changeEvent => simp [Definition.isEvent, kind, Kind.isEvent] at event
  | setVariable => exact no_set kind
  | setReturnValue => exact no_return kind
  | _ =>
    rw [kind] at access
    cases access

theorem body_tracks (extension : c.Extends) (injective : ρ.Injective) (empty : ρ "" = "")
    (defined : c.find? n.fullName = some d) (flowInput : d.hasFlowInput)
    {follow follow' : Uid → Target → Step (List Op)} (flows : TracksFlows ρ follow follow' n)
    (exit : Target) : Tracks ρ id (body g (feedOf c g) follow n d exit)
      (body (g.rename ρ) (feedOf c (g.rename ρ)) follow' (n.rename ρ) d exit) := by
  have feeds := feedOf_tracks (g := g) extension injective empty
  have unbound := unbound_of_called extension defined flowInput
  unfold body
  cases kind : d.kind
  case block =>
    have htargets : (n.rename ρ).targets = n.targets.map ρ := by
      rw [Node.targets, Node.rename_flows, filterMap_id_map, Node.targets]
    rw [htargets]
    refine chains_tracks (fun uid huid => ?_) exit
    obtain ⟨flow, hflow, hsame⟩ := List.mem_filterMap.mp huid
    obtain rfl : flow = some uid := hsame
    exact flows uid hflow
  case branch => exact branch_tracks feeds flows (unbound (by simp [kind]) (by simp [kind])) exit
  case isValid => exact validity_tracks feeds flows (unbound (by simp [kind]) (by simp [kind])) exit
  case forLoop =>
    exact forLoop_tracks injective feeds flows (unbound (by simp [kind]) (by simp [kind])) exit
  case foreachLoop =>
    exact foreachLoop_tracks injective feeds flows (unbound (by simp [kind]) (by simp [kind])) exit
  case whileLoop =>
    exact whileLoop_tracks feeds flows (unbound (by simp [kind]) (by simp [kind])) exit
  case setVariable => exact assignment_tracks injective empty feeds flows exit
  case setReturnValue => exact assignment_tracks injective empty feeds flows exit
  all_goals
    exact call_tracks injective feeds flows (unbound (by simp [kind]) (by simp [kind])) exit

def Enterable (c : Catalog) (g : Graph) (uid : Uid) : Prop :=
  ∃ n d, g.find? uid = some n ∧ c.find? n.fullName = some d ∧ d.hasFlowInput

theorem chain_tracks (extension : c.Extends) (live : g.Live c) (injective : ρ.Injective)
    (empty : ρ "" = "") (depth : Nat) (uid : Uid) (enterable : Enterable c g uid) (exit : Target) :
    Tracks ρ id (chain c g depth uid exit) (chain c (g.rename ρ) depth (ρ uid) exit) := by
  induction depth generalizing uid exit with
  | zero => exact Tracks.throw id (.absentNode uid)
  | succ depth ih =>
    have code : ∀ label, Tracks ρ id (labelledBody c g depth uid exit label)
        (labelledBody c (g.rename ρ) depth (ρ uid) exit label) := by
      intro label
      refine (Tracks.placed injective uid).bind_of ?_
      rintro ⟨n, d⟩ s t placed
      obtain ⟨found, defined, -⟩ := placed_eq_ok.mp placed
      obtain ⟨m, e, hm, he, flowInput⟩ := enterable
      obtain rfl : m = n := Option.some.inj (hm.symm.trans found)
      obtain rfl : e = d := Option.some.inj (he.symm.trans defined)
      have flows : TracksFlows ρ (chain c g depth) (chain c (g.rename ρ) depth) m := by
        intro next hnext exit
        exact ih next (live.flows m (Graph.find?_mem found) next hnext) exit
      refine (body_tracks extension injective empty defined flowInput flows exit).bind fun code => ?_
      exact Tracks.pure id (.label label :: code)
    intro s
    have hkey : (Prod.map ρ (id : Target → Target)).Injective :=
      injective.prodMap Function.injective_id
    have hlookup : (s.rename ρ).emitted.lookup (ρ uid, exit) = s.emitted.lookup (uid, exit) := by
      have hlookup := lookup_map_prodMap hkey (id : Label → Label) (uid, exit) s.emitted
      rwa [Option.map_id_fun, id] at hlookup
    rw [chain_succ, chain_succ, hlookup]
    cases s.emitted.lookup (uid, exit) with
    | some label => rfl
    | none => exact code s.nextLabel (entered uid exit s)

/-! ## Events -/

theorem claimedName?_rename (injective : ρ.Injective) (empty : ρ "" = "") (n : Node) :
    claimedName? (g.rename ρ) (n.rename ρ) = claimedName? g n := by
  unfold claimedName?
  rw [Node.rename_kind]
  cases kind : n.kind with
  | customEvent =>
    have unbound : n.access? = none := by
      rw [Node.access?, kind]
      rfl
    simp only [Node.rename_values unbound]
  | changeEvent => simp only [Graph.rename_targetName? injective empty]
  | _ => rfl

theorem entryName?_tracks (injective : ρ.Injective) (empty : ρ "" = "") (n : Node) :
    Tracks ρ id (entryName? g n) (entryName? (g.rename ρ) (n.rename ρ)) := by
  rw [entryName?_eq, entryName?_eq, claimedName?_rename injective empty, Node.rename_kind]
  split
  · exact (Tracks.report n.uid .unnamedEvent).bind fun _ => Tracks.pure id none
  · exact Tracks.pure id (claimedName? g n)

theorem nameParameters_tracks (injective : ρ.Injective) (uid : Uid) (entry : String) (index : Nat)
    (parameters : List Parameter) : Tracks ρ id (nameParameters uid entry index parameters)
      (nameParameters (ρ uid) entry index parameters) := by
  induction parameters generalizing index with
  | nil => exact Tracks.pure id ()
  | cons p rest ih =>
    have named : Tracks ρ id
        (onHeapOrFail fun h => h.namedOutputSlot uid index (parameterName entry p))
        (onHeapOrFail fun h => h.namedOutputSlot (ρ uid) index (parameterName entry p)) :=
      Tracks.onHeapOrFail fun _ => HeapLayout.rename_namedOutputSlot injective uid index _
    exact named.bind fun _ => ih (index + 1)

theorem entries_tracks (injective : ρ.Injective) (empty : ρ "" = "") (taken : List String)
    (nodes : List Node) :
    Tracks ρ (List.map (Prod.map id (Node.rename ρ))) (entries c g taken nodes)
      (entries c (g.rename ρ) taken (nodes.map (Node.rename ρ))) := by
  induction nodes generalizing taken with
  | nil => exact Tracks.pure (List.map (Prod.map id (Node.rename ρ))) []
  | cons n nodes ih =>
    rw [List.map_cons, entries, entries, Node.rename_fullName]
    cases c.find? n.fullName with
    | none => exact ih taken
    | some d =>
      refine (entryName?_tracks injective empty n).bind fun claimed => ?_
      cases claimed with
      | none => exact ih taken
      | some name =>
        simp only [id]
        split
        · exact (Tracks.report n.uid (.duplicateEntry name)).bind fun _ => ih taken
        · refine (nameParameters_tracks injective n.uid name 0 d.outputs).bind fun _ => ?_
          refine (ih (name :: taken)).bind fun others => ?_
          exact Tracks.pure (List.map (Prod.map id (Node.rename ρ))) ((name, n) :: others)

theorem stream_tracks (extension : c.Extends) (live : g.Live c) (injective : ρ.Injective)
    (empty : ρ "" = "") (name : String) (listed : n ∈ g.nodes) :
    Tracks ρ id (stream c g name n) (stream c (g.rename ρ) name (n.rename ρ)) := by
  have hlength : (g.rename ρ).nodes.length = g.nodes.length := List.length_map _
  have flows : TracksFlows ρ (chain c g (g.nodes.length + 1))
      (chain c (g.rename ρ) (g.nodes.length + 1)) n := by
    intro next hnext exit
    exact chain_tracks extension live injective empty _ next (live.flows n listed next hnext) exit
  have emptied : Tracks ρ id (modify fun s => { s with emitted := [] } : Step Unit)
      (modify fun s => { s with emitted := [] }) := fun _ => rfl
  unfold stream
  rw [hlength]
  refine emptied.bind fun _ => ?_
  refine (port_tracks flows 0 .halt).bind fun ops => ?_
  exact Tracks.pure id (Stream.mk name ops)

theorem streams_tracks (extension : c.Extends) (live : g.Live c) (injective : ρ.Injective)
    (empty : ρ "" = "") : Tracks ρ id (streams c g) (streams c (g.rename ρ)) := by
  have found := entries_tracks (c := c) (g := g) injective empty [] g.eventNodes
  rw [← Graph.rename_eventNodes] at found
  refine found.bind_of fun found s t given => ?_
  have each : ∀ entry ∈ found, Tracks ρ id (stream c g entry.1 entry.2)
      (stream c (g.rename ρ) (Prod.map id (Node.rename ρ) entry).1
        (Prod.map id (Node.rename ρ) entry).2) := by
    intro entry listed
    have event := (entries_eq_ok given).1.node_mem listed
    exact stream_tracks extension live injective empty entry.1 (List.mem_filter.mp event).1
  have all : Tracks ρ (List.map id) (found.mapM fun entry => stream c g entry.1 entry.2)
      ((found.map (Prod.map id (Node.rename ρ))).mapM fun entry =>
        stream c (g.rename ρ) entry.1 entry.2) := Tracks.mapM each
  rwa [List.map_id_fun] at all

end Graphs

end ScriptGraph.Lowering
