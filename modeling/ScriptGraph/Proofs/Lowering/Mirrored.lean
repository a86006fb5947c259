import ScriptGraph.Proofs.Graph.Lookup
import ScriptGraph.Proofs.HeapLayout.Restricted
import ScriptGraph.Proofs.Lowering.Streams
import ScriptGraph.Proofs.Snapshot.Repaired
import Mathlib.Data.List.Perm.Subperm

/-!
Lowering two graphs side by side, from states of which one is the other changed. If the change is of
nothing that a step asks for, and both graphs look the same from the nodes that have code, both emit the
same code and the states stay changed in that way. So lowering never looks at what was reported before,
and more depth than a graph has nodes makes no difference to it.
-/

set_option autoImplicit false
set_option relaxedAutoImplicit false

namespace ScriptGraph

namespace Lowering

variable {α β : Type} {change : Lowering → Lowering}

/-- A step that does to changed states what another does to the states as they are. -/
def Mirrors (change : Lowering → Lowering) (x y : Step α) : Prop :=
  ∀ s, y (change s) = (x s).map (Prod.map id change)

namespace Mirrors

theorem pure (a : α) : Mirrors change (Pure.pure a : Step α) (Pure.pure a) := fun _ => rfl

theorem throw (error : CompileError) :
    Mirrors change (MonadExcept.throw error : Step α) (MonadExcept.throw error) := fun _ => rfl

theorem bind_given {x y : Step α} {f k : α → Step β} (begins : Mirrors change x y)
    (continues : ∀ s a t, x s = .ok (a, t) → Mirrors change (f a) (k a)) :
    Mirrors change (x >>= f) (y >>= k) := by
  intro s
  rw [bind_apply, bind_apply, begins s]
  cases given : x s with
  | error error => rfl
  | ok result => exact continues s result.1 result.2 given result.2

theorem bind {x y : Step α} {f k : α → Step β} (begins : Mirrors change x y)
    (continues : ∀ a, Mirrors change (f a) (k a)) : Mirrors change (x >>= f) (y >>= k) :=
  begins.bind_given fun _ a _ _ => continues a

theorem mapM {f k : α → Step β} {as : List α} (each : ∀ a ∈ as, Mirrors change (f a) (k a)) :
    Mirrors change (as.mapM f) (as.mapM k) := by
  induction as with
  | nil => exact pure []
  | cons a as ih =>
    rw [List.forall_mem_cons] at each
    rw [List.mapM_cons, List.mapM_cons]
    exact each.1.bind fun b => (ih each.2).bind fun bs => pure (b :: bs)

theorem present (uid : Uid) (found : Option α) :
    Mirrors change (present uid found) (present uid found) := by
  cases found with
  | none => exact throw _
  | some a => exact pure a

theorem onHeapOrFail {request : HeapLayout → Except CompileError (α × HeapLayout)}
    {view : HeapLayout → HeapLayout}
    (moved : ∀ s heap, change { s with heap } = { change s with heap := view heap })
    (same : ∀ h, request (view h) = (request h).map (Prod.map id view)) :
    Mirrors change (onHeapOrFail request) (onHeapOrFail request) := by
  intro s
  have heap : (change s).heap = view s.heap := congrArg Lowering.heap (moved s s.heap)
  unfold Lowering.onHeapOrFail
  rw [heap, same]
  cases request s.heap with
  | error error => rfl
  | ok result => exact congrArg (fun t => Except.ok (result.1, t)) (moved s result.2).symm

theorem onHeap {request : HeapLayout → α × HeapLayout} {view : HeapLayout → HeapLayout}
    (moved : ∀ s heap, change { s with heap } = { change s with heap := view heap })
    (same : ∀ h, request (view h) = Prod.map id view (request h)) :
    Mirrors change (onHeap request) (onHeap request) := by
  have granted : Mirrors change (Lowering.onHeapOrFail fun h => .ok (request h))
      (Lowering.onHeapOrFail fun h => .ok (request h)) :=
    onHeapOrFail moved fun h => congrArg Except.ok (same h)
  exact granted

theorem id_iff {x y : Step α} : Mirrors id x y ↔ y = x := by
  have unchanged : ∀ s, (x s).map (Prod.map id id) = x s := fun s => by cases x s <;> rfl
  exact ⟨fun mirrors => funext fun s => (mirrors s).trans (unchanged s),
    fun same s => same ▸ (unchanged s).symm⟩

end Mirrors

/-- A change of states that no step notices, if it asks for outputs of certain nodes only. -/
structure Unseen (live : Uid → Prop) (change : Lowering → Lowering) : Prop where
  newLabel : Mirrors change newLabel newLabel
  report : ∀ uid problem, Mirrors change (report uid problem) (report uid problem)
  constant : ∀ type value, Mirrors change (constant type value) (constant type value)
  scratch : ∀ type, Mirrors change (scratch type) (scratch type)
  variableSlot : ∀ uid, Mirrors change (variableSlot uid) (variableSlot uid)
  output : ∀ uid index, live uid → Mirrors change (output uid index) (output uid index)
  parameter : ∀ uid index name, live uid →
    Mirrors change (onHeapOrFail fun h => h.namedOutputSlot uid index name)
      (onHeapOrFail fun h => h.namedOutputSlot uid index name)
  restarted : Mirrors change (modify fun s => { s with emitted := [] } : Step Unit)
    (modify fun s => { s with emitted := [] })
  emitted : ∀ s, (change s).emitted = s.emitted
  nextLabel : ∀ s, (change s).nextLabel = s.nextLabel
  entered : ∀ uid exit s, entered uid exit (change s) = change (entered uid exit s)

theorem unseen_id (live : Uid → Prop) : Unseen live id := by
  constructor <;> intros <;> first | exact Mirrors.id_iff.mpr rfl | rfl

variable {live : Uid → Prop}

/-! ## Inputs -/

section Inputs

variable {feed feed' : List Uid → Link → Step Supply} {n : Node} {d : Definition}

def MirrorsLinks (change : Lowering → Lowering) (n : Node) (feed feed' : List Uid → Link → Step Supply) :
    Prop :=
  ∀ link, some link ∈ n.links → ∀ evaluated, Mirrors change (feed evaluated link) (feed' evaluated link)

theorem inputAs_mirrors (unseen : Unseen live change) (feeds : MirrorsLinks change n feed feed')
    (index : Nat) (declared : Option String) (evaluated : List Uid) :
    Mirrors change (inputAs feed n d index declared evaluated)
      (inputAs feed' n d index declared evaluated) := by
  unfold inputAs
  cases found : n.links[index]?.join with
  | some link => exact feeds link (mem_of_join_eq_some found) evaluated
  | none => exact (unseen.constant _ _).bind fun _ => .pure _

theorem inputs_mirrors (unseen : Unseen live change) (feeds : MirrorsLinks change n feed feed')
    (indices : List Nat) (evaluated : List Uid) :
    Mirrors change (inputs feed n d indices evaluated) (inputs feed' n d indices evaluated) := by
  induction indices generalizing evaluated with
  | nil => exact .pure _
  | cons index indices ih =>
    rw [inputs, inputs]
    refine (inputAs_mirrors unseen feeds index _ evaluated).bind fun first => ?_
    exact (ih first.evaluated).bind fun others => .pure _

theorem callOf_mirrors (unseen : Unseen live change) (alive : live n.uid) (supplies : Supplies) :
    Mirrors change (callOf n d supplies) (callOf n d supplies) :=
  (Mirrors.mapM fun index _ => unseen.output n.uid index alive).bind fun _ => .pure _

theorem compute_mirrors (unseen : Unseen live change) (feeds : MirrorsLinks change n feed feed')
    (evaluated : List Uid) {link : Link} (alive : live link.node) :
    Mirrors change (compute feed n d evaluated link) (compute feed' n d evaluated link) := by
  refine (inputs_mirrors unseen feeds _ evaluated).bind fun supplies => ?_
  refine (callOf_mirrors (n := { n with uid := link.node }) unseen alive supplies).bind fun code => ?_
  exact (unseen.output _ _ alive).bind fun _ => .pure _

theorem supplyFrom_mirrors (unseen : Unseen live change) {computation computation' : Step Supply}
    (source : Source) (visiting evaluated : List Uid) {link : Link} (alive : live link.node)
    (computes : link.node ∉ visiting → Mirrors change computation computation') :
    Mirrors change
      (supplyFrom source computation (breakCycle evaluated link) visiting evaluated link)
      (supplyFrom source computation' (breakCycle evaluated link) visiting evaluated link) := by
  have stored : Mirrors change (do return ⟨[], ← output link.node link.output, evaluated⟩ : Step Supply)
      (do return ⟨[], ← output link.node link.output, evaluated⟩) :=
    (unseen.output _ _ alive).bind fun _ => .pure _
  cases source with
  | literal type value => exact (unseen.constant type value).bind fun _ => .pure _
  | «variable» uid => exact (unseen.variableSlot uid).bind fun _ => .pure _
  | stored => exact stored
  | computed =>
    simp only [supplyFrom]
    split
    · exact stored
    · split
      · refine (unseen.report _ _).bind fun _ => ?_
        exact (unseen.constant _ _).bind fun _ => .pure _
      · rename_i fresh
        exact computes fun listed => fresh (List.contains_iff_mem.mpr listed)

end Inputs

/-! ## Flows -/

section Flows

variable {feed feed' : List Uid → Link → Step Supply}
  {follow follow' : Uid → Target → Step (List Op)} {n : Node} {d : Definition}

def MirrorsFlows (change : Lowering → Lowering) (n : Node)
    (follow follow' : Uid → Target → Step (List Op)) : Prop :=
  ∀ next, some next ∈ n.flows → ∀ exit, Mirrors change (follow next exit) (follow' next exit)

theorem port_mirrors (follows : MirrorsFlows change n follow follow') (index : Nat) (exit : Target) :
    Mirrors change (port follow n index exit) (port follow' n index exit) := by
  unfold port
  cases found : n.flows[index]?.join with
  | some next => exact follows next (mem_of_join_eq_some found) exit
  | none => exact .pure _

theorem chains_mirrors (unseen : Unseen live change) {uids : List Uid}
    (follows : ∀ uid ∈ uids, ∀ exit, Mirrors change (follow uid exit) (follow' uid exit))
    (exit : Target) : Mirrors change (chains follow exit uids) (chains follow' exit uids) := by
  induction uids with
  | nil => exact .pure _
  | cons uid rest ih =>
    rw [List.forall_mem_cons] at follows
    cases rest with
    | nil => exact follows.1 exit
    | cons next rest =>
      refine unseen.newLabel.bind fun after => (follows.1 _).bind fun code => ?_
      exact (ih follows.2).bind fun others => .pure _

theorem choice_mirrors (unseen : Unseen live change) (follows : MirrorsFlows change n follow follow')
    (condition : Slot) (exit : Target) :
    Mirrors change (choice follow n condition exit) (choice follow' n condition exit) :=
  unseen.newLabel.bind fun _ => (port_mirrors follows 0 exit).bind fun _ =>
    (port_mirrors follows 1 exit).bind fun _ => .pure _

theorem counting_mirrors (unseen : Unseen live change) (follows : MirrorsFlows change n follow follow')
    (index stop step inRange : Slot) (opening : List Op) (exit : Target) :
    Mirrors change (counting follow n index stop step inRange opening exit)
      (counting follow' n index stop step inRange opening exit) :=
  unseen.newLabel.bind fun _ => unseen.newLabel.bind fun _ => unseen.newLabel.bind fun _ =>
    (port_mirrors follows 0 _).bind fun _ => (port_mirrors follows 1 exit).bind fun _ => .pure _

theorem assignment_mirrors {g h : Graph} (unseen : Unseen live change)
    (feeds : MirrorsLinks change n feed feed') (follows : MirrorsFlows change n follow follow')
    (watches : watched h = watched g) (bound : ∀ uid, n.target? = some uid →
      (h.find? uid).map Node.unlinked = (g.find? uid).map Node.unlinked) (exit : Target) :
    Mirrors change (assignment g feed follow n d exit) (assignment h feed' follow' n d exit) := by
  rw [assignment_eq, assignment_eq]
  refine (Mirrors.present n.uid n.target?).bind_given fun _ uid _ given => ?_
  have same := bound uid (present_eq_ok.mp given).1
  cases found : g.find? uid with
  | none =>
    rw [found, Option.map_none, Option.map_eq_none_iff] at same
    rw [same]
    exact .throw _
  | some v =>
    rw [found, Option.map_some] at same
    obtain ⟨w, alsoFound, alike⟩ := Option.map_eq_some_iff.mp same
    have type := Node.eq_of_unlinked alike Node.variableType? fun _ => rfl
    have name := Node.eq_of_unlinked alike Node.variableName? fun _ => rfl
    rw [alsoFound, present, present, pure_bind, pure_bind, type]
    refine (unseen.variableSlot uid).bind fun slot => ?_
    refine (inputAs_mirrors unseen feeds 1 _ []).bind fun value => ?_
    have notices : Mirrors change (notice g n d uid v) (notice h n d uid w) := by
      rw [notice, notice, watches, sendChange, sendChange, name]
      split
      · refine (unseen.constant _ _).bind fun this => ?_
        exact (unseen.constant _ _).bind fun event => .pure _
      · exact .pure _
    exact notices.bind fun _ => (port_mirrors follows 0 exit).bind fun _ => .pure _

theorem body_mirrors {g h : Graph} (unseen : Unseen live change) (alive : live n.uid)
    (feeds : MirrorsLinks change n feed feed') (follows : MirrorsFlows change n follow follow')
    (watches : watched h = watched g) (bound : ∀ uid, n.target? = some uid →
      (h.find? uid).map Node.unlinked = (g.find? uid).map Node.unlinked) (exit : Target) :
    Mirrors change (body g feed follow n d exit) (body h feed' follow' n d exit) := by
  have condition := fun index declared evaluated =>
    inputAs_mirrors (d := d) unseen feeds index declared evaluated
  unfold body
  split
  · refine chains_mirrors unseen (fun uid listed => ?_) exit
    obtain ⟨flow, there, same⟩ := List.mem_filterMap.mp listed
    obtain rfl : flow = some uid := same
    exact follows uid there
  · exact (condition 0 _ []).bind fun _ => (choice_mirrors unseen follows _ exit).bind fun _ => .pure _
  · refine (condition 0 _ []).bind fun object => (unseen.scratch _).bind fun valid => ?_
    exact (choice_mirrors unseen follows valid exit).bind fun _ => .pure _
  · refine (condition 0 _ []).bind fun start => (condition 1 _ _).bind fun stop => ?_
    refine (condition 2 _ _).bind fun step => (unseen.output _ _ alive).bind fun index => ?_
    refine (unseen.scratch _).bind fun inRange => ?_
    exact (counting_mirrors unseen follows _ _ _ _ _ exit).bind fun _ => .pure _
  · refine (condition 0 _ []).bind fun array => (unseen.output _ _ alive).bind fun item => ?_
    refine (unseen.constant _ _).bind fun first => (unseen.constant _ _).bind fun one => ?_
    refine (unseen.scratch _).bind fun index => (unseen.scratch _).bind fun length => ?_
    refine (unseen.scratch _).bind fun inRange => ?_
    exact (counting_mirrors unseen follows _ _ _ _ _ exit).bind fun _ => .pure _
  · refine unseen.newLabel.bind fun header => unseen.newLabel.bind fun done => ?_
    refine (condition 0 _ []).bind fun tested => (port_mirrors follows 0 _).bind fun _ => ?_
    exact (port_mirrors follows 1 exit).bind fun _ => .pure _
  · exact assignment_mirrors unseen feeds follows watches bound exit
  · exact assignment_mirrors unseen feeds follows watches bound exit
  · refine (inputs_mirrors unseen feeds _ []).bind fun supplies => ?_
    refine (callOf_mirrors unseen alive supplies).bind fun code => ?_
    exact (port_mirrors follows 0 exit).bind fun _ => .pure _

end Flows

/-! ## Graphs -/

/-- From certain nodes two graphs look the same: these nodes are connected to such nodes only, and what
they are bound to differs in its own connections only. All events are among them. -/
structure Alike (live : Uid → Prop) (g h : Graph) : Prop where
  find? : ∀ uid, live uid → h.find? uid = g.find? uid
  links : ∀ n ∈ g.nodes, live n.uid → ∀ link, some link ∈ n.links → live link.node
  flows : ∀ n ∈ g.nodes, live n.uid → ∀ target, some target ∈ n.flows → live target
  bound : ∀ n ∈ g.nodes, live n.uid → ∀ uid, n.target? = some uid →
    (h.find? uid).map Node.unlinked = (g.find? uid).map Node.unlinked
  eventNodes : h.eventNodes = g.eventNodes
  events : ∀ n ∈ g.eventNodes, live n.uid

theorem Alike.refl (g : Graph) : Alike (fun _ => True) g g := by
  constructor <;> intros <;> trivial

namespace Alike

variable {c : Catalog} {g h : Graph}

theorem watched (alike : Alike live g h) : Lowering.watched h = Lowering.watched g := by
  have among : ∀ k : Graph, k.nodes.filter (fun n => n.kind = .changeEvent) =
      k.eventNodes.filter fun n => n.kind = .changeEvent := by
    intro k
    rw [Graph.eventNodes, List.filter_filter]
    refine List.filter_congr fun n _ => ?_
    by_cases change : n.kind = .changeEvent
    · rw [Node.isEvent, change]
      rfl
    · simp [change]
  rw [Lowering.watched, Lowering.watched, among, among, alike.eventNodes]

theorem claimedName? (alike : Alike live g h) {n : Node} (event : n ∈ g.eventNodes) :
    Lowering.claimedName? h n = Lowering.claimedName? g n := by
  have target : h.targetName? n = g.targetName? n := by
    rw [Graph.targetName?, Graph.targetName?]
    cases bound : n.target? with
    | none => rfl
    | some uid =>
      have named : ∀ v : Option Node,
          v.bind Node.variableName? = (v.map Node.unlinked).bind Node.variableName? := fun v => by
        rw [Option.bind_map]
        rfl
      rw [Option.bind_some, Option.bind_some, named, named (g.find? uid),
        alike.bound n (List.mem_filter.mp event).1 (alike.events n event) uid bound]
  rw [Lowering.claimedName?, Lowering.claimedName?, target]

theorem placed {f k : Node × Definition → Step α} (alike : Alike live g h) {uid : Uid}
    (alive : live uid) (continues : ∀ n d, n ∈ g.nodes → n.uid = uid →
      Mirrors change (f (n, d)) (k (n, d))) :
    Mirrors change (Lowering.placed c g uid >>= f) (Lowering.placed c h uid >>= k) := by
  unfold Lowering.placed
  rw [bind_assoc, bind_assoc, alike.find? uid alive]
  cases found : g.find? uid with
  | none => exact .throw _
  | some n =>
    refine (Mirrors.present uid (some n)).bind_given fun s m t given => ?_
    obtain ⟨same, -⟩ := present_eq_ok.mp given
    obtain rfl := Option.some.inj same
    rw [bind_assoc, bind_assoc]
    exact (Mirrors.present uid _).bind fun d =>
      continues n d (Graph.find?_mem found) (Graph.find?_uid found)

variable (unseen : Unseen live change)
include unseen

theorem supply (alike : Alike live g h) (depth : Nat) (visiting evaluated : List Uid) {link : Link}
    (alive : live link.node) : Mirrors change (Lowering.supply c g depth visiting evaluated link)
      (Lowering.supply c h depth visiting evaluated link) := by
  induction depth generalizing visiting evaluated link with
  | zero => exact .throw _
  | succ depth ih =>
    rw [supply_succ, supply_succ]
    refine alike.placed alive fun n d listed here => ?_
    refine supplyFrom_mirrors unseen _ visiting evaluated alive fun _ => ?_
    refine compute_mirrors unseen (fun next there later => ?_) evaluated alive
    exact ih _ later (alike.links n listed (here ▸ alive) next there)

variable (feeds : feedOf c h = Lowering.supply c h (g.nodes.length + 1) [])
include feeds

theorem chain (alike : Alike live g h) (depth : Nat) {uid : Uid} (exit : Target) (alive : live uid) :
    Mirrors change (Lowering.chain c g depth uid exit) (Lowering.chain c h depth uid exit) := by
  induction depth generalizing uid exit with
  | zero => exact .throw _
  | succ depth ih =>
    intro s
    -- Both have emitted the same chains so far: both jump, or both emit the body under one label.
    rw [chain_succ, chain_succ, unseen.emitted, unseen.nextLabel, unseen.entered]
    cases s.emitted.lookup (uid, exit) with
    | some label => rfl
    | none =>
      have labelled : Mirrors change (labelledBody c g depth uid exit s.nextLabel)
          (labelledBody c h depth uid exit s.nextLabel) := by
        refine alike.placed alive fun n d listed here => ?_
        have aliveHere : live n.uid := here ▸ alive
        rw [feeds]
        refine (body_mirrors unseen aliveHere (fun link there evaluated => ?_)
          (fun next there exit => ?_) alike.watched (alike.bound n listed aliveHere) exit).bind
            fun code => .pure _
        · exact alike.supply unseen _ [] evaluated (alike.links n listed aliveHere link there)
        · exact ih exit (alike.flows n listed aliveHere next there)
      exact labelled (entered uid exit s)

theorem stream (alike : Alike live g h)
    (chains : Lowering.chain c h (h.nodes.length + 1) = Lowering.chain c h (g.nodes.length + 1))
    (name : String) {n : Node} (leads : ∀ target, some target ∈ n.flows → live target) :
    Mirrors change (Lowering.stream c g name n) (Lowering.stream c h name n) := by
  refine unseen.restarted.bind fun _ => ?_
  rw [chains]
  refine (port_mirrors (fun next there exit => ?_) 0 .halt).bind fun _ => .pure _
  exact alike.chain unseen feeds _ exit (leads next there)

end Alike

/-! ## Events -/

variable {c : Catalog} {g h : Graph}

theorem nameParameters_mirrors (unseen : Unseen live change) {uid : Uid} (alive : live uid)
    (entry : String) (index : Nat) (parameters : List Parameter) :
    Mirrors change (nameParameters uid entry index parameters)
      (nameParameters uid entry index parameters) := by
  induction parameters generalizing index with
  | nil => exact .pure ()
  | cons p rest ih => exact (unseen.parameter uid index _ alive).bind fun _ => ih (index + 1)

theorem entries_mirrors (unseen : Unseen live change) (taken : List String) {nodes : List Node}
    (alive : ∀ n ∈ nodes, live n.uid) (claims : ∀ n ∈ nodes, claimedName? h n = claimedName? g n) :
    Mirrors change (entries c g taken nodes) (entries c h taken nodes) := by
  induction nodes generalizing taken with
  | nil => exact .pure []
  | cons n nodes ih =>
    rw [List.forall_mem_cons] at alive claims
    have named : Mirrors change (entryName? g n) (entryName? h n) := by
      rw [entryName?_eq, entryName?_eq, claims.1]
      split
      · exact (unseen.report _ _).bind fun _ => .pure none
      · exact .pure _
    rw [entries, entries]
    split
    · exact ih taken alive.2 claims.2
    · refine named.bind fun claimed => ?_
      cases claimed with
      | none => exact ih taken alive.2 claims.2
      | some name =>
        dsimp only
        split
        · exact (unseen.report _ _).bind fun _ => ih taken alive.2 claims.2
        · refine (nameParameters_mirrors unseen alive.1 _ _ _).bind fun _ => ?_
          exact (ih _ alive.2 claims.2).bind fun others => .pure _

theorem streams_mirrors (unseen : Unseen live change) (alike : Alike live g h)
    (feeds : feedOf c h = supply c h (g.nodes.length + 1) [])
    (chains : chain c h (h.nodes.length + 1) = chain c h (g.nodes.length + 1)) :
    Mirrors change (streams c g) (streams c h) := by
  rw [streams, streams, alike.eventNodes]
  refine (entries_mirrors unseen [] alike.events fun n event => alike.claimedName? event).bind_given
    fun s found t given => Mirrors.mapM fun entry listed => ?_
  have event := (entries_eq_ok given).1.node_mem listed
  exact alike.stream unseen feeds chains entry.1
    (alike.flows entry.2 (List.mem_filter.mp event).1 (alike.events entry.2 event))

end Lowering

end ScriptGraph

/-! ## Reports -/

namespace ScriptGraph.Lowering

variable {α : Type}

/-- The state of lowering with reports ahead of those that there are. -/
def behind (front : List Diagnostic) (s : Lowering) : Lowering :=
  { s with diagnostics := front ++ s.diagnostics }

def Blind (x : Step α) : Prop :=
  ∀ front s, x (s.behind front) = (x s).map (Prod.map id (behind front))

private theorem onHeapOrFail_behind (front : List Diagnostic)
    (request : HeapLayout → Except CompileError (α × HeapLayout)) :
    Mirrors (behind front) (onHeapOrFail request) (onHeapOrFail request) :=
  Mirrors.onHeapOrFail (fun _ _ => rfl) fun h => by cases request h <;> rfl

theorem unseen_behind (live : Uid → Prop) (front : List Diagnostic) : Unseen live (behind front) where
  newLabel _ := rfl
  report uid problem s := by
    simp only [Lowering.report, behind, Except.map, Prod.map_apply, List.append_assoc, id]
  constant _ _ _ := rfl
  scratch _ _ := rfl
  variableSlot uid s := by
    unfold Lowering.variableSlot
    rw [show (s.behind front).heap = s.heap from rfl]
    cases s.heap.findVariable? uid <;> rfl
  output uid index _ := onHeapOrFail_behind front fun h => h.outputSlot uid index
  parameter uid index name _ := onHeapOrFail_behind front fun h => h.namedOutputSlot uid index name
  restarted _ := rfl
  emitted _ := rfl
  nextLabel _ := rfl
  entered _ _ _ := rfl

variable (c : Catalog) (g : Graph)

theorem entries_blind (taken : List String) (nodes : List Node) : Blind (entries c g taken nodes) :=
  fun front => entries_mirrors (unseen_behind (fun _ => True) front) taken (fun _ _ => trivial)
    fun _ _ => rfl

theorem stream_blind (name : String) (n : Node) : Blind (stream c g name n) := fun front =>
  (Alike.refl g).stream (unseen_behind _ front) rfl rfl name fun _ _ => trivial

theorem streams_blind : Blind (streams c g) := fun front =>
  streams_mirrors (unseen_behind _ front) (.refl g) rfl rfl

end ScriptGraph.Lowering

/-! ## Depth -/

namespace ScriptGraph.Lowering

variable {c : Catalog} {g : Graph} {depth later : Nat}

/-- The nodes being evaluated are distinct nodes of the graph, so they run out before the depth, and
more depth makes no difference. -/
theorem supply_deeper {visiting evaluated : List Uid} {link : Link} (distinct : visiting.Nodup)
    (present : visiting ⊆ g.uids) (room : g.nodes.length < depth + visiting.length)
    (le : depth ≤ later) :
    supply c g later visiting evaluated link = supply c g depth visiting evaluated link := by
  induction depth generalizing later visiting evaluated link with
  | zero =>
    -- There is no room for more distinct nodes than the graph has.
    have few := (List.subperm_of_subset distinct present).length_le
    rw [Graph.uids, List.length_map] at few
    omega
  | succ depth ih =>
    obtain ⟨later, rfl⟩ : ∃ deeper, later = deeper + 1 := ⟨later - 1, by omega⟩
    have unseen := unseen_id fun _ => True
    rw [supply_succ, supply_succ]
    refine Mirrors.id_iff.mp ((Alike.refl g).placed trivial fun n d listed here => ?_)
    refine supplyFrom_mirrors unseen _ visiting evaluated trivial fun fresh => ?_
    refine compute_mirrors unseen (fun next _ after => Mirrors.id_iff.mpr ?_) evaluated trivial
    refine ih (List.nodup_cons.mpr ⟨fresh, distinct⟩) ?_ ?_ (Nat.le_of_succ_le_succ le)
    · exact List.cons_subset.mpr ⟨here ▸ Graph.uid_mem listed, present⟩
    · rw [List.length_cons]
      omega

theorem feedOf_eq_supply (le : g.nodes.length + 1 ≤ depth) : feedOf c g = supply c g depth [] :=
  funext₂ fun _ _ =>
    (supply_deeper List.nodup_nil (List.nil_subset _) (Nat.lt_succ_self _) le).symm

theorem chain_deeper {rank : Uid → Nat}
    (falls : ∀ n ∈ g.nodes, ∀ target, some target ∈ n.flows → rank target < rank n.uid) {uid : Uid}
    {exit : Target} (room : rank uid < depth) (le : depth ≤ later) :
    chain c g later uid exit = chain c g depth uid exit := by
  induction depth generalizing later uid exit with
  | zero => exact absurd room (Nat.not_lt_zero _)
  | succ depth ih =>
    obtain ⟨later, rfl⟩ : ∃ deeper, later = deeper + 1 := ⟨later - 1, by omega⟩
    have unseen := unseen_id fun _ => True
    have labelled : ∀ label,
        labelledBody c g later uid exit label = labelledBody c g depth uid exit label := by
      intro label
      refine Mirrors.id_iff.mp ((Alike.refl g).placed trivial fun n d listed here => ?_)
      refine (body_mirrors unseen trivial (fun _ _ _ => Mirrors.id_iff.mpr rfl)
        (fun next there exit => Mirrors.id_iff.mpr ?_) rfl (fun _ _ => rfl) exit).bind
          fun code => .pure _
      have less := falls n listed next there
      exact ih (Nat.lt_of_lt_of_le (here ▸ less) (Nat.le_of_lt_succ room)) (Nat.le_of_succ_le_succ le)
    funext s
    rw [chain_succ, chain_succ, labelled]

theorem chain_eq_chain (live : g.Live c) (le : g.nodes.length + 1 ≤ depth) :
    chain c g (g.nodes.length + 1) = chain c g depth := by
  obtain ⟨rank, bounded, falls⟩ := live.acyclic
  exact funext₂ fun uid _ => (chain_deeper falls (Nat.lt_succ_of_le (bounded uid)) le).symm

end ScriptGraph.Lowering
