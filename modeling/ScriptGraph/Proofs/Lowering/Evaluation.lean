import ScriptGraph.Proofs.Reference.Semantics
import Mathlib.Data.List.Nodup

/-!
The order in which nodes are evaluated for their readers. Making outputs available calls every node
that has to be evaluated for them once, after those that it draws on itself. Only a link that closes
a cycle is read before its node has been called: it reads null, and its node is reported.
-/

set_option autoImplicit false
set_option relaxedAutoImplicit false

namespace ScriptGraph

open Relation (ReflTransGen TransGen)

/-! ## What is drawn on -/

def Node.linksAt (n : Node) (indices : List Nat) : List Link :=
  indices.filterMap fun index => n.links[index]?.join

/-- One node that is evaluated for its readers draws on another one, to which an input of its method
is linked. Links beyond these inputs are never read. -/
def Graph.Draws (c : Catalog) (g : Graph) (reader source : Uid) : Prop :=
  ∃ n d, Reference.placed? c g reader = some (n, d) ∧ Lowering.sourceOf n d = .computed ∧
    ∃ link ∈ n.linksAt (List.range d.inputs.length), link.node = source ∧ g.Computed c source

section Placed

variable {c : Catalog} {g : Graph} {uid : Uid} {n : Node} {d : Definition}

theorem Graph.computed_iff (placed : Reference.placed? c g uid = some (n, d)) :
    g.Computed c uid ↔ Lowering.sourceOf n d = .computed := by
  constructor
  · rintro ⟨m, e, found, computed⟩
    obtain ⟨rfl, rfl⟩ := Prod.mk.inj (Option.some.inj (placed.symm.trans found))
    exact computed
  · exact fun computed => ⟨n, d, placed, computed⟩

theorem Graph.draws_iff (placed : Reference.placed? c g uid = some (n, d))
    (computed : Lowering.sourceOf n d = .computed) (source : Uid) :
    g.Draws c uid source ↔ ∃ link ∈ n.linksAt (List.range d.inputs.length),
      link.node = source ∧ g.Computed c source := by
  constructor
  · rintro ⟨m, e, found, -, link⟩
    obtain ⟨rfl, rfl⟩ := Prod.mk.inj (Option.some.inj (placed.symm.trans found))
    exact link
  · exact fun link => ⟨n, d, placed, computed, link⟩

end Placed

/-- A node has to be evaluated for links: one of them leads to it, directly or through nodes that
draw on one another. -/
def Graph.Needs (c : Catalog) (g : Graph) (links : List Link) (uid : Uid) : Prop :=
  ∃ link ∈ links, g.Computed c link.node ∧ ReflTransGen (g.Draws c) link.node uid

theorem Graph.Needs.mono {c : Catalog} {g : Graph} {links more : List Link} {uid : Uid}
    (needs : g.Needs c links uid) (subset : links ⊆ more) : g.Needs c more uid := by
  obtain ⟨link, listed, computed, leads⟩ := needs
  exact ⟨link, subset listed, computed, leads⟩

namespace Lowering

open HeapLayout (Grows Key)
open Reference (placed? placed?_eq_some)

/-- What the slot is granted for from which a link is read after some nodes have been evaluated. -/
def Source.key (source : Source) (before : List Uid) (link : Link) : Key :=
  match source with
  | .literal type value => .constant type value
  | .variable uid => .variable uid
  | .stored => .output link.node link.output
  | .computed =>
    if link.node ∈ before then .output link.node link.output else .constant objectType .null

variable (c : Catalog) (g : Graph)

/-- The slot from which a link is read after some nodes have been evaluated. -/
def linkSlot? (h : HeapLayout) (before : List Uid) (link : Link) : Option Slot :=
  (placed? c g link.node).bind fun found => h.slot? ((sourceOf found.1 found.2).key before link)

/-- The slot from which an input is read whose declared type is given: that of its link, or of the
constant for its literal. -/
def inputSlot? (h : HeapLayout) (before : List Uid) (n : Node) (d : Definition) (index : Nat)
    (declared : Option String) : Option Slot :=
  match n.links[index]?.join with
  | some link => linkSlot? c g h before link
  | none => h.slot? (.constant (literalType declared (literal n d index)) (literal n d index))

/-- An operation that evaluates a node after others: a call of its method on the slots of its inputs
and of its outputs. Whatever it draws on has been evaluated, or was reported for closing a cycle. -/
structure Evaluates (h : HeapLayout) (broken before : List Uid) (uid : Uid) (n : Node)
    (d : Definition) (op : Op) : Prop where
  found : placed? c g uid = some (n, d)
  computed : sourceOf n d = .computed
  founded : ∀ source, g.Draws c uid source →
    source ∈ before ∨ source ∈ broken ∧ ReflTransGen (g.Draws c) source uid
  calls : ∃ inputs outputs, op = .call d.fullName (inputs ++ outputs) ∧
    List.Forall₂ (fun index slot =>
      inputSlot? c g h before n d index (d.inputType index) = some slot)
      (List.range d.inputs.length) inputs ∧
    List.Forall₂ (fun index slot => h.slot? (.output uid index) = some slot)
      (List.range d.outputs.length) outputs

/-- Code that evaluates nodes one after the other, each for the first time. The nodes that have been
evaluated before and after it are listed with the latest first. -/
inductive Schedule (h : HeapLayout) (broken before : List Uid) : List Op → List Uid → Prop
  | nil : Schedule h broken before [] before
  | snoc {after : List Uid} {code : List Op} {uid : Uid} {n : Node} {d : Definition} {op : Op}
      (earlier : Schedule h broken before code after) (fresh : uid ∉ after)
      (evaluates : Evaluates c g h broken after uid n d op) :
      Schedule h broken before (code ++ [op]) (uid :: after)

variable {c g}

/-! ## Schedules -/

section Slots

variable {h later : HeapLayout} {before : List Uid}

theorem linkSlot?_grows (grows : Grows h later) {link : Link} {slot : Slot}
    (read : linkSlot? c g h before link = some slot) :
    linkSlot? c g later before link = some slot := by
  obtain ⟨found, placed, granted⟩ := Option.bind_eq_some_iff.mp read
  exact Option.bind_eq_some_iff.mpr ⟨found, placed, grows.kept _ _ granted⟩

theorem inputSlot?_grows (grows : Grows h later) {n : Node} {d : Definition} {index : Nat}
    {declared : Option String} {slot : Slot}
    (read : inputSlot? c g h before n d index declared = some slot) :
    inputSlot? c g later before n d index declared = some slot := by
  unfold inputSlot? at read ⊢
  cases found : n.links[index]?.join with
  | some link =>
    simp only [found] at read ⊢
    exact linkSlot?_grows grows read
  | none =>
    simp only [found] at read ⊢
    exact grows.kept _ _ read

end Slots

theorem Evaluates.mono {h later : HeapLayout} {broken more before : List Uid} {uid : Uid} {n : Node}
    {d : Definition} {op : Op} (evaluates : Evaluates c g h broken before uid n d op)
    (grows : Grows h later) (subset : broken ⊆ more) :
    Evaluates c g later more before uid n d op := by
  obtain ⟨inputs, outputs, rfl, hinputs, houtputs⟩ := evaluates.calls
  refine ⟨evaluates.found, evaluates.computed, fun source draws => ?_, inputs, outputs, rfl, ?_, ?_⟩
  · exact (evaluates.founded source draws).imp_right fun closes => ⟨subset closes.1, closes.2⟩
  · exact hinputs.imp fun _ _ => inputSlot?_grows grows
  · exact houtputs.imp fun _ _ => grows.kept _ _

namespace Schedule

variable {h later : HeapLayout} {broken more before middle after : List Uid} {code rest : List Op}

theorem trans (first : Schedule c g h broken before code middle)
    (second : Schedule c g h broken middle rest after) :
    Schedule c g h broken before (code ++ rest) after := by
  induction second with
  | nil => rwa [List.append_nil]
  | snoc _ fresh evaluates ih =>
    rw [← List.append_assoc]
    exact .snoc ih fresh evaluates

theorem mono (schedule : Schedule c g h broken before code after) (grows : Grows h later)
    (subset : broken ⊆ more) : Schedule c g later more before code after := by
  induction schedule with
  | nil => exact .nil
  | snoc _ fresh evaluates ih => exact .snoc ih fresh (evaluates.mono grows subset)

theorem subset (schedule : Schedule c g h broken before code after) : before ⊆ after := by
  induction schedule with
  | nil => exact List.Subset.refl _
  | snoc _ _ _ ih => exact List.subset_cons_of_subset _ ih

theorem nodup (schedule : Schedule c g h broken before code after) (distinct : before.Nodup) :
    after.Nodup := by
  induction schedule with
  | nil => exact distinct
  | snoc _ fresh _ ih => exact List.nodup_cons.mpr ⟨fresh, ih⟩

theorem length_eq (schedule : Schedule c g h broken before code after) :
    after.length = code.length + before.length := by
  induction schedule with
  | nil => simp
  | snoc _ _ _ ih =>
    rw [List.length_cons, List.length_append, ih, List.length_singleton, Nat.add_right_comm]

section Unbroken

variable (schedule : Schedule c g h [] [] code after) {uid : Uid} (listed : uid ∈ after)
include schedule listed

theorem closed {source : Uid} (leads : ReflTransGen (g.Draws c) uid source) : source ∈ after := by
  have single : ∀ reader ∈ after, ∀ source, g.Draws c reader source → source ∈ after := by
    clear leads listed
    induction schedule with
    | nil => simp
    | snoc _ _ evaluates ih =>
      intro reader listed source draws
      rcases List.mem_cons.mp listed with rfl | listed
      · rcases evaluates.founded source draws with known | ⟨impossible, -⟩
        · exact List.mem_cons_of_mem _ known
        · cases impossible
      · exact List.mem_cons_of_mem _ (ih reader listed source draws)
  induction leads with
  | refl => exact listed
  | tail _ draws ih => exact single _ ih _ draws

theorem acyclic : ¬TransGen (g.Draws c) uid uid := by
  induction schedule with
  | nil => cases listed
  | snoc earlier fresh evaluates ih =>
    rcases List.mem_cons.mp listed with rfl | listed
    · intro cycle
      obtain ⟨source, draws, back⟩ := TransGen.head'_iff.mp cycle
      rcases evaluates.founded source draws with known | ⟨impossible, -⟩
      · exact fresh (earlier.closed known back)
      · cases impossible
    · exact ih listed

end Unbroken

end Schedule

/-! ## Steps without reports -/

/-- A step that asks for slots and labels at most. -/
structure Quiet (s t : Lowering) : Prop where
  grows : Grows s.heap t.heap
  diagnostics : t.diagnostics = s.diagnostics

namespace Quiet

variable {α : Type} {r s t : Lowering}

theorem refl (s : Lowering) : Quiet s s := ⟨Grows.refl s.heap, rfl⟩

theorem trans (first : Quiet r s) (second : Quiet s t) : Quiet r t :=
  ⟨first.grows.trans second.grows, second.diagnostics.trans first.diagnostics⟩

theorem constant {type : String} {value : Value} {slot : Slot}
    (given : constant type value s = .ok (slot, t)) : Quiet s t :=
  ⟨(constant_obtains given).prepares.grows, by rw [(onHeap_eq_ok.mp given).2]⟩

theorem scratch {type : String} {slot : Slot} (given : scratch type s = .ok (slot, t)) :
    Quiet s t :=
  ⟨(scratch_extra given).prepares.grows, by rw [(onHeap_eq_ok.mp given).2]⟩

theorem output {uid : Uid} {index : Nat} {slot : Slot}
    (given : output uid index s = .ok (slot, t)) : Quiet s t := by
  refine ⟨(output_obtains given).prepares.grows, ?_⟩
  obtain ⟨heap, -, rfl⟩ := onHeapOrFail_eq_ok.mp given
  rfl

theorem variableSlot {uid : Uid} {slot : Slot} (given : variableSlot uid s = .ok (slot, t)) :
    Quiet s t := by
  obtain ⟨-, rfl⟩ := variableSlot_eq_ok.mp given
  exact refl s

theorem newLabel {label : Label} (given : newLabel s = .ok (label, t)) : Quiet s t := by
  obtain ⟨-, rfl⟩ := newLabel_eq_ok.mp given
  exact ⟨Grows.refl s.heap, rfl⟩

theorem callOf {n : Node} {d : Definition} {supplies : Supplies} {code : List Op}
    (given : callOf n d supplies s = .ok (code, t)) : Quiet s t := by
  simp only [Lowering.callOf, outputs, bind_eq_ok, pure_eq_ok] at given
  obtain ⟨results, q, given, -, rfl⟩ := given
  generalize List.range d.outputs.length = indices at given
  induction indices generalizing results s with
  | nil =>
    obtain ⟨-, rfl⟩ := mapM_nil_eq_ok.mp given
    exact refl s
  | cons index indices ih =>
    obtain ⟨slot, r, others, hslot, hothers, -⟩ := mapM_cons_eq_ok.mp given
    exact (output hslot).trans (ih others hothers)

end Quiet

/-! ## Making outputs available -/

/-- What making links available does while some nodes wait, after some nodes have been evaluated. -/
structure Provides (c : Catalog) (g : Graph) (visiting : List Uid) (links : List Link)
    (s : Lowering) (before : List Uid) (code : List Op) (after broken : List Uid) (t : Lowering) :
    Prop where
  grows : Grows s.heap t.heap
  reports : t.diagnostics = s.diagnostics ++ broken.map fun uid => ⟨uid, .valueCycle⟩
  schedule : Schedule c g t.heap broken before code after
  needed : ∀ uid ∈ after, uid ∈ before ∨ g.Needs c links uid
  cyclic : ∀ uid ∈ broken, g.Needs c links uid ∧ TransGen (g.Draws c) uid uid
  /-- Nodes that wait are not evaluated meanwhile. -/
  waiting : ∀ uid ∈ visiting, uid ∈ after → uid ∈ before
  linked : ∀ link ∈ links, g.Computed c link.node →
    link.node ∈ after ∨ link.node ∈ visiting ∧ link.node ∈ broken
  drawn : ∀ uid ∈ after, uid ∈ before ∨
    ∀ source, g.Draws c uid source → source ∈ after ∨ source ∈ visiting

namespace Provides

variable {visiting before middle after broken more : List Uid} {links others : List Link}
  {code rest : List Op} {r s t : Lowering}

theorem quiet (quiet : Quiet s t)
    (known : ∀ link ∈ links, g.Computed c link.node → link.node ∈ before) :
    Provides c g visiting links s before [] before [] t where
  grows := quiet.grows
  reports := by rw [quiet.diagnostics, List.map_nil, List.append_nil]
  schedule := .nil
  needed _ listed := Or.inl listed
  cyclic := by simp
  waiting _ _ listed := listed
  linked link listed computed := Or.inl (known link listed computed)
  drawn _ listed := Or.inl listed

theorem append (first : Provides c g visiting links r before code middle broken s)
    (second : Provides c g visiting others s middle rest after more t) :
    Provides c g visiting (links ++ others) r before (code ++ rest) after (broken ++ more) t where
  grows := first.grows.trans second.grows
  reports := by rw [second.reports, first.reports, List.map_append, List.append_assoc]
  schedule := (first.schedule.mono second.grows (List.subset_append_left _ _)).trans
    (second.schedule.mono (Grows.refl _) (List.subset_append_right _ _))
  needed uid listed := by
    rcases second.needed uid listed with listed | needs
    · exact (first.needed uid listed).imp_right (·.mono (List.subset_append_left _ _))
    · exact Or.inr (needs.mono (List.subset_append_right _ _))
  cyclic uid listed := by
    rcases List.mem_append.mp listed with listed | listed
    · have cyclic := first.cyclic uid listed
      exact ⟨cyclic.1.mono (List.subset_append_left _ _), cyclic.2⟩
    · have cyclic := second.cyclic uid listed
      exact ⟨cyclic.1.mono (List.subset_append_right _ _), cyclic.2⟩
  waiting uid waits listed := first.waiting uid waits (second.waiting uid waits listed)
  linked link listed computed := by
    rcases List.mem_append.mp listed with listed | listed
    · refine (first.linked link listed computed).imp (second.schedule.subset ·) fun broke => ?_
      exact ⟨broke.1, List.mem_append_left _ broke.2⟩
    · refine (second.linked link listed computed).imp id fun broke => ?_
      exact ⟨broke.1, List.mem_append_right _ broke.2⟩
  drawn uid listed := by
    rcases second.drawn uid listed with listed | drawn
    · refine (first.drawn uid listed).imp_right fun drawn source draws => ?_
      exact (drawn source draws).imp_left (second.schedule.subset ·)
    · exact Or.inr drawn

end Provides

/-- Whether something is read from a slot however many nodes are evaluated later, as long as those
that wait are not among them. -/
def Remains (visiting after : List Uid) (read : List Uid → Option Slot) (slot : Slot) : Prop :=
  ∀ later, after ⊆ later → (∀ uid ∈ visiting, uid ∉ later) → read later = some slot

/-- A way to make outputs available while some nodes wait, each of which draws on what is asked
for. -/
def Provider (c : Catalog) (g : Graph) (visiting : List Uid)
    (feed : List Uid → Link → Step Supply) : Prop :=
  ∀ before link s supplied t, (∀ uid ∈ visiting, uid ∉ before) →
    (g.Computed c link.node → ∀ uid ∈ visiting, TransGen (g.Draws c) uid link.node) →
    feed before link s = .ok (supplied, t) →
    ∃ broken, Provides c g visiting [link] s before supplied.code supplied.evaluated broken t ∧
      Remains visiting supplied.evaluated (fun later => linkSlot? c g t.heap later link)
        supplied.slot

section Inputs

variable {feed : List Uid → Link → Step Supply} {visiting before : List Uid} {n : Node}
  {d : Definition} {s t : Lowering}

theorem inputAs_provides (provider : Provider c g visiting feed)
    (apart : ∀ uid ∈ visiting, uid ∉ before) {index : Nat}
    (drawn : ∀ link ∈ n.linksAt [index], g.Computed c link.node →
      ∀ uid ∈ visiting, TransGen (g.Draws c) uid link.node)
    {declared : Option String} {supplied : Supply}
    (given : inputAs feed n d index declared before s = .ok (supplied, t)) :
    ∃ broken,
      Provides c g visiting (n.linksAt [index]) s before supplied.code supplied.evaluated broken t ∧
      Remains visiting supplied.evaluated
        (fun later => inputSlot? c g t.heap later n d index declared) supplied.slot := by
  unfold inputAs at given
  unfold inputSlot?
  cases found : n.links[index]?.join with
  | some link =>
    have links : n.linksAt [index] = [link] := by simp [Node.linksAt, found]
    rw [links] at drawn ⊢
    simp only [found] at given
    exact provider before link s supplied t apart (drawn link List.mem_cons_self) given
  | none =>
    have links : n.linksAt [index] = [] := by simp [Node.linksAt, found]
    rw [links]
    simp only [found, bind_eq_ok, pure_eq_ok] at given
    obtain ⟨slot, r, hslot, rfl, rfl⟩ := given
    exact ⟨[], .quiet (.constant hslot) (by simp), fun _ _ _ => (constant_obtains hslot).granted⟩

theorem inputs_provides (provider : Provider c g visiting feed)
    (apart : ∀ uid ∈ visiting, uid ∉ before) {indices : List Nat}
    (drawn : ∀ link ∈ n.linksAt indices, g.Computed c link.node →
      ∀ uid ∈ visiting, TransGen (g.Draws c) uid link.node)
    {supplies : Supplies} (given : inputs feed n d indices before s = .ok (supplies, t)) :
    ∃ broken,
      Provides c g visiting (n.linksAt indices) s before supplies.code supplies.evaluated broken t ∧
      List.Forall₂ (fun index => Remains visiting supplies.evaluated
        (fun later => inputSlot? c g t.heap later n d index (d.inputType index)))
        indices supplies.slots := by
  induction indices generalizing before supplies s with
  | nil =>
    obtain ⟨rfl, rfl⟩ := pure_eq_ok.mp given
    exact ⟨[], .quiet (.refl s) (by simp [Node.linksAt]), .nil⟩
  | cons index indices ih =>
    have links : n.linksAt (index :: indices) = n.linksAt [index] ++ n.linksAt indices :=
      List.filterMap_append (l := [index])
    rw [links, List.forall_mem_append] at drawn
    simp only [inputs, bind_eq_ok, pure_eq_ok] at given
    obtain ⟨first, r, hfirst, others, q, hothers, rfl, rfl⟩ := given
    obtain ⟨broken, provides, remains⟩ := inputAs_provides provider apart drawn.1 hfirst
    have stillApart : ∀ uid ∈ visiting, uid ∉ first.evaluated :=
      fun uid waits listed => apart uid waits (provides.waiting uid waits listed)
    obtain ⟨more, provideMore, remainMore⟩ := ih stillApart drawn.2 hothers
    refine ⟨broken ++ more, links ▸ provides.append provideMore, .cons ?_ remainMore⟩
    intro later subset apart
    have subset := List.Subset.trans provideMore.schedule.subset subset
    exact inputSlot?_grows provideMore.grows (remains later subset apart)

end Inputs

/-! ## Evaluating nodes -/

section Compute

variable {visiting before : List Uid} {n : Node} {d : Definition} {link : Link}

private theorem Provides.call {code : List Op} {after broken : List Uid} {op : Op}
    {r s t : Lowering}
    (provides : Provides c g (link.node :: visiting) (n.linksAt (List.range d.inputs.length)) s
      before code after broken r)
    (quiet : Quiet r t) (fresh : link.node ∉ before) (idle : link.node ∉ visiting)
    (evaluates : Evaluates c g t.heap broken after link.node n d op) :
    Provides c g visiting [link] s before (code ++ [op]) (link.node :: after) broken t := by
  have computed : g.Computed c link.node := ⟨n, d, evaluates.found, evaluates.computed⟩
  have draws := Graph.draws_iff evaluates.found evaluates.computed
  have through : ∀ uid, g.Needs c (n.linksAt (List.range d.inputs.length)) uid →
      g.Needs c [link] uid := by
    rintro uid ⟨next, listed, computedNext, leads⟩
    have first := (draws next.node).mpr ⟨next, listed, rfl, computedNext⟩
    exact ⟨link, List.mem_singleton_self _, computed, .head first leads⟩
  constructor
  case grows => exact provides.grows.trans quiet.grows
  case reports => rw [quiet.diagnostics, provides.reports]
  case schedule =>
    refine .snoc (provides.schedule.mono quiet.grows (List.Subset.refl _)) (fun listed => ?_)
      evaluates
    exact fresh (provides.waiting _ List.mem_cons_self listed)
  case needed =>
    refine List.forall_mem_cons.mpr ⟨Or.inr ?_, fun uid listed => ?_⟩
    · exact ⟨link, List.mem_singleton_self _, computed, .refl⟩
    · exact (provides.needed uid listed).imp_right (through uid)
  case cyclic =>
    intro uid listed
    exact ⟨through uid (provides.cyclic uid listed).1, (provides.cyclic uid listed).2⟩
  case waiting =>
    intro uid waits listed
    rcases List.mem_cons.mp listed with rfl | listed
    · exact absurd waits idle
    · exact provides.waiting uid (List.mem_cons_of_mem _ waits) listed
  case linked => simp
  case drawn =>
    have settled : ∀ source, source ∈ after ∨ source ∈ link.node :: visiting →
        source ∈ link.node :: after ∨ source ∈ visiting := by
      simp only [List.mem_cons]
      tauto
    refine List.forall_mem_cons.mpr ⟨Or.inr fun source drawn => ?_, fun uid listed => ?_⟩
    · obtain ⟨next, listed, rfl, computedNext⟩ := (draws source).mp drawn
      exact settled _ ((provides.linked next listed computedNext).imp_right And.left)
    · exact (provides.drawn uid listed).imp_right fun drawn source draws =>
        settled source (drawn source draws)

private theorem compute_provides {feed : List Uid → Link → Step Supply}
    (provider : Provider c g (link.node :: visiting) feed) {supplied : Supply} {s t : Lowering}
    (apart : ∀ uid ∈ visiting, uid ∉ before)
    (drawn : ∀ uid ∈ visiting, TransGen (g.Draws c) uid link.node)
    (found : placed? c g link.node = some (n, d)) (computed : sourceOf n d = .computed)
    (fresh : link.node ∉ before) (idle : link.node ∉ visiting)
    (given : compute feed n d before link s = .ok (supplied, t)) :
    ∃ broken, Provides c g visiting [link] s before supplied.code supplied.evaluated broken t ∧
      t.heap.slot? (.output link.node link.output) = some supplied.slot ∧
      link.node ∈ supplied.evaluated := by
  have draws := Graph.draws_iff found computed
  simp only [compute, bind_eq_ok, pure_eq_ok] at given
  obtain ⟨supplies, r, hsupplies, code, q, hcode, slot, t, hslot, rfl, rfl⟩ := given
  have absent : ∀ uid ∈ link.node :: visiting, uid ∉ before :=
    List.forall_mem_cons.mpr ⟨fresh, apart⟩
  have further : ∀ next ∈ n.linksAt (List.range d.inputs.length), g.Computed c next.node →
      ∀ uid ∈ link.node :: visiting, TransGen (g.Draws c) uid next.node := by
    intro next listed reached
    have first := (draws next.node).mpr ⟨next, listed, rfl, reached⟩
    exact List.forall_mem_cons.mpr ⟨.single first, fun uid waits => (drawn uid waits).tail first⟩
  obtain ⟨broken, provides, remains⟩ := inputs_provides provider absent further hsupplies
  have quiet := (Quiet.callOf hcode).trans (.output hslot)
  obtain ⟨-, results, hresults, rfl⟩ := callOf_obtains hcode
  refine ⟨broken, provides.call quiet fresh idle ⟨found, computed, ?_, ?_⟩,
    (output_obtains hslot).granted, List.mem_cons_self⟩
  · intro source reached
    obtain ⟨next, listed, rfl, reached⟩ := (draws source).mp reached
    refine (provides.linked next listed reached).imp_right fun waiting => ⟨waiting.2, ?_⟩
    rcases List.mem_cons.mp waiting.1 with same | waits
    · rw [same]
    · exact (drawn _ waits).to_reflTransGen
  · refine ⟨supplies.slots, results, rfl, ?_, ?_⟩
    · refine remains.imp fun index slot remains => inputSlot?_grows quiet.grows ?_
      refine remains _ (List.Subset.refl _) fun uid waits listed => ?_
      exact absent uid waits (provides.waiting uid waits listed)
    · exact hresults.imp fun _ _ => (Quiet.output hslot).grows.kept _ _

end Compute

private theorem breakCycle_provides {visiting before : List Uid} {link : Link} {supplied : Supply}
    {s t : Lowering} (computed : g.Computed c link.node) (waits : link.node ∈ visiting)
    (drawn : ∀ uid ∈ visiting, TransGen (g.Draws c) uid link.node)
    (given : breakCycle before link s = .ok (supplied, t)) :
    Provides c g visiting [link] s before supplied.code supplied.evaluated [link.node] t ∧
      t.heap.slot? (.constant objectType .null) = some supplied.slot := by
  simp only [breakCycle, bind_eq_ok, pure_eq_ok] at given
  obtain ⟨⟨⟩, r, hreport, slot, q, hslot, rfl, rfl⟩ := given
  have quiet := Quiet.constant hslot
  have needs : g.Needs c [link] link.node := ⟨link, List.mem_singleton_self _, computed, .refl⟩
  refine ⟨?_, (constant_obtains hslot).granted⟩
  constructor
  case grows => exact (report_prepares hreport).grows.trans quiet.grows
  case reports =>
    obtain ⟨-, rfl⟩ := Prod.mk.inj (Except.ok.inj hreport)
    exact quiet.diagnostics
  case schedule => exact .nil
  case needed => exact fun _ => Or.inl
  case cyclic => exact List.forall_mem_singleton.mpr ⟨needs, drawn _ waits⟩
  case waiting => exact fun _ _ => id
  case linked =>
    exact List.forall_mem_singleton.mpr fun _ => Or.inr ⟨waits, List.mem_singleton_self _⟩
  case drawn => exact fun _ => Or.inl

private theorem computed_provides {feed : List Uid → Link → Step Supply}
    {visiting before : List Uid} {link : Link} {n : Node} {d : Definition} {supplied : Supply}
    {s t : Lowering} (provider : Provider c g (link.node :: visiting) feed)
    (apart : ∀ uid ∈ visiting, uid ∉ before)
    (drawn : ∀ uid ∈ visiting, TransGen (g.Draws c) uid link.node)
    (found : placed? c g link.node = some (n, d)) (computed : sourceOf n d = .computed)
    (given : supplyFrom .computed (compute feed n d before link) (breakCycle before link) visiting
      before link s = .ok (supplied, t)) :
    ∃ broken, Provides c g visiting [link] s before supplied.code supplied.evaluated broken t ∧
      Remains visiting supplied.evaluated
        (fun later => t.heap.slot? (Source.computed.key later link)) supplied.slot := by
  simp only [supplyFrom, List.contains_iff_mem] at given
  split at given
  · rename_i evaluated
    simp only [bind_eq_ok, pure_eq_ok] at given
    obtain ⟨slot, q, hslot, rfl, rfl⟩ := given
    have known : ∀ next ∈ [link], g.Computed c next.node → next.node ∈ before :=
      List.forall_mem_singleton.mpr fun _ => evaluated
    refine ⟨[], .quiet (.output hslot) known, fun later subset _ => ?_⟩
    simpa only [Source.key, if_pos (subset evaluated)] using (output_obtains hslot).granted
  · rename_i fresh
    split at given
    · rename_i waits
      have isComputed := (Graph.computed_iff found).mpr computed
      obtain ⟨provides, granted⟩ := breakCycle_provides isComputed waits drawn given
      refine ⟨[link.node], provides, fun later _ absent => ?_⟩
      simpa only [Source.key, if_neg (absent _ waits)] using granted
    · rename_i idle
      obtain ⟨broken, provides, granted, evaluated⟩ :=
        compute_provides provider apart drawn found computed fresh idle given
      refine ⟨broken, provides, fun later subset _ => ?_⟩
      simpa only [Source.key, if_pos (subset evaluated)] using granted

theorem supply_provides (c : Catalog) (g : Graph) (depth : Nat) (visiting : List Uid) :
    Provider c g visiting (supply c g depth visiting) := by
  induction depth generalizing visiting with
  | zero =>
    intro before link s supplied t _ _ given
    simp [supply_zero, throw_apply] at given
  | succ depth ih =>
    intro before link s supplied t apart drawn given
    simp only [supply_succ, bind_eq_ok] at given
    obtain ⟨⟨n, d⟩, r, hplaced, given⟩ := given
    obtain ⟨found, defined, rfl⟩ := placed_eq_ok.mp hplaced
    have placed : placed? c g link.node = some (n, d) := placed?_eq_some.mpr ⟨found, defined⟩
    have foreign (other : sourceOf n d ≠ .computed) :
        ∀ next ∈ [link], g.Computed c next.node → next.node ∈ before :=
      List.forall_mem_singleton.mpr fun computed =>
        absurd ((Graph.computed_iff placed).mp computed) other
    unfold linkSlot?
    simp only [placed, Option.bind_some]
    cases source : sourceOf n d with
    | literal type value =>
      simp only [source, supplyFrom, bind_eq_ok, pure_eq_ok] at given
      obtain ⟨slot, q, hslot, rfl, rfl⟩ := given
      exact ⟨[], .quiet (.constant hslot) (foreign (by simp [source])),
        fun _ _ _ => (constant_obtains hslot).granted⟩
    | «variable» uid =>
      simp only [source, supplyFrom, bind_eq_ok, pure_eq_ok] at given
      obtain ⟨slot, q, hslot, rfl, rfl⟩ := given
      exact ⟨[], .quiet (.variableSlot hslot) (foreign (by simp [source])),
        fun _ _ _ => (variableSlot_obtains hslot).granted⟩
    | stored =>
      simp only [source, supplyFrom, bind_eq_ok, pure_eq_ok] at given
      obtain ⟨slot, q, hslot, rfl, rfl⟩ := given
      exact ⟨[], .quiet (.output hslot) (foreign (by simp [source])),
        fun _ _ _ => (output_obtains hslot).granted⟩
    | computed =>
      simp only [source] at given
      have isComputed := (Graph.computed_iff placed).mpr source
      exact computed_provides (ih _) apart (drawn isComputed) placed source given

end Lowering

end ScriptGraph
