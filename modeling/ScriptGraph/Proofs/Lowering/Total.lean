import ScriptGraph.Proofs.Lowering.Streams
import ScriptGraph.Proofs.Snapshot.Repaired
import Mathlib.Data.List.Perm.Subperm

/-!
Lowering a repaired graph never fails: whatever it looks up is there, and no recursion is cut short.
-/

set_option autoImplicit false
set_option relaxedAutoImplicit false

namespace ScriptGraph.Lowering

open HeapLayout (Grows)

variable {α β : Type}

/-- A step that succeeds in every state whose layout has grown from a given one, and leaves such a
state. -/
def Succeeds (h : HeapLayout) (x : Step α) : Prop :=
  ∀ s, Grows h s.heap → ∃ a t, x s = .ok (a, t) ∧ Grows h t.heap

namespace Succeeds

variable {h : HeapLayout}

theorem pure (a : α) : Succeeds h (Pure.pure a : Step α) :=
  fun s grows => ⟨a, s, rfl, grows⟩

theorem bind {x : Step α} {f : α → Step β} (first : Succeeds h x)
    (second : ∀ a, Succeeds h (f a)) : Succeeds h (x >>= f) := by
  intro s grows
  obtain ⟨a, r, hx, hr⟩ := first s grows
  obtain ⟨b, t, hf, ht⟩ := second a r hr
  exact ⟨b, t, bind_eq_ok.mpr ⟨a, r, hx, hf⟩, ht⟩

theorem mapM {f : α → Step β} {as : List α} (each : ∀ a ∈ as, Succeeds h (f a)) :
    Succeeds h (as.mapM f) := by
  induction as with
  | nil => exact pure []
  | cons a as ih =>
    rw [List.forall_mem_cons] at each
    rw [List.mapM_cons]
    exact bind each.1 fun b => bind (ih each.2) fun bs => pure (b :: bs)

theorem newLabel : Succeeds h newLabel :=
  fun s grows => ⟨s.nextLabel, _, rfl, grows⟩

theorem report (uid : Uid) (problem : Problem) : Succeeds h (report uid problem) :=
  fun _ grows => ⟨(), _, rfl, grows⟩

theorem constant (type : String) (value : Value) : Succeeds h (constant type value) :=
  fun s grows => ⟨_, _, rfl, grows.trans (s.heap.constantSlot_grants type value).grows⟩

theorem scratch (type : String) : Succeeds h (scratch type) := by
  intro s grows
  obtain ⟨_, adds, -, -⟩ := s.heap.scratchSlot_adds type
  exact ⟨_, _, rfl, grows.trans (adds.grows rfl)⟩

theorem present {uid : Uid} {found : Option α} {a : α} {f : α → Step β}
    (given : found = some a) (rest : Succeeds h (f a)) :
    Succeeds h (Lowering.present uid found >>= f) := by
  intro s grows
  obtain ⟨b, t, hf, ht⟩ := rest s grows
  exact ⟨b, t, bind_eq_ok.mpr ⟨a, s, present_eq_ok.mpr ⟨given, rfl⟩, hf⟩, ht⟩

end Succeeds

/-! ## A repaired graph -/

def Offers (c : Catalog) (g : Graph) (uid : Uid) (index : Nat) : Prop :=
  ∃ n d, g.find? uid = some n ∧ c.find? n.fullName = some d ∧ index < d.outputs.length

section Repaired

variable {c : Catalog} {g : Graph}

private theorem filterMap_sublist_map {view : Node → Uid} {partial_ : Node → Option Uid}
    (nodes : List Node) (agrees : ∀ n, partial_ n = none ∨ partial_ n = some (view n)) :
    (nodes.filterMap partial_).Sublist (nodes.map view) := by
  induction nodes with
  | nil => exact List.Sublist.slnil
  | cons n nodes ih =>
    rw [List.map_cons, List.filterMap_cons]
    rcases agrees n with absent | present
    · rw [absent]
      exact ih.cons (view n)
    · rw [present]
      exact ih.cons_cons (view n)

theorem outputTypesOf_lookup (distinct : g.uids.Nodup) {uid : Uid} {n : Node}
    {d : Definition} (found : g.find? uid = some n) (defined : c.find? n.fullName = some d) :
    (HeapLayout.outputTypesOf c g).lookup uid =
      some (d.outputs.map fun p => p.type.getD objectType) := by
  refine lookup_eq_some_of_mem ?_ ?_
  · rw [HeapLayout.outputTypesOf, List.map_reverse, List.nodup_reverse, List.map_filterMap]
    exact distinct.sublist (filterMap_sublist_map g.nodes fun n => by
      cases c.find? n.fullName <;> simp)
  · refine List.mem_reverse.mpr (List.mem_filterMap.mpr ⟨n, Graph.find?_mem found, ?_⟩)
    rw [defined, Option.map_some, Graph.find?_uid found]

private theorem outputType_of_offers (distinct : g.uids.Nodup) {uid : Uid} {index : Nat}
    (offers : Offers c g uid index) {h : HeapLayout} (grows : Grows (.ofGraph c g) h) :
    ∃ type, h.outputType uid index = .ok type := by
  obtain ⟨n, d, found, defined, inside⟩ := offers
  have htypes : h.outputTypes.lookup uid =
      some (d.outputs.map fun p => p.type.getD objectType) := by
    rw [grows.types, HeapLayout.ofGraph_outputTypes]
    exact outputTypesOf_lookup distinct found defined
  refine ⟨(d.outputs[index]).type.getD objectType, ?_⟩
  simp [HeapLayout.outputType, htypes, List.getElem?_eq_getElem inside]

theorem Succeeds.output (distinct : g.uids.Nodup) {uid : Uid} {index : Nat}
    (offers : Offers c g uid index) :
    Succeeds (.ofGraph c g) (Lowering.output uid index) := by
  intro s grows
  obtain ⟨type, typed⟩ := outputType_of_offers distinct offers grows
  have hgiven : ∃ slot later, s.heap.outputSlot uid index = .ok (slot, later) := by
    unfold HeapLayout.outputSlot
    rw [typed]
    simp only
    split <;> exact ⟨_, _, rfl⟩
  obtain ⟨slot, later, hgiven⟩ := hgiven
  refine ⟨slot, { s with heap := later }, onHeapOrFail_eq_ok.mpr ⟨later, hgiven, rfl⟩, ?_⟩
  exact grows.trans (HeapLayout.outputSlot_grants hgiven).grows

theorem Succeeds.namedOutput (distinct : g.uids.Nodup) {uid : Uid} {index : Nat}
    (offers : Offers c g uid index) (name : String) :
    Succeeds (.ofGraph c g) (onHeapOrFail fun h => h.namedOutputSlot uid index name) := by
  intro s grows
  obtain ⟨type, typed⟩ := outputType_of_offers distinct offers grows
  have hgiven : ∃ slot later, s.heap.namedOutputSlot uid index name = .ok (slot, later) := by
    unfold HeapLayout.namedOutputSlot
    rw [typed]
    simp only
    split <;> exact ⟨_, _, rfl⟩
  obtain ⟨slot, later, hgiven⟩ := hgiven
  refine ⟨slot, { s with heap := later }, onHeapOrFail_eq_ok.mpr ⟨later, hgiven, rfl⟩, ?_⟩
  exact grows.trans (HeapLayout.namedOutputSlot_grants hgiven).grows

theorem Succeeds.variableSlot {uid : Uid} {n : Node} (found : g.find? uid = some n)
    (named : n.variableName?.isSome) :
    Succeeds (.ofGraph c g) (Lowering.variableSlot uid) := by
  intro s grows
  have hslot := HeapLayout.ofGraph_variable_isSome c
    (Graph.mem_variableNodes.mpr ⟨Graph.find?_mem found, named⟩)
  rw [Graph.find?_uid found] at hslot
  obtain ⟨slot, hslot⟩ := Option.isSome_iff_exists.mp hslot
  refine ⟨slot, s, variableSlot_eq_ok.mpr ⟨?_, rfl⟩, grows⟩
  rw [HeapLayout.findVariable?, grows.variableSlots]
  exact hslot

theorem Succeeds.placed {h : HeapLayout} {uid : Uid} {n : Node} {d : Definition}
    {f : Node × Definition → Step α} (found : g.find? uid = some n)
    (defined : c.find? n.fullName = some d) (rest : Succeeds h (f (n, d))) :
    Succeeds h (Lowering.placed c g uid >>= f) := by
  intro s grows
  obtain ⟨a, t, hf, ht⟩ := rest s grows
  exact ⟨a, t, bind_eq_ok.mpr ⟨_, s, placed_eq_ok.mpr ⟨found, defined, rfl⟩, hf⟩, ht⟩

end Repaired

/-! ## Inputs -/

section Inputs

variable {h : HeapLayout} {feed : List Uid → Link → Step Supply} {n : Node} {d : Definition}

def Feedable (h : HeapLayout) (feed : List Uid → Link → Step Supply) (n : Node) : Prop :=
  ∀ link, some link ∈ n.links → ∀ evaluated, Succeeds h (feed evaluated link)

theorem inputAs_succeeds (feedable : Feedable h feed n) (index : Nat) (declared : Option String)
    (evaluated : List Uid) : Succeeds h (inputAs feed n d index declared evaluated) := by
  unfold inputAs
  cases found : n.links[index]?.join with
  | some link => exact feedable link (mem_of_join_eq_some found) evaluated
  | none => exact (Succeeds.constant _ _).bind fun slot => Succeeds.pure _

theorem input_succeeds (feedable : Feedable h feed n) (index : Nat) (evaluated : List Uid) :
    Succeeds h (input feed n d index evaluated) :=
  inputAs_succeeds feedable index _ evaluated

theorem inputs_succeeds (feedable : Feedable h feed n) (indices : List Nat)
    (evaluated : List Uid) : Succeeds h (inputs feed n d indices evaluated) := by
  induction indices generalizing evaluated with
  | nil => exact Succeeds.pure _
  | cons index indices ih =>
    exact (input_succeeds feedable index evaluated).bind fun first =>
      (ih first.evaluated).bind fun others => Succeeds.pure _

end Inputs

section Repaired

variable {c : Catalog} {g : Graph}

theorem callOf_succeeds (distinct : g.uids.Nodup) {n m : Node} {d : Definition}
    (found : g.find? n.uid = some m) (defined : c.find? m.fullName = some d)
    (supplies : Supplies) : Succeeds (.ofGraph c g) (callOf n d supplies) := by
  refine Succeeds.bind (Succeeds.mapM fun index listed => ?_) fun results => Succeeds.pure _
  exact Succeeds.output distinct ⟨m, d, found, defined, List.mem_range.mp listed⟩

theorem variableSource_succeeds (repaired : g.Repaired c) {n : Node} (listed : n ∈ g.nodes)
    {d : Definition} (defined : c.find? n.fullName = some d) {uid : Uid}
    (source : sourceOf n d = .variable uid) :
    Succeeds (.ofGraph c g) (variableSlot uid) := by
  have kind : d.kind = .getVariable ∧ uid = n.target?.getD "" := by
    unfold sourceOf at source
    split at source <;> first | cases source | (split at source <;> cases source)
    exact ⟨‹_›, rfl⟩
  have access : n.access?.isSome := by
    rw [Node.access?, Node.kind, ← Catalog.find?_kind defined, kind.1]
    rfl
  obtain ⟨name, hname⟩ := repaired.bound n listed access
  obtain ⟨target, htarget, hname⟩ := Option.bind_eq_some_iff.mp hname
  obtain ⟨v, hv, named⟩ := Option.bind_eq_some_iff.mp hname
  rw [kind.2, htarget]
  exact Succeeds.variableSlot hv (Option.isSome_of_eq_some named)

theorem supply_succeeds (repaired : g.Repaired c) (depth : Nat) (visiting evaluated : List Uid)
    (link : Link) (offers : Offers c g link.node link.output) (distinct : visiting.Nodup)
    (present : visiting ⊆ g.uids) (room : g.nodes.length < depth + visiting.length) :
    Succeeds (.ofGraph c g) (supply c g depth visiting evaluated link) := by
  induction depth generalizing visiting evaluated link with
  | zero =>
    have hle := (List.subperm_of_subset distinct present).length_le
    rw [Graph.uids, List.length_map] at hle
    omega
  | succ depth ih =>
    obtain ⟨n, d, found, defined, inside⟩ := id offers
    have hnode := Graph.find?_mem found
    have stored : Succeeds (.ofGraph c g) (output link.node link.output) :=
      Succeeds.output repaired.distinct offers
    rw [supply_succ]
    refine Succeeds.placed found defined ?_
    cases source : sourceOf n d with
    | literal type value =>
      simp only [source, supplyFrom]
      exact (Succeeds.constant type value).bind fun slot => Succeeds.pure _
    | «variable» uid =>
      simp only [source, supplyFrom]
      exact (variableSource_succeeds repaired hnode defined source).bind fun slot => Succeeds.pure _
    | stored =>
      simp only [source, supplyFrom]
      exact stored.bind fun slot => Succeeds.pure _
    | computed =>
      simp only [source, supplyFrom]
      split
      · exact stored.bind fun slot => Succeeds.pure _
      · split
        · exact (Succeeds.report _ _).bind fun _ =>
            (Succeeds.constant _ _).bind fun slot => Succeeds.pure _
        · rename_i fresh
          have feedable : Feedable (.ofGraph c g)
              (supply c g depth (link.node :: visiting)) n := by
            intro next listed later
            refine ih (link.node :: visiting) later next (repaired.links n hnode next listed)
              (List.nodup_cons.mpr ⟨by simpa using fresh, distinct⟩) ?_ ?_
            · exact List.cons_subset.mpr
                ⟨Graph.find?_uid found ▸ Graph.uid_mem hnode, present⟩
            · rw [List.length_cons]
              omega
          refine (inputs_succeeds feedable _ evaluated).bind fun supplies => ?_
          refine Succeeds.bind ?_ fun code => stored.bind fun slot => Succeeds.pure _
          exact callOf_succeeds (n := { n with uid := link.node }) repaired.distinct found defined
            supplies

theorem feedOf_feedable (repaired : g.Repaired c) {n : Node} (listed : n ∈ g.nodes) :
    Feedable (.ofGraph c g) (feedOf c g) n := fun link hlink evaluated =>
  supply_succeeds repaired _ [] evaluated link (repaired.links n listed link hlink)
    List.nodup_nil (List.nil_subset _) (Nat.lt_succ_self _)

end Repaired

/-! ## Flows -/

section Flows

variable {h : HeapLayout} {feed : List Uid → Link → Step Supply}
  {follow : Uid → Target → Step (List Op)} {n : Node} {d : Definition}

def Followable (h : HeapLayout) (follow : Uid → Target → Step (List Op)) (n : Node) : Prop :=
  ∀ next, some next ∈ n.flows → ∀ exit, Succeeds h (follow next exit)

theorem port_succeeds (followable : Followable h follow n) (index : Nat) (exit : Target) :
    Succeeds h (port follow n index exit) := by
  unfold port
  cases found : n.flows[index]?.join with
  | some next => exact followable next (mem_of_join_eq_some found) exit
  | none => exact Succeeds.pure _

theorem chains_succeeds {uids : List Uid}
    (followable : ∀ uid ∈ uids, ∀ exit, Succeeds h (follow uid exit)) (exit : Target) :
    Succeeds h (chains follow exit uids) := by
  induction uids with
  | nil => exact Succeeds.pure _
  | cons uid rest ih =>
    rw [List.forall_mem_cons] at followable
    cases rest with
    | nil => exact followable.1 exit
    | cons next rest =>
      exact Succeeds.newLabel.bind fun after => (followable.1 (.label after)).bind fun code =>
        (ih followable.2).bind fun others => Succeeds.pure _

theorem choice_succeeds (followable : Followable h follow n) (condition : Slot) (exit : Target) :
    Succeeds h (choice follow n condition exit) :=
  Succeeds.newLabel.bind fun _ => (port_succeeds followable 0 exit).bind fun _ =>
    (port_succeeds followable 1 exit).bind fun _ => Succeeds.pure _

theorem counting_succeeds (followable : Followable h follow n) (index stop step inRange : Slot)
    (opening : List Op) (exit : Target) :
    Succeeds h (counting follow n index stop step inRange opening exit) :=
  Succeeds.newLabel.bind fun _ => Succeeds.newLabel.bind fun increment =>
    Succeeds.newLabel.bind fun _ => (port_succeeds followable 0 (.label increment)).bind fun _ =>
      (port_succeeds followable 1 exit).bind fun _ => Succeeds.pure _

theorem branch_succeeds (feedable : Feedable h feed n) (followable : Followable h follow n)
    (exit : Target) : Succeeds h (branch feed follow n d exit) :=
  (input_succeeds feedable 0 []).bind fun condition =>
    (choice_succeeds followable condition.slot exit).bind fun _ => Succeeds.pure _

theorem validity_succeeds (feedable : Feedable h feed n) (followable : Followable h follow n)
    (exit : Target) : Succeeds h (validity feed follow n d exit) :=
  (input_succeeds feedable 0 []).bind fun _ => (Succeeds.scratch _).bind fun valid =>
    (choice_succeeds followable valid exit).bind fun _ => Succeeds.pure _

theorem whileLoop_succeeds (feedable : Feedable h feed n) (followable : Followable h follow n)
    (exit : Target) : Succeeds h (whileLoop feed follow n d exit) :=
  Succeeds.newLabel.bind fun header => Succeeds.newLabel.bind fun _ =>
    (input_succeeds feedable 0 []).bind fun _ =>
      (port_succeeds followable 0 (.label header)).bind fun _ =>
        (port_succeeds followable 1 exit).bind fun _ => Succeeds.pure _

theorem forLoop_succeeds (feedable : Feedable h feed n) (followable : Followable h follow n)
    (index : Succeeds h (output n.uid 0)) (exit : Target) :
    Succeeds h (forLoop feed follow n d exit) :=
  (input_succeeds feedable 0 []).bind fun start =>
    (input_succeeds feedable 1 start.evaluated).bind fun stop =>
      (input_succeeds feedable 2 stop.evaluated).bind fun _ => index.bind fun _ =>
        (Succeeds.scratch _).bind fun _ =>
          (counting_succeeds followable _ _ _ _ _ exit).bind fun _ => Succeeds.pure _

theorem foreachLoop_succeeds (feedable : Feedable h feed n) (followable : Followable h follow n)
    (item : Succeeds h (output n.uid 0)) (exit : Target) :
    Succeeds h (foreachLoop feed follow n d exit) :=
  (input_succeeds feedable 0 []).bind fun _ => item.bind fun _ =>
    (Succeeds.constant _ _).bind fun _ => (Succeeds.constant _ _).bind fun _ =>
      (Succeeds.scratch _).bind fun _ => (Succeeds.scratch _).bind fun _ =>
        (Succeeds.scratch _).bind fun _ =>
          (counting_succeeds followable _ _ _ _ _ exit).bind fun _ => Succeeds.pure _

theorem call_succeeds (feedable : Feedable h feed n) (followable : Followable h follow n)
    (calls : ∀ supplies, Succeeds h (callOf n d supplies)) (exit : Target) :
    Succeeds h (call feed follow n d exit) :=
  (inputs_succeeds feedable _ []).bind fun supplies => (calls supplies).bind fun _ =>
    (port_succeeds followable 0 exit).bind fun _ => Succeeds.pure _

end Flows

section Repaired

variable {c : Catalog} {g : Graph}

theorem notice_succeeds (h : HeapLayout) (n : Node) (d : Definition) (target : Uid)
    (variableNode : Node) : Succeeds h (notice g n d target variableNode) := by
  unfold notice
  split
  · exact (Succeeds.constant _ _).bind fun _ => (Succeeds.constant _ _).bind fun _ =>
      Succeeds.pure _
  · exact Succeeds.pure _

theorem assignment_succeeds (repaired : g.Repaired c) {feed : List Uid → Link → Step Supply}
    {follow : Uid → Target → Step (List Op)} {n : Node} {d : Definition} (listed : n ∈ g.nodes)
    (access : n.access?.isSome) (feedable : Feedable (.ofGraph c g) feed n)
    (followable : Followable (.ofGraph c g) follow n) (exit : Target) :
    Succeeds (.ofGraph c g) (assignment g feed follow n d exit) := by
  obtain ⟨name, hname⟩ := repaired.bound n listed access
  obtain ⟨target, htarget, hname⟩ := Option.bind_eq_some_iff.mp hname
  obtain ⟨v, hv, named⟩ := Option.bind_eq_some_iff.mp hname
  rw [assignment_eq]
  refine Succeeds.present htarget (Succeeds.present hv ?_)
  refine (Succeeds.variableSlot hv (Option.isSome_of_eq_some named)).bind fun slot => ?_
  exact (inputAs_succeeds feedable 1 _ []).bind fun value =>
    (notice_succeeds _ n d target v).bind fun change =>
      (port_succeeds followable 0 exit).bind fun rest => Succeeds.pure _

theorem body_succeeds (extension : c.Extends) (repaired : g.Repaired c)
    {follow : Uid → Target → Step (List Op)} {n : Node} {d : Definition} (listed : n ∈ g.nodes)
    (defined : c.find? n.fullName = some d) (followable : Followable (.ofGraph c g) follow n)
    (exit : Target) : Succeeds (.ofGraph c g) (body g (feedOf c g) follow n d exit) := by
  have found : g.find? n.uid = some n := Graph.find?_of_mem repaired.distinct listed
  have feedable := feedOf_feedable repaired listed
  have hkind : n.kind = d.kind := (Catalog.find?_kind defined).symm
  have first : d.kind = .forLoop ∨ d.kind = .foreachLoop →
      Succeeds (.ofGraph c g) (output n.uid 0) := fun loop =>
    Succeeds.output repaired.distinct ⟨n, d, found, defined,
      (extension.outputs_of_loop defined loop).symm ▸ Nat.one_pos⟩
  unfold body
  cases kind : d.kind
  case block =>
    refine chains_succeeds (fun uid huid => ?_) exit
    obtain ⟨flow, hflow, hsame⟩ := List.mem_filterMap.mp huid
    obtain rfl : flow = some uid := hsame
    exact followable uid hflow
  case branch => exact branch_succeeds feedable followable exit
  case isValid => exact validity_succeeds feedable followable exit
  case forLoop => exact forLoop_succeeds feedable followable (first (Or.inl kind)) exit
  case foreachLoop => exact foreachLoop_succeeds feedable followable (first (Or.inr kind)) exit
  case whileLoop => exact whileLoop_succeeds feedable followable exit
  case setVariable =>
    exact assignment_succeeds repaired listed (by rw [Node.access?, hkind, kind]; rfl) feedable
      followable exit
  case setReturnValue =>
    exact assignment_succeeds repaired listed (by rw [Node.access?, hkind, kind]; rfl) feedable
      followable exit
  all_goals
    exact call_succeeds feedable followable
      (fun supplies => callOf_succeeds repaired.distinct found defined supplies) exit

theorem chain_succeeds (extension : c.Extends) (repaired : g.Repaired c) {rank : Uid → Nat}
    (falls : ∀ n ∈ g.nodes, ∀ target, some target ∈ n.flows → rank target < rank n.uid)
    (depth : Nat) (uid : Uid) (exit : Target) (live : ∃ n, g.find? uid = some n)
    (room : rank uid < depth) : Succeeds (.ofGraph c g) (chain c g depth uid exit) := by
  induction depth generalizing uid exit with
  | zero => exact absurd room (Nat.not_lt_zero _)
  | succ depth ih =>
    obtain ⟨n, found⟩ := live
    have listed := Graph.find?_mem found
    obtain ⟨d, defined⟩ := repaired.defined n listed
    intro s grows
    rw [chain_succ]
    cases s.emitted.lookup (uid, exit) with
    | some label => exact ⟨_, s, rfl, grows⟩
    | none =>
      have followable : Followable (.ofGraph c g) (chain c g depth) n := by
        intro next hnext exit
        obtain ⟨m, d, hm, -, -⟩ := repaired.flows n listed next hnext
        have hless := falls n listed next hnext
        rw [Graph.find?_uid found] at hless
        exact ih next exit ⟨m, hm⟩ (Nat.lt_of_lt_of_le hless (Nat.le_of_lt_succ room))
      have code : Succeeds (.ofGraph c g) (labelledBody c g depth uid exit s.nextLabel) :=
        Succeeds.placed found defined
          ((body_succeeds extension repaired listed defined followable exit).bind
            fun code => Succeeds.pure _)
      exact code (entered uid exit s) grows

/-! ## Events -/

private theorem nameParameters_succeeds (distinct : g.uids.Nodup) {n : Node} {d : Definition}
    (found : g.find? n.uid = some n) (defined : c.find? n.fullName = some d) (entry : String)
    (index : Nat) (parameters : List Parameter)
    (inside : index + parameters.length ≤ d.outputs.length) :
    Succeeds (.ofGraph c g) (nameParameters n.uid entry index parameters) := by
  induction parameters generalizing index with
  | nil => exact Succeeds.pure ()
  | cons p rest ih =>
    rw [List.length_cons] at inside
    have offers : Offers c g n.uid index := ⟨n, d, found, defined, by omega⟩
    exact (Succeeds.namedOutput distinct offers _).bind fun _ => ih (index + 1) (by omega)

private theorem entryName?_succeeds (h : HeapLayout) (n : Node) :
    Succeeds h (entryName? g n) := by
  rw [entryName?_eq]
  split
  · exact (Succeeds.report _ _).bind fun _ => Succeeds.pure none
  · exact Succeeds.pure _

theorem entries_succeeds (repaired : g.Repaired c) (taken : List String) (nodes : List Node)
    (listed : ∀ n ∈ nodes, n ∈ g.nodes) :
    Succeeds (.ofGraph c g) (entries c g taken nodes) := by
  induction nodes generalizing taken with
  | nil => exact Succeeds.pure []
  | cons n nodes ih =>
    rw [List.forall_mem_cons] at listed
    obtain ⟨d, defined⟩ := repaired.defined n listed.1
    have found : g.find? n.uid = some n := Graph.find?_of_mem repaired.distinct listed.1
    rw [entries, defined]
    refine (entryName?_succeeds _ n).bind fun claimed => ?_
    cases claimed with
    | none => exact ih taken listed.2
    | some name =>
      simp only
      split
      · exact (Succeeds.report _ _).bind fun _ => ih taken listed.2
      · have named := nameParameters_succeeds repaired.distinct found defined name 0 d.outputs
          (Nat.le_of_eq (Nat.zero_add _))
        exact named.bind fun _ => (ih _ listed.2).bind fun others => Succeeds.pure _

theorem streams_succeeds (extension : c.Extends) (repaired : g.Repaired c) :
    Succeeds (.ofGraph c g) (streams c g) := by
  obtain ⟨rank, bounded, falls⟩ := repaired.acyclic
  intro s grows
  have events : ∀ n ∈ g.eventNodes, n ∈ g.nodes := fun n hn => (List.mem_filter.mp hn).1
  obtain ⟨found, r, hentries, hr⟩ := entries_succeeds repaired [] g.eventNodes events s grows
  have each : ∀ entry ∈ found, Succeeds (.ofGraph c g) (stream c g entry.1 entry.2) := by
    intro entry hentry
    have hnode : entry.2 ∈ g.nodes := events _ ((entries_eq_ok hentries).1.node_mem hentry)
    have followable : Followable (.ofGraph c g) (chain c g (g.nodes.length + 1)) entry.2 := by
      intro next hnext exit
      obtain ⟨m, d, hm, -, -⟩ := repaired.flows entry.2 hnode next hnext
      exact chain_succeeds extension repaired falls _ next exit ⟨m, hm⟩
        (Nat.lt_succ_of_le (bounded next))
    have emptied : Succeeds (.ofGraph c g)
        (modify fun s => { s with emitted := [] } : Step Unit) :=
      fun s grows => ⟨(), { s with emitted := [] }, rfl, grows⟩
    exact emptied.bind fun _ => (port_succeeds followable 0 .halt).bind fun ops => Succeeds.pure _
  obtain ⟨results, t, hstreams, ht⟩ := Succeeds.mapM each r hr
  exact ⟨results, t, bind_eq_ok.mpr ⟨found, r, hentries, hstreams⟩, ht⟩

end Repaired

end ScriptGraph.Lowering
