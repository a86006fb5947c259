import ScriptGraph.Proofs.Catalog.Methods
import ScriptGraph.Proofs.Lowering.Evaluation
import ScriptGraph.Proofs.Lowering.Total

/-!
The code of a node of the flow. The inputs that it reads are made available first, by calling every
node that they need once and in order. Then the node acts on their slots, and the flows that leave
it are followed. In a snapshot, emitting this code succeeds.
-/

set_option autoImplicit false
set_option relaxedAutoImplicit false

namespace ScriptGraph.Lowering

open HeapLayout (Grows)
open Reference (placed? placed?_eq_some)
open Relation (ReflTransGen TransGen)

/-! ## Inputs that are read -/

/-- The inputs that a node of the flow reads. -/
def inputsRead (d : Definition) : List Nat :=
  match d.kind with
  | .block => []
  | .branch | .isValid | .foreachLoop | .whileLoop => [0]
  | .forLoop => [0, 1, 2]
  | .setVariable | .setReturnValue => [1]
  | _ => List.range d.inputs.length

/-- Whether a node assigns to the variable that it is bound to. -/
def Assigns (d : Definition) : Prop := d.kind = .setVariable ∨ d.kind = .setReturnValue

instance (d : Definition) : Decidable (Assigns d) := inferInstanceAs (Decidable (_ ∨ _))

/-- The declared type of an input of a node of the flow; what is assigned is of the type of the
variable. -/
def declaredType (g : Graph) (n : Node) (d : Definition) (index : Nat) : Option String :=
  if Assigns d then (n.target?.bind g.find?).bind Node.variableType? else d.inputType index

/-- Makes the inputs available that a node of the flow reads. -/
def gather (g : Graph) (feed : List Uid → Link → Step Supply) (n : Node) (d : Definition) :
    Step Supplies :=
  if Assigns d then do
    let value ← inputAs feed n d 1 (declaredType g n d 1) []
    return ⟨value.code, [value.slot], value.evaluated⟩
  else inputs feed n d (inputsRead d) []

/-- What making inputs available for a node of the flow comes to. -/
structure Evaluation (c : Catalog) (g : Graph) (links : List Link) (h : HeapLayout)
    (code : List Op) (order broken : List Uid) : Prop where
  /-- Nodes are called one after the other, the latest of which comes first. -/
  schedule : Schedule c g h broken [] code order
  once : order.Nodup
  size_eq : code.length = order.length
  needed : ∀ uid, uid ∈ order ↔ g.Needs c links uid
  closing : ∀ uid ∈ broken, uid ∈ order ∧ TransGen (g.Draws c) uid uid
  cyclic : broken ≠ [] ↔ ∃ uid, g.Needs c links uid ∧ TransGen (g.Draws c) uid uid

section Evaluation

variable {c : Catalog} {g : Graph} {links : List Link} {code : List Op} {order broken : List Uid}

theorem Evaluation.grows {h later : HeapLayout}
    (evaluation : Evaluation c g links h code order broken) (grows : Grows h later) :
    Evaluation c g links later code order broken :=
  { evaluation with schedule := evaluation.schedule.mono grows (List.Subset.refl _) }

theorem Provides.evaluation {s t : Lowering}
    (provides : Provides c g [] links s [] code order broken t) :
    Evaluation c g links t.heap code order broken := by
  have complete : ∀ uid, g.Needs c links uid → uid ∈ order := by
    rintro uid ⟨link, listed, computed, leads⟩
    induction leads with
    | refl => simpa using provides.linked link listed computed
    | tail _ draws ih => simpa using (provides.drawn _ ih).resolve_left List.not_mem_nil _ draws
  constructor
  case schedule => exact provides.schedule
  case once => exact provides.schedule.nodup List.nodup_nil
  case size_eq => exact provides.schedule.length_eq.symm
  case needed =>
    exact fun uid => ⟨fun listed => (provides.needed uid listed).resolve_left List.not_mem_nil,
      complete uid⟩
  case closing =>
    intro uid listed
    obtain ⟨needs, cycle⟩ := provides.cyclic uid listed
    exact ⟨complete uid needs, cycle⟩
  case cyclic =>
    constructor
    · intro reported
      obtain ⟨uid, listed⟩ := List.exists_mem_of_ne_nil _ reported
      exact ⟨uid, provides.cyclic uid listed⟩
    · rintro ⟨uid, needs, cycle⟩ rfl
      exact provides.schedule.acyclic (complete uid needs) cycle

end Evaluation

theorem gather_provides {c : Catalog} {g : Graph} {n : Node} {d : Definition} {supplies : Supplies}
    {s t : Lowering} (given : gather g (feedOf c g) n d s = .ok (supplies, t)) :
    ∃ broken,
      Provides c g [] (n.linksAt (inputsRead d)) s [] supplies.code supplies.evaluated broken t ∧
      List.Forall₂ (fun index slot =>
        inputSlot? c g t.heap supplies.evaluated n d index (declaredType g n d index) = some slot)
        (inputsRead d) supplies.slots := by
  have provider : Provider c g [] (feedOf c g) := supply_provides c g _ []
  have now {read : List Uid → Option Slot} {slot : Slot}
      (remains : Remains [] supplies.evaluated read slot) : read supplies.evaluated = some slot :=
    remains _ (List.Subset.refl _) (by simp)
  unfold gather at given
  split at given
  · rename_i assigns
    have reads : inputsRead d = [1] := by
      rcases assigns with kind | kind <;> simp only [inputsRead, kind]
    simp only [bind_eq_ok, pure_eq_ok] at given
    obtain ⟨value, r, hvalue, rfl, rfl⟩ := given
    obtain ⟨broken, provides, remains⟩ := inputAs_provides provider (by simp) (by simp) hvalue
    rw [reads]
    exact ⟨broken, provides, .cons (now remains) .nil⟩
  · rename_i other
    obtain ⟨broken, provides, remains⟩ := inputs_provides provider (by simp) (by simp) given
    refine ⟨broken, provides, remains.imp fun index slot remains => ?_⟩
    rw [declaredType, if_neg other]
    exact now remains

/-! ## What follows the inputs -/

def Acts (d : Definition) (slots : List Slot) (code : List Op) : Prop :=
  match d.kind with
  | .block => slots = []
  | .branch | .whileLoop => ∃ condition target rest,
    slots = [condition] ∧ code = .jumpUnless condition target :: rest
  | .isValid => ∃ object valid rest,
    slots = [object] ∧ code = .call isValidMethod [object, valid] :: rest
  | .forLoop => ∃ start stop step index inRange header rest, slots = [start, stop, step] ∧
    code = .copy start index :: .label header :: .call lessThanMethod [index, stop, inRange] :: rest
  | .foreachLoop => ∃ array first index length rest, slots = [array] ∧
    code = .copy first index :: .call arrayLengthMethod [array, length] :: rest
  | .setVariable | .setReturnValue => ∃ value target rest,
    slots = [value] ∧ code = .copy value target :: rest
  | _ => ∃ results rest, code = .call d.fullName (slots ++ results) :: rest

def Onwards (follow : Uid → Target → Step (List Op)) : Lowering → Lowering → Prop :=
  ReflTransGen fun s t => Quiet s t ∨ ∃ uid exit code, follow uid exit s = .ok (code, t)

namespace Onwards

variable {follow : Uid → Target → Step (List Op)} {r s t : Lowering}

theorem quiet (quiet : Quiet s t) : Onwards follow s t := .single (Or.inl quiet)

theorem trans (first : Onwards follow r s) (second : Onwards follow s t) : Onwards follow r t :=
  ReflTransGen.trans first second

theorem keeps {R : Lowering → Lowering → Prop} (refl : ∀ s, R s s)
    (trans : ∀ r s t, R r s → R s t → R r t) (quiet : ∀ s t, Quiet s t → R s t)
    (follows : ∀ uid exit, Keeps R (follow uid exit)) (onwards : Onwards follow s t) : R s t := by
  induction onwards with
  | refl => exact refl s
  | tail _ step ih =>
    rcases step with step | ⟨uid, exit, code, step⟩
    · exact trans _ _ _ ih (quiet _ _ step)
    · exact trans _ _ _ ih (follows uid exit _ _ _ step)

section Flows

variable {n : Node} {exit : Target} {code : List Op}

theorem port {index : Nat} (given : port follow n index exit s = .ok (code, t)) :
    Onwards follow s t := by
  unfold Lowering.port at given
  cases flow : n.flows[index]?.join with
  | some next =>
    simp only [flow] at given
    exact .single (Or.inr ⟨_, _, _, given⟩)
  | none =>
    simp only [flow] at given
    obtain ⟨-, rfl⟩ := pure_eq_ok.mp given
    exact .refl

theorem chains {uids : List Uid} (given : chains follow exit uids s = .ok (code, t)) :
    Onwards follow s t := by
  induction uids generalizing s code with
  | nil =>
    obtain ⟨-, rfl⟩ := pure_eq_ok.mp given
    exact .refl
  | cons uid rest ih =>
    cases rest with
    | nil => exact .single (Or.inr ⟨_, _, _, given⟩)
    | cons next rest =>
      simp only [Lowering.chains, bind_eq_ok, pure_eq_ok] at given
      obtain ⟨after, r, hafter, first, q, hfirst, others, u, hothers, -, rfl⟩ := given
      have chain : Onwards follow r q := .single (Or.inr ⟨_, _, _, hfirst⟩)
      exact ((quiet (.newLabel hafter)).trans chain).trans (ih hothers)

theorem choice {condition : Slot} (given : choice follow n condition exit s = .ok (code, t)) :
    Onwards follow s t ∧ ∃ target rest, code = .jumpUnless condition target :: rest := by
  simp only [Lowering.choice, bind_eq_ok, pure_eq_ok] at given
  obtain ⟨otherwise, r, hlabel, first, q, hfirst, second, u, hsecond, rfl, rfl⟩ := given
  exact ⟨((quiet (.newLabel hlabel)).trans (port hfirst)).trans (port hsecond), _, _, rfl⟩

theorem counting {index stop step inRange : Slot} {opening : List Op}
    (given : counting follow n index stop step inRange opening exit s = .ok (code, t)) :
    Onwards follow s t ∧ ∃ header rest,
      code = .label header :: .call lessThanMethod [index, stop, inRange] :: rest := by
  simp only [Lowering.counting, bind_eq_ok, pure_eq_ok] at given
  obtain ⟨header, r₁, hheader, increment, r₂, hincrement, done, r₃, hdone, body, r₄, hbody, after,
    r₅, hafter, rfl, rfl⟩ := given
  have labels := ((Quiet.newLabel hheader).trans (.newLabel hincrement)).trans (.newLabel hdone)
  exact ⟨((quiet labels).trans (port hbody)).trans (port hafter), _, _, rfl⟩

end Flows

end Onwards

/-! ## The code of a node -/

/-- How the code of a node of the flow is put together: the code of its inputs, with nothing ahead
but places that are marked, and what the node does with them. -/
structure Gathers (g : Graph) (feed : List Uid → Link → Step Supply)
    (follow : Uid → Target → Step (List Op)) (n : Node) (d : Definition) (s q : Lowering)
    (supplies : Supplies) (r : Lowering) (code : List Op) (t : Lowering) : Prop where
  before : Quiet s q
  gathered : gather g feed n d q = .ok (supplies, r)
  after : Onwards follow r t
  shape : ∃ front own, code = front ++ supplies.code ++ own ∧
    (∀ op ∈ front, op.isLabel = true) ∧ Acts d supplies.slots own

section Bodies

variable {g : Graph} {feed : List Uid → Link → Step Supply} {follow : Uid → Target → Step (List Op)}
  {n : Node} {d : Definition} {exit : Target} {code : List Op} {s t : Lowering}

private theorem inputs_nil {evaluated : List Uid} :
    inputs feed n d [] evaluated s = .ok (⟨[], [], evaluated⟩, s) := rfl

private theorem inputs_cons {index : Nat} {rest : List Nat} {evaluated : List Uid} {first : Supply}
    {others : Supplies} {r : Lowering} (hfirst : input feed n d index evaluated s = .ok (first, r))
    (hothers : inputs feed n d rest first.evaluated r = .ok (others, t)) :
    inputs feed n d (index :: rest) evaluated s =
      .ok (⟨first.code ++ others.code, first.slot :: others.slots, others.evaluated⟩, t) := by
  simp only [inputs, bind_eq_ok, pure_eq_ok]
  exact ⟨first, r, hfirst, others, t, hothers, rfl, rfl⟩

private theorem gather_of_single {first : Supply} (reads : inputsRead d = [0])
    (other : ¬Assigns d) (given : input feed n d 0 [] s = .ok (first, t)) :
    gather g feed n d s = .ok (⟨first.code, [first.slot], first.evaluated⟩, t) := by
  rw [gather, if_neg other, reads]
  simpa using inputs_cons given inputs_nil

private theorem branch_gathers (kind : d.kind = .branch)
    (given : branch feed follow n d exit s = .ok (code, t)) :
    ∃ q supplies r, Gathers g feed follow n d s q supplies r code t := by
  simp only [branch, bind_eq_ok, pure_eq_ok] at given
  obtain ⟨condition, r, hcondition, rest, q, hrest, rfl, rfl⟩ := given
  obtain ⟨onwards, target, tail, rfl⟩ := Onwards.choice hrest
  refine ⟨s, _, r, .refl s, gather_of_single (by simp [inputsRead, kind]) (by simp [Assigns, kind])
    hcondition, onwards, [], _, rfl, by simp, ?_⟩
  simp only [Acts, kind]
  exact ⟨condition.slot, target, tail, rfl, rfl⟩

private theorem validity_gathers (kind : d.kind = .isValid)
    (given : validity feed follow n d exit s = .ok (code, t)) :
    ∃ q supplies r, Gathers g feed follow n d s q supplies r code t := by
  simp only [validity, bind_eq_ok, pure_eq_ok] at given
  obtain ⟨object, r, hobject, valid, q, hvalid, rest, u, hrest, rfl, rfl⟩ := given
  have onwards := (Onwards.choice hrest).1
  refine ⟨s, _, r, .refl s, gather_of_single (by simp [inputsRead, kind]) (by simp [Assigns, kind])
    hobject, (Onwards.quiet (.scratch hvalid)).trans onwards, [], _, rfl, by simp, ?_⟩
  simp only [Acts, kind]
  exact ⟨object.slot, valid, rest, rfl, rfl⟩

private theorem whileLoop_gathers (kind : d.kind = .whileLoop)
    (given : whileLoop feed follow n d exit s = .ok (code, t)) :
    ∃ q supplies r, Gathers g feed follow n d s q supplies r code t := by
  simp only [whileLoop, bind_eq_ok, pure_eq_ok] at given
  obtain ⟨header, r₁, hheader, done, q, hdone, condition, r, hcondition, round, r₂, hround, after,
    r₃, hafter, rfl, rfl⟩ := given
  refine ⟨q, _, r, (Quiet.newLabel hheader).trans (.newLabel hdone), gather_of_single
    (by simp [inputsRead, kind]) (by simp [Assigns, kind]) hcondition,
    (Onwards.port hround).trans (.port hafter), [.label header],
    .jumpUnless condition.slot (.label done) :: round ++ .label done :: after, by simp,
    by simp [Op.isLabel], ?_⟩
  simp only [Acts, kind]
  exact ⟨condition.slot, .label done, _, rfl, rfl⟩

private theorem forLoop_gathers (kind : d.kind = .forLoop)
    (given : forLoop feed follow n d exit s = .ok (code, t)) :
    ∃ q supplies r, Gathers g feed follow n d s q supplies r code t := by
  simp only [forLoop, bind_eq_ok, pure_eq_ok] at given
  obtain ⟨start, r₁, hstart, stop, r₂, hstop, step, r, hstep, index, r₃, hindex, inRange, r₄,
    hinRange, rest, u, hrest, rfl, rfl⟩ := given
  obtain ⟨onwards, header, tail, rfl⟩ := Onwards.counting hrest
  have gathered : gather g feed n d s =
      .ok (⟨start.code ++ (stop.code ++ step.code), [start.slot, stop.slot, step.slot],
        step.evaluated⟩, r) := by
    rw [gather, if_neg (by simp [Assigns, kind])]
    simpa only [inputsRead, kind, List.append_nil] using
      inputs_cons hstart (inputs_cons hstop (inputs_cons hstep inputs_nil))
  have slots := (Quiet.output hindex).trans (.scratch hinRange)
  refine ⟨s, _, r, .refl s, gathered, (Onwards.quiet slots).trans onwards, [],
    .copy start.slot index :: .label header ::
      .call lessThanMethod [index, stop.slot, inRange] :: tail, by simp, by simp, ?_⟩
  simp only [Acts, kind]
  exact ⟨start.slot, stop.slot, step.slot, index, inRange, header, tail, rfl, rfl⟩

private theorem foreachLoop_gathers (kind : d.kind = .foreachLoop)
    (given : foreachLoop feed follow n d exit s = .ok (code, t)) :
    ∃ q supplies r, Gathers g feed follow n d s q supplies r code t := by
  simp only [foreachLoop, bind_eq_ok, pure_eq_ok] at given
  obtain ⟨array, r, harray, item, r₁, hitem, first, r₂, hfirst, one, r₃, hone, index, r₄, hindex,
    length, r₅, hlength, inRange, r₆, hinRange, rest, u, hrest, rfl, rfl⟩ := given
  have slots := (((((Quiet.output hitem).trans (.constant hfirst)).trans (.constant hone)).trans
    (.scratch hindex)).trans (.scratch hlength)).trans (.scratch hinRange)
  refine ⟨s, _, r, .refl s, gather_of_single (by simp [inputsRead, kind]) (by simp [Assigns, kind])
    harray, (Onwards.quiet slots).trans (Onwards.counting hrest).1, [], _, rfl, by simp, ?_⟩
  simp only [Acts, kind]
  exact ⟨array.slot, first, index, length, rest, rfl, rfl⟩

private theorem notice_quiet {target : Uid} {variableNode : Node}
    (given : notice g n d target variableNode s = .ok (code, t)) : Quiet s t := by
  unfold notice at given
  split at given
  · simp only [sendChange, bind_eq_ok, pure_eq_ok] at given
    obtain ⟨this, r, hthis, event, q, hevent, -, rfl⟩ := given
    exact (Quiet.constant hthis).trans (.constant hevent)
  · obtain ⟨-, rfl⟩ := pure_eq_ok.mp given
    exact .refl s

private theorem assignment_gathers (assigns : Assigns d)
    (given : assignment g feed follow n d exit s = .ok (code, t)) :
    ∃ q supplies r, Gathers g feed follow n d s q supplies r code t := by
  simp only [assignment_eq, bind_eq_ok, pure_eq_ok, present_eq_ok] at given
  obtain ⟨target, r₁, ⟨htarget, rfl⟩, variableNode, r₂, ⟨hvariable, rfl⟩, slot, q, hslot, value,
    r, hvalue, change, r₃, hchange, rest, r₄, hrest, rfl, rfl⟩ := given
  have gathered : gather g feed n d q =
      .ok (⟨value.code, [value.slot], value.evaluated⟩, r) := by
    rw [gather, if_pos assigns, declaredType, if_pos assigns, htarget, Option.bind_some, hvariable,
      Option.bind_some]
    simp only [bind_eq_ok, pure_eq_ok]
    exact ⟨value, r, hvalue, rfl, rfl⟩
  refine ⟨q, _, r, .variableSlot hslot, gathered,
    (Onwards.quiet (notice_quiet hchange)).trans (.port hrest), [],
    .copy value.slot slot :: change ++ rest, by simp, by simp, ?_⟩
  rcases assigns with kind | kind <;> simp only [Acts, kind] <;>
    exact ⟨value.slot, slot, change ++ rest, rfl, rfl⟩

private theorem call_gathers (other : ¬Assigns d)
    (reads : inputsRead d = List.range d.inputs.length)
    (acts : ∀ slots results rest, Acts d slots (.call d.fullName (slots ++ results) :: rest))
    (given : call feed follow n d exit s = .ok (code, t)) :
    ∃ q supplies r, Gathers g feed follow n d s q supplies r code t := by
  simp only [call, bind_eq_ok, pure_eq_ok] at given
  obtain ⟨supplies, r, hsupplies, called, q, hcalled, rest, u, hrest, rfl, rfl⟩ := given
  obtain ⟨-, results, -, rfl⟩ := callOf_obtains hcalled
  have gathered : gather g feed n d s = .ok (supplies, r) := by
    rw [gather, if_neg other, reads]
    exact hsupplies
  refine ⟨s, supplies, r, .refl s, gathered, (Onwards.quiet (.callOf hcalled)).trans (.port hrest),
    [], .call d.fullName (supplies.slots ++ results) :: rest, by simp, by simp, acts _ _ _⟩

theorem body_gathers (given : body g feed follow n d exit s = .ok (code, t)) :
    ∃ q supplies r, Gathers g feed follow n d s q supplies r code t := by
  unfold body at given
  cases kind : d.kind <;> rw [kind] at given
  case block =>
    refine ⟨s, ⟨[], [], []⟩, s, .refl s, ?_, .chains given, [], code, rfl, by simp, ?_⟩
    · rw [gather, if_neg (by simp [Assigns, kind])]
      simp only [inputsRead, kind]
      rfl
    · simp only [Acts, kind]
  case branch => exact branch_gathers kind given
  case isValid => exact validity_gathers kind given
  case forLoop => exact forLoop_gathers kind given
  case foreachLoop => exact foreachLoop_gathers kind given
  case whileLoop => exact whileLoop_gathers kind given
  case setVariable => exact assignment_gathers (Or.inl kind) given
  case setReturnValue => exact assignment_gathers (Or.inr kind) given
  all_goals
    refine call_gathers (by simp [Assigns, kind]) (by simp only [inputsRead, kind]) ?_ given
    intro slots results rest
    simp only [Acts, kind]
    exact ⟨results, rest, rfl⟩

end Bodies

/-! ## Chains -/

/-- A step that asks for slots and adds reports at most. -/
structure Prolongs (s t : Lowering) : Prop where
  grows : Grows s.heap t.heap
  reports : s.diagnostics <+: t.diagnostics

namespace Prolongs

theorem refl (s : Lowering) : Prolongs s s := ⟨Grows.refl s.heap, List.prefix_refl _⟩

theorem trans (r s t : Lowering) (first : Prolongs r s) (second : Prolongs s t) : Prolongs r t :=
  ⟨first.grows.trans second.grows, first.reports.trans second.reports⟩

end Prolongs

theorem Quiet.prolongs {s t : Lowering} (quiet : Quiet s t) : Prolongs s t :=
  ⟨quiet.grows, quiet.diagnostics ▸ List.prefix_refl _⟩

section Chains

variable {c : Catalog} {g : Graph}

private theorem entered_quiet (uid : Uid) (exit : Target) (s : Lowering) :
    Quiet s (entered uid exit s) := ⟨Grows.refl s.heap, rfl⟩

theorem Gathers.prolongs {follow : Uid → Target → Step (List Op)}
    (follows : ∀ uid exit, Keeps Prolongs (follow uid exit)) {n : Node} {d : Definition}
    {supplies : Supplies} {code : List Op} {s q r t : Lowering}
    (gathers : Gathers g (feedOf c g) follow n d s q supplies r code t) :
    Prolongs s t ∧ Prolongs r t := by
  obtain ⟨broken, provides, -⟩ := gather_provides gathers.gathered
  have gathered : Prolongs q r := ⟨provides.grows, provides.reports ▸ List.prefix_append _ _⟩
  have after := gathers.after.keeps Prolongs.refl Prolongs.trans (fun _ _ => Quiet.prolongs) follows
  exact ⟨(gathers.before.prolongs.trans _ _ _ gathered).trans _ _ _ after, after⟩

theorem chain_prolongs (c : Catalog) (g : Graph) (depth : Nat) (uid : Uid) (exit : Target) :
    Keeps Prolongs (chain c g depth uid exit) := by
  induction depth generalizing uid exit with
  | zero =>
    intro s code t given
    simp [chain_zero] at given
  | succ depth ih =>
    intro s code t given
    rcases chain_eq_ok given with ⟨-, -, -, rfl⟩ | ⟨-, less, n, d, rest, hdepth, -, -, hbody, -⟩
    · exact Prolongs.refl s
    · obtain rfl := Nat.succ.inj hdepth
      obtain ⟨q, supplies, r, gathers⟩ := body_gathers hbody
      exact (entered_quiet uid exit s).prolongs.trans _ _ _ (gathers.prolongs ih).1

/-- What emitting the code of a node of the flow comes to. Every node that its inputs need, directly
or through nodes that draw on one another, is called once, and no other node is. A node is called
after those that it draws on, and on their slots; only a link that closes a cycle is read as null. A
cycle among these nodes is reported, and nothing else is until the flows that leave the node are
followed. -/
def Emission (c : Catalog) (g : Graph) (depth : Nat) (uid : Uid) (s : Lowering) (code : List Op)
    (t : Lowering) : Prop :=
  ∃ n d q supplies r broken, placed? c g uid = some (n, d) ∧
    Gathers g (feedOf c g) (chain c g depth) n d s q supplies r code t ∧
    Evaluation c g (n.linksAt (inputsRead d)) t.heap supplies.code supplies.evaluated broken ∧
    List.Forall₂ (fun index slot => inputSlot? c g t.heap supplies.evaluated n d index
      (declaredType g n d index) = some slot) (inputsRead d) supplies.slots ∧
    r.diagnostics = q.diagnostics ++ broken.map fun uid => ⟨uid, .valueCycle⟩

theorem chain_emission {depth : Nat} {uid : Uid} {exit : Target} {code : List Op} {s t : Lowering}
    (emitted : chain c g (depth + 1) uid exit s = .ok (code, t))
    (fresh : s.emitted.lookup (uid, exit) = none) : Emission c g depth uid s code t := by
  rcases chain_eq_ok emitted with ⟨label, known, -, -⟩ |
    ⟨-, less, n, d, rest, hdepth, found, defined, hbody, rfl⟩
  · rw [fresh] at known
    cases known
  obtain rfl := Nat.succ.inj hdepth
  obtain ⟨q, supplies, r, gathers⟩ := body_gathers hbody
  obtain ⟨broken, provides, reads⟩ := gather_provides gathers.gathered
  have grows := (gathers.prolongs (chain_prolongs c g depth)).2.grows
  obtain ⟨front, own, rfl, labels, acts⟩ := gathers.shape
  refine ⟨n, d, q, supplies, r, broken, placed?_eq_some.mpr ⟨found, defined⟩, ?_,
    provides.evaluation.grows grows, reads.imp fun _ _ => inputSlot?_grows grows, provides.reports⟩
  exact ⟨(entered_quiet uid exit s).trans gathers.before, gathers.gathered, gathers.after,
    .label s.nextLabel :: front, own, rfl, List.forall_mem_cons.mpr ⟨rfl, labels⟩, acts⟩

/-- Whenever the code of a node of a snapshot is emitted, its inputs are evaluated in order, once
each; and emitting it succeeds. -/
theorem snapshot_evaluates (c : Catalog) (g : Graph) (uid : Uid) (exit : Target) {s : Lowering}
    (fresh : s.emitted.lookup (uid, exit) = none) :
    (∀ depth code t, chain c (g.snapshot c).1 (depth + 1) uid exit s = .ok (code, t) →
      Emission c (g.snapshot c).1 depth uid s code t) ∧
    (c.Extends → c.NamesByText → g.uids.Nodup → (g.snapshot c).1.contains uid = true →
      Grows (.ofGraph c (g.snapshot c).1) s.heap →
      ∃ code t, chain c (g.snapshot c).1 ((g.snapshot c).1.nodes.length + 1) uid exit s =
        .ok (code, t)) := by
  refine ⟨fun depth code t emitted => chain_emission emitted fresh, ?_⟩
  intro extension texts distinct present grows
  have repaired := Graph.snapshot_repaired extension texts distinct
  obtain ⟨rank, bounded, falls⟩ := repaired.acyclic
  obtain ⟨code, t, emitted, -⟩ := chain_succeeds extension repaired falls _ uid exit
    (Option.isSome_iff_exists.mp present) (Nat.lt_succ_of_le (bounded uid)) s grows
  exact ⟨code, t, emitted⟩

end Chains

/-! ### A shared node on a cycle -/

private def conjoining : Definition :=
  { Definition.bare "SystemBoolean.__op_LogicalAnd__SystemBoolean_SystemBoolean__SystemBoolean" with
    inputs := [⟨"left", some boolType, .null⟩, ⟨"right", some boolType, .null⟩]
    outputs := [⟨"both", some boolType, .null⟩] }

def choosing : Catalog := ⟨Catalog.intrinsics ++ [conjoining]⟩

private def conjunction (uid : Uid) (left right : Option Link) : Node :=
  ⟨uid, conjoining.fullName, .origin, [.bool true, .bool true], [left, right], []⟩

/-- The condition of a branch, one of two nodes that draw on each other; both read a third one. -/
def shared : Graph := { Graph.empty "shared" with
  nodes := [
    ⟨"decision", Kind.branchName, .origin, [.bool false], [some ⟨"outer", 0⟩], [none, none]⟩,
    conjunction "outer" (some ⟨"inner", 0⟩) (some ⟨"common", 0⟩),
    conjunction "inner" (some ⟨"common", 0⟩) (some ⟨"outer", 0⟩),
    conjunction "common" none none] }

theorem snapshot_evaluates_shared : ∃ code t,
    chain choosing (shared.snapshot choosing).1 ((shared.snapshot choosing).1.nodes.length + 1)
      "decision" .halt ⟨.ofGraph choosing (shared.snapshot choosing).1, [], 0, []⟩ =
      .ok (code, t) ∧
    Emission choosing (shared.snapshot choosing).1 (shared.snapshot choosing).1.nodes.length
      "decision" ⟨.ofGraph choosing (shared.snapshot choosing).1, [], 0, []⟩ code t := by
  have extension : choosing.Extends := by
    unfold Catalog.Extends
    decide +kernel
  have methods : choosing.OfMethods := by
    intro d (listed : d ∈ Catalog.intrinsics ++ [conjoining])
    rcases List.mem_append.mp listed with listed | listed
    · exact .inl listed
    obtain rfl := List.mem_singleton.mp listed
    exact .inr ⟨"SystemBoolean", "op_LogicalAnd", "SystemBoolean_SystemBoolean__SystemBoolean",
      by decide, by decide⟩
  have present : (shared.snapshot choosing).1.contains "decision" = true := by decide +kernel
  have evaluates := snapshot_evaluates choosing shared "decision" .halt
    (s := ⟨.ofGraph choosing (shared.snapshot choosing).1, [], 0, []⟩) rfl
  dsimp only at evaluates
  obtain ⟨code, t, emitted⟩ :=
    evaluates.2 extension methods.namesByText (by decide) present (Grows.refl _)
  exact ⟨code, t, emitted, evaluates.1 _ code t emitted⟩

/-- Of the two nodes that wait for each other, the one that is met again is reported. -/
example : ((chain choosing shared 5 "decision" .halt ⟨.ofGraph choosing shared, [], 0, []⟩).map
    fun result => result.2.diagnostics).toOption = some [⟨"outer", .valueCycle⟩] := by
  decide +kernel

end ScriptGraph.Lowering
