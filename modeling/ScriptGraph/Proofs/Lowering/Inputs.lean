import ScriptGraph.Proofs.Code.Operands
import ScriptGraph.Proofs.Lowering.Steps
import Mathlib.Data.List.Forall2

/-!
The code that makes inputs available. It runs straight through, marks no place, and refers only to
slots that exist afterwards.
-/

set_option autoImplicit false
set_option relaxedAutoImplicit false

namespace ScriptGraph.Lowering

open HeapLayout (Grows Sound Grants Key)

/-- A step that may ask for slots and report problems, but neither hands out labels nor notes
emitted code. -/
structure Prepares (s t : Lowering) : Prop where
  grows : Grows s.heap t.heap
  sound : Sound s.heap → Sound t.heap
  nextLabel : t.nextLabel = s.nextLabel
  emitted : t.emitted = s.emitted

namespace Prepares

theorem refl (s : Lowering) : Prepares s s :=
  ⟨Grows.refl s.heap, id, rfl, rfl⟩

theorem trans {r s t : Lowering} (first : Prepares r s) (second : Prepares s t) : Prepares r t :=
  ⟨first.grows.trans second.grows, fun sound => second.sound (first.sound sound),
    second.nextLabel.trans first.nextLabel, second.emitted.trans first.emitted⟩

end Prepares

/-! ## Slots -/

/-- A slot that was granted for a key in a step. -/
structure Obtains (s : Lowering) (key : Key) (slot : Slot) (t : Lowering) : Prop where
  granted : t.heap.slot? key = some slot
  prepares : Prepares s t

theorem constant_obtains {type : String} {value : Value} {slot : Slot} {s t : Lowering}
    (given : constant type value s = .ok (slot, t)) : Obtains s (.constant type value) slot t := by
  obtain ⟨rfl, rfl⟩ := onHeap_eq_ok.mp given
  have grants := HeapLayout.constantSlot_grants s.heap type value
  exact ⟨grants.granted, grants.grows, grants.sound, rfl, rfl⟩

theorem output_obtains {uid : Uid} {index : Nat} {slot : Slot} {s t : Lowering}
    (given : output uid index s = .ok (slot, t)) : Obtains s (.output uid index) slot t := by
  obtain ⟨heap, request, rfl⟩ := onHeapOrFail_eq_ok.mp given
  have grants := HeapLayout.outputSlot_grants request
  exact ⟨grants.granted, grants.grows, grants.sound, rfl, rfl⟩

theorem variableSlot_obtains {uid : Uid} {slot : Slot} {s t : Lowering}
    (given : variableSlot uid s = .ok (slot, t)) : Obtains s (.variable uid) slot t := by
  obtain ⟨found, rfl⟩ := variableSlot_eq_ok.mp given
  exact ⟨found, Prepares.refl s⟩

theorem report_prepares {uid : Uid} {problem : Problem} {s t : Lowering}
    (given : report uid problem s = .ok ((), t)) : Prepares s t := by
  rw [report, Except.ok.injEq, Prod.mk.injEq] at given
  obtain ⟨-, rfl⟩ := given
  exact ⟨Grows.refl s.heap, id, rfl, rfl⟩

/-- A scratch slot is the first one after those of the layout before. -/
structure Extra (s : Lowering) (type : String) (slot : Slot) (t : Lowering) : Prop where
  prepares : Prepares s t
  slot_eq : slot = s.heap.size
  size_eq : t.heap.size = s.heap.size + 1
  slots : ∀ key, t.heap.slot? key = s.heap.slot? key
  starts : (t.heap.symbols[slot]?).map Symbol.default = some (.defaultFor (some type))

theorem Extra.inside {s t : Lowering} {type : String} {slot : Slot}
    (extra : Extra s type slot t) : slot < t.heap.size := by
  rw [extra.slot_eq, extra.size_eq]
  exact Nat.lt_succ_self _

theorem scratch_extra {type : String} {slot : Slot} {s t : Lowering}
    (given : scratch type s = .ok (slot, t)) : Extra s type slot t := by
  obtain ⟨rfl, rfl⟩ := onHeap_eq_ok.mp given
  obtain ⟨symbol, adds, hslot, hdefault⟩ := HeapLayout.scratchSlot_adds s.heap type
  refine ⟨⟨adds.grows rfl, fun sound => ?_, rfl, rfl⟩, hslot, adds.size_eq, ?_, ?_⟩
  · exact adds.sound sound (by simp)
  · intro key
    rw [adds.slots, if_neg (by simp)]
  · rw [hslot, adds.symbols, HeapLayout.size, Array.getElem?_push_size, Option.map_some, hdefault]

private theorem mapM_output_obtains {uid : Uid} {indices : List Nat} {slots : List Slot}
    {s t : Lowering} (given : indices.mapM (output uid) s = .ok (slots, t)) :
    Prepares s t ∧
      List.Forall₂ (fun index slot => t.heap.slot? (.output uid index) = some slot)
        indices slots := by
  induction indices generalizing s slots with
  | nil =>
    obtain ⟨rfl, rfl⟩ := mapM_nil_eq_ok.mp given
    exact ⟨Prepares.refl s, List.Forall₂.nil⟩
  | cons index indices ih =>
    obtain ⟨slot, r, others, hslot, hothers, rfl⟩ := mapM_cons_eq_ok.mp given
    have obtains := output_obtains hslot
    obtain ⟨prepares, hrest⟩ := ih hothers
    refine ⟨obtains.prepares.trans prepares, List.Forall₂.cons ?_ hrest⟩
    exact prepares.grows.kept _ _ obtains.granted

private theorem exists_of_forall₂ {α β : Type} {R : α → β → Prop} {as : List α} {bs : List β}
    (all : List.Forall₂ R as bs) {b : β} (listed : b ∈ bs) : ∃ a ∈ as, R a b := by
  induction all with
  | nil => cases listed
  | cons first _ ih =>
    rcases List.mem_cons.mp listed with rfl | listed
    · exact ⟨_, List.mem_cons_self, first⟩
    · obtain ⟨a, ha, related⟩ := ih listed
      exact ⟨a, List.mem_cons_of_mem _ ha, related⟩

theorem outputs_obtains {uid : Uid} {count : Nat} {slots : List Slot} {s t : Lowering}
    (given : outputs uid count s = .ok (slots, t)) :
    Prepares s t ∧
      List.Forall₂ (fun index slot => t.heap.slot? (.output uid index) = some slot)
        (List.range count) slots :=
  mapM_output_obtains given

/-! ## Code of inputs -/

/-- Code that runs straight through and refers to slots below a size only. -/
structure Plain (size : Nat) (ops : List Op) : Prop where
  plain : ∀ op ∈ ops, op.isPlain
  below : SlotsBelow size ops

namespace Plain

variable {size : Nat}

theorem nil : Plain size [] := ⟨by simp, SlotsBelow.nil⟩

theorem append {ops rest : List Op} (first : Plain size ops) (second : Plain size rest) :
    Plain size (ops ++ rest) := by
  refine ⟨?_, SlotsBelow.append_iff.mpr ⟨first.below, second.below⟩⟩
  intro op hop
  rcases List.mem_append.mp hop with hop | hop
  · exact first.plain op hop
  · exact second.plain op hop

theorem call {method : String} {slots : List Slot} (below : ∀ slot ∈ slots, slot < size) :
    Plain size [.call method slots] :=
  ⟨by simp [Op.isPlain], SlotsBelow.cons_iff.mpr ⟨below, SlotsBelow.nil⟩⟩

theorem copy {source destination : Slot} (hsource : source < size)
    (hdestination : destination < size) : Plain size [.copy source destination] :=
  ⟨by simp [Op.isPlain], SlotsBelow.cons_iff.mpr ⟨by simp [Op.slots, hsource, hdestination],
    SlotsBelow.nil⟩⟩

theorem mono {larger : Nat} {ops : List Op} (plain : Plain size ops) (le : size ≤ larger) :
    Plain larger ops :=
  ⟨plain.plain, plain.below.mono le⟩

end Plain

/-- An input made available: code and its slot. -/
structure Fetches (s : Lowering) (code : List Op) (slots : List Slot) (t : Lowering) : Prop where
  prepares : Prepares s t
  plain : Sound s.heap → Plain t.heap.size code
  below : Sound s.heap → ∀ slot ∈ slots, slot < t.heap.size

theorem Obtains.fetches {s t : Lowering} {key : Key} {slot : Slot}
    (obtains : Obtains s key slot t) : Fetches s [] [slot] t := by
  refine ⟨obtains.prepares, fun _ => Plain.nil, fun sound other hother => ?_⟩
  obtain rfl := List.mem_singleton.mp hother
  exact (obtains.prepares.sound sound).bound key other obtains.granted

theorem Fetches.append {r s t : Lowering} {code rest : List Op} {slots others : List Slot}
    (first : Fetches r code slots s) (second : Fetches s rest others t) :
    Fetches r (code ++ rest) (slots ++ others) t := by
  refine ⟨first.prepares.trans second.prepares, fun sound => ?_, fun sound slot hslot => ?_⟩
  · have hnext := first.prepares.sound sound
    exact ((first.plain sound).mono second.prepares.grows.size_le).append (second.plain hnext)
  · have hnext := first.prepares.sound sound
    rcases List.mem_append.mp hslot with hslot | hslot
    · exact Nat.lt_of_lt_of_le (first.below sound slot hslot) second.prepares.grows.size_le
    · exact second.below hnext slot hslot

def Feeds (feed : List Uid → Link → Step Supply) : Prop :=
  ∀ evaluated link s supplied t, feed evaluated link s = .ok (supplied, t) →
    Fetches s supplied.code [supplied.slot] t

section Inputs

variable {feed : List Uid → Link → Step Supply} {n : Node} {d : Definition}

theorem inputAs_fetches (feeds : Feeds feed) {index : Nat} {declared : Option String}
    {evaluated : List Uid} {supplied : Supply} {s t : Lowering}
    (given : inputAs feed n d index declared evaluated s = .ok (supplied, t)) :
    Fetches s supplied.code [supplied.slot] t := by
  unfold inputAs at given
  cases found : n.links[index]?.join with
  | some link =>
    simp only [found] at given
    exact feeds evaluated link s supplied t given
  | none =>
    simp only [found, bind_eq_ok, pure_eq_ok] at given
    obtain ⟨slot, r, hslot, rfl, rfl⟩ := given
    exact (constant_obtains hslot).fetches

theorem input_fetches (feeds : Feeds feed) {index : Nat} {evaluated : List Uid}
    {supplied : Supply} {s t : Lowering}
    (given : input feed n d index evaluated s = .ok (supplied, t)) :
    Fetches s supplied.code [supplied.slot] t :=
  inputAs_fetches feeds given

theorem inputs_fetches (feeds : Feeds feed) {indices : List Nat} {evaluated : List Uid}
    {supplies : Supplies} {s t : Lowering}
    (given : inputs feed n d indices evaluated s = .ok (supplies, t)) :
    Fetches s supplies.code supplies.slots t := by
  induction indices generalizing evaluated supplies s with
  | nil =>
    obtain ⟨rfl, rfl⟩ := pure_eq_ok.mp given
    exact ⟨Prepares.refl s, fun _ => Plain.nil, by simp⟩
  | cons index indices ih =>
    simp only [inputs, bind_eq_ok, pure_eq_ok] at given
    obtain ⟨first, r, hfirst, others, q, hothers, rfl, rfl⟩ := given
    exact (input_fetches feeds hfirst).append (ih hothers)

theorem callOf_obtains {supplies : Supplies} {code : List Op} {s t : Lowering}
    (given : callOf n d supplies s = .ok (code, t)) :
    Prepares s t ∧ ∃ results,
      List.Forall₂ (fun index slot => t.heap.slot? (.output n.uid index) = some slot)
        (List.range d.outputs.length) results ∧
      code = supplies.code ++ [.call d.fullName (supplies.slots ++ results)] := by
  simp only [callOf, bind_eq_ok, pure_eq_ok] at given
  obtain ⟨results, q, hresults, rfl, rfl⟩ := given
  obtain ⟨prepares, hgranted⟩ := outputs_obtains hresults
  exact ⟨prepares, results, hgranted, rfl⟩

theorem callOf_plain {supplies : Supplies} {code : List Op} {r s t : Lowering}
    (fetches : Fetches r supplies.code supplies.slots s)
    (given : callOf n d supplies s = .ok (code, t)) : Fetches r code [] t := by
  obtain ⟨prepares, results, hgranted, rfl⟩ := callOf_obtains given
  refine ⟨fetches.prepares.trans prepares, fun sound => ?_, by simp⟩
  have hsound := prepares.sound (fetches.prepares.sound sound)
  refine ((fetches.plain sound).mono prepares.grows.size_le).append (Plain.call ?_)
  intro slot hslot
  rcases List.mem_append.mp hslot with hslot | hslot
  · exact Nat.lt_of_lt_of_le (fetches.below sound slot hslot) prepares.grows.size_le
  · obtain ⟨index, -, granted⟩ := exists_of_forall₂ hgranted hslot
    exact hsound.bound _ slot granted

end Inputs

/-! ## Outputs of nodes -/

/-- Where an output of a node comes from when it is read. -/
inductive Source where
  | literal (type : String) (value : Value)
  | variable (uid : Uid)
  /-- The node takes part in the flow and stores its outputs when it runs. -/
  | stored
  /-- The node is evaluated for its readers. -/
  | computed
deriving DecidableEq

def sourceOf (n : Node) (d : Definition) : Source :=
  match d.kind with
  | .nullConstant => .literal objectType .null
  | .thisConstant => .literal (d.type.getD objectType) .this
  | .getVariable => .variable (n.target?.getD "")
  | .constant => .literal ((d.type.or (d.outputType 0)).getD objectType) (n.values[0]?.getD .null)
  | _ => if d.flow then .stored else .computed

/-- Evaluates a node that no node being evaluated waits for, and gives the slot of one output. -/
def compute (feed : List Uid → Link → Step Supply) (n : Node) (d : Definition)
    (evaluated : List Uid) (link : Link) : Step Supply := do
  let supplies ← inputs feed n d (List.range d.inputs.length) evaluated
  let code ← callOf { n with uid := link.node } d supplies
  return ⟨code, ← output link.node link.output, link.node :: supplies.evaluated⟩

def breakCycle (evaluated : List Uid) (link : Link) : Step Supply := do
  report link.node .valueCycle
  return ⟨[], ← constant objectType .null, evaluated⟩

def supplyFrom (source : Source) (computation cycle : Step Supply) (visiting evaluated : List Uid)
    (link : Link) : Step Supply :=
  match source with
  | .literal type value => return ⟨[], ← constant type value, evaluated⟩
  | .variable uid => return ⟨[], ← variableSlot uid, evaluated⟩
  | .stored => return ⟨[], ← output link.node link.output, evaluated⟩
  | .computed =>
    if evaluated.contains link.node then
      return ⟨[], ← output link.node link.output, evaluated⟩
    else if visiting.contains link.node then cycle
    else computation

theorem supply_zero (c : Catalog) (g : Graph) (visiting evaluated : List Uid) (link : Link) :
    supply c g 0 visiting evaluated link = throw (.absentNode link.node) := rfl

theorem supply_succ (c : Catalog) (g : Graph) (depth : Nat) (visiting evaluated : List Uid)
    (link : Link) :
    supply c g (depth + 1) visiting evaluated link = (do
      let (n, d) ← placed c g link.node
      supplyFrom (sourceOf n d)
        (compute (supply c g depth (link.node :: visiting)) n d evaluated link)
        (breakCycle evaluated link) visiting evaluated link) := by
  rw [supply]
  congr 1
  funext found
  obtain ⟨n, d⟩ := found
  simp only [sourceOf, constantOf, compute, breakCycle]
  cases d.kind <;> simp only [supplyFrom] <;> cases d.flow <;> simp

private theorem compute_fetches {feed : List Uid → Link → Step Supply} (feeds : Feeds feed)
    {n : Node} {d : Definition} {evaluated : List Uid} {link : Link} {supplied : Supply}
    {s t : Lowering} (given : compute feed n d evaluated link s = .ok (supplied, t)) :
    Fetches s supplied.code [supplied.slot] t := by
  simp only [compute, bind_eq_ok, pure_eq_ok] at given
  obtain ⟨supplies, q, hsupplies, code, r, hcode, slot, u, hslot, rfl, rfl⟩ := given
  have called := callOf_plain (inputs_fetches feeds hsupplies) hcode
  simpa using called.append (output_obtains hslot).fetches

private theorem breakCycle_fetches {evaluated : List Uid} {link : Link} {supplied : Supply}
    {s t : Lowering} (given : breakCycle evaluated link s = .ok (supplied, t)) :
    Fetches s supplied.code [supplied.slot] t := by
  simp only [breakCycle, bind_eq_ok, pure_eq_ok] at given
  obtain ⟨⟨⟩, q, hreport, slot, r, hslot, rfl, rfl⟩ := given
  have fetches := (constant_obtains hslot).fetches
  exact ⟨(report_prepares hreport).trans fetches.prepares, fun _ => Plain.nil,
    fun sound => fetches.below ((report_prepares hreport).sound sound)⟩

theorem supply_feeds (c : Catalog) (g : Graph) (depth : Nat) (visiting : List Uid) :
    Feeds (supply c g depth visiting) := by
  induction depth generalizing visiting with
  | zero =>
    intro evaluated link s supplied t given
    simp [supply_zero, throw_apply] at given
  | succ depth ih =>
    intro evaluated link s supplied t given
    simp only [supply_succ, bind_eq_ok] at given
    obtain ⟨⟨n, d⟩, r, hplaced, given⟩ := given
    obtain ⟨-, -, rfl⟩ := placed_eq_ok.mp hplaced
    cases source : sourceOf n d with
    | literal type value =>
      simp only [source, supplyFrom, bind_eq_ok, pure_eq_ok] at given
      obtain ⟨slot, q, hslot, rfl, rfl⟩ := given
      exact (constant_obtains hslot).fetches
    | «variable» uid =>
      simp only [source, supplyFrom, bind_eq_ok, pure_eq_ok] at given
      obtain ⟨slot, q, hslot, rfl, rfl⟩ := given
      exact (variableSlot_obtains hslot).fetches
    | stored =>
      simp only [source, supplyFrom, bind_eq_ok, pure_eq_ok] at given
      obtain ⟨slot, q, hslot, rfl, rfl⟩ := given
      exact (output_obtains hslot).fetches
    | computed =>
      simp only [source, supplyFrom] at given
      split at given
      · simp only [bind_eq_ok, pure_eq_ok] at given
        obtain ⟨slot, q, hslot, rfl, rfl⟩ := given
        exact (output_obtains hslot).fetches
      · split at given
        · exact breakCycle_fetches given
        · exact compute_fetches (ih _) given

theorem feedOf_feeds (c : Catalog) (g : Graph) : Feeds (feedOf c g) :=
  supply_feeds c g _ _

end ScriptGraph.Lowering
