import ScriptGraph.HeapLayout
import ScriptGraph.Proofs.Lookup

/-!
Layouts that know the outputs of some nodes only. Whatever is asked for but the outputs of the others, they
answer as the layouts that know all outputs do.
-/

set_option autoImplicit false
set_option relaxedAutoImplicit false

namespace ScriptGraph

def Node.unlinked (n : Node) : Node := { n with links := [], flows := [] }

theorem Node.eq_of_unlinked {α : Type} {n m : Node} (same : m.unlinked = n.unlinked) (look : Node → α)
    (blind : ∀ n : Node, look n.unlinked = look n) : look m = look n := by
  rw [← blind, same, blind]

namespace HeapLayout

def restrict (kept : Uid → Bool) (h : HeapLayout) : HeapLayout :=
  { h with outputTypes := h.outputTypes.filter fun entry => kept entry.1 }

variable {kept : Uid → Bool} {h : HeapLayout} {uid : Uid}

theorem restrict_outputType (alive : kept uid) (output : Nat) :
    (h.restrict kept).outputType uid output = h.outputType uid output := by
  rw [outputType, restrict, lookup_filter, if_pos alive, outputType]

theorem restrict_outputSlot (alive : kept uid) (output : Nat) :
    (h.restrict kept).outputSlot uid output =
      (h.outputSlot uid output).map (Prod.map id (restrict kept)) := by
  unfold outputSlot
  rw [restrict_outputType alive, show (h.restrict kept).outputs = h.outputs from rfl]
  cases h.outputType uid output with
  | error error => rfl
  | ok type => cases h.outputs.lookup (uid, output) <;> rfl

theorem restrict_namedOutputSlot (alive : kept uid) (output : Nat) (name : String) :
    (h.restrict kept).namedOutputSlot uid output name =
      (h.namedOutputSlot uid output name).map (Prod.map id (restrict kept)) := by
  unfold namedOutputSlot
  rw [restrict_outputType alive, show (h.restrict kept).outputs = h.outputs from rfl]
  cases h.outputType uid output with
  | error error => rfl
  | ok type => cases h.outputs.lookup (uid, output) <;> rfl

theorem restrict_constantSlot (h : HeapLayout) (type : String) (value : Value) :
    (h.restrict kept).constantSlot type value =
      Prod.map id (restrict kept) (h.constantSlot type value) := by
  unfold constantSlot
  rw [show (h.restrict kept).constants = h.constants from rfl]
  cases h.constants.lookup (type, value) <;> rfl

theorem restrict_scratchSlot (h : HeapLayout) (type : String) :
    (h.restrict kept).scratchSlot type = Prod.map id (restrict kept) (h.scratchSlot type) := rfl

theorem restrict_variableSlot (h : HeapLayout) (n : Node) :
    ((h.restrict kept).variableSlot n).2 = (h.variableSlot n).2.restrict kept := by
  unfold variableSlot
  rw [show (h.restrict kept).variableSlots = h.variableSlots from rfl]
  cases h.variableSlots.lookup n.uid <;> rfl

theorem ofGraph_restrict {c : Catalog} {g k : Graph}
    (declared : k.variableNodes.map Node.unlinked = g.variableNodes.map Node.unlinked)
    (types : outputTypesOf c k = (outputTypesOf c g).filter fun entry => kept entry.1) :
    ofGraph c k = (ofGraph c g).restrict kept := by
  have unlinked : ∀ (nodes : List Node) (h : HeapLayout), nodes.foldl (fun h n => (h.variableSlot n).2) h =
      (nodes.map Node.unlinked).foldl (fun h n => (h.variableSlot n).2) h := by
    intro nodes h
    rw [List.foldl_map]
    rfl
  have restricted : ∀ (nodes : List Node) (h : HeapLayout),
      nodes.foldl (fun h n => (h.variableSlot n).2) (h.restrict kept) =
        (nodes.foldl (fun h n => (h.variableSlot n).2) h).restrict kept := by
    intro nodes
    induction nodes with
    | nil => exact fun _ => rfl
    | cons n nodes ih =>
      intro h
      rw [List.foldl_cons, List.foldl_cons, restrict_variableSlot, ih]
  rw [ofGraph, ofGraph, unlinked, declared, ← unlinked, types]
  exact restricted g.variableNodes ⟨#[], outputTypesOf c g, [], [], [], []⟩

end HeapLayout

end ScriptGraph
