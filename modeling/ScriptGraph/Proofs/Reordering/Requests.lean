import ScriptGraph.Proofs.HeapLayout.Variables
import ScriptGraph.Proofs.Reordering.Graph
import Mathlib.Logic.Equiv.Basic

/-!
Layouts of heaps with their slots renumbered. Of two layouts that start with the same variables in
different orders, each request for anything else adds the same slot to both.
-/

set_option autoImplicit false
set_option relaxedAutoImplicit false

namespace ScriptGraph

/-- Two outcomes are the same error, or results that are related. -/
inductive Agree {α β : Type} (related : α → β → Prop) :
    Except CompileError α → Except CompileError β → Prop where
  | error (error : CompileError) : Agree related (.error error) (.error error)
  | ok {a : α} {b : β} (holds : related a b) : Agree related (.ok a) (.ok b)

namespace HeapLayout

/-- A layout is another with its slots renumbered. Slots that come later are not. -/
structure Renumbered (π : Equiv.Perm Slot) (h k : HeapLayout) : Prop where
  size : k.size = h.size
  later : ∀ slot : Nat, h.size ≤ slot → π slot = slot
  symbols : ∀ slot : Nat, k.symbols[π slot]? = h.symbols[slot]?
  types : ∀ uid, k.outputTypes.lookup uid = h.outputTypes.lookup uid
  slots : ∀ key, k.slot? key = (h.slot? key).map π
  counts : k.counts = h.counts

private theorem freeName_congr {taken other : List String} (same : ∀ name, name ∈ other ↔ name ∈ taken)
    (steps : Nat) (name : String) : freeName other steps name = freeName taken steps name := by
  have listed : ∀ name, other.contains name = taken.contains name := fun name => by
    rw [Bool.eq_iff_iff, List.contains_iff_mem, List.contains_iff_mem, same]
  induction steps generalizing name with
  | zero => rfl
  | succ steps ih => rw [freeName, freeName, listed, ih]

namespace Renumbered

variable {π : Equiv.Perm Slot} {h k : HeapLayout}

theorem names (renumbered : Renumbered π h k) (name : String) :
    unusedNameLike k.names name = unusedNameLike h.names name := by
  have length : k.names.length = h.names.length := by
    rw [HeapLayout.names, HeapLayout.names, List.length_map, List.length_map]
    exact renumbered.size
  have mem : ∀ (l : HeapLayout) (name : String),
      name ∈ l.names ↔ ∃ slot : Nat, (l.symbols[slot]?).map Symbol.name = some name := by
    intro l name
    simp only [HeapLayout.names, List.mem_iff_getElem?, List.getElem?_map, Array.getElem?_toList]
  rw [unusedNameLike, length]
  refine freeName_congr (fun name => ?_) _ name
  rw [mem, mem]
  constructor
  · rintro ⟨slot, there⟩
    refine ⟨π.symm slot, ?_⟩
    rwa [← renumbered.symbols, π.apply_symm_apply]
  · rintro ⟨slot, there⟩
    exact ⟨π slot, (renumbered.symbols slot).symm ▸ there⟩

theorem outputType (renumbered : Renumbered π h k) (uid : Uid) (output : Nat) :
    k.outputType uid output = h.outputType uid output := by
  rw [HeapLayout.outputType, renumbered.types, HeapLayout.outputType]

theorem nextName (renumbered : Renumbered π h k) (stem : String) :
    (k.nextName stem).1 = (h.nextName stem).1 ∧
      Renumbered π (h.nextName stem).2 (k.nextName stem).2 := by
  unfold HeapLayout.nextName
  rw [renumbered.counts]
  refine ⟨rfl, renumbered.size, renumbered.later, renumbered.symbols, renumbered.types,
    fun key => ?_, rfl⟩
  cases key with
  | «variable» uid => exact renumbered.slots (.variable uid)
  | output uid index => exact renumbered.slots (.output uid index)
  | constant type value => exact renumbered.slots (.constant type value)

theorem adds (renumbered : Renumbered π h k) {symbol : Symbol} {granted : Option Key}
    {h' k' : HeapLayout} (first : Adds h symbol granted h') (second : Adds k symbol granted k')
    (counts : k'.counts = h'.counts) : Renumbered π h' k' := by
  have size : k'.size = h'.size := by rw [second.size_eq, first.size_eq, renumbered.size]
  have next : π h.size = h.size := renumbered.later _ (Nat.le_refl _)
  refine ⟨size, fun slot more => ?_, fun slot => ?_, fun uid => ?_, fun key => ?_, counts⟩
  · rw [first.size_eq] at more
    exact renumbered.later slot (Nat.le_of_succ_le more)
  · have place : ∀ {l l' : HeapLayout}, l'.symbols = l.symbols.push symbol → ∀ slot : Nat,
        l'.symbols[slot]? = if slot = l.size then some symbol else l.symbols[slot]? := by
      intro l l' pushed slot
      rw [pushed, Array.getElem?_push]
      rfl
    have same : π slot = k.size ↔ slot = h.size := by
      rw [renumbered.size, ← next, π.apply_eq_iff_eq, next]
    rw [place second.symbols, place first.symbols, renumbered.symbols]
    by_cases here : slot = h.size
    · rw [if_pos (same.mpr here), if_pos here]
    · rw [if_neg (mt same.mp here), if_neg here]
  · rw [first.types, second.types, renumbered.types]
  · rw [first.slots, second.slots, renumbered.slots, renumbered.size]
    split
    · rw [Option.map_some, next]
    · rfl

theorem findVariable? (renumbered : Renumbered π h k) (uid : Uid) :
    k.findVariable? uid = (h.findVariable? uid).map π :=
  renumbered.slots (.variable uid)

def Granted (π : Equiv.Perm Slot) (a b : Slot × HeapLayout) : Prop :=
  b.1 = π a.1 ∧ Renumbered π a.2 b.2

theorem addOutput (renumbered : Renumbered π h k) {uid : Uid} {output : Nat} (name type : String)
    (new : h.slot? (.output uid output) = none) :
    Granted π (h.addOutput uid output name type) (k.addOutput uid output name type) := by
  have alsoNew : k.slot? (.output uid output) = none := by rw [renumbered.slots, new, Option.map_none]
  refine ⟨?_, renumbered.adds (addOutput_adds h uid output name type new)
    (addOutput_adds k uid output name type alsoNew) renumbered.counts⟩
  exact renumbered.size.trans (renumbered.later _ (Nat.le_refl _)).symm

theorem outputSlot (renumbered : Renumbered π h k) (uid : Uid) (output : Nat) :
    Agree (Granted π) (h.outputSlot uid output) (k.outputSlot uid output) := by
  have slots : k.outputs.lookup (uid, output) = (h.outputs.lookup (uid, output)).map π :=
    renumbered.slots (.output uid output)
  unfold HeapLayout.outputSlot
  rw [renumbered.outputType, slots]
  cases h.outputType uid output with
  | error error => exact .error error
  | ok type =>
    cases found : h.outputs.lookup (uid, output) with
    | some slot => exact .ok ⟨rfl, renumbered⟩
    | none =>
      obtain ⟨name, next⟩ := renumbered.nextName (intermediateStem ++ type)
      refine .ok ?_
      change Granted π ((h.nextName (intermediateStem ++ type)).2.addOutput uid output
        (h.nextName (intermediateStem ++ type)).1 type) ((k.nextName (intermediateStem ++ type)).2.addOutput
        uid output (k.nextName (intermediateStem ++ type)).1 type)
      rw [name]
      exact next.addOutput _ type ((nextName_slot? h _ _).trans found)

theorem namedOutputSlot (renumbered : Renumbered π h k) (uid : Uid) (output : Nat) (name : String) :
    Agree (Granted π) (h.namedOutputSlot uid output name) (k.namedOutputSlot uid output name) := by
  have slots : k.outputs.lookup (uid, output) = (h.outputs.lookup (uid, output)).map π :=
    renumbered.slots (.output uid output)
  unfold HeapLayout.namedOutputSlot
  rw [renumbered.outputType, slots, renumbered.names]
  cases h.outputType uid output with
  | error error => exact .error error
  | ok type =>
    cases found : h.outputs.lookup (uid, output) with
    | some slot => exact .ok ⟨rfl, renumbered⟩
    | none => exact .ok (renumbered.addOutput _ type found)

theorem constantSlot (renumbered : Renumbered π h k) (type : String) (value : Value) :
    Granted π (h.constantSlot type value) (k.constantSlot type value) := by
  have slots : k.constants.lookup (type, value) = (h.constants.lookup (type, value)).map π :=
    renumbered.slots (.constant type value)
  unfold HeapLayout.constantSlot
  rw [slots]
  cases found : h.constants.lookup (type, value) with
  | some slot => exact ⟨rfl, renumbered⟩
  | none =>
    have alsoNew : k.slot? (.constant type value) = none := slots.trans (by rw [found]; rfl)
    obtain ⟨name, next⟩ := renumbered.nextName (constantStem ++ type)
    have second := addConstant_adds k type value alsoNew
    rw [name] at second
    refine ⟨renumbered.size.trans (renumbered.later _ (Nat.le_refl _)).symm, ?_⟩
    dsimp only [Option.map_none]
    rw [name]
    exact renumbered.adds (addConstant_adds h type value found) second next.counts

theorem scratchSlot (renumbered : Renumbered π h k) (type : String) :
    Granted π (h.scratchSlot type) (k.scratchSlot type) := by
  have pushed : ∀ (l : HeapLayout) (symbol : Symbol), Adds l symbol none (l.push symbol).2 :=
    fun l symbol => ⟨rfl, rfl, nofun, fun key => by cases key <;> rfl⟩
  have scratch : ∀ l : HeapLayout, l.scratchSlot type =
      (l.nextName (intermediateStem ++ type)).2.push (internal
        (l.nextName (intermediateStem ++ type)).1 type (.defaultFor (some type))) := fun _ => rfl
  obtain ⟨name, next⟩ := renumbered.nextName (intermediateStem ++ type)
  rw [scratch, scratch, name]
  exact ⟨renumbered.size.trans (renumbered.later _ (Nat.le_refl _)).symm,
    next.adds (pushed _ _) (pushed _ _) next.counts⟩

end Renumbered

/-! ## Layouts of variables -/

private def behindFirst (π : Equiv.Perm Nat) : Equiv.Perm Nat where
  toFun
    | 0 => 0
    | i + 1 => π i + 1
  invFun
    | 0 => 0
    | i + 1 => π.symm i + 1
  left_inv i := by cases i <;> simp
  right_inv i := by cases i <;> simp

private theorem exists_renumbering {α : Type} {l m : List α} (same : m.Perm l) :
    ∃ π : Equiv.Perm Nat, (∀ i, l.length ≤ i → π i = i) ∧ ∀ i, m[π i]? = l[i]? := by
  induction same with
  | nil => exact ⟨.refl Nat, fun _ _ => rfl, fun _ => rfl⟩
  | cons a _ ih =>
    obtain ⟨π, later, found⟩ := ih
    refine ⟨behindFirst π, fun i more => ?_, fun i => ?_⟩
    · cases i with
      | zero => rfl
      | succ i => exact congrArg (· + 1) (later i (Nat.le_of_succ_le_succ more))
    · cases i with
      | zero => rfl
      | succ i => exact found i
  | swap a b l =>
    refine ⟨Equiv.swap 0 1, fun i more => ?_, fun i => ?_⟩
    · rw [List.length_cons, List.length_cons] at more
      exact Equiv.swap_apply_of_ne_of_ne (by omega) (by omega)
    · rcases i with _ | _ | i
      · rw [Equiv.swap_apply_left]
        rfl
      · rw [Equiv.swap_apply_right]
        rfl
      · rw [Equiv.swap_apply_of_ne_of_ne (by omega) (by omega)]
        rfl
  | trans first second ihFirst ihSecond =>
    obtain ⟨π, laterFirst, foundFirst⟩ := ihFirst
    obtain ⟨σ, laterSecond, foundSecond⟩ := ihSecond
    refine ⟨σ.trans π, fun i more => ?_, fun i => ?_⟩
    · rw [Equiv.trans_apply, laterSecond i more, laterFirst i (second.length_eq ▸ more)]
    · rw [Equiv.trans_apply, foundFirst, foundSecond]

variable {c : Catalog} {g h : Graph}

private theorem slot?_ofGraph (distinct : g.uids.Nodup) (key : Key) (slot : Slot) :
    (ofGraph c g).slot? key = some slot ↔
      ∃ n, g.variableNodes[slot]? = some n ∧ key = .variable n.uid := by
  have apart := Graph.variableNodes_distinct distinct
  refine ⟨(ofGraph_slots c apart).2 key slot, ?_⟩
  rintro ⟨n, place, rfl⟩
  obtain ⟨other, found⟩ := Option.isSome_iff_exists.mp
    (ofGraph_variable_isSome c (List.mem_of_getElem? place))
  obtain ⟨m, there, same⟩ := (ofGraph_slots c apart).2 (.variable n.uid) other found
  have uids : (g.variableNodes.map Node.uid)[slot]? = (g.variableNodes.map Node.uid)[other]? := by
    rw [List.getElem?_map, List.getElem?_map, place, there, Option.map_some, Option.map_some,
      Key.variable.inj same]
  have short : slot < (g.variableNodes.map Node.uid).length := by
    rw [List.length_map]
    exact (List.getElem?_eq_some_iff.mp place).1
  obtain rfl := (List.getElem?_inj short apart).mp uids
  exact found

private theorem ofGraph_counts (c : Catalog) (g : Graph) : (ofGraph c g).counts = [] := by
  suffices ∀ (nodes : List Node) (l : HeapLayout),
      (nodes.foldl (fun l n => (l.variableSlot n).2) l).counts = l.counts from
    this g.variableNodes _
  intro nodes
  induction nodes with
  | nil => exact fun _ => rfl
  | cons n nodes ih =>
    intro l
    rw [List.foldl_cons, ih, variableSlot]
    split <;> rfl

theorem ofGraph_renumbered (c : Catalog) (reorders : g.Reorders h) (distinct : g.uids.Nodup) :
    ∃ π : Equiv.Perm Slot, (∀ slot : Nat, g.variableNodes.length ≤ slot → π slot = slot) ∧
      Renumbered π (ofGraph c g) (ofGraph c h) := by
  have alsoDistinct := reorders.distinct distinct
  have symbols := (ofGraph_slots c (Graph.variableNodes_distinct distinct)).1
  have alsoSymbols := (ofGraph_slots c (Graph.variableNodes_distinct alsoDistinct)).1
  obtain ⟨π, later, found⟩ := exists_renumbering reorders.variableNodes
  have size : (ofGraph c g).size = g.variableNodes.length := by
    rw [HeapLayout.size, ← Array.length_toList, symbols, List.length_map]
  refine ⟨π, later, ?_, fun slot more => ?_, fun slot => ?_, fun uid => ?_, fun key => ?_, ?_⟩
  · rw [size, HeapLayout.size, ← Array.length_toList, alsoSymbols, List.length_map,
      reorders.variableNodes.length_eq]
  · exact later slot (size ▸ more)
  · rw [← Array.getElem?_toList, ← Array.getElem?_toList, symbols, alsoSymbols, List.getElem?_map,
      List.getElem?_map, found]
  · have looked := reorders.lookup distinct (fun n => (c.find? n.fullName).map fun d =>
      d.outputs.map fun p => p.type.getD objectType) uid
    simp only [Option.map_map] at looked
    rw [ofGraph_outputTypes, ofGraph_outputTypes]
    exact looked
  · refine Option.ext fun slot => ?_
    rw [slot?_ofGraph alsoDistinct, Option.map_eq_some_iff]
    constructor
    · rintro ⟨n, place, rfl⟩
      refine ⟨π.symm slot, (slot?_ofGraph distinct _ _).mpr ⟨n, ?_, rfl⟩, π.apply_symm_apply slot⟩
      rw [← found, π.apply_symm_apply, place]
    · rintro ⟨other, there, rfl⟩
      obtain ⟨n, place, rfl⟩ := (slot?_ofGraph distinct _ _).mp there
      exact ⟨n, (found other).trans place, rfl⟩
  · rw [ofGraph_counts, ofGraph_counts]

end HeapLayout

end ScriptGraph
