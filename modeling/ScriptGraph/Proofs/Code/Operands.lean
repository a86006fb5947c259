import ScriptGraph.Code

/-!
What operations refer to: the slots they use, the places they jump to and the places they mark.
-/

set_option autoImplicit false
set_option relaxedAutoImplicit false

namespace ScriptGraph

namespace Op

def slots : Op → List Slot
  | .copy source destination => [source, destination]
  | .call _ slots => slots
  | .jump _ => []
  | .jumpUnless condition _ => [condition]
  | .label _ => []

def target? : Op → Option Target
  | .jump target => some target
  | .jumpUnless _ target => some target
  | _ => none

def marked? : Op → Option Label
  | .label place => some place
  | _ => none

def isPlain : Op → Bool
  | .copy _ _ => true
  | .call _ _ => true
  | _ => false

end Op

def marks (ops : List Op) : List Label := ops.filterMap Op.marked?

def targets (ops : List Op) : List Target := ops.filterMap Op.target?

def SlotsBelow (size : Nat) (ops : List Op) : Prop :=
  ∀ op ∈ ops, ∀ slot ∈ op.slots, slot < size

@[simp] theorem marks_nil : marks [] = [] := rfl
@[simp] theorem marks_append (ops rest : List Op) : marks (ops ++ rest) = marks ops ++ marks rest :=
  List.filterMap_append
@[simp] theorem marks_label (place : Label) (ops : List Op) :
    marks (.label place :: ops) = place :: marks ops := rfl
@[simp] theorem marks_copy (source destination : Slot) (ops : List Op) :
    marks (.copy source destination :: ops) = marks ops := rfl
@[simp] theorem marks_call (method : String) (slots : List Slot) (ops : List Op) :
    marks (.call method slots :: ops) = marks ops := rfl
@[simp] theorem marks_jump (target : Target) (ops : List Op) :
    marks (.jump target :: ops) = marks ops := rfl
@[simp] theorem marks_jumpUnless (condition : Slot) (target : Target) (ops : List Op) :
    marks (.jumpUnless condition target :: ops) = marks ops := rfl

@[simp] theorem targets_nil : targets [] = [] := rfl
@[simp] theorem targets_append (ops rest : List Op) :
    targets (ops ++ rest) = targets ops ++ targets rest :=
  List.filterMap_append
@[simp] theorem targets_label (place : Label) (ops : List Op) :
    targets (.label place :: ops) = targets ops := rfl
@[simp] theorem targets_copy (source destination : Slot) (ops : List Op) :
    targets (.copy source destination :: ops) = targets ops := rfl
@[simp] theorem targets_call (method : String) (slots : List Slot) (ops : List Op) :
    targets (.call method slots :: ops) = targets ops := rfl
@[simp] theorem targets_jump (target : Target) (ops : List Op) :
    targets (.jump target :: ops) = target :: targets ops := rfl
@[simp] theorem targets_jumpUnless (condition : Slot) (target : Target) (ops : List Op) :
    targets (.jumpUnless condition target :: ops) = target :: targets ops := rfl

theorem marks_of_plain {ops : List Op} (plain : ∀ op ∈ ops, op.isPlain) : marks ops = [] := by
  rw [marks, List.filterMap_eq_nil_iff]
  intro op hop
  have hplain := plain op hop
  cases op <;> simp_all [Op.isPlain, Op.marked?]

theorem targets_of_plain {ops : List Op} (plain : ∀ op ∈ ops, op.isPlain) : targets ops = [] := by
  rw [targets, List.filterMap_eq_nil_iff]
  intro op hop
  have hplain := plain op hop
  cases op <;> simp_all [Op.isPlain, Op.target?]

namespace SlotsBelow

variable {size : Nat}

@[simp] theorem nil : SlotsBelow size [] := by
  simp [SlotsBelow]

@[simp] theorem append_iff {ops rest : List Op} :
    SlotsBelow size (ops ++ rest) ↔ SlotsBelow size ops ∧ SlotsBelow size rest := by
  simp only [SlotsBelow, List.mem_append, or_imp, forall_and]

@[simp] theorem cons_iff {op : Op} {ops : List Op} :
    SlotsBelow size (op :: ops) ↔ (∀ slot ∈ op.slots, slot < size) ∧ SlotsBelow size ops := by
  simp only [SlotsBelow, List.mem_cons, forall_eq_or_imp]

theorem mono {larger : Nat} {ops : List Op} (below : SlotsBelow size ops)
    (le : size ≤ larger) : SlotsBelow larger ops :=
  fun op hop slot hslot => Nat.lt_of_lt_of_le (below op hop slot hslot) le

end SlotsBelow

end ScriptGraph
