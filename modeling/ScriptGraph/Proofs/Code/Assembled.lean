import ScriptGraph.Code.Assembly
import ScriptGraph.Proofs.Code.Operands
import ScriptGraph.Proofs.HeapLayout.Requests

/-!
Assembled code. A label that is marked once becomes the address of the operation behind it, and
operations become instructions one by one.
-/

set_option autoImplicit false
set_option relaxedAutoImplicit false

namespace ScriptGraph

@[simp] theorem codeLength_nil : codeLength [] = 0 := rfl
@[simp] theorem codeLength_append (ops rest : List Op) :
    codeLength (ops ++ rest) = codeLength ops + codeLength rest :=
  List.countP_append
@[simp] theorem codeLength_label (place : Label) (ops : List Op) :
    codeLength (.label place :: ops) = codeLength ops := rfl

theorem codeLength_cons {op : Op} (ops : List Op) (emitted : op.isLabel = false) :
    codeLength (op :: ops) = codeLength ops + 1 := by
  rw [codeLength, List.countP_cons, emitted]
  rfl

@[simp] theorem codeLength_jump (target : Target) (ops : List Op) :
    codeLength (.jump target :: ops) = codeLength ops + 1 :=
  codeLength_cons ops rfl
@[simp] theorem codeLength_jumpUnless (condition : Slot) (target : Target) (ops : List Op) :
    codeLength (.jumpUnless condition target :: ops) = codeLength ops + 1 :=
  codeLength_cons ops rfl
@[simp] theorem codeLength_copy (source destination : Slot) (ops : List Op) :
    codeLength (.copy source destination :: ops) = codeLength ops + 1 :=
  codeLength_cons ops rfl
@[simp] theorem codeLength_call (method : String) (slots : List Slot) (ops : List Op) :
    codeLength (.call method slots :: ops) = codeLength ops + 1 :=
  codeLength_cons ops rfl

theorem codeLength_pos {ops : List Op} {target : Target}
    (ends : ops.getLast? = some (.jump target)) : 0 < codeLength ops := by
  rw [codeLength, List.countP_pos_iff]
  exact ⟨.jump target, List.mem_of_getLast? ends, rfl⟩

namespace Assembly

/-! ## Addresses -/

/-- The address of a target in code: a place is where the first mark of it stands. -/
def addressOf (ops : List Op) : Target → Address
  | .halt => haltAddress
  | .label label => codeLength (ops.takeWhile fun op => op ≠ .label label)

theorem addressOf_append {before after : List Op} {label : Label}
    (unmarked : label ∉ marks before) :
    addressOf (before ++ .label label :: after) (.label label) = codeLength before := by
  have hbefore : ∀ op ∈ before, decide (op ≠ .label label) = true := by
    intro op hop
    rw [decide_eq_true_iff]
    rintro rfl
    exact unmarked (List.mem_filterMap.mpr ⟨_, hop, rfl⟩)
  rw [addressOf, List.takeWhile_append_of_pos hbefore, List.takeWhile_cons_of_neg (by simp),
    List.append_nil]

theorem mem_marks {ops : List Op} {label : Label} :
    label ∈ marks ops ↔ ∃ before after, ops = before ++ .label label :: after := by
  rw [marks, List.mem_filterMap]
  constructor
  · rintro ⟨op, hop, hmarked⟩
    obtain rfl : op = .label label := by
      cases op <;> simp_all [Op.marked?]
    exact List.append_of_mem hop
  · rintro ⟨before, after, rfl⟩
    exact ⟨.label label, List.mem_append_right _ List.mem_cons_self, rfl⟩

theorem placements_append (address : Nat) (ops rest : List Op) :
    placements address (ops ++ rest) =
      placements address ops ++ placements (address + codeLength ops) rest := by
  induction ops generalizing address with
  | nil => rfl
  | cons op ops ih =>
    cases op with
    | label place => simp only [List.cons_append, placements, ih, codeLength_label]
    | copy source destination =>
      simp only [List.cons_append, placements, ih, codeLength_copy, Nat.add_right_comm,
        ← Nat.add_assoc]
    | call method slots =>
      simp only [List.cons_append, placements, ih, codeLength_call, Nat.add_right_comm,
        ← Nat.add_assoc]
    | jump target =>
      simp only [List.cons_append, placements, ih, codeLength_jump, Nat.add_right_comm,
        ← Nat.add_assoc]
    | jumpUnless condition target =>
      simp only [List.cons_append, placements, ih, codeLength_jumpUnless, Nat.add_right_comm,
        ← Nat.add_assoc]

theorem placements_labels (address : Address) (ops : List Op) :
    (placements address ops).map Prod.fst = marks ops := by
  induction ops generalizing address with
  | nil => rfl
  | cons op ops ih => cases op <;> simp [placements, ih]

theorem resolve_eq {ops : List Op} {target : Target} (distinct : (marks ops).Nodup)
    (placed : target = .halt ∨ ∃ label ∈ marks ops, target = .label label) :
    resolve (placements 0 ops) target = .ok (addressOf ops target) := by
  rcases placed with rfl | ⟨label, marked, rfl⟩
  · rfl
  · obtain ⟨before, after, rfl⟩ := mem_marks.mp marked
    rw [marks_append, marks_label] at distinct
    have hparts := List.nodup_append.mp distinct
    have hbefore : label ∉ marks before :=
      fun hmem => hparts.2.2 label hmem label List.mem_cons_self rfl
    have hafter : label ∉ marks after := (List.nodup_cons.mp hparts.2.1).1
    have hlookup : (placements 0 (before ++ .label label :: after)).reverse.lookup label =
        some (codeLength before) := by
      rw [placements_append, placements, List.reverse_append, List.reverse_cons,
        List.append_assoc, List.lookup_append, List.lookup_eq_none_iff.mpr ?_]
      · simp
      · intro entry hentry
        have hmem : entry.1 ∈ marks after := by
          rw [← placements_labels (0 + codeLength before) after]
          exact List.mem_map_of_mem (List.mem_reverse.mp hentry)
        rw [bne_iff_ne]
        rintro rfl
        exact hafter hmem
    rw [resolve, hlookup, addressOf_append hbefore]

/-! ## Instructions -/

def instruction? (address : Target → Address) : Op → Option Instruction
  | .copy source destination => some (.copy source destination)
  | .call method slots => some (.call method slots)
  | .jump target => some (.jump (address target))
  | .jumpUnless condition target => some (.jumpUnless condition (address target))
  | .label _ => none

def encoded (address : Target → Address) (ops : List Op) : List Instruction :=
  ops.filterMap (instruction? address)

@[simp] theorem encoded_nil (address : Target → Address) : encoded address [] = [] := rfl

@[simp] theorem encoded_append (address : Target → Address) (ops rest : List Op) :
    encoded address (ops ++ rest) = encoded address ops ++ encoded address rest :=
  List.filterMap_append

@[simp] theorem length_encoded (address : Target → Address) (ops : List Op) :
    (encoded address ops).length = codeLength ops := by
  induction ops with
  | nil => rfl
  | cons op ops ih => cases op <;> simp_all [encoded, instruction?, List.filterMap_cons]

theorem encoded_getElem? (address : Target → Address) {before after : List Op} {op : Op}
    {instruction : Instruction} (becomes : instruction? address op = some instruction) :
    (encoded address (before ++ op :: after))[codeLength before]? = some instruction := by
  have hop : encoded address (op :: after) = instruction :: encoded address after := by
    rw [encoded, List.filterMap_cons, becomes]
    rfl
  rw [encoded_append, hop, List.getElem?_append_right (by simp), length_encoded, Nat.sub_self]
  rfl

theorem encode_eq {labels : List (Label × Address)} {address : Target → Address} {ops : List Op}
    (resolves : ∀ target ∈ targets ops, resolve labels target = .ok (address target)) :
    encode labels ops = .ok (encoded address ops) := by
  induction ops with
  | nil => rfl
  | cons op ops ih =>
    cases op with
    | label place => exact ih resolves
    | copy source destination =>
      rw [encode, ih resolves]
      rfl
    | call method slots =>
      rw [encode, ih resolves]
      rfl
    | jump target =>
      rw [targets_jump, List.forall_mem_cons] at resolves
      simp only [encode, resolves.1, ih resolves.2]
      rfl
    | jumpUnless condition target =>
      rw [targets_jumpUnless, List.forall_mem_cons] at resolves
      simp only [encode, resolves.1, ih resolves.2]
      rfl

theorem assemble_eq {streams : List Stream} (distinct : (marks (allOps streams)).Nodup)
    (placed : ∀ target ∈ targets (allOps streams),
      target = .halt ∨ ∃ label ∈ marks (allOps streams), target = .label label)
    (name : String) (updateOrder : Int32) (symbols : List Symbol) :
    assemble name updateOrder streams symbols =
      .ok ⟨name, updateOrder, entries 0 streams,
        encoded (addressOf (allOps streams)) (allOps streams), symbols⟩ := by
  rw [assemble, encode_eq fun target htarget => resolve_eq distinct (placed target htarget)]

end Assembly

end ScriptGraph
