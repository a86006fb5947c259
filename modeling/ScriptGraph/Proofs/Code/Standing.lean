import ScriptGraph.Proofs.Code.Assembled

/-!
Stretches of code and the addresses where they stand.
-/

set_option autoImplicit false
set_option relaxedAutoImplicit false

namespace ScriptGraph.Assembly

/-- Code is part of operations, and its first instruction gets an address. -/
def Standing (ops : List Op) (address : Nat) (code : List Op) : Prop :=
  ∃ before after, ops = before ++ (code ++ after) ∧ codeLength before = address

namespace Standing

variable {ops first second code : List Op} {op : Op} {address : Nat} {place : Label}

theorem left (standing : Standing ops address (first ++ second)) : Standing ops address first := by
  obtain ⟨before, after, rfl, hlength⟩ := standing
  exact ⟨before, second ++ after, by simp, hlength⟩

theorem right (standing : Standing ops address (first ++ second)) :
    Standing ops (address + codeLength first) second := by
  obtain ⟨before, after, rfl, rfl⟩ := standing
  exact ⟨before ++ first, after, by simp, by simp⟩

theorem next (standing : Standing ops address (op :: code)) (emitted : op.isLabel = false) :
    Standing ops (address + 1) code := by
  have split : Standing ops address ([op] ++ code) := standing
  have behind := split.right
  rwa [codeLength_cons [] emitted, codeLength_nil, Nat.zero_add] at behind

theorem skip (standing : Standing ops address (.label place :: code)) :
    Standing ops address code := by
  have split : Standing ops address ([.label place] ++ code) := standing
  exact split.right

theorem addressOf_eq (distinct : (marks ops).Nodup)
    (standing : Standing ops address (.label place :: code)) :
    addressOf ops (.label place) = address := by
  obtain ⟨before, after, rfl, rfl⟩ := standing
  rw [marks_append, List.cons_append, marks_label] at distinct
  refine addressOf_append fun marked => ?_
  exact (List.nodup_append.mp distinct).2.2 place marked place List.mem_cons_self rfl

theorem of_infix (distinct : (marks ops).Nodup) (inside : .label place :: code <:+: ops) :
    Standing ops (addressOf ops (.label place)) code := by
  obtain ⟨before, after, hops⟩ := inside
  have standing : Standing ops (codeLength before) (.label place :: code) :=
    ⟨before, after, by rw [← hops, List.append_assoc], rfl⟩
  rw [standing.addressOf_eq distinct]
  exact standing.skip

theorem getElem? {instruction : Instruction} (standing : Standing ops address (op :: code))
    (becomes : instruction? (addressOf ops) op = some instruction) :
    (encoded (addressOf ops) ops)[address]? = some instruction := by
  obtain ⟨before, after, hops, rfl⟩ := standing
  have hget : (encoded (addressOf ops) (before ++ op :: (code ++ after)))[codeLength before]? =
      some instruction := encoded_getElem? (addressOf ops) becomes
  rwa [← List.cons_append, ← hops] at hget

end Standing

end ScriptGraph.Assembly
