import ScriptGraph.Proofs.Lowering.Streams
import ScriptGraph.Proofs.Program.Slices
import Mathlib.Data.List.Forall2

/-!
Closed programs: the slices of the entry points make up the code, every jump stays in its slice or
ends the event, no slice falls through into the next one, and all operands exist.
-/

set_option autoImplicit false
set_option relaxedAutoImplicit false

namespace ScriptGraph

/-- The code of an entry point: it ends with a jump, and its jumps end the event or lead to its own
instructions. -/
structure Program.OwnCode (p : Program) (entry : EntryPoint) (code : List Instruction) : Prop where
  found : p.entryInstructions? entry.name = some code
  ends : ∃ target, code.getLast? = some (.jump target)
  inside : ∀ instruction ∈ code, ∀ target, instruction.target? = some target →
    target = haltAddress ∨ (entry.address ≤ target ∧ target < entry.address + code.length)

structure Program.Closed (p : Program) : Prop where
  operands : ∀ instruction ∈ p.instructions, ∀ slot ∈ instruction.slots, slot < p.symbols.length
  names : (p.entryPoints.map EntryPoint.name).Nodup
  first : ∀ entry, p.entryPoints.head? = some entry → entry.address = 0
  ascending : (p.entryPoints.map EntryPoint.address).Pairwise (· < ·)
  slices : ∃ slices, List.Forall₂ p.OwnCode p.entryPoints slices ∧ slices.flatten = p.instructions

namespace Assembly

open Lowering (SelfContained)

theorem instruction?_slots {address : Target → Address} {op : Op} {instruction : Instruction}
    (becomes : instruction? address op = some instruction) : instruction.slots = op.slots := by
  cases op <;> cases becomes <;> rfl

theorem instruction?_target {address : Target → Address} {op : Op} {instruction : Instruction}
    (becomes : instruction? address op = some instruction) {target : Address}
    (jumps : instruction.target? = some target) :
    ∃ place, op.target? = some place ∧ address place = target := by
  cases op <;> cases becomes <;> simp_all [Instruction.target?, Op.target?]

private theorem encoded_getLast? {address : Target → Address} {ops : List Op} {target : Target}
    (ends : ops.getLast? = some (.jump target)) :
    (encoded address ops).getLast? = some (.jump (address target)) := by
  obtain ⟨before, rfl⟩ := List.getLast?_eq_some_iff.mp ends
  simp [encoded, instruction?]

private theorem Within.addressOf_bounds {streams before after : List Stream} {stream : Stream}
    (within : Within streams before stream after) (distinct : (marks (allOps streams)).Nodup)
    {end_ : Target} (ends : stream.ops.getLast? = some (.jump end_)) {label : Label}
    (marked : label ∈ marks stream.ops) :
    codeLength (allOps before) ≤ addressOf (allOps streams) (.label label) ∧
      addressOf (allOps streams) (.label label) <
        codeLength (allOps before) + codeLength stream.ops := by
  obtain ⟨front, back, hops⟩ := mem_marks.mp marked
  have hall : allOps streams =
      (allOps before ++ front) ++ .label label :: (back ++ allOps after) := by
    rw [within.ops, hops]
    simp
  have hunmarked : label ∉ marks (allOps before ++ front) := by
    rw [hall, marks_append, marks_label] at distinct
    exact fun hmem => (List.nodup_append.mp distinct).2.2 label hmem label List.mem_cons_self rfl
  have hback : 0 < codeLength back := by
    rw [hops, List.getLast?_append, List.getLast?_cons] at ends
    cases hlast : back.getLast? with
    | none => simp [hlast] at ends
    | some op =>
      simp only [hlast, Option.getD_some, Option.some_or, Option.some.injEq] at ends
      exact codeLength_pos (hlast.trans (congrArg some ends))
  rw [hall, addressOf_append hunmarked, codeLength_append, hops, codeLength_append,
    codeLength_label]
  exact ⟨Nat.le_add_right _ _, Nat.add_lt_add_left (Nat.lt_add_of_pos_right hback) _⟩

private theorem Within.ownCode {streams before after : List Stream} {stream : Stream} {p : Program}
    (within : Within streams before stream after) (distinct : (marks (allOps streams)).Nodup)
    (contained : SelfContained stream.ops) (laid : p.entryPoints = entries 0 streams)
    (code : p.instructions = encoded (addressOf (allOps streams)) (allOps streams)) :
    p.OwnCode ⟨stream.name, codeLength (allOps before)⟩
      (encoded (addressOf (allOps streams)) stream.ops) := by
  obtain ⟨target, ends⟩ := contained.ends
  refine ⟨within.entryInstructions?_eq laid code, ⟨_, encoded_getLast? ends⟩, ?_⟩
  intro instruction hinstruction address jumps
  obtain ⟨op, hop, becomes⟩ := List.mem_filterMap.mp hinstruction
  obtain ⟨place, hplace, rfl⟩ := instruction?_target becomes jumps
  rcases contained.closed place (List.mem_filterMap.mpr ⟨op, hop, hplace⟩) with
    rfl | ⟨label, marked, rfl⟩
  · exact Or.inl rfl
  · rw [length_encoded]
    exact Or.inr (within.addressOf_bounds distinct ends marked)

theorem closed_of_streams {streams : List Stream} {p : Program}
    (names : (streams.map Stream.name).Nodup) (distinct : (marks (allOps streams)).Nodup)
    (contained : ∀ stream ∈ streams, SelfContained stream.ops)
    (below : SlotsBelow p.symbols.length (allOps streams))
    (laid : p.entryPoints = entries 0 streams)
    (code : p.instructions = encoded (addressOf (allOps streams)) (allOps streams)) :
    p.Closed := by
  have hinhabited : Inhabited streams := by
    intro stream hstream
    obtain ⟨target, ends⟩ := (contained stream hstream).ends
    exact codeLength_pos ends
  have hown : ∀ before stream after, streams = before ++ stream :: after →
      p.OwnCode ⟨stream.name, codeLength (allOps before)⟩
        (encoded (addressOf (allOps streams)) stream.ops) := fun before stream after hsplit =>
    Within.ownCode ⟨hsplit, names, hinhabited⟩ distinct (contained stream (by simp [hsplit])) laid code
  have hslices : ∀ before after, streams = before ++ after →
      List.Forall₂ p.OwnCode (entries (codeLength (allOps before)) after)
        (after.map fun stream => encoded (addressOf (allOps streams)) stream.ops) := by
    intro before after
    induction after generalizing before with
    | nil => exact fun _ => List.Forall₂.nil
    | cons stream after ih =>
      intro hsplit
      have hnext := ih (before ++ [stream]) (by simp [hsplit])
      rw [allOps_append, codeLength_append, allOps_cons] at hnext
      refine List.Forall₂.cons (hown before stream after hsplit) ?_
      simpa [allOps] using hnext
  refine ⟨?_, ?_, ?_, ?_,
    streams.map fun stream => encoded (addressOf (allOps streams)) stream.ops, ?_, ?_⟩
  · intro instruction hinstruction slot hslot
    rw [code] at hinstruction
    obtain ⟨op, hop, becomes⟩ := List.mem_filterMap.mp hinstruction
    rw [instruction?_slots becomes] at hslot
    exact below op hop slot hslot
  · rw [laid, entries_names]
    exact names
  · intro entry hentry
    rw [laid] at hentry
    cases streams with
    | nil => simp [entries] at hentry
    | cons stream streams =>
      obtain rfl := Option.some.inj hentry
      rfl
  · rw [laid]
    exact entries_ascending 0 hinhabited
  · rw [laid]
    exact hslices [] streams rfl
  · rw [code, encoded, allOps, List.filterMap_flatMap]
    rfl

end Assembly

end ScriptGraph
