import ScriptGraph.Proofs.Compilation.Program
import ScriptGraph.Proofs.Reordering.Graph
import ScriptGraph.Proofs.Reordering.Streams

/-!
Programs of graphs whose variables are listed in another order: the variables have other slots, and
nothing else changes.
-/

set_option autoImplicit false
set_option relaxedAutoImplicit false

namespace ScriptGraph

open Relation (TransGen)

def Instruction.renumber (π : Equiv.Perm Slot) : Instruction → Instruction
  | .copy source destination => .copy (π source) (π destination)
  | .call method slots => .call method (slots.map π)
  | .jump target => .jump target
  | .jumpUnless condition target => .jumpUnless (π condition) target

/-- A program is another with its slots renumbered. Names and update orders are not compared. -/
structure Program.Renumbered (π : Equiv.Perm Slot) (p q : Program) : Prop where
  entryPoints : q.entryPoints = p.entryPoints
  instructions : q.instructions = p.instructions.map (Instruction.renumber π)
  symbols : ∀ slot : Nat, q.symbols[π slot]? = p.symbols[slot]?

namespace Assembly

variable {π : Equiv.Perm Slot}

theorem codeLength_renumber (ops : List Op) :
    codeLength (ops.map (Op.renumber π)) = codeLength ops := by
  rw [codeLength, List.countP_map, codeLength]
  congr 1
  funext op
  cases op <;> rfl

theorem addressOf_renumber (ops : List Op) :
    addressOf (ops.map (Op.renumber π)) = addressOf ops := by
  funext target
  cases target with
  | halt => rfl
  | label mark =>
    have kept : ((fun op => decide (op ≠ .label mark)) ∘ Op.renumber π) =
        fun op => decide (op ≠ .label mark) := by
      funext op
      cases op <;> rfl
    rw [addressOf, List.takeWhile_map, kept, codeLength_renumber, addressOf]

theorem encoded_renumber (address : Target → Address) (ops : List Op) :
    encoded address (ops.map (Op.renumber π)) =
      (encoded address ops).map (Instruction.renumber π) := by
  rw [encoded, List.filterMap_map, encoded, List.map_filterMap]
  congr 1
  funext op
  cases op <;> rfl

theorem entries_renumber (address : Address) (streams : List Stream) :
    entries address (streams.map (Stream.renumber π)) = entries address streams := by
  induction streams generalizing address with
  | nil => rfl
  | cons stream rest ih =>
    simp only [List.map_cons, entries, Stream.renumber, codeLength_renumber, ih]

theorem allOps_renumber (streams : List Stream) :
    allOps (streams.map (Stream.renumber π)) = (allOps streams).map (Op.renumber π) := by
  rw [allOps, allOps, List.flatMap_map, List.map_flatMap]
  rfl

end Assembly

theorem Graph.compile_of_agree {c : Catalog} {g h : Graph} {related : Program → Program → Prop}
    (agree : Agree related (g.program c) (h.program c)) :
    (∃ k l, g.compile c false = .ok k ∧ h.compile c false = .ok l ∧ related k.program l.program) ∨
      ∃ error, g.compile c false = .error error ∧ h.compile c false = .error error := by
  unfold Graph.program at agree
  cases first : g.compile c false <;> cases second : h.compile c false <;>
    rw [first, second] at agree <;> cases agree
  · exact Or.inr ⟨_, rfl, rfl⟩
  · exact Or.inl ⟨_, _, rfl, rfl, ‹_›⟩

namespace Graph.Reorders

variable {c : Catalog} {g h : Graph}

theorem program (reorders : g.Reorders h) (distinct : g.uids.Nodup)
    (acyclic : ∀ u, ¬TransGen g.Leads u u) : ∃ π : Equiv.Perm Slot,
      (∀ slot : Nat, (g.snapshot c).1.variableNodes.length ≤ slot → π slot = slot) ∧
        Agree (Program.Renumbered π) (g.program c) (h.program c) := by
  have snapshots := reorders.snapshot (c := c) distinct acyclic
  have live := snapshot_live c distinct
  obtain ⟨π, later, heaps⟩ := HeapLayout.ofGraph_renumbered c snapshots live.distinct
  refine ⟨π, later, ?_⟩
  have streams := Lowering.streams_renumbers c (g.snapshot c).1 _ _ (.of_heap heaps [])
  rw [Graph.program, Graph.program, compile, compile]
  dsimp only
  rw [Compilation.program_ofSnapshot, Compilation.program_ofSnapshot c (h.snapshot c).1]
  have first : Compilation.lower c (g.snapshot c).1 [] = Lowering.streams c (g.snapshot c).1
    ⟨.ofGraph c (g.snapshot c).1, [], 0, []⟩ := rfl
  have second : Compilation.lower c (h.snapshot c).1 [] = Lowering.streams c (g.snapshot c).1
      ⟨.ofGraph c (h.snapshot c).1, [], 0, []⟩ := by
    rw [Compilation.lower, snapshots.streams live.distinct]
  rw [← first, ← second] at streams
  generalize lowered : Compilation.lower c (g.snapshot c).1 [] = left at streams
  generalize alsoLowered : Compilation.lower c (h.snapshot c).1 [] = right at streams
  cases streams with
  | error error =>
    rw [Compilation.ofSnapshot_of_error lowered, Compilation.ofSnapshot_of_error alsoLowered]
    exact .error error
  | @ok a b holds =>
    obtain ⟨a, s⟩ := a
    obtain ⟨b, t⟩ := b
    obtain ⟨rfl, renumbered⟩ := holds
    rw [Compilation.ofSnapshot_of_lower lowered, Compilation.ofSnapshot_of_lower alsoLowered,
      Compilation.checked_lenient, Compilation.checked_lenient]
    refine .ok ⟨Assembly.entries_renumber 0 a, ?_, fun slot => ?_⟩
    · dsimp only
      rw [Assembly.allOps_renumber, Assembly.addressOf_renumber, Assembly.encoded_renumber]
    · dsimp only
      rw [Array.getElem?_toList, Array.getElem?_toList]
      exact renumbered.heap.symbols slot

end Graph.Reorders

end ScriptGraph
