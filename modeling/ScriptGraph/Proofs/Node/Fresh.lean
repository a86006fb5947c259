import ScriptGraph.Node
import Mathlib.Data.List.Nodup

/-!
Fresh supplies. What is drawn from one differs from all uids in use and from all that is drawn later.
-/

set_option autoImplicit false
set_option relaxedAutoImplicit false

namespace ScriptGraph.Supply

variable {p : Supply} {uids : List Uid}

/-- The identities that are left are pairwise distinct, and none of them is in use. -/
structure Fresh (p : Supply) (uids : List Uid) : Prop where
  distinct : ∀ i j, p.drawn ≤ i → p.drawn ≤ j → p.identity i = p.identity j → i = j
  unused : ∀ i, p.drawn ≤ i → p.identity i ∉ uids

def upcoming (p : Supply) (count : Nat) : List Uid := (List.range' p.drawn count).map p.identity

def skip (p : Supply) (count : Nat) : Supply := { p with drawn := p.drawn + count }

theorem upcoming_succ (p : Supply) (count : Nat) :
    p.upcoming (count + 1) = p.upcoming count ++ [(p.skip count).draw.1] := by
  rw [upcoming, List.range'_1_concat, List.map_append]
  rfl

theorem Fresh.of_subset {fewer : List Uid} (fresh : p.Fresh uids) (subset : ∀ u ∈ fewer, u ∈ uids) :
    p.Fresh fewer :=
  ⟨fresh.distinct, fun i left used => fresh.unused i left (subset _ used)⟩

theorem Fresh.upcoming_nodup (fresh : p.Fresh uids) (count : Nat) : (p.upcoming count).Nodup := by
  refine List.Nodup.map_on (fun i hi j hj same => ?_) List.nodup_range'
  exact fresh.distinct i j (List.mem_range'_1.mp hi).1 (List.mem_range'_1.mp hj).1 same

theorem Fresh.upcoming_unused (fresh : p.Fresh uids) {count : Nat} {u : Uid}
    (listed : u ∈ p.upcoming count) : u ∉ uids := by
  obtain ⟨i, hi, rfl⟩ := List.mem_map.mp listed
  exact fresh.unused i (List.mem_range'_1.mp hi).1

theorem Fresh.skip (fresh : p.Fresh uids) (count : Nat) :
    (p.skip count).Fresh (uids ++ p.upcoming count) := by
  have later : ∀ {i}, p.drawn + count ≤ i → p.drawn ≤ i := fun hi => Nat.le_of_add_right_le hi
  refine ⟨fun i j hi hj => fresh.distinct i j (later hi) (later hj), fun i hi used => ?_⟩
  rcases List.mem_append.mp used with used | used
  · exact fresh.unused i (later hi) used
  · obtain ⟨j, hj, same⟩ := List.mem_map.mp used
    obtain ⟨least, most⟩ := List.mem_range'_1.mp hj
    obtain rfl := fresh.distinct j i least (later hi) same
    exact Nat.not_lt_of_le hi most

theorem Fresh.draw (fresh : p.Fresh uids) : p.draw.2.Fresh (uids ++ [p.draw.1]) := fresh.skip 1

theorem Fresh.draw_unused (fresh : p.Fresh uids) : p.draw.1 ∉ uids :=
  fresh.unused p.drawn (Nat.le_refl _)

def marks (c : Char) : Supply := ⟨fun i => String.ofList (List.replicate (i + 1) c), 0⟩

theorem marks_fresh {c : Char} (other : ∀ u ∈ uids, u ≠ "" → u.toList.any (· ≠ c)) :
    (marks c).Fresh uids := by
  refine ⟨fun i j _ _ same => ?_, fun i _ used => ?_⟩
  · have lengths := congrArg (fun text => text.toList.length) same
    simpa only [marks, String.toList_ofList, List.length_replicate, Nat.add_right_cancel_iff]
      using lengths
  · have marked : (marks c).identity i ≠ "" := fun empty => by
      have characters := congrArg String.toList empty
      rw [marks, String.toList_ofList] at characters
      cases characters
    have stray := other _ used marked
    simp only [marks, String.toList_ofList, List.any_eq_true] at stray
    obtain ⟨character, listed, differs⟩ := stray
    exact of_decide_eq_true differs (List.eq_of_mem_replicate listed)

def strokes : Supply := ⟨fun i => String.ofList (List.replicate (i + 1) '|'), 0⟩

theorem strokes_fresh (other : ∀ u ∈ uids, u.toList.any (· ≠ '|')) : strokes.Fresh uids :=
  marks_fresh fun u listed _ => other u listed

end ScriptGraph.Supply
