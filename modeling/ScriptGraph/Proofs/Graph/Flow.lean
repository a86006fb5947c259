import ScriptGraph.Proofs.Graph.Connections
import Mathlib.Logic.Relation

/-!
Following flows. The search finds exactly the nodes at the ends of flow paths, so a graph in which no
node is found from itself is one without cycles of flow.
-/

set_option autoImplicit false
set_option relaxedAutoImplicit false

namespace ScriptGraph.Graph

open Relation (TransGen ReflTransGen)

variable {g : Graph} {uid u v : Uid} {seen pending targets : List Uid}

/-- No node is at the end of a flow path from itself. -/
def Acyclic (g : Graph) : Prop := ∀ n ∈ g.nodes, n.uid ∉ g.flowSuccessors n.uid

/-! ## One step of the search -/

theorem mem_addNew : u ∈ (addNew seen targets).1 ↔ u ∈ seen ∨ u ∈ targets := by
  induction targets generalizing seen with
  | nil => simp [addNew]
  | cons target targets ih =>
    rw [addNew]
    split
    · rename_i known
      rw [ih, List.mem_cons]
      have known : target ∈ seen := List.contains_iff_mem.mp known
      refine ⟨Or.imp_right Or.inr, ?_⟩
      rintro (listed | rfl | listed)
      exacts [Or.inl listed, Or.inl known, Or.inr listed]
    · rw [ih, List.mem_cons, List.mem_cons]
      tauto

theorem mem_addNew_snd : u ∈ (addNew seen targets).2 ↔ u ∉ seen ∧ u ∈ targets := by
  induction targets generalizing seen with
  | nil => simp [addNew]
  | cons target targets ih =>
    rw [addNew]
    split
    · rename_i known
      have known : target ∈ seen := List.contains_iff_mem.mp known
      rw [ih, List.mem_cons]
      refine and_congr_right fun unseen => ⟨Or.inr, Or.rec (fun same => ?_) id⟩
      exact absurd (same ▸ known) unseen
    · rename_i unknown
      have unknown : target ∉ seen := fun listed => unknown (List.contains_iff_mem.mpr listed)
      rw [List.mem_cons, ih, List.mem_cons, List.mem_cons]
      by_cases same : u = target
      · subst same
        simp [unknown]
      · simp [same]

theorem length_addNew (seen : List Uid) {stock : List Uid} (inside : ∀ u ∈ targets, u ∈ stock) :
    (addNew seen targets).2.length + stock.countP (· ∉ (addNew seen targets).1) ≤
      stock.countP (· ∉ seen) := by
  induction targets generalizing seen with
  | nil => exact Nat.le_of_eq (Nat.zero_add _)
  | cons target targets ih =>
    have rest := fun u listed => inside u (List.mem_cons_of_mem target listed)
    rw [addNew]
    split
    · exact ih seen rest
    · rename_i unknown
      have unknown : target ∉ seen := fun listed => unknown (List.contains_iff_mem.mpr listed)
      have step : stock.countP (· ∉ target :: seen) < stock.countP (· ∉ seen) := by
        obtain ⟨before, after, rfl⟩ := List.append_of_mem (inside target List.mem_cons_self)
        have fewer : ∀ uids : List Uid, uids.countP (· ∉ target :: seen) ≤ uids.countP (· ∉ seen) := by
          refine fun uids => List.countP_mono_left fun u _ unseen => ?_
          simp only [List.mem_cons, not_or, decide_eq_true_eq] at unseen ⊢
          exact unseen.2
        have first := fewer before
        have last := fewer after
        have here : decide (target ∉ target :: seen) = false := by simp
        have there : decide (target ∉ seen) = true := decide_eq_true unknown
        rw [List.countP_append, List.countP_append, List.countP_cons, List.countP_cons, here, there]
        simp only [Bool.false_eq_true, if_false, if_true]
        omega
      have more := ih (target :: seen) rest
      simp only [List.length_cons]
      omega

/-! ## The whole search -/

def allTargets (g : Graph) : List Uid := (g.nodes.flatMap Node.flows).filterMap id

theorem length_allTargets (g : Graph) : g.allTargets.length = g.flowEdgeCount :=
  length_filterMap_id _

theorem mem_targetsOf (listed : v ∈ g.targetsOf u) : g.Leads u v := by
  unfold targetsOf at listed
  cases found : g.find? u with
  | none =>
    rw [found] at listed
    cases listed
  | some n =>
    rw [found] at listed
    obtain ⟨flow, there, same⟩ := List.mem_filterMap.mp listed
    obtain rfl : flow = some v := same
    exact ⟨n, find?_mem found, find?_uid found, there⟩

theorem Leads.mem_targetsOf (distinct : g.uids.Nodup) (leads : g.Leads u v) : v ∈ g.targetsOf u := by
  obtain ⟨n, hn, rfl, listed⟩ := leads
  rw [targetsOf, find?_of_mem distinct hn]
  exact List.mem_filterMap.mpr ⟨some v, listed, rfl⟩

theorem targetsOf_inside (u : Uid) : ∀ v ∈ g.targetsOf u, v ∈ g.allTargets := by
  intro v listed
  obtain ⟨n, hn, -, there⟩ := Graph.mem_targetsOf listed
  exact List.mem_filterMap.mpr ⟨some v, List.mem_flatMap.mpr ⟨n, hn, there⟩, rfl⟩

theorem follow_sound (steps : Nat) (pends : ∀ v ∈ pending, ReflTransGen g.Leads u v)
    (sees : ∀ v ∈ seen, TransGen g.Leads u v) :
    ∀ v ∈ g.follow steps pending seen, TransGen g.Leads u v := by
  induction steps generalizing pending seen with
  | zero => exact sees
  | succ steps ih =>
    cases pending with
    | nil => exact sees
    | cons next pending =>
      have here := pends next List.mem_cons_self
      rw [follow]
      refine ih (fun v listed => ?_) fun v listed => ?_
      · rcases List.mem_append.mp listed with listed | listed
        · exact here.tail (mem_targetsOf (mem_addNew_snd.mp listed).2)
        · exact pends v (List.mem_cons_of_mem _ listed)
      · rcases mem_addNew.mp listed with listed | listed
        · exact sees v listed
        · exact TransGen.tail' here (mem_targetsOf listed)

theorem follow_closed (steps : Nat)
    (enough : pending.length + g.allTargets.countP (· ∉ seen) ≤ steps)
    (done : ∀ x ∈ u :: seen, x ∉ pending → ∀ y ∈ g.targetsOf x, y ∈ seen) :
    ∀ x ∈ u :: g.follow steps pending seen, ∀ y ∈ g.targetsOf x, y ∈ g.follow steps pending seen := by
  induction steps generalizing pending seen with
  | zero =>
    have idle : pending = [] := List.eq_nil_of_length_eq_zero (by omega)
    subst idle
    exact fun x listed => done x listed List.not_mem_nil
  | succ steps ih =>
    cases pending with
    | nil => exact fun x listed => done x listed List.not_mem_nil
    | cons next pending =>
      have fewer := length_addNew seen (g.targetsOf_inside next)
      rw [follow]
      refine ih ?_ fun x listed idle y leads => ?_
      · rw [List.length_append]
        rw [List.length_cons] at enough
        omega
      · rw [List.mem_append, not_or, mem_addNew_snd] at idle
        by_cases here : x = next
        · subst here
          exact mem_addNew.mpr (Or.inr leads)
        · have known : x ∈ u :: seen := by
            rcases List.mem_cons.mp listed with rfl | listed
            · exact List.mem_cons_self
            · by_contra unseen
              rw [List.mem_cons, not_or] at unseen
              exact idle.1 ⟨unseen.2, (mem_addNew.mp listed).resolve_left unseen.2⟩
          have waiting : x ∉ next :: pending := fun waits =>
            (List.mem_cons.mp waits).elim here idle.2
          exact mem_addNew.mpr (Or.inl (done x known waiting y leads))

theorem flowSuccessors_sound (found : v ∈ g.flowSuccessors u) : TransGen g.Leads u v := by
  refine follow_sound _ (fun w listed => ?_) (fun w listed => ?_) v found
  · rw [List.mem_singleton.mp listed]
  · cases listed

theorem mem_flowSuccessors (distinct : g.uids.Nodup) :
    v ∈ g.flowSuccessors u ↔ TransGen g.Leads u v := by
  refine ⟨flowSuccessors_sound, fun path => ?_⟩
  have closed : ∀ x ∈ u :: g.flowSuccessors u, ∀ y ∈ g.targetsOf x, y ∈ g.flowSuccessors u := by
    refine follow_closed _ ?_ fun x listed idle => ?_
    · have count := List.countP_le_length (p := (· ∉ ([] : List Uid))) (l := g.allTargets)
      rw [length_allTargets] at count
      rw [List.length_singleton]
      omega
    · exact absurd listed idle
  induction path with
  | single leads => exact closed u List.mem_cons_self _ (leads.mem_targetsOf distinct)
  | tail _ leads ih => exact closed _ (List.mem_cons_of_mem _ ih) _ (leads.mem_targetsOf distinct)

theorem not_transGen_of_falls (rank : Uid → Nat) (falls : ∀ u v, g.Leads u v → rank v < rank u)
    (u : Uid) : ¬TransGen g.Leads u u := by
  have falling : ∀ v, TransGen g.Leads u v → rank v < rank u := by
    intro v path
    induction path with
    | single leads => exact falls u _ leads
    | tail _ leads ih => exact Nat.lt_trans (falls _ _ leads) ih
  exact fun cycle => Nat.lt_irrefl _ (falling u cycle)

theorem acyclic_iff (distinct : g.uids.Nodup) : g.Acyclic ↔ ∀ u, ¬TransGen g.Leads u u := by
  constructor
  · intro acyclic u cycle
    obtain ⟨-, ⟨n, hn, rfl, -⟩, -⟩ := TransGen.head'_iff.mp cycle
    exact acyclic n hn ((mem_flowSuccessors distinct).mpr cycle)
  · exact fun acyclic n _ found => acyclic n.uid (flowSuccessors_sound found)

end ScriptGraph.Graph
