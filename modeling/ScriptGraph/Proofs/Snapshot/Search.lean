import ScriptGraph.Proofs.Graph.Lookup
import ScriptGraph.Proofs.Lookup
import ScriptGraph.Snapshot.Flow

/-!
The search for flows that close a cycle. Nodes are left for good in an order in which every other flow
leads to a node that was left before, so the graph without the closing flows has no cycle of flow.
-/

set_option autoImplicit false
set_option relaxedAutoImplicit false

namespace ScriptGraph

/-- A flow output of the node with a uid leads to another one. -/
def Graph.Flow (g : Graph) (uid : Uid) (index : Nat) (target : Uid) : Prop :=
  ∃ n, g.find? uid = some n ∧ n.flows[index]? = some (some target)

namespace Search

@[simp] theorem mark?_set (s : Search) (uid other : Uid) (mark : Mark) :
    (s.set uid mark).mark? other = if other = uid then some mark else s.mark? other :=
  lookup_cons_eq uid other mark s.marks

@[simp] theorem closing_set (s : Search) (uid : Uid) (mark : Mark) :
    (s.set uid mark).closing = s.closing := rfl

/-- The nodes left for good, the latest first. -/
def order (s : Search) : List Uid :=
  s.marks.filterMap fun entry => if entry.2 = .done then some entry.1 else none

@[simp] theorem order_set_active (s : Search) (uid : Uid) :
    (s.set uid .active).order = s.order := rfl

@[simp] theorem order_set_done (s : Search) (uid : Uid) :
    (s.set uid .done).order = uid :: s.order := rfl

/-- A search that went on: what was marked stays so, and no node is on the path that was not before. -/
structure Grows (s t : Search) : Prop where
  kept : ∀ uid mark, s.mark? uid = some mark → t.mark? uid = some mark
  active : ∀ uid, t.mark? uid = some .active → s.mark? uid = some .active
  closing : ∀ flow ∈ s.closing, flow ∈ t.closing

/-- Every flow of a node left for good closes a cycle or leads to a node left before. -/
structure Explored (g : Graph) (s : Search) : Prop where
  order_iff : ∀ uid, uid ∈ s.order ↔ s.mark? uid = some .done
  nodup : s.order.Nodup
  flows : ∀ uid index target, uid ∈ s.order → g.Flow uid index target →
    (uid, index) ∈ s.closing ∨ [uid, target].Sublist s.order

namespace Grows

theorem refl (s : Search) : Grows s s :=
  ⟨fun _ _ => id, fun _ => id, fun _ => id⟩

theorem trans {r s t : Search} (first : Grows r s) (second : Grows s t) : Grows r t := by
  refine ⟨fun uid mark marked => second.kept uid mark (first.kept uid mark marked),
    fun uid active => first.active uid (second.active uid active),
    fun flow listed => second.closing flow (first.closing flow listed)⟩

end Grows

def unseen (g : Graph) (s : Search) : Nat :=
  g.uids.countP fun uid => (s.mark? uid).isNone

theorem Grows.unseen_le {g : Graph} {s t : Search} (grows : Grows s t) : unseen g t ≤ unseen g s := by
  refine List.countP_mono_left fun uid _ hnone => ?_
  cases marked : s.mark? uid with
  | none => rfl
  | some mark =>
    rw [grows.kept uid mark marked] at hnone
    cases hnone

theorem unseen_le (g : Graph) (s : Search) : unseen g s ≤ g.nodes.length :=
  Nat.le_trans List.countP_le_length (Nat.le_of_eq (List.length_map _))

theorem unseen_set_lt {g : Graph} {s : Search} {uid : Uid} (mark : Mark) (listed : uid ∈ g.uids)
    (unmarked : s.mark? uid = none) : unseen g (s.set uid mark) < unseen g s := by
  unfold unseen
  generalize g.uids = uids at listed
  induction uids with
  | nil => cases listed
  | cons first uids ih =>
    have hle : uids.countP (fun other => ((s.set uid mark).mark? other).isNone) ≤
        uids.countP fun other => (s.mark? other).isNone := by
      refine List.countP_mono_left fun other _ hnone => ?_
      rw [mark?_set] at hnone
      split at hnone
      · cases hnone
      · exact hnone
    rw [List.countP_cons, List.countP_cons]
    by_cases here : first = uid
    · simp only [mark?_set, here, unmarked]
      simpa using Nat.lt_succ_of_le hle
    · have hrest := ih ((List.mem_cons.mp listed).resolve_left (Ne.symm here))
      rw [mark?_set, if_neg here]
      exact Nat.add_lt_add_right hrest _

def Visits (g : Graph) (depth : Nat) (visit : Uid → Search → Search) : Prop :=
  ∀ uid s, s.mark? uid = none → unseen g s < depth → Explored g s →
    Grows s (visit uid s) ∧ Explored g (visit uid s) ∧ (visit uid s).mark? uid = some .done

private theorem explored_closing {g : Graph} {s : Search} (explored : Explored g s)
    (flow : Uid × Nat) : Explored g { s with closing := s.closing ++ [flow] } := by
  refine ⟨explored.order_iff, explored.nodup, fun uid index target listed leads => ?_⟩
  exact (explored.flows uid index target listed leads).imp_left (List.mem_append_left _)

theorem Explored.enter {g : Graph} {s : Search} {uid : Uid} (explored : Explored g s)
    (unmarked : s.mark? uid = none) : Explored g (s.set uid .active) := by
  refine ⟨fun other => ?_, explored.nodup, explored.flows⟩
  rw [order_set_active, explored.order_iff, mark?_set]
  by_cases same : other = uid
  · simp [same, unmarked]
  · simp [same]

/-- One flow of a node on the path: it is found to close a cycle, or its target is left for good. -/
theorem inspect_spec {g : Graph} {depth : Nat} {visit : Uid → Search → Search}
    (visits : Visits g depth visit) (uid : Uid) {s : Search} (room : unseen g s < depth)
    (explored : Explored g s) (flow : Option Uid × Nat) :
    Grows s (inspect visit uid s flow) ∧ Explored g (inspect visit uid s flow) ∧
      ∀ target, flow.1 = some target → (uid, flow.2) ∈ (inspect visit uid s flow).closing ∨
        (inspect visit uid s flow).mark? target = some .done := by
  unfold inspect
  cases hflow : flow.1 with
  | none => exact ⟨Grows.refl s, explored, by simp⟩
  | some target =>
    simp only [Option.some.injEq, forall_eq']
    cases marked : s.mark? target with
    | none =>
      obtain ⟨grows, after, done⟩ := visits target s marked room explored
      exact ⟨grows, after, Or.inr done⟩
    | some mark =>
      cases mark with
      | active =>
        refine ⟨⟨fun _ _ => id, fun _ => id, fun _ => List.mem_append_left _⟩,
          explored_closing explored _, Or.inl ?_⟩
        exact List.mem_append_right _ List.mem_cons_self
      | done => exact ⟨Grows.refl s, explored, Or.inr marked⟩

private theorem inspect_all_spec {g : Graph} {depth : Nat} {visit : Uid → Search → Search}
    (visits : Visits g depth visit) (uid : Uid) (flows : List (Option Uid × Nat)) {s : Search}
    (room : unseen g s < depth) (explored : Explored g s) :
    Grows s (flows.foldl (inspect visit uid) s) ∧
      Explored g (flows.foldl (inspect visit uid) s) ∧
      ∀ target index, (some target, index) ∈ flows →
        (uid, index) ∈ (flows.foldl (inspect visit uid) s).closing ∨
          (flows.foldl (inspect visit uid) s).mark? target = some .done := by
  induction flows generalizing s with
  | nil => exact ⟨Grows.refl s, explored, by simp⟩
  | cons flow flows ih =>
    obtain ⟨first, hfirst, here⟩ := inspect_spec visits uid room explored flow
    obtain ⟨rest, hrest, there⟩ := ih (Nat.lt_of_le_of_lt first.unseen_le room) hfirst
    refine ⟨first.trans rest, hrest, fun target index listed => ?_⟩
    rcases List.mem_cons.mp listed with rfl | listed
    · exact (here target rfl).imp (rest.closing _) (rest.kept target .done)
    · exact there target index listed

private theorem Grows.leave {s t : Search} {uid : Uid} (unmarked : s.mark? uid = none)
    (grows : Grows (s.set uid .active) t) : Grows s (t.set uid .done) := by
  refine ⟨fun other mark marked => ?_, fun other active => ?_, grows.closing⟩
  · have hne : other ≠ uid := by
      rintro rfl
      simp [unmarked] at marked
    rw [mark?_set, if_neg hne]
    exact grows.kept other mark (by rw [mark?_set, if_neg hne]; exact marked)
  · rw [mark?_set] at active
    split at active
    · cases active
    · rename_i hne
      have hbefore := grows.active other active
      rwa [mark?_set, if_neg hne] at hbefore

theorem Explored.leave {g : Graph} {t : Search} {uid : Uid} (explored : Explored g t)
    (active : t.mark? uid = some .active)
    (inspected : ∀ index target, g.Flow uid index target →
      (uid, index) ∈ t.closing ∨ t.mark? target = some .done) :
    Explored g (t.set uid .done) := by
  have unlisted : uid ∉ t.order := by
    rw [explored.order_iff, active]
    simp
  refine ⟨fun other => ?_, ?_, fun other index target listed leads => ?_⟩
  · rw [order_set_done, List.mem_cons, explored.order_iff, mark?_set]
    by_cases same : other = uid
    · simp [same]
    · simp [same]
  · rw [order_set_done]
    exact List.nodup_cons.mpr ⟨unlisted, explored.nodup⟩
  · rw [order_set_done, closing_set]
    rcases List.mem_cons.mp listed with rfl | listed
    · refine (inspected index target leads).imp_right fun done => ?_
      refine List.Sublist.cons_cons other (List.singleton_sublist.mpr ?_)
      exact (explored.order_iff target).mpr done
    · exact (explored.flows other index target listed leads).imp_right (List.Sublist.cons uid)

theorem visit_spec (g : Graph) (depth : Nat) : Visits g depth (visit g depth) := by
  induction depth with
  | zero => exact fun uid s _ room => absurd room (Nat.not_lt_zero _)
  | succ depth ih =>
    intro uid s unmarked room explored
    have entered := explored.enter unmarked
    -- Only a node of the graph has flows, and such a node was counted as unseen.
    have inspected : ∀ flows : List (Option Uid × Nat),
        flows = (((g.find? uid).map Node.flows).getD []).zipIdx →
        Grows (s.set uid .active) (flows.foldl (inspect (visit g depth) uid) (s.set uid .active)) ∧
          Explored g (flows.foldl (inspect (visit g depth) uid) (s.set uid .active)) ∧
          ∀ target index, (some target, index) ∈ flows →
            (uid, index) ∈
              (flows.foldl (inspect (visit g depth) uid) (s.set uid .active)).closing ∨
            (flows.foldl (inspect (visit g depth) uid) (s.set uid .active)).mark? target =
              some .done := by
      rintro flows rfl
      cases found : g.find? uid with
      | none => exact ⟨Grows.refl _, entered, by simp⟩
      | some n =>
        have listed : uid ∈ g.uids := Graph.find?_uid found ▸ Graph.uid_mem (Graph.find?_mem found)
        refine inspect_all_spec ih uid _ ?_ entered
        exact Nat.lt_of_lt_of_le (unseen_set_lt .active listed unmarked) (Nat.le_of_lt_succ room)
    obtain ⟨grows, after, all⟩ := inspected _ rfl
    rw [visit]
    refine ⟨grows.leave unmarked, after.leave (grows.kept uid .active (by simp)) ?_, by simp⟩
    rintro index target ⟨n, found, hflow⟩
    refine all target index ?_
    rw [found]
    exact List.mem_zipIdx_iff_getElem?.mpr hflow

/-- Between two searches from nodes no node is on a path. -/
structure Idle (g : Graph) (s : Search) : Prop where
  explored : Explored g s
  rest : ∀ uid, s.mark? uid ≠ some .active

theorem Idle.visit_spec {g : Graph} {s : Search} {uid : Uid} (idle : Idle g s)
    (unmarked : s.mark? uid = none) : ∃ t, visit g (g.nodes.length + 1) uid s = t ∧
      Idle g t ∧ Grows s t ∧ t.mark? uid = some .done := by
  have room : unseen g s < g.nodes.length + 1 := Nat.lt_succ_of_le (unseen_le g s)
  obtain ⟨grows, explored, done⟩ :=
    Search.visit_spec g (g.nodes.length + 1) uid s unmarked room idle.explored
  exact ⟨_, rfl, ⟨explored, fun other active => idle.rest other (grows.active other active)⟩, grows,
    done⟩

theorem start_idle (g : Graph) : Idle g start := by
  refine ⟨⟨?_, List.nodup_nil, ?_⟩, ?_⟩
  · simp [order, start, mark?]
  · simp [order, start]
  · simp [start, mark?]

private def runFrom (g : Graph) (uids : List Uid) (s : Search) : Search :=
  uids.foldl (fun s uid =>
    if (s.mark? uid).isSome then s else visit g (g.nodes.length + 1) uid s) s

private theorem runFrom_spec {g : Graph} (uids : List Uid) {s : Search} (idle : Idle g s) :
    Idle g (runFrom g uids s) ∧ Grows s (runFrom g uids s) ∧
      ∀ uid ∈ uids, (runFrom g uids s).mark? uid = some .done := by
  induction uids generalizing s with
  | nil => exact ⟨idle, Grows.refl s, by simp⟩
  | cons uid uids ih =>
    have step : ∃ t, (if (s.mark? uid).isSome then s else visit g (g.nodes.length + 1) uid s) = t ∧
        Idle g t ∧ Grows s t ∧ t.mark? uid = some .done := by
      refine ⟨_, rfl, ?_⟩
      split
      · rename_i marked
        obtain ⟨mark, hmark⟩ := Option.isSome_iff_exists.mp marked
        cases mark with
        | active => exact absurd hmark (idle.rest uid)
        | done => exact ⟨idle, Grows.refl s, hmark⟩
      · rename_i unmarked
        rw [Option.not_isSome_iff_eq_none] at unmarked
        obtain ⟨t, rfl, after⟩ := idle.visit_spec unmarked
        exact after
    obtain ⟨t, ht, hidle, grows, done⟩ := step
    rw [runFrom, List.foldl_cons, ht]
    obtain ⟨after, rest, all⟩ := ih hidle
    refine ⟨after, grows.trans rest, fun other listed => ?_⟩
    rcases List.mem_cons.mp listed with rfl | listed
    · exact rest.kept other .done done
    · exact all other listed

private theorem idxOf_lt_of_sublist {uid target : Uid} {uids : List Uid} (distinct : uids.Nodup)
    (pair : [uid, target].Sublist uids) : uids.idxOf uid < uids.idxOf target := by
  induction uids with
  | nil => cases pair
  | cons first uids ih =>
    obtain ⟨fresh, distinct⟩ := List.nodup_cons.mp distinct
    cases pair with
    | cons _ pair =>
      have huid : uid ∈ uids := pair.subset (by simp)
      have htarget : target ∈ uids := pair.subset (by simp)
      rw [List.idxOf_cons_ne _ (by rintro rfl; exact fresh huid),
        List.idxOf_cons_ne _ (by rintro rfl; exact fresh htarget)]
      exact Nat.succ_lt_succ (ih distinct pair)
    | cons_cons _ pair =>
      have htarget : target ∈ uids := List.singleton_sublist.mp pair
      rw [List.idxOf_cons_self, List.idxOf_cons_ne _ (by rintro rfl; exact fresh htarget)]
      exact Nat.succ_pos _

theorem exists_numbering (g : Graph) : ∃ number : Uid → Nat, ∀ uid index target,
    g.Flow uid index target → (uid, index) ∉ g.closingFlows → number target < number uid := by
  obtain ⟨idle, -, done⟩ := runFrom_spec g.uids (start_idle g)
  change Idle g (run g) at idle
  change ∀ uid ∈ g.uids, (run g).mark? uid = some .done at done
  refine ⟨fun uid => (run g).order.length - (run g).order.idxOf uid, ?_⟩
  intro uid index target leads kept
  obtain ⟨n, found, -⟩ := id leads
  have listed : uid ∈ (run g).order :=
    (idle.explored.order_iff uid).mpr (done uid (Graph.find?_uid found ▸
      Graph.uid_mem (Graph.find?_mem found)))
  have pair := (idle.explored.flows uid index target listed leads).resolve_left kept
  have hbefore := idxOf_lt_of_sublist idle.explored.nodup pair
  have hbound := List.idxOf_lt_length_iff.mpr (pair.subset (by simp : target ∈ [uid, target]))
  change _ - _ < _ - _
  omega

end Search

namespace Graph

theorem clearFlow_uid (index : Nat) (n : Node) :
    ({ n with flows := n.flows.set index none } : Node).uid = n.uid := rfl

theorem flow_of_clearFlows {g : Graph} {flows : List (Uid × Nat)} {uid : Uid} {index : Nat}
    {target : Uid} (leads : (g.clearFlows flows).Flow uid index target) :
    g.Flow uid index target ∧ (uid, index) ∉ flows := by
  induction flows generalizing g with
  | nil => exact ⟨leads, by simp⟩
  | cons flow flows ih =>
    obtain ⟨⟨n, found, hflow⟩, hrest⟩ := ih leads
    rw [find?_update (clearFlow_uid flow.2)] at found
    split at found
    · rename_i same
      obtain ⟨m, hm, rfl⟩ := Option.map_eq_some_iff.mp found
      rw [List.getElem?_set] at hflow
      split at hflow
      · split at hflow <;> simp at hflow
      · rename_i other
        refine ⟨⟨m, same ▸ hm, hflow⟩, ?_⟩
        rw [List.mem_cons, not_or]
        exact ⟨fun here => other (congrArg Prod.snd here).symm, hrest⟩
    · rename_i other
      refine ⟨⟨n, found, hflow⟩, ?_⟩
      rw [List.mem_cons, not_or]
      exact ⟨fun here => other (congrArg Prod.fst here), hrest⟩

end Graph

end ScriptGraph
