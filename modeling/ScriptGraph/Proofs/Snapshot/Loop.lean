import ScriptGraph.Proofs.Graph.Connections
import ScriptGraph.Proofs.Snapshot.Search
import Mathlib.Data.List.Chain
import Mathlib.Logic.Relation

/-!
The search for flows that close a cycle as a loop. It keeps the path being searched on a stack, together
with the flow output to look at next for each node, and comes to an end with what the search finds.
What every round keeps shows that each flow found lies on a cycle, and that none is found twice.
-/

set_option autoImplicit false
set_option relaxedAutoImplicit false

namespace ScriptGraph.Search

open Relation (ReflTransGen)

variable {g : Graph} {uid : Uid} {s : Search}

/-- The nodes to search from, the path being searched with its latest node first, and what was found. -/
structure Loop where
  roots : List Uid
  stack : List (Uid × Nat)
  search : Search

namespace Loop

def start (g : Graph) : Loop := ⟨g.uids, [], Search.start⟩

/-- One round. A node all of whose flow outputs were looked at is left for good. -/
def next (g : Graph) : Loop → Option Loop
  | ⟨[], [], _⟩ => none
  | ⟨root :: roots, [], s⟩ =>
    if (s.mark? root).isSome then some ⟨roots, [], s⟩
    else some ⟨roots, [(root, 0)], s.set root .active⟩
  | ⟨roots, (uid, port) :: stack, s⟩ =>
    match (g.find? uid).bind fun n => n.flows[port]? with
    | none => some ⟨roots, stack, s.set uid .done⟩
    | some none => some ⟨roots, (uid, port + 1) :: stack, s⟩
    | some (some target) =>
      match s.mark? target with
      | some .active =>
        some ⟨roots, (uid, port + 1) :: stack, { s with closing := s.closing ++ [(uid, port)] }⟩
      | some .done => some ⟨roots, (uid, port + 1) :: stack, s⟩
      | none => some ⟨roots, (target, 0) :: (uid, port + 1) :: stack, s.set target .active⟩

/-- Some rounds lead from one state of the loop to another. -/
abbrev Runs (g : Graph) : Loop → Loop → Prop := ReflTransGen fun l m => next g l = some m

/-! ## The rounds of one visit -/

private def Follows (g : Graph) (depth : Nat) (visit : Uid → Search → Search) : Prop :=
  ∀ uid s roots stack, s.mark? uid = none → unseen g s < depth → Explored g s →
    Runs g ⟨roots, (uid, 0) :: stack, s.set uid .active⟩ ⟨roots, stack, visit uid s⟩

private theorem inspect_runs {depth : Nat} {visit : Uid → Search → Search}
    (follows : Follows g depth visit) {roots : List Uid} {stack : List (Uid × Nat)} {port : Nat}
    {flow : Option Uid} (here : ((g.find? uid).bind fun n => n.flows[port]?) = some flow)
    (room : unseen g s < depth) (explored : Explored g s) :
    Runs g ⟨roots, (uid, port) :: stack, s⟩
      ⟨roots, (uid, port + 1) :: stack, inspect visit uid s (flow, port)⟩ := by
  cases flow with
  | none =>
    apply ReflTransGen.single
    simp only [next, here, inspect]
  | some target =>
    cases marked : s.mark? target with
    | none =>
      have entered : next g ⟨roots, (uid, port) :: stack, s⟩ =
          some ⟨roots, (target, 0) :: (uid, port + 1) :: stack, s.set target .active⟩ := by
        simp only [next, here, marked]
      have left := follows target s roots ((uid, port + 1) :: stack) marked room explored
      simp only [inspect, marked]
      exact ReflTransGen.head entered left
    | some mark =>
      apply ReflTransGen.single
      cases mark with
      | active => simp only [next, here, inspect, marked]
      | done => simp only [next, here, inspect, marked]

private theorem inspect_all_runs {depth : Nat} {visit : Uid → Search → Search}
    (visits : Visits g depth visit) (follows : Follows g depth visit) {roots : List Uid}
    {stack : List (Uid × Nat)} {n : Node} (found : g.find? uid = some n) (rest : List (Option Uid))
    {port : Nat} (remaining : n.flows.drop port = rest) (room : unseen g s < depth)
    (explored : Explored g s) :
    Runs g ⟨roots, (uid, port) :: stack, s⟩
      ⟨roots, stack, ((rest.zipIdx port).foldl (inspect visit uid) s).set uid .done⟩ := by
  induction rest generalizing port s with
  | nil =>
    have beyond : n.flows[port]? = none :=
      List.getElem?_eq_none (List.drop_eq_nil_iff.mp remaining)
    apply ReflTransGen.single
    simp only [next, found, Option.bind_some, beyond, List.zipIdx_nil, List.foldl_nil]
  | cons flow rest ih =>
    have here : n.flows[port]? = some flow := by
      rw [← List.head?_drop, remaining, List.head?_cons]
    have later : n.flows.drop (port + 1) = rest := by
      rw [← List.tail_drop, remaining, List.tail_cons]
    obtain ⟨grows, after, -⟩ := inspect_spec visits uid room explored (flow, port)
    have first : Runs g ⟨roots, (uid, port) :: stack, s⟩
        ⟨roots, (uid, port + 1) :: stack, inspect visit uid s (flow, port)⟩ :=
      inspect_runs follows (by rw [found, Option.bind_some, here]) room explored
    exact first.trans (ih later (Nat.lt_of_le_of_lt grows.unseen_le room) after)

private theorem visit_follows (g : Graph) (depth : Nat) : Follows g depth (visit g depth) := by
  induction depth with
  | zero => exact fun _ s _ _ _ room => absurd room (Nat.not_lt_zero _)
  | succ depth ih =>
    intro uid s roots stack unmarked room explored
    rw [visit]
    cases found : g.find? uid with
    | none =>
      -- A node that is missing has no flow outputs to look at.
      apply ReflTransGen.single
      simp only [next, found, Option.bind_none, Option.map_none, Option.getD_none,
        List.zipIdx_nil, List.foldl_nil]
    | some n =>
      have listed : uid ∈ g.uids := Graph.find?_uid found ▸ Graph.uid_mem (Graph.find?_mem found)
      have fewer : unseen g (s.set uid .active) < depth :=
        Nat.lt_of_lt_of_le (unseen_set_lt .active listed unmarked) (Nat.le_of_lt_succ room)
      exact inspect_all_runs (visit_spec g depth) ih found n.flows List.drop_zero fewer
        (explored.enter unmarked)

/-! ## The whole loop -/

private theorem roots_run (roots : List Uid) (idle : Idle g s) : Runs g ⟨roots, [], s⟩
    ⟨[], [], roots.foldl (fun s uid =>
      if (s.mark? uid).isSome then s else visit g (g.nodes.length + 1) uid s) s⟩ := by
  induction roots generalizing s with
  | nil => exact ReflTransGen.refl
  | cons root roots ih =>
    rw [List.foldl_cons]
    by_cases marked : (s.mark? root).isSome
    · rw [if_pos marked]
      have skipped : next g ⟨root :: roots, [], s⟩ = some ⟨roots, [], s⟩ := by
        simp only [next, marked, if_true]
      exact ReflTransGen.head skipped (ih idle)
    · rw [if_neg marked]
      have entered : next g ⟨root :: roots, [], s⟩ =
          some ⟨roots, [(root, 0)], s.set root .active⟩ := by
        simp only [next, marked, Bool.false_eq_true, if_false]
      rw [Option.not_isSome_iff_eq_none] at marked
      have room : unseen g s < g.nodes.length + 1 := Nat.lt_succ_of_le (unseen_le g s)
      have visited := visit_follows g _ root s roots [] marked room idle.explored
      obtain ⟨t, rfl, after, -⟩ := idle.visit_spec marked
      exact ReflTransGen.head entered (visited.trans (ih after))

theorem start_runs (g : Graph) : Runs g (start g) ⟨[], [], run g⟩ :=
  roots_run g.uids (start_idle g)

/-! ## What every round keeps -/

/-- The path being searched, and what is known of the flows that were found. -/
structure Sound (g : Graph) (l : Loop) : Prop where
  /-- The nodes on the path are those on the stack, each of them once, -/
  active : ∀ uid, l.search.mark? uid = some .active ↔ uid ∈ l.stack.map Prod.fst
  distinct : (l.stack.map Prod.fst).Nodup
  /-- and each leads to the one after it. -/
  path : l.stack.IsChain fun later earlier => g.Leads earlier.1 later.1
  /-- A flow that was found leads to a node from which flows lead back. -/
  cyclic : ∀ uid index, (uid, index) ∈ l.search.closing →
    ∃ target, g.Flow uid index target ∧ ReflTransGen g.Leads target uid
  /-- Its node was seen, and no flow output that is still to be looked at was found. -/
  seen : ∀ uid index, (uid, index) ∈ l.search.closing → (l.search.mark? uid).isSome
  passed : ∀ uid index, (uid, index) ∈ l.search.closing →
    ∀ port, (uid, port) ∈ l.stack → index < port
  once : l.search.closing.Nodup

theorem leads_of_flow {index : Nat} {target : Uid} (leads : g.Flow uid index target) :
    g.Leads uid target := by
  obtain ⟨n, found, here⟩ := leads
  exact ⟨n, Graph.find?_mem found, Graph.find?_uid found, List.mem_of_getElem? here⟩

private theorem leads_to_latest {port : Nat} {stack : List (Uid × Nat)}
    (path : ((uid, port) :: stack).IsChain fun later earlier => g.Leads earlier.1 later.1) :
    ∀ other ∈ ((uid, port) :: stack).map Prod.fst, ReflTransGen g.Leads other uid := by
  induction stack generalizing uid port with
  | nil =>
    intro other listed
    obtain rfl : other = uid := List.mem_singleton.mp listed
    exact ReflTransGen.refl
  | cons earlier stack ih =>
    intro other listed
    obtain ⟨here, rest⟩ := List.isChain_cons_cons.mp path
    rcases List.mem_cons.mp listed with rfl | listed
    · exact ReflTransGen.refl
    · exact (ih rest other listed).tail here

private theorem Sound.start (g : Graph) : Sound g (start g) := by
  refine ⟨fun uid => ?_, List.nodup_nil, List.isChain_nil, ?_, ?_, ?_, List.nodup_nil⟩
  · simp [Loop.start, Search.start, mark?]
  · simp [Loop.start, Search.start]
  · simp [Loop.start, Search.start]
  · simp [Loop.start, Search.start]

variable {roots : List Uid} {stack : List (Uid × Nat)} {port : Nat}

private theorem Sound.restart (sound : Sound g ⟨roots, stack, s⟩) (others : List Uid) :
    Sound g ⟨others, stack, s⟩ :=
  ⟨sound.active, sound.distinct, sound.path, sound.cyclic, sound.seen, sound.passed, sound.once⟩

private theorem Sound.enter (sound : Sound g ⟨roots, stack, s⟩) (unmarked : s.mark? uid = none)
    (leads : ∀ earlier ∈ stack.head?, g.Leads earlier.1 uid) :
    Sound g ⟨roots, (uid, 0) :: stack, s.set uid .active⟩ := by
  have absent : uid ∉ stack.map Prod.fst := by
    intro listed
    rw [← sound.active, unmarked] at listed
    cases listed
  refine ⟨fun other => ?_, ?_, ?_, sound.cyclic, fun other index listed => ?_,
    fun other index listed later waiting => ?_, sound.once⟩
  · rw [mark?_set, List.map_cons, List.mem_cons, ← sound.active]
    by_cases same : other = uid
    · simp [same]
    · simp [same]
  · exact List.nodup_cons.mpr ⟨absent, sound.distinct⟩
  · exact List.isChain_cons.mpr ⟨leads, sound.path⟩
  · rw [mark?_set]
    split
    · rfl
    · exact sound.seen other index listed
  · rcases List.mem_cons.mp waiting with same | waiting
    · cases same
      have known := sound.seen uid index listed
      rw [unmarked] at known
      cases known
    · exact sound.passed other index listed later waiting

private theorem Sound.leave (sound : Sound g ⟨roots, (uid, port) :: stack, s⟩) :
    Sound g ⟨roots, stack, s.set uid .done⟩ := by
  obtain ⟨absent, distinct⟩ := List.nodup_cons.mp sound.distinct
  refine ⟨fun other => ?_, distinct, sound.path.tail, sound.cyclic, fun other index listed => ?_,
    fun other index listed later waiting => ?_, sound.once⟩
  · have before := sound.active other
    rw [List.map_cons, List.mem_cons] at before
    rw [mark?_set]
    by_cases same : other = uid
    · subst same
      simpa using absent
    · rw [if_neg same, before]
      exact or_iff_right same
  · rw [mark?_set]
    split
    · rfl
    · exact sound.seen other index listed
  · exact sound.passed other index listed later (List.mem_cons_of_mem _ waiting)

private theorem Sound.advance (sound : Sound g ⟨roots, (uid, port) :: stack, s⟩) :
    Sound g ⟨roots, (uid, port + 1) :: stack, s⟩ := by
  refine ⟨sound.active, sound.distinct, ?_, sound.cyclic, sound.seen,
    fun other index listed later waiting => ?_, sound.once⟩
  · rw [List.isChain_cons]
    exact List.isChain_cons.mp sound.path
  · rcases List.mem_cons.mp waiting with same | waiting
    · cases same
      exact Nat.lt_succ_of_lt (sound.passed uid index listed port List.mem_cons_self)
    · exact sound.passed other index listed later (List.mem_cons_of_mem _ waiting)

private theorem Sound.close (sound : Sound g ⟨roots, (uid, port) :: stack, s⟩) {target : Uid}
    (leads : g.Flow uid port target) (active : s.mark? target = some .active) :
    Sound g ⟨roots, (uid, port + 1) :: stack, { s with closing := s.closing ++ [(uid, port)] }⟩ := by
  have back : ReflTransGen g.Leads target uid :=
    leads_to_latest sound.path target ((sound.active target).mp active)
  have here : (s.mark? uid).isSome := by
    rw [(sound.active uid).mpr List.mem_cons_self]
    rfl
  have fresh : (uid, port) ∉ s.closing := fun listed =>
    Nat.lt_irrefl port (sound.passed uid port listed port List.mem_cons_self)
  have absent : uid ∉ stack.map Prod.fst := (List.nodup_cons.mp sound.distinct).1
  have onward := sound.advance
  refine ⟨sound.active, onward.distinct, onward.path, fun other index listed => ?_,
    fun other index listed => ?_, fun other index listed later waiting => ?_, ?_⟩
  · rcases List.mem_append.mp listed with listed | found
    · exact sound.cyclic other index listed
    · cases List.mem_singleton.mp found
      exact ⟨target, leads, back⟩
  · rcases List.mem_append.mp listed with listed | found
    · exact sound.seen other index listed
    · cases List.mem_singleton.mp found
      exact here
  · rcases List.mem_append.mp listed with listed | found
    · exact onward.passed other index listed later waiting
    · cases List.mem_singleton.mp found
      rcases List.mem_cons.mp waiting with same | waiting
      · cases same
        exact Nat.lt_succ_self port
      · exact absurd (List.mem_map_of_mem waiting) absent
  · exact sound.once.append (List.nodup_singleton _) (by simpa using fresh)

theorem Sound.next {l m : Loop} (sound : Sound g l) (step : next g l = some m) : Sound g m := by
  obtain ⟨roots, stack, s⟩ := l
  cases stack with
  | nil =>
    cases roots with
    | nil => cases step
    | cons root roots =>
      rw [Loop.next] at step
      split at step
      · cases step
        exact sound.restart roots
      · rename_i unmarked
        cases step
        rw [Option.not_isSome_iff_eq_none] at unmarked
        exact (sound.restart roots).enter unmarked (by simp)
  | cons frame stack =>
    obtain ⟨uid, port⟩ := frame
    rw [Loop.next] at step
    split at step
    · cases step
      exact sound.leave
    · cases step
      exact sound.advance
    · rename_i target there
      obtain ⟨n, found, here⟩ := Option.bind_eq_some_iff.mp there
      have leads : g.Flow uid port target := ⟨n, found, here⟩
      split at step
      · rename_i active
        cases step
        exact sound.close leads active
      · cases step
        exact sound.advance
      · rename_i unmarked
        cases step
        refine sound.advance.enter unmarked ?_
        simpa using leads_of_flow leads

theorem Sound.runs {l m : Loop} (sound : Sound g l) (rounds : Runs g l m) : Sound g m := by
  induction rounds with
  | refl => exact sound
  | tail _ step ih => exact ih.next step

theorem run_sound (g : Graph) : Sound g ⟨[], [], run g⟩ :=
  (Sound.start g).runs (start_runs g)

end Loop

end ScriptGraph.Search
