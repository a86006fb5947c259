import ScriptGraph.Clipping.Plan
import ScriptGraph.Proofs.Graph.Connections
import ScriptGraph.Proofs.Lookup
import ScriptGraph.Proofs.Node.Fresh

/-!
What a plan adds to a graph. Every node that it adds is drafted from a node of the clipping and gets a
uid of its own, and its connections follow those of that node.
-/

set_option autoImplicit false
set_option relaxedAutoImplicit false

namespace ScriptGraph

namespace Clipping

def chain : Clipping :=
  ⟨[⟨"a", Kind.blockName, .origin, [], [], [some "b"]⟩, ⟨"b", Kind.blockName, .origin, [], [], []⟩]⟩

def chainText : String :=
  "AV0Aov97Im5vZGVzIjpbeyJ1aWQiOiJhIiwiZnVsbF9uYW1lIjoiQmxvY2siLCJmbG93X3VpZHMiOlsiYiJdfSx7InVpZC" ++
    "I6ImIiLCJmdWxsX25hbWUiOiJCbG9jayJ9XX0="

theorem ofText_chainText : ofText chainText = .ok chain := by decide +kernel

end Clipping

namespace Plan

variable {c : Catalog} {g : Graph} {anchor : Position} {q : Supply} {p : Plan}
  {source : List Node} {n m : Node} {uid : Uid}

/-- A node is drafted from another: it is adapted, has its own uid, and conforms to its
definition. -/
def Drafts (c : Catalog) (anchor : Position) (n m : Node) : Prop :=
  ∃ d names, c.find? n.fullName = some d ∧
    m = { (adapted names anchor n).1 with uid := m.uid }.conform d

/-- What holds of a plan for some nodes of a clipping. -/
structure Sketches (c : Catalog) (g : Graph) (anchor : Position) (q : Supply)
    (source : List Node) (p : Plan) : Prop where
  uids : p.nodes.map Node.uid = q.upcoming p.nodes.length
  supply : p.supply = q.skip p.nodes.length
  drafts : ∀ m ∈ p.nodes, ∃ n ∈ source, Drafts c anchor n m ∧ (n.uid, m.uid) ∈ p.uids
  stands : ∀ u v, (u, v) ∈ p.uids → ∃ n ∈ source, n.uid = u ∧ (c.find? n.fullName).isSome ∧
    (reused? g n = some v ∨ ∃ m ∈ p.nodes, m.uid = v ∧ reused? g n = none ∧ Drafts c anchor n m)
  single : q.Fresh g.uids → ∀ u v w, (u, w) ∈ p.uids → (v, w) ∈ p.uids →
    w ∈ p.nodes.map Node.uid → u = v

theorem reused?_eq_some (reuses : reused? g n = some uid) :
    n.isVariable ∧ ∃ v ∈ g.nodes, v.uid = uid ∧ v.isVariable := by
  unfold reused? at reuses
  split at reuses
  · rename_i declares
    refine ⟨declares, ?_⟩
    split at reuses
    · rename_i there
      cases reuses
      obtain ⟨v, found, isVariable⟩ := (Option.any_eq_true _ _).mp there
      exact ⟨v, Graph.find?_mem found, Graph.find?_uid found, isVariable⟩
    · dsimp only at reuses
      split at reuses
      · obtain ⟨v, found, rfl⟩ := Option.map_eq_some_iff.mp reuses
        refine ⟨v, List.mem_of_find?_eq_some found, rfl, ?_⟩
        have named : v.variableName? = some (n.variableName?.getD "") := by
          have named := List.find?_some found
          exact of_decide_eq_true named
        rw [Node.variableName?] at named
        split at named
        · assumption
        · cases named
      · cases reuses
  · cases reuses

private theorem Sketches.fst_drawn (sketches : Sketches c g anchor q source p)
    (fresh : q.Fresh g.uids) {u : Uid} : (u, p.supply.draw.1) ∉ p.uids := by
  intro listed
  obtain ⟨n, -, -, -, reuses | ⟨m, hm, same, -⟩⟩ := sketches.stands _ _ listed
  · obtain ⟨-, v, hv, same, -⟩ := reused?_eq_some reuses
    have unused := fresh.unused (q.drawn + p.nodes.length) (Nat.le_add_right _ _)
    rw [sketches.supply] at same
    exact unused (List.mem_map.mpr ⟨v, hv, same⟩)
  · have distinct := fresh.upcoming_nodup (p.nodes.length + 1)
    rw [Supply.upcoming_succ, ← sketches.supply, ← sketches.uids] at distinct
    exact (List.nodup_append.mp distinct).2.2 _ (List.mem_map_of_mem hm) _
      (List.mem_singleton_self _) same

private theorem Sketches.of_subset {more : List Node} (sketches : Sketches c g anchor q source p)
    (subset : source ⊆ more) : Sketches c g anchor q more p := by
  refine { sketches with drafts := fun m hm => ?_, stands := fun u v listed => ?_ }
  · obtain ⟨k, hk, drafts⟩ := sketches.drafts m hm
    exact ⟨k, subset hk, drafts⟩
  · obtain ⟨k, hk, stands⟩ := sketches.stands u v listed
    exact ⟨k, subset hk, stands⟩

private theorem Sketches.reuse (sketches : Sketches c g anchor q source p) (hn : n ∈ source)
    (known : (c.find? n.fullName).isSome) (reuses : reused? g n = some uid) :
    Sketches c g anchor q source { p with uids := (n.uid, uid) :: p.uids } := by
  refine ⟨sketches.uids, sketches.supply, fun m hm => ?_, fun u v listed => ?_, fun fresh => ?_⟩
  · obtain ⟨k, hk, draft, listed⟩ := sketches.drafts m hm
    exact ⟨k, hk, draft, List.mem_cons_of_mem _ listed⟩
  · rcases List.mem_cons.mp listed with same | listed
    · cases same
      exact ⟨n, hn, rfl, known, Or.inl reuses⟩
    · exact sketches.stands u v listed
  · -- A node of the graph is none that is added.
    have kept : ∀ {u w}, (u, w) ∈ (n.uid, uid) :: p.uids → w ∈ p.nodes.map Node.uid →
        (u, w) ∈ p.uids := by
      intro u w listed added
      refine (List.mem_cons.mp listed).resolve_left fun same => ?_
      cases same
      obtain ⟨-, v, hv, same, -⟩ := reused?_eq_some reuses
      rw [sketches.uids] at added
      exact fresh.upcoming_unused added (List.mem_map.mpr ⟨v, hv, same⟩)
    exact fun u v w hu hv added =>
      sketches.single fresh u v w (kept hu added) (kept hv added) added

private theorem Sketches.draw (sketches : Sketches c g anchor q source p) (hn : n ∈ source)
    (drafted : Drafts c anchor n m) (new : reused? g n = none) (drawn : m.uid = p.supply.draw.1)
    (names : List String) :
    Sketches c g anchor q source
      ⟨(n.uid, p.supply.draw.1) :: p.uids, names, p.nodes ++ [m], p.supply.draw.2⟩ := by
  refine ⟨?_, ?_, fun k hk => ?_, fun u v listed => ?_, fun fresh u v w hu hv added => ?_⟩
  · rw [List.map_append, List.length_append, List.length_singleton, Supply.upcoming_succ,
      sketches.uids, List.map_singleton, drawn, sketches.supply]
  · change p.supply.draw.2 = _
    rw [List.length_append, sketches.supply]
    rfl
  · rcases List.mem_append.mp hk with hk | hk
    · obtain ⟨l, hl, draft, listed⟩ := sketches.drafts k hk
      exact ⟨l, hl, draft, List.mem_cons_of_mem _ listed⟩
    · obtain rfl := List.mem_singleton.mp hk
      rw [drawn]
      exact ⟨n, hn, drafted, List.mem_cons_self⟩
  · rcases List.mem_cons.mp listed with same | listed
    · cases same
      obtain ⟨d, -, known, -⟩ := id drafted
      exact ⟨n, hn, rfl, Option.isSome_iff_exists.mpr ⟨d, known⟩,
        Or.inr ⟨m, List.mem_append_right _ (List.mem_singleton_self m), drawn, new, drafted⟩⟩
    · obtain ⟨k, hk, same, known, stands⟩ := sketches.stands u v listed
      refine ⟨k, hk, same, known, stands.imp_right ?_⟩
      rintro ⟨m, hm, stands⟩
      exact ⟨m, List.mem_append_left _ hm, stands⟩
  · rcases List.mem_cons.mp hu with hu | hu <;> rcases List.mem_cons.mp hv with hv | hv
    · cases hu
      cases hv
      rfl
    · cases hu
      exact absurd hv (sketches.fst_drawn fresh)
    · cases hv
      exact absurd hu (sketches.fst_drawn fresh)
    · rw [List.map_append, List.mem_append, List.map_singleton, drawn] at added
      rcases added with added | added
      · exact sketches.single fresh u v w hu hv added
      · obtain rfl := List.mem_singleton.mp added
        exact absurd hu (sketches.fst_drawn fresh)

theorem Sketches.add (sketches : Sketches c g anchor q source p) (n : Node) :
    Sketches c g anchor q (source ++ [n]) (p.add c g anchor n) := by
  have sketches := sketches.of_subset (List.subset_append_left source [n])
  have hn : n ∈ source ++ [n] := List.mem_append_right _ (List.mem_singleton_self n)
  unfold Plan.add
  split
  · exact sketches
  · rename_i d found
    split
    · rename_i uid reuses
      exact sketches.reuse hn (Option.isSome_iff_exists.mpr ⟨d, found⟩) reuses
    · rename_i new
      exact sketches.draw hn ⟨d, p.names, found, rfl⟩ new rfl _

theorem ofClipping_sketches (c : Catalog) (g : Graph) (anchor : Position) (q : Supply)
    (clipping : Clipping) :
    Sketches c g anchor q clipping.nodes (ofClipping c g anchor q clipping) := by
  suffices ∀ more source p, Sketches c g anchor q source p →
      Sketches c g anchor q (source ++ more) (more.foldl (add c g anchor) p) from
    this clipping.nodes [] ⟨[], g.variableNames, [], q⟩
      ⟨rfl, rfl, fun _ hm => absurd hm List.not_mem_nil,
        fun _ _ hu => absurd hu List.not_mem_nil, fun _ _ _ _ hu => absurd hu List.not_mem_nil⟩
  intro more
  induction more with
  | nil =>
    intro source p sketches
    rwa [List.append_nil]
  | cons n more ih =>
    intro source p sketches
    rw [List.append_cons]
    exact ih _ _ (sketches.add n)

/-! ## What is added -/

theorem single_sublist (keys : List String) (nodes : List Node) :
    (single keys nodes).Sublist nodes := by
  induction nodes generalizing keys with
  | nil => exact .refl _
  | cons n nodes ih =>
    rw [single]
    split
    · split
      · exact (ih keys).cons n
      · exact (ih _).cons_cons n
    · exact (ih keys).cons_cons n

theorem single_apart (keys : List String) (nodes : List Node) :
    ((single keys nodes).Pairwise fun n m =>
      n.isSingleEvent → m.isSingleEvent → n.eventKey ≠ m.eventKey) ∧
    ∀ n ∈ single keys nodes, n.isSingleEvent → n.eventKey ∉ keys := by
  induction nodes generalizing keys with
  | nil => exact ⟨.nil, fun _ hn => absurd hn List.not_mem_nil⟩
  | cons n nodes ih =>
    rw [single]
    split
    · split
      · exact ih keys
      · rename_i new
        obtain ⟨apart, fresh⟩ := ih (n.eventKey :: keys)
        refine ⟨List.pairwise_cons.mpr ⟨fun m hm _ isSingle same => ?_, apart⟩, fun m hm isSingle => ?_⟩
        · exact fresh m hm isSingle (same ▸ List.mem_cons_self)
        · rcases List.mem_cons.mp hm with rfl | hm
          · exact fun listed => new (List.contains_iff_mem.mpr listed)
          · exact fun listed => fresh m hm isSingle (List.mem_cons_of_mem _ listed)
    · rename_i other
      obtain ⟨apart, fresh⟩ := ih keys
      refine ⟨List.pairwise_cons.mpr ⟨fun _ _ isSingle => absurd isSingle other, apart⟩,
        fun m hm isSingle => ?_⟩
      rcases List.mem_cons.mp hm with rfl | hm
      · exact absurd isSingle other
      · exact fresh m hm isSingle

theorem retarget_eq (uids : List (Uid × Uid)) (n : Node) :
    ∃ values : List Value, values.length = n.values.length ∧
      retarget uids n = { n with values } := by
  unfold retarget
  split
  · split
    · rename_i target rest values
      exact ⟨_, by rw [values]; rfl, rfl⟩
    · exact ⟨n.values, rfl, rfl⟩
  · exact ⟨n.values, rfl, rfl⟩

theorem retarget_uid (uids : List (Uid × Uid)) (n : Node) : (retarget uids n).uid = n.uid := by
  obtain ⟨values, -, same⟩ := retarget_eq uids n
  rw [same]

def added (g : Graph) (p : Plan) : List Uid := (p.additions g).map Node.uid

theorem added_eq (g : Graph) (p : Plan) : p.added g =
    (single (g.eventNodes.map Node.eventKey) (p.nodes.map (retarget p.uids))).map Node.uid := by
  rw [added, additions, List.map_map, List.map_map]
  rfl

theorem added_sublist (g : Graph) (p : Plan) : (p.added g).Sublist (p.nodes.map Node.uid) := by
  have part := (single_sublist (g.eventNodes.map Node.eventKey) (p.nodes.map (retarget p.uids))).map
    Node.uid
  rw [added_eq]
  have uids : (p.nodes.map (retarget p.uids)).map Node.uid = p.nodes.map Node.uid := by
    rw [List.map_map]
    exact List.map_congr_left fun n _ => retarget_uid p.uids n
  rwa [uids] at part

def brought (g : Graph) (keep : List Uid) (uids : List (Uid × Uid)) (k : Node) : Node :=
  release g keep (reconnect uids (retarget uids k))

theorem additions_eq_map (g : Graph) (p : Plan) : p.additions g =
    (single (g.eventNodes.map Node.eventKey) (p.nodes.map (retarget p.uids))).map fun n =>
      release g (p.added g) (reconnect p.uids n) := by
  have same : (List.map (reconnect p.uids) (single (g.eventNodes.map Node.eventKey)
      (p.nodes.map (retarget p.uids)))).map Node.uid = p.added g := by
    rw [added_eq, List.map_map]
    rfl
  unfold additions
  dsimp only
  rw [same, List.map_map]
  rfl

theorem mem_additions (listed : m ∈ p.additions g) : ∃ k ∈ p.nodes,
    m = brought g (p.added g) p.uids k := by
  rw [additions_eq_map] at listed
  obtain ⟨_, kept, rfl⟩ := List.mem_map.mp listed
  obtain ⟨k, hk, rfl⟩ := List.mem_map.mp ((single_sublist _ _).subset kept)
  exact ⟨k, hk, rfl⟩

section Brought

variable {k : Node} {uids : List (Uid × Uid)} {keep : List Uid}

theorem brought_uid : (brought g keep uids k).uid = k.uid := retarget_uid uids k

theorem brought_fullName : (brought g keep uids k).fullName = k.fullName := by
  obtain ⟨values, -, same⟩ := retarget_eq uids k
  rw [brought, same]
  rfl

theorem brought_sized {d : Definition} (sized : k.Sized d) : (brought g keep uids k).Sized d := by
  obtain ⟨values, length, same⟩ := retarget_eq uids k
  rw [brought, same]
  refine ⟨?_, length ▸ sized.values, fun other => ?_⟩
  · exact (List.length_map _).trans ((List.length_map _).trans sized.links)
  · exact (List.length_map _).trans ((List.length_map _).trans (sized.flows other))

theorem mem_links_brought {link : Link} (listed : some link ∈ (brought g keep uids k).links) :
    (link.node ∈ keep ∨ link.node ∈ g.uids) ∧
      ∃ old, some old ∈ k.links ∧ uids.lookup old.node = some link.node ∧
        link.output = old.output := by
  obtain ⟨values, -, same⟩ := retarget_eq uids k
  rw [brought, same] at listed
  obtain ⟨_, connected, released⟩ := List.mem_map.mp listed
  obtain ⟨rfl, kept⟩ := Option.filter_eq_some_iff.mp released
  obtain ⟨_, there, follows⟩ := List.mem_map.mp connected
  obtain ⟨old, rfl, stands⟩ := Option.bind_eq_some_iff.mp follows
  obtain ⟨node, found, rfl⟩ := Option.map_eq_some_iff.mp stands
  refine ⟨?_, old, there, found, rfl⟩
  rw [Bool.or_eq_true, List.contains_iff_mem] at kept
  refine kept.imp_right fun there => ?_
  obtain ⟨n, found⟩ := Option.isSome_iff_exists.mp there
  exact Graph.find?_uid found ▸ Graph.uid_mem (Graph.find?_mem found)

theorem mem_flows_brought {target : Uid} (listed : some target ∈ (brought g keep uids k).flows) :
    target ∈ keep ∧ ∃ old, some old ∈ k.flows ∧ uids.lookup old = some target := by
  obtain ⟨values, -, same⟩ := retarget_eq uids k
  rw [brought, same] at listed
  obtain ⟨_, connected, released⟩ := List.mem_map.mp listed
  obtain ⟨rfl, kept⟩ := Option.filter_eq_some_iff.mp released
  obtain ⟨_, there, follows⟩ := List.mem_map.mp connected
  obtain ⟨old, rfl, found⟩ := Option.bind_eq_some_iff.mp follows
  exact ⟨List.contains_iff_mem.mp kept, old, there, found⟩

end Brought

theorem Drafts.conforms (drafts : Drafts c anchor n m) :
    ∃ d, c.find? m.fullName = some d ∧ m.fullName = n.fullName ∧ m.Conforms d := by
  obtain ⟨d, names, found, same⟩ := drafts
  have name : m.fullName = n.fullName := by
    rw [same]
    change (adapted names anchor n).1.fullName = _
    unfold adapted
    split <;> rfl
  exact ⟨d, name ▸ found, name, same ▸ Node.conform_conforms _ d⟩

theorem Drafts.links (drafts : Drafts c anchor n m) {link : Link} (listed : some link ∈ m.links) :
    some link ∈ n.links := by
  obtain ⟨d, names, -, same⟩ := drafts
  rw [same] at listed
  have listed := Node.mem_links_conform listed
  unfold adapted at listed
  split at listed <;> exact listed

theorem Drafts.flows (drafts : Drafts c anchor n m) {target : Uid} (listed : some target ∈ m.flows) :
    some target ∈ n.flows := by
  obtain ⟨d, names, -, same⟩ := drafts
  rw [same] at listed
  have listed := Node.mem_flows_conform listed
  unfold adapted at listed
  split at listed <;> exact listed

end Plan

end ScriptGraph
