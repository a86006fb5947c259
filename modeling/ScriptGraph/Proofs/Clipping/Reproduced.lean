import ScriptGraph.Proofs.Clipping.Copies

/-!
How what a plan adds answers to a clipping. Every node of the clipping that is wanted is copied, in the
order of the clipping, and the copies are connected to each other just as the nodes are. All that leads
from them to anything else leads to variables of the graph.
-/

set_option autoImplicit false
set_option relaxedAutoImplicit false

namespace ScriptGraph

namespace Plan

variable {c : Catalog} {g : Graph} {anchor : Position} {q : Supply} {p : Plan}
  {source : List Node} {drafts copies : List (Node × Node)} {uids : List (Uid × Uid)} {n m : Node}
  {u v : Uid}

/-! ## Which nodes are copied -/

/-- A variable of the graph stands for a node of a clipping. -/
def Reuses (c : Catalog) (g : Graph) (n : Node) (uid : Uid) : Prop :=
  (c.find? n.fullName).isSome ∧ reused? g n = some uid

/-- A node has a definition, and nothing of the graph stands for it. -/
def wanted (c : Catalog) (g : Graph) (n : Node) : Bool :=
  (c.find? n.fullName).isSome && (reused? g n).isNone

def copyKey? (c : Catalog) (uids : List (Uid × Uid)) (n : Node) : Option String :=
  (c.find? n.fullName).bind fun d => (retarget uids (n.conform d)).singleKey?

/-- A single event that the graph has already, or that came earlier. -/
def Repeats (c : Catalog) (g : Graph) (uids : List (Uid × Uid)) (before : List Node) (n : Node) :
    Prop :=
  ∃ key, copyKey? c uids n = some key ∧
    ((∃ k ∈ g.nodes, k.singleKey? = some key) ∨ ∃ k ∈ before, copyKey? c uids k = some key)

/-- The uid of the copy of the node with a uid. -/
def copyOf? (copies : List (Node × Node)) (uid : Uid) : Option Uid :=
  (copies.map fun e => (e.1.uid, e.2.uid)).lookup uid

/-- Nodes of a clipping with their copies, in a plan that keeps what stands for which uid. -/
structure Reproduces (c : Catalog) (g : Graph) (uids : List (Uid × Uid)) (source : List Node)
    (copies : List (Node × Node)) : Prop where
  inOrder : (copies.map Prod.fst).Sublist source
  chosen : ∀ before n after, source = before ++ n :: after → (n ∈ copies.map Prod.fst ↔
    (c.find? n.fullName).isSome ∧ reused? g n = none ∧ ¬Repeats c g uids before n)
  distinct : (copies.map fun e => e.2.uid).Nodup
  new : ∀ e ∈ copies, e.2.uid ∉ g.uids
  fullName : ∀ e ∈ copies, e.2.fullName = e.1.fullName
  /-- Copies stand for what they are copies of, -/
  copied : ∀ e ∈ copies, uids.lookup e.1.uid = some e.2.uid
  /-- and variables of the graph for what they replace. -/
  reused : ∀ k ∈ source, ∀ v, Reuses c g k v → uids.lookup k.uid = some v
  unlisted : ∀ u ∉ source.map Node.uid, uids.lookup u = none
  inputs : ∀ e ∈ copies, e.2.links.length = e.1.links.length
  /-- Links among the copies are those among the nodes. -/
  links : ∀ e ∈ copies, ∀ f ∈ copies, ∀ i output : Nat,
    e.2.links[i]? = some (some ⟨f.2.uid, output⟩) ↔ e.1.links[i]? = some (some ⟨f.1.uid, output⟩)
  /-- All other links lead to variables of the graph. -/
  leaving : ∀ e ∈ copies, ∀ (i : Nat) (link : Link), link.node ∉ copies.map (fun f => f.2.uid) →
    (e.2.links[i]? = some (some link) ↔
      ∃ k ∈ source, Reuses c g k link.node ∧ e.1.links[i]? = some (some ⟨k.uid, link.output⟩))
  /-- Flows lead from copies to copies only, in the same order. -/
  targets : ∀ e ∈ copies, e.2.targets = e.1.targets.filterMap (copyOf? copies)
  ports : ∀ e ∈ copies, e.1.kind ≠ .block →
    e.2.flows = e.1.flows.map fun flow => flow.bind (copyOf? copies)
  bound : ∀ e ∈ copies, e.1.access?.isSome → ∀ u, e.1.values[0]? = some (.text u) →
    e.2.values[0]? = some (.text ((uids.lookup u).getD u))
  /-- Literals are kept, apart from the uid of the variable a node is bound to and the name of a
  variable. -/
  literals : ∀ e ∈ copies, ∀ (i : Nat) (value : Value), e.1.values[i]? = some value →
    (e.1.access?.isSome → i ≠ 0) → (e.1.isVariable → i ≠ nameInput) → e.2.values[i]? = some value

/-! ## Drafts in order -/

/-- A plan for some nodes, with its drafts and what they are drafted from. -/
structure Traces (c : Catalog) (g : Graph) (anchor : Position) (source : List Node) (p : Plan)
    (drafts : List (Node × Node)) : Prop where
  originals : drafts.map Prod.fst = source.filter (wanted c g)
  nodes : drafts.map Prod.snd = p.nodes
  drafted : ∀ e ∈ drafts, Drafts c anchor e.1 e.2
  keys : p.uids.map Prod.fst =
    ((source.filter fun n => (c.find? n.fullName).isSome).map Node.uid).reverse
  copied : ∀ e ∈ drafts, (e.1.uid, e.2.uid) ∈ p.uids
  reused : ∀ k ∈ source, ∀ v, Reuses c g k v → (k.uid, v) ∈ p.uids
  stands : ∀ u v, (u, v) ∈ p.uids → (∃ k ∈ source, k.uid = u ∧ Reuses c g k v) ∨
    ∃ e ∈ drafts, e.1.uid = u ∧ e.2.uid = v

private theorem Traces.skip (traces : Traces c g anchor source p drafts)
    (unknown : c.find? n.fullName = none) : Traces c g anchor (source ++ [n]) p drafts := by
  have same : ∀ keep : Node → Bool, keep n = false →
      (source ++ [n]).filter keep = source.filter keep := fun keep left => by
    rw [List.filter_append, List.filter_singleton, left]
    exact List.append_nil _
  refine { traces with originals := ?_, keys := ?_, reused := ?_, stands := ?_ }
  · rw [same _ (by rw [wanted, unknown]; rfl)]
    exact traces.originals
  · rw [same _ (by rw [unknown]; rfl)]
    exact traces.keys
  · intro k hk v reuses
    rcases List.mem_append.mp hk with hk | hk
    · exact traces.reused k hk v reuses
    · obtain rfl := List.mem_singleton.mp hk
      rw [Reuses, unknown] at reuses
      exact absurd reuses.1 (by decide)
  · intro u v listed
    refine (traces.stands u v listed).imp_left ?_
    rintro ⟨k, hk, stands⟩
    exact ⟨k, List.mem_append_left _ hk, stands⟩

private theorem Traces.reuse (traces : Traces c g anchor source p drafts) (reuses : Reuses c g n v) :
    Traces c g anchor (source ++ [n]) { p with uids := (n.uid, v) :: p.uids } drafts := by
  obtain ⟨known, found⟩ := reuses
  refine { traces with originals := ?_, keys := ?_, copied := ?_, reused := ?_, stands := ?_ }
  · have left : wanted c g n = false := by rw [wanted, found, Option.isNone_some, Bool.and_false]
    rw [List.filter_append, List.filter_singleton, left]
    exact traces.originals.trans (List.append_nil _).symm
  · rw [List.filter_append, List.filter_singleton, known, List.map_cons, traces.keys]
    simp
  · exact fun e he => List.mem_cons_of_mem _ (traces.copied e he)
  · intro k hk w reuses
    rcases List.mem_append.mp hk with hk | hk
    · exact List.mem_cons_of_mem _ (traces.reused k hk w reuses)
    · obtain rfl := List.mem_singleton.mp hk
      cases found.symm.trans reuses.2
      exact List.mem_cons_self
  · intro u w listed
    rcases List.mem_cons.mp listed with same | listed
    · cases same
      exact .inl ⟨n, List.mem_append_right _ List.mem_cons_self, rfl, known, found⟩
    · refine (traces.stands u w listed).imp_left ?_
      rintro ⟨k, hk, stands⟩
      exact ⟨k, List.mem_append_left _ hk, stands⟩

private theorem Traces.draw (traces : Traces c g anchor source p drafts)
    (chosen : wanted c g n) (drafted : Drafts c anchor n m) (names : List String) (supply : Supply) :
    Traces c g anchor (source ++ [n]) ⟨(n.uid, m.uid) :: p.uids, names, p.nodes ++ [m], supply⟩
      (drafts ++ [(n, m)]) := by
  have known : (c.find? n.fullName).isSome := (Bool.and_eq_true_iff.mp chosen).1
  constructor
  case originals =>
    rw [List.map_append, traces.originals, List.filter_append, List.filter_singleton, chosen]
    rfl
  case nodes =>
    rw [List.map_append, traces.nodes]
    rfl
  case drafted =>
    intro e he
    rcases List.mem_append.mp he with he | he
    · exact traces.drafted e he
    · obtain rfl := List.mem_singleton.mp he
      exact drafted
  case keys =>
    rw [List.filter_append, List.filter_singleton, known, List.map_cons, traces.keys]
    simp
  case copied =>
    intro e he
    rcases List.mem_append.mp he with he | he
    · exact List.mem_cons_of_mem _ (traces.copied e he)
    · obtain rfl := List.mem_singleton.mp he
      exact List.mem_cons_self
  case reused =>
    intro k hk v reuses
    rcases List.mem_append.mp hk with hk | hk
    · exact List.mem_cons_of_mem _ (traces.reused k hk v reuses)
    · obtain rfl := List.mem_singleton.mp hk
      rw [wanted, reuses.2, Option.isNone_some, Bool.and_false] at chosen
      cases chosen
  case stands =>
    intro u v listed
    rcases List.mem_cons.mp listed with same | listed
    · cases same
      exact .inr ⟨(n, m), List.mem_append_right _ List.mem_cons_self, rfl, rfl⟩
    · refine (traces.stands u v listed).imp ?_ ?_
      · rintro ⟨k, hk, stands⟩
        exact ⟨k, List.mem_append_left _ hk, stands⟩
      · rintro ⟨e, he, stands⟩
        exact ⟨e, List.mem_append_left _ he, stands⟩

theorem Traces.add (traces : Traces c g anchor source p drafts) (n : Node) :
    ∃ more, Traces c g anchor (source ++ [n]) (p.add c g anchor n) more := by
  unfold Plan.add
  split
  case h_1 unknown => exact ⟨drafts, traces.skip unknown⟩
  case h_2 d found =>
    have known : (c.find? n.fullName).isSome := by rw [found]; rfl
    split
    case h_1 v reuses => exact ⟨drafts, traces.reuse ⟨known, reuses⟩⟩
    case h_2 unused =>
      have chosen : wanted c g n := by rw [wanted, known, unused]; rfl
      have drafted : Drafts c anchor n
          ({ (adapted p.names anchor n).1 with uid := p.supply.draw.1 }.conform d) :=
        ⟨d, p.names, found, rfl⟩
      exact ⟨_, traces.draw chosen drafted (adapted p.names anchor n).2 p.supply.draw.2⟩

theorem ofClipping_traces (c : Catalog) (g : Graph) (anchor : Position) (q : Supply)
    (clipping : Clipping) : ∃ drafts,
      Traces c g anchor clipping.nodes (ofClipping c g anchor q clipping) drafts := by
  suffices ∀ more source p drafts, Traces c g anchor source p drafts →
      ∃ drafts, Traces c g anchor (source ++ more) (more.foldl (add c g anchor) p) drafts from
    this clipping.nodes [] ⟨[], g.variableNames, [], q⟩ []
      ⟨rfl, rfl, fun _ he => absurd he List.not_mem_nil, rfl, fun _ he => absurd he List.not_mem_nil,
        fun _ hk => absurd hk List.not_mem_nil, fun _ _ hu => absurd hu List.not_mem_nil⟩
  intro more
  induction more with
  | nil =>
    intro source p drafts traces
    exact ⟨drafts, by rwa [List.append_nil]⟩
  | cons n more ih =>
    intro source p drafts traces
    obtain ⟨further, traces⟩ := traces.add n
    rw [List.append_cons]
    exact ih _ _ _ traces

section Traces

variable (traces : Traces c g anchor source p drafts)
include traces

theorem Traces.mem_source {e : Node × Node} (drafted : e ∈ drafts) :
    e.1 ∈ source ∧ wanted c g e.1 := by
  have listed : e.1 ∈ source.filter (wanted c g) := traces.originals ▸ List.mem_map_of_mem drafted
  exact List.mem_filter.mp listed

variable (distinct : (source.map Node.uid).Nodup)
include distinct

theorem Traces.lookup_eq_some_iff : p.uids.lookup u = some v ↔
    (∃ k ∈ source, k.uid = u ∧ Reuses c g k v) ∨ ∃ e ∈ drafts, e.1.uid = u ∧ e.2.uid = v := by
  have keys : (p.uids.map Prod.fst).Nodup := by
    rw [traces.keys]
    exact List.nodup_reverse.mpr (distinct.sublist (List.filter_sublist.map Node.uid))
  constructor
  · exact fun found => traces.stands u v (mem_of_lookup_eq_some found)
  · rintro (⟨k, hk, rfl, reuses⟩ | ⟨e, he, rfl, rfl⟩)
    · exact lookup_eq_some_of_mem keys (traces.reused k hk v reuses)
    · exact lookup_eq_some_of_mem keys (traces.copied e he)

theorem Traces.apart : (drafts.map fun e => e.1.uid).Nodup := by
  have part : ((drafts.map Prod.fst).map Node.uid).Nodup := by
    rw [traces.originals]
    exact distinct.sublist (List.filter_sublist.map Node.uid)
  rwa [List.map_map] at part

end Traces

/-! ## Single events -/

theorem singleKey?_of_isVariable (declares : n.isVariable) : n.singleKey? = none := by
  have kind : n.kind = .variable := of_decide_eq_true declares
  have other : ¬n.isSingleEvent := by
    rw [Node.isSingleEvent, Node.isEvent, kind]
    decide
  exact if_neg other

theorem Drafts.singleKey?_retarget (drafts : Drafts c anchor n m) :
    (retarget uids m).singleKey? = copyKey? c uids n := by
  obtain ⟨d, names, found, same⟩ := drafts
  rw [copyKey?, found, Option.bind_some, same, retarget_eq_renamedTarget, retarget_eq_renamedTarget]
  by_cases declares : n.isVariable
  · have adapts : (adapted names anchor n).1.fullName = n.fullName := by
      rw [adapted, if_pos declares]
    rw [singleKey?_of_isVariable, singleKey?_of_isVariable]
    · exact declares
    · rw [Node.isVariable, Node.kind]
      change decide (Kind.ofName (adapted names anchor n).1.fullName = .variable) = true
      rw [adapts]
      exact declares
  · rw [adapted, if_neg declares]
    rfl

/-- What is kept of a list of nodes: of single events with one key the first, unless that key is taken. -/
theorem mem_single_iff {keys : List String} {before after : List Node}
    (distinct : ((before ++ m :: after).map Node.uid).Nodup) :
    m ∈ single keys (before ++ m :: after) ↔ ∀ key, m.singleKey? = some key →
      key ∉ keys ∧ ∀ k ∈ before, k.singleKey? ≠ some key := by
  induction before generalizing keys with
  | nil =>
    have unlisted : m ∉ after := fun listed =>
      (List.nodup_cons.mp distinct).1 (List.mem_map_of_mem listed)
    rw [List.nil_append, single]
    split
    case isTrue isSingle =>
      have keyed : m.singleKey? = some m.eventKey := if_pos isSingle
      split
      case isTrue taken =>
        refine ⟨fun listed => absurd ((single_sublist _ _).subset listed) unlisted, fun free => ?_⟩
        exact absurd (List.contains_iff_mem.mp taken) (free _ keyed).1
      case isFalse free =>
        refine ⟨fun _ key also => ?_, fun _ => List.mem_cons_self⟩
        cases keyed.symm.trans also
        exact ⟨fun taken => free (List.contains_iff_mem.mpr taken), fun _ hk => absurd hk List.not_mem_nil⟩
    case isFalse other =>
      refine ⟨fun _ key keyed => ?_, fun _ => List.mem_cons_self⟩
      rw [Node.singleKey?, if_neg other] at keyed
      cases keyed
  | cons k before ih =>
    obtain ⟨new, distinct⟩ := List.nodup_cons.mp distinct
    have differ : m ≠ k := by
      rintro rfl
      exact new (List.mem_map_of_mem (List.mem_append_right _ List.mem_cons_self))
    rw [List.cons_append, single]
    split
    case isTrue isSingle =>
      have keyed : k.singleKey? = some k.eventKey := if_pos isSingle
      split
      case isTrue taken =>
        rw [ih distinct]
        refine forall₂_congr fun key _ => and_congr_right fun free => ?_
        rw [List.forall_mem_cons, and_iff_right]
        rintro same
        cases keyed.symm.trans same
        exact free (List.contains_iff_mem.mp taken)
      case isFalse =>
        rw [List.mem_cons, or_iff_right differ, ih distinct]
        refine forall₂_congr fun key _ => ?_
        rw [List.mem_cons, List.forall_mem_cons, keyed, not_or, Option.some_inj.ne, ne_comm]
        tauto
    case isFalse other =>
      have unkeyed : k.singleKey? = none := if_neg other
      rw [List.mem_cons, or_iff_right differ, ih distinct]
      refine forall₂_congr fun key _ => and_congr_right fun _ => ?_
      rw [List.forall_mem_cons, unkeyed, and_iff_right]
      exact (Option.some_ne_none _).symm

theorem singleKey?_ne_customEventName (n : Node) : n.singleKey? ≠ some Kind.customEventName := by
  intro keyed
  by_cases change : n.kind = .changeEvent
  · rw [Node.singleKey?_of_changeEvent change, Option.some.injEq] at keyed
    have texts := congrArg String.toList keyed
    rw [String.toList_append, String.toList_append, List.append_assoc] at texts
    have letters : Kind.changeEventName.toList[6]? = Kind.customEventName.toList[6]? := by
      rw [← texts, List.getElem?_append_left (by decide)]
    exact absurd letters (by decide)
  · have named := Node.fullName_of_singleKey? change keyed
    have custom : n.kind = .customEvent := by
      rw [Node.kind, named]
      decide
    have other : ¬n.isSingleEvent := by
      rw [Node.isSingleEvent, custom]
      simp
    rw [Node.singleKey?, if_neg other] at keyed
    cases keyed

theorem mem_eventKeys_iff {key : String} (keyed : n.singleKey? = some key) :
    key ∈ g.eventNodes.map Node.eventKey ↔ ∃ k ∈ g.nodes, k.singleKey? = some key := by
  constructor
  · intro listed
    obtain ⟨k, hk, rfl⟩ := List.mem_map.mp listed
    obtain ⟨there, event⟩ := List.mem_filter.mp hk
    by_cases custom : k.kind = .customEvent
    · have named : k.fullName = Kind.customEventName :=
        Kind.name_eq (by rw [Node.kind] at custom; rw [custom]; decide) (custom.trans (by decide))
      have key : k.eventKey = Kind.customEventName := by
        rw [Node.eventKey, if_neg (by rw [custom]; decide), named]
      exact absurd (key ▸ keyed) (singleKey?_ne_customEventName n)
    · have isSingle : k.isSingleEvent := by
        rw [Node.isSingleEvent, event, Bool.true_and]
        exact decide_eq_true custom
      exact ⟨k, there, if_pos isSingle⟩
  · rintro ⟨k, there, keyed⟩
    unfold Node.singleKey? at keyed
    split at keyed
    · rename_i isSingle
      have event : k.isEvent := (Bool.and_eq_true_iff.mp isSingle).1
      rw [← Option.some.inj keyed]
      exact List.mem_map_of_mem (List.mem_filter.mpr ⟨there, event⟩)
    · cases keyed

/-! ## Connections -/

section Brought

variable {keep : List Uid} {k : Node}

theorem links_brought : (brought g keep uids k).links = k.links.map fun link =>
    (link.bind fun l => (uids.lookup l.node).map fun node => { l with node }).filter fun l =>
      keep.contains l.node || g.contains l.node := by
  obtain ⟨values, -, same⟩ := retarget_eq uids k
  rw [brought, same, release, reconnect]
  dsimp only
  rw [List.map_map]
  rfl

/-- A link leads to what stands for the node that it led to, if that is kept or in the graph. -/
theorem getElem?_links_brought {i : Nat} {link : Link} :
    (brought g keep uids k).links[i]? = some (some link) ↔ (link.node ∈ keep ∨ link.node ∈ g.uids) ∧
      ∃ node, k.links[i]? = some (some ⟨node, link.output⟩) ∧ uids.lookup node = some link.node := by
  have inside : (keep.contains link.node || g.contains link.node) = true ↔
      link.node ∈ keep ∨ link.node ∈ g.uids := by
    rw [Bool.or_eq_true, List.contains_iff_mem, Graph.contains_iff]
  rw [links_brought, List.getElem?_map, ← inside]
  constructor
  · intro leads
    obtain ⟨old, there, released⟩ := Option.map_eq_some_iff.mp leads
    obtain ⟨follows, kept⟩ := Option.filter_eq_some_iff.mp released
    obtain ⟨l, rfl, stands⟩ := Option.bind_eq_some_iff.mp follows
    obtain ⟨node, found, rfl⟩ := Option.map_eq_some_iff.mp stands
    exact ⟨kept, l.node, there, found⟩
  · rintro ⟨kept, node, there, found⟩
    rw [there, Option.map_some, Option.bind_some, found, Option.map_some,
      Option.filter_some, if_pos kept]

theorem flows_brought : (brought g keep uids k).flows =
    k.flows.map fun flow => flow.bind fun target => (uids.lookup target).filter keep.contains := by
  obtain ⟨values, -, same⟩ := retarget_eq uids k
  rw [brought, same, release, reconnect]
  dsimp only
  rw [List.map_map]
  refine List.map_congr_left fun flow _ => ?_
  cases flow <;> rfl

theorem values_brought : (brought g keep uids k).values = if k.access?.isSome
    then Node.renamedTarget (fun u => (uids.lookup u).getD u) k.values else k.values := by
  rw [brought, retarget_eq_renamedTarget]
  rfl

end Brought

theorem filterMap_id_map_bind (follow : Uid → Option Uid) (flows : List (Option Uid)) :
    (flows.map fun flow => flow.bind follow).filterMap id = (flows.filterMap id).filterMap follow := by
  rw [List.filterMap_map, List.filterMap_filterMap]
  rfl

section Drafts

variable (drafted : Drafts c anchor n m)
include drafted

theorem Drafts.links_eq
    (shaped : ∀ d, c.find? n.fullName = some d → n.links.length = d.inputs.length) :
    m.links = n.links := by
  obtain ⟨d, names, found, same⟩ := drafted
  have kept : (adapted names anchor n).1.links = n.links := by
    unfold adapted
    split <;> rfl
  rw [same]
  change fitted d.inputs.length (adapted names anchor n).1.links = _
  rw [kept, ← shaped d found, fitted_length]

theorem Drafts.flows_eq : ∃ d, c.find? n.fullName = some d ∧ m.flows = (Node.laidOut d n.flows).1 := by
  obtain ⟨d, names, found, same⟩ := drafted
  have kept : (adapted names anchor n).1.flows = n.flows := by
    unfold adapted
    split <;> rfl
  rw [same, ← kept]
  exact ⟨d, found, rfl⟩

theorem Drafts.values_eq {i : Nat} {value : Value} (there : n.values[i]? = some value)
    (other : n.isVariable → i ≠ nameInput) : m.values[i]? = some value := by
  obtain ⟨d, names, -, same⟩ := drafted
  have kept : (adapted names anchor n).1.values[i]? = some value := by
    unfold adapted
    split
    · rename_i declares
      change (n.values.set nameInput _)[i]? = _
      rw [List.getElem?_set_ne (Ne.symm (other declares)), there]
    · exact there
  rw [same]
  change ((adapted names anchor n).1.values ++ _)[i]? = _
  rw [List.getElem?_append_left (List.getElem?_eq_some_iff.mp kept).1, kept]

end Drafts

/-! ## What is kept -/

theorem wanted_of_copyKey? {key : String} (keyed : copyKey? c uids n = some key) : wanted c g n := by
  obtain ⟨d, found, keyed⟩ := Option.bind_eq_some_iff.mp keyed
  have unused : reused? g n = none := by
    refine Option.eq_none_iff_forall_ne_some.mpr fun v reuses => ?_
    have declares : (retarget uids (n.conform d)).isVariable := by
      rw [retarget_eq_renamedTarget]
      exact (reused?_eq_some reuses).1
    rw [singleKey?_of_isVariable declares] at keyed
    cases keyed
  rw [wanted, found, unused]
  rfl

/-- Of the drafts of a plan those that are kept, in a graph to which their uids are new. -/
structure Keeps (c : Catalog) (g : Graph) (anchor : Position) (source : List Node) (p : Plan)
    (drafts kept : List (Node × Node)) : Prop where
  traces : Traces c g anchor source p drafts
  distinct : (source.map Node.uid).Nodup
  apart : (drafts.map fun e => e.2.uid).Nodup
  new : ∀ e ∈ drafts, e.2.uid ∉ g.uids
  part : kept.Sublist drafts
  single : single (g.eventNodes.map Node.eventKey) (p.nodes.map (retarget p.uids)) =
    kept.map fun e => retarget p.uids e.2

theorem Traces.keeps (traces : Traces c g anchor source p drafts)
    (sketches : Sketches c g anchor q source p) (fresh : q.Fresh g.uids)
    (distinct : (source.map Node.uid).Nodup) : ∃ kept, Keeps c g anchor source p drafts kept := by
  have retargeted : p.nodes.map (retarget p.uids) = drafts.map fun e => retarget p.uids e.2 := by
    rw [← traces.nodes, List.map_map]
    rfl
  have within : (single (g.eventNodes.map Node.eventKey) (p.nodes.map (retarget p.uids))).Sublist
      (drafts.map fun e => retarget p.uids e.2) := by
    rw [← retargeted]
    exact single_sublist _ _
  have drawn : (drafts.map fun e => e.2.uid) = q.upcoming p.nodes.length := by
    rw [← sketches.uids, ← traces.nodes, List.map_map]
    rfl
  obtain ⟨kept, part, same⟩ := List.sublist_map_iff.mp within
  refine ⟨kept, traces, distinct, drawn ▸ fresh.upcoming_nodup _, fun e he => ?_, part, same⟩
  exact fresh.upcoming_unused (drawn ▸ List.mem_map_of_mem he)

namespace Keeps

variable {kept : List (Node × Node)} (keeps : Keeps c g anchor source p drafts kept)
include keeps

theorem drafted {e : Node × Node} (listed : e ∈ kept) : Drafts c anchor e.1 e.2 :=
  keeps.traces.drafted e (keeps.part.subset listed)

theorem mem_source {e : Node × Node} (listed : e ∈ kept) : e.1 ∈ source ∧ wanted c g e.1 :=
  keeps.traces.mem_source (keeps.part.subset listed)

theorem added_eq : p.added g = kept.map fun e => e.2.uid := by
  rw [Plan.added_eq, keeps.single, List.map_map]
  exact List.map_congr_left fun e _ => retarget_uid p.uids e.2

theorem lookup_eq_some_iff (listed : v ∈ p.added g) :
    p.uids.lookup u = some v ↔ ∃ e ∈ kept, e.1.uid = u ∧ e.2.uid = v := by
  rw [keeps.added_eq] at listed
  obtain ⟨e, he, rfl⟩ := List.mem_map.mp listed
  rw [keeps.traces.lookup_eq_some_iff keeps.distinct]
  constructor
  · rintro (⟨k, -, -, reuses⟩ | ⟨f, hf, rfl, same⟩)
    · obtain ⟨-, k, there, same, -⟩ := reused?_eq_some reuses.2
      exact absurd (same ▸ Graph.uid_mem there) (keeps.new e (keeps.part.subset he))
    · obtain rfl := List.inj_on_of_nodup_map keeps.apart hf (keeps.part.subset he) same
      exact ⟨f, he, rfl, rfl⟩
  · rintro ⟨f, hf, stands⟩
    exact .inr ⟨f, keeps.part.subset hf, stands⟩

/-! ### Events -/

theorem mem_iff_of_draft (here : (n, m) ∈ drafts) : n ∈ kept.map Prod.fst ↔ retarget p.uids m ∈
    Plan.single (g.eventNodes.map Node.eventKey) (p.nodes.map (retarget p.uids)) := by
  rw [keeps.single]
  constructor
  · intro listed
    obtain ⟨e, he, same⟩ := List.mem_map.mp listed
    obtain rfl := List.inj_on_of_nodup_map (keeps.traces.apart keeps.distinct) (keeps.part.subset he)
      here (congrArg Node.uid same)
    exact List.mem_map.mpr ⟨_, he, rfl⟩
  · intro listed
    obtain ⟨e, he, same⟩ := List.mem_map.mp listed
    have uid : e.2.uid = m.uid := by rw [← retarget_uid p.uids e.2, same, retarget_uid]
    obtain rfl := List.inj_on_of_nodup_map keeps.apart (keeps.part.subset he) here uid
    exact List.mem_map.mpr ⟨_, he, rfl⟩

theorem earlier_key_iff {earlier : List (Node × Node)} {before : List Node}
    (drafted : ∀ e ∈ earlier, e ∈ drafts) (originals : before.filter (wanted c g) = earlier.map Prod.fst)
    (key : String) : (∃ k ∈ before, copyKey? c p.uids k = some key) ↔
      ∃ k ∈ earlier.map fun e => retarget p.uids e.2, k.singleKey? = some key := by
  have keys : ∀ e ∈ earlier, (retarget p.uids e.2).singleKey? = copyKey? c p.uids e.1 :=
    fun e he => (keeps.traces.drafted e (drafted e he)).singleKey?_retarget
  constructor
  · rintro ⟨k, hk, keyed⟩
    have listed : k ∈ earlier.map Prod.fst :=
      originals ▸ List.mem_filter.mpr ⟨hk, wanted_of_copyKey? keyed⟩
    obtain ⟨e, he, rfl⟩ := List.mem_map.mp listed
    exact ⟨_, List.mem_map_of_mem he, (keys e he).trans keyed⟩
  · rintro ⟨_, listed, keyed⟩
    obtain ⟨e, he, rfl⟩ := List.mem_map.mp listed
    have there : e.1 ∈ before.filter (wanted c g) := originals ▸ List.mem_map_of_mem he
    exact ⟨e.1, (List.mem_filter.mp there).1, (keys e he).symm.trans keyed⟩

theorem mem_iff {before after : List Node} (split : source = before ++ n :: after) :
    n ∈ kept.map Prod.fst ↔
      (c.find? n.fullName).isSome ∧ reused? g n = none ∧ ¬Repeats c g p.uids before n := by
  by_cases chosen : wanted c g n
  case neg =>
    have unwanted : ¬((c.find? n.fullName).isSome ∧ reused? g n = none) := by
      rwa [wanted, Bool.and_eq_true, Option.isNone_iff_eq_none] at chosen
    refine iff_of_false (fun listed => ?_) fun both => unwanted ⟨both.1, both.2.1⟩
    obtain ⟨e, he, rfl⟩ := List.mem_map.mp listed
    exact chosen (keeps.mem_source he).2
  case pos =>
    obtain ⟨known, unused⟩ := Bool.and_eq_true_iff.mp chosen
    have originals := keeps.traces.originals
    rw [split, List.filter_append, List.filter_cons_of_pos chosen] at originals
    obtain ⟨earlier, rest, rfl, first, second⟩ := List.map_eq_append_iff.mp originals
    obtain ⟨⟨n, m⟩, later, rfl, rfl, -⟩ := List.map_eq_cons_iff.mp second
    have here : (n, m) ∈ earlier ++ (n, m) :: later := List.mem_append_right _ List.mem_cons_self
    have inOrder : p.nodes.map (retarget p.uids) = (earlier.map fun e => retarget p.uids e.2) ++
        retarget p.uids m :: later.map fun e => retarget p.uids e.2 := by
      rw [← keeps.traces.nodes, List.map_map, List.map_append, List.map_cons]
      rfl
    have differ : ((p.nodes.map (retarget p.uids)).map Node.uid).Nodup := by
      have uids : (p.nodes.map (retarget p.uids)).map Node.uid =
          ((earlier ++ (n, m) :: later).map fun e => e.2.uid) := by
        rw [← keeps.traces.nodes, List.map_map, List.map_map]
        exact List.map_congr_left fun e _ => retarget_uid p.uids e.2
      exact uids ▸ keeps.apart
    have key : (retarget p.uids m).singleKey? = copyKey? c p.uids n :=
      (keeps.traces.drafted _ here).singleKey?_retarget
    rw [inOrder] at differ
    rw [keeps.mem_iff_of_draft here, inOrder, mem_single_iff differ, key, and_iff_right known,
      and_iff_right (Option.isNone_iff_eq_none.mp unused), Repeats, not_exists]
    refine forall_congr' fun k => ?_
    rw [not_and]
    refine forall_congr' fun keyed => ?_
    rw [mem_eventKeys_iff (key.trans keyed), not_or,
      keeps.earlier_key_iff (fun e he => List.mem_append_left _ he) first.symm]
    refine and_congr_right fun _ => ?_
    push Not
    rfl

/-! ### Connections of the copies -/

theorem copyOf?_eq : copyOf? (kept.map fun e => (e.1, brought g (p.added g) p.uids e.2)) =
    fun target => (p.uids.lookup target).filter (p.added g).contains := by
  funext u
  have entries : (kept.map fun e => (e.1, brought g (p.added g) p.uids e.2)).map
      (fun e => (e.1.uid, e.2.uid)) = kept.map fun e => (e.1.uid, e.2.uid) := by
    rw [List.map_map]
    exact List.map_congr_left fun e _ => congrArg (Prod.mk e.1.uid) brought_uid
  have keys : ((kept.map fun e => (e.1.uid, e.2.uid)).map Prod.fst).Nodup := by
    rw [List.map_map]
    exact (keeps.traces.apart keeps.distinct).sublist (keeps.part.map _)
  rw [copyOf?, entries]
  ext v
  constructor
  · intro found
    obtain ⟨e, he, same⟩ := List.mem_map.mp (mem_of_lookup_eq_some found)
    cases same
    have listed : e.2.uid ∈ p.added g := keeps.added_eq ▸ List.mem_map.mpr ⟨e, he, rfl⟩
    exact Option.filter_eq_some_iff.mpr
      ⟨(keeps.lookup_eq_some_iff listed).mpr ⟨e, he, rfl, rfl⟩, List.contains_iff_mem.mpr listed⟩
  · intro found
    obtain ⟨stands, listed⟩ := Option.filter_eq_some_iff.mp found
    obtain ⟨e, he, rfl, rfl⟩ :=
      (keeps.lookup_eq_some_iff (List.contains_iff_mem.mp listed)).mp stands
    exact lookup_eq_some_of_mem keys (List.mem_map.mpr ⟨e, he, rfl⟩)

section Links

variable {e : Node × Node} (shaped : e.2.links = e.1.links) {i : Nat}
include shaped

theorem link_iff {f : Node × Node} (there : f ∈ kept) {output : Nat} :
    (brought g (p.added g) p.uids e.2).links[i]? = some (some ⟨f.2.uid, output⟩) ↔
      e.1.links[i]? = some (some ⟨f.1.uid, output⟩) := by
  have listed : f.2.uid ∈ p.added g := keeps.added_eq ▸ List.mem_map.mpr ⟨f, there, rfl⟩
  have stands := fun u => keeps.lookup_eq_some_iff (u := u) listed
  rw [getElem?_links_brought, shaped, and_iff_right (.inl listed)]
  constructor
  · rintro ⟨node, leads, found⟩
    obtain ⟨k, hk, rfl, same⟩ := (stands node).mp found
    obtain rfl := List.inj_on_of_nodup_map keeps.apart (keeps.part.subset hk)
      (keeps.part.subset there) same
    exact leads
  · exact fun leads => ⟨f.1.uid, leads, (stands _).mpr ⟨f, there, rfl, rfl⟩⟩

theorem leaving_iff {link : Link} (outside : link.node ∉ p.added g) :
    (brought g (p.added g) p.uids e.2).links[i]? = some (some link) ↔
      ∃ k ∈ source, Reuses c g k link.node ∧ e.1.links[i]? = some (some ⟨k.uid, link.output⟩) := by
  rw [getElem?_links_brought, shaped, or_iff_right outside]
  constructor
  · rintro ⟨inside, node, leads, found⟩
    rcases (keeps.traces.lookup_eq_some_iff keeps.distinct).mp found with
      ⟨k, hk, rfl, reuses⟩ | ⟨f, hf, -, same⟩
    · exact ⟨k, hk, reuses, leads⟩
    · exact absurd (same ▸ inside) (keeps.new f hf)
  · rintro ⟨k, hk, reuses, leads⟩
    obtain ⟨-, v, hv, same, -⟩ := reused?_eq_some reuses.2
    refine ⟨same ▸ Graph.uid_mem hv, k.uid, leads, ?_⟩
    exact (keeps.traces.lookup_eq_some_iff keeps.distinct).mpr (.inl ⟨k, hk, rfl, reuses⟩)

end Links

theorem targets_eq {e : Node × Node} (here : e ∈ kept)
    (shaped : ∀ d, c.find? e.1.fullName = some d → e.1.flows.length = Node.flowPorts d e.1.flows) :
    (brought g (p.added g) p.uids e.2).targets = e.1.targets.filterMap
      (copyOf? (kept.map fun e => (e.1, brought g (p.added g) p.uids e.2))) ∧
    (e.1.kind ≠ .block → (brought g (p.added g) p.uids e.2).flows = e.1.flows.map fun flow =>
      flow.bind (copyOf? (kept.map fun e => (e.1, brought g (p.added g) p.uids e.2)))) := by
  obtain ⟨d, found, flows⟩ := (keeps.drafted here).flows_eq
  have kind : d.kind = e.1.kind := Catalog.find?_kind found
  rw [keeps.copyOf?_eq, Node.targets, flows_brought, filterMap_id_map_bind, flows]
  by_cases block : e.1.kind = .block
  · have targets : (Node.laidOut d e.1.flows).1.filterMap id = e.1.targets := by
      rw [Node.laidOut_block (kind.trans block)]
      simp [Node.targets]
    exact ⟨by rw [targets], fun other => absurd block other⟩
  · have kept : (Node.laidOut d e.1.flows).1 = e.1.flows :=
      Node.laidOut_of_length (kind ▸ block) (shaped d found)
    rw [kept]
    exact ⟨rfl, fun _ => rfl⟩

end Keeps

/-! ### Literals of the copies -/

section Literals

variable {e : Node × Node} {keep : List Uid} (drafted : Drafts c anchor e.1 e.2)
include drafted

theorem Drafts.access? : e.2.access? = e.1.access? := by
  obtain ⟨-, -, name, -⟩ := drafted.conforms
  rw [Node.access?, Node.access?, Node.kind, Node.kind, name]

theorem Drafts.bound (access : e.1.access?.isSome) (there : e.1.values[0]? = some (.text u)) :
    (brought g keep uids e.2).values[0]? = some (.text ((uids.lookup u).getD u)) := by
  have other : e.1.isVariable → 0 ≠ nameInput := fun _ => by decide
  have first := drafted.values_eq there other
  rw [values_brought, drafted.access?, if_pos access]
  cases values : e.2.values with
  | nil =>
    rw [values] at first
    cases first
  | cons value rest =>
    rw [values, List.getElem?_cons_zero, Option.some.injEq] at first
    rw [first]
    rfl

theorem Drafts.literal {i : Nat} {value : Value} (there : e.1.values[i]? = some value)
    (unbound : e.1.access?.isSome → i ≠ 0) (unnamed : e.1.isVariable → i ≠ nameInput) :
    (brought g keep uids e.2).values[i]? = some value := by
  rw [values_brought, drafted.access?]
  split
  · rename_i access
    rw [Node.renamedTarget_getElem? (Nat.pos_of_ne_zero (unbound access))]
    exact drafted.values_eq there unnamed
  · exact drafted.values_eq there unnamed

end Literals

theorem Keeps.reproduces {kept : List (Node × Node)} (keeps : Keeps c g anchor source p drafts kept)
    (shaped : ∀ n ∈ source, ∀ d, c.find? n.fullName = some d →
      n.links.length = d.inputs.length ∧ n.flows.length = Node.flowPorts d n.flows) :
    Reproduces c g p.uids source (kept.map fun e => (e.1, brought g (p.added g) p.uids e.2)) := by
  have uids : ((kept.map fun e => (e.1, brought g (p.added g) p.uids e.2)).map fun e => e.2.uid) =
      p.added g := by
    rw [keeps.added_eq, List.map_map]
    exact List.map_congr_left fun e _ => brought_uid
  have firsts : (kept.map fun e => (e.1, brought g (p.added g) p.uids e.2)).map Prod.fst =
      kept.map Prod.fst := List.map_map
  have stands := fun u v => keeps.traces.lookup_eq_some_iff (u := u) (v := v) keeps.distinct
  have links : ∀ e ∈ kept, e.2.links = e.1.links := fun e he =>
    (keeps.drafted he).links_eq fun d found => (shaped e.1 (keeps.mem_source he).1 d found).1
  have flows := fun e (he : e ∈ kept) => keeps.targets_eq he fun d found =>
    (shaped e.1 (keeps.mem_source he).1 d found).2
  constructor
  case inOrder =>
    rw [firsts]
    refine (keeps.part.map Prod.fst).trans ?_
    rw [keeps.traces.originals]
    exact List.filter_sublist
  case chosen =>
    intro before n after split
    rw [firsts]
    exact keeps.mem_iff split
  case distinct =>
    rw [uids, keeps.added_eq]
    exact keeps.apart.sublist (keeps.part.map _)
  case new =>
    rw [List.forall_mem_map]
    intro e he
    rw [brought_uid]
    exact keeps.new e (keeps.part.subset he)
  case fullName =>
    rw [List.forall_mem_map]
    intro e he
    obtain ⟨-, -, name, -⟩ := (keeps.drafted he).conforms
    exact brought_fullName.trans name
  case copied =>
    rw [List.forall_mem_map]
    intro e he
    rw [brought_uid]
    exact (stands _ _).mpr (.inr ⟨e, keeps.part.subset he, rfl, rfl⟩)
  case reused => exact fun k hk v reuses => (stands _ _).mpr (.inl ⟨k, hk, rfl, reuses⟩)
  case unlisted =>
    intro u unlisted
    refine Option.eq_none_iff_forall_ne_some.mpr fun v found => unlisted ?_
    rcases (stands u v).mp found with ⟨k, hk, rfl, -⟩ | ⟨e, he, rfl, -⟩
    · exact List.mem_map_of_mem hk
    · exact List.mem_map_of_mem (keeps.traces.mem_source he).1
  case inputs =>
    rw [List.forall_mem_map]
    intro e he
    rw [links_brought, List.length_map, links e he]
  case links =>
    rw [List.forall_mem_map]
    intro e he
    rw [List.forall_mem_map]
    intro f hf i output
    rw [brought_uid]
    exact keeps.link_iff (links e he) hf
  case leaving =>
    rw [List.forall_mem_map]
    intro e he i link outside
    rw [uids] at outside
    exact keeps.leaving_iff (links e he) outside
  case targets =>
    rw [List.forall_mem_map]
    exact fun e he => (flows e he).1
  case ports =>
    rw [List.forall_mem_map]
    exact fun e he => (flows e he).2
  case bound =>
    rw [List.forall_mem_map]
    exact fun e he access u there => (keeps.drafted he).bound access there
  case literals =>
    rw [List.forall_mem_map]
    exact fun e he i value there unbound unnamed => (keeps.drafted he).literal there unbound unnamed

theorem ofClipping_reproduces (c : Catalog) (g : Graph) (anchor : Position) {q : Supply}
    {clipping : Clipping} (fresh : q.Fresh g.uids) (distinct : (clipping.nodes.map Node.uid).Nodup)
    (shaped : ∀ n ∈ clipping.nodes, ∀ d, c.find? n.fullName = some d →
      n.links.length = d.inputs.length ∧ n.flows.length = Node.flowPorts d n.flows) :
    ∃ copies, copies.map Prod.snd = (ofClipping c g anchor q clipping).additions g ∧
      Reproduces c g (ofClipping c g anchor q clipping).uids clipping.nodes copies := by
  obtain ⟨drafts, traces⟩ := ofClipping_traces c g anchor q clipping
  obtain ⟨kept, keeps⟩ := traces.keeps (ofClipping_sketches c g anchor q clipping) fresh distinct
  refine ⟨_, ?_, keeps.reproduces shaped⟩
  rw [additions_eq_map, keeps.single, List.map_map, List.map_map]
  rfl

end Plan

end ScriptGraph
