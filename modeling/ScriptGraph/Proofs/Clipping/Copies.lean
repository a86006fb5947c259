import ScriptGraph.Proofs.Clipping.Cut
import ScriptGraph.Proofs.Clipping.Plan
import ScriptGraph.Proofs.Node.Names
import ScriptGraph.Proofs.Renaming.Graph
import ScriptGraph.Proofs.Snapshot.Restored
import Mathlib.Data.List.Zip

/-!
What a plan adds to a graph without nodes. Of a clipping that is a graph of its own every node is added,
under a new uid and connected as it was: the graph is renamed.
-/

set_option autoImplicit false
set_option relaxedAutoImplicit false

namespace ScriptGraph

/-! ## New uids -/

def exchange (old new : List Uid) (uid : Uid) : Uid :=
  ((old.zip new ++ new.zip old).lookup uid).getD uid

section Exchange

variable {old new : List Uid} {uid : Uid}

theorem exchange_eq_self (unlisted : uid ∉ old) (other : uid ∉ new) : exchange old new uid = uid := by
  have absent : (old.zip new ++ new.zip old).lookup uid = none := by
    refine List.lookup_eq_none_iff.mpr fun entry listed => bne_iff_ne.mpr ?_
    rintro rfl
    rcases List.mem_append.mp listed with listed | listed
    · exact unlisted (List.of_mem_zip listed).1
    · exact other (List.of_mem_zip listed).1
  rw [exchange, absent, Option.getD_none]

variable (distinct : (old ++ new).Nodup) (length : old.length = new.length)
include distinct length

theorem exchange_of_mem {other : Uid} (listed : (uid, other) ∈ old.zip new ++ new.zip old) :
    exchange old new uid = other := by
  have keys : ((old.zip new ++ new.zip old).map Prod.fst).Nodup := by
    rwa [List.map_append, List.map_fst_zip (Nat.le_of_eq length),
      List.map_fst_zip (Nat.le_of_eq length.symm)]
  rw [exchange, lookup_eq_some_of_mem keys listed, Option.getD_some]

theorem exchange_involutive : Function.Involutive (exchange old new) := by
  intro uid
  cases found : (old.zip new ++ new.zip old).lookup uid with
  | none =>
    have same : exchange old new uid = uid := by rw [exchange, found, Option.getD_none]
    rw [same, same]
  | some other =>
    have listed := mem_of_lookup_eq_some found
    have swaps : ∀ l m : List Uid, (uid, other) ∈ l.zip m → (other, uid) ∈ m.zip l := by
      intro l m listed
      rw [← List.zip_swap]
      exact List.mem_map_of_mem listed
    have back : (other, uid) ∈ old.zip new ++ new.zip old :=
      List.mem_append.mpr ((List.mem_append.mp listed).symm.imp (swaps _ _) (swaps _ _))
    rw [exchange_of_mem distinct length listed, exchange_of_mem distinct length back]

theorem map_exchange : old.map (exchange old new) = new := by
  calc old.map (exchange old new)
      = ((old.zip new).map Prod.fst).map (exchange old new) := by
        rw [List.map_fst_zip (Nat.le_of_eq length)]
    _ = (old.zip new).map (exchange old new ∘ Prod.fst) := List.map_map
    _ = (old.zip new).map Prod.snd := List.map_congr_left fun entry listed =>
        exchange_of_mem distinct length (List.mem_append_left _ listed)
    _ = new := List.map_snd_zip (Nat.le_of_eq length.symm)

end Exchange

/-! ## Names -/

theorem Node.Conforms.rename {d : Definition} {n : Node} (conforms : n.Conforms d) (ρ : Uid → Uid) :
    (n.rename ρ).Conforms d := by
  have values : (n.rename ρ).values.length = n.values.length := by
    rw [Node.rename]
    dsimp only
    split
    · unfold renamedTarget
      split
      · rename_i values
        rw [values]
        rfl
      · rfl
    · rfl
  have present : presentCount (n.flows.map (Option.map ρ)) = presentCount n.flows := by
    rw [presentCount, List.countP_map, presentCount]
    congr 1
    funext flow
    cases flow <;> rfl
  refine ⟨(List.length_map _).trans conforms.links, values ▸ conforms.values, ?_, fun block => ?_⟩
  · rw [rename_flows, List.length_map, conforms.flows, flowPorts, flowPorts, present]
  · obtain ⟨targets, free, same⟩ := conforms.compact block
    refine ⟨targets.map ρ, free, ?_⟩
    rw [rename_flows, same, List.map_append, List.map_map, List.map_map, List.map_replicate]
    rfl

namespace Plan

variable {c : Catalog} {g h : Graph} {anchor : Position} {q : Supply} {p : Plan} {ρ : Uid → Uid}
  {n m : Node}

def shifted (anchor : Position) (n : Node) : Node :=
  { n with position := if n.isVariable then n.position else n.position + anchor }

/-- A plan that has copied nodes, their connections aside. -/
structure Copies (anchor : Position) (q : Supply) (ρ : Uid → Uid) (done : List Node) (p : Plan) :
    Prop where
  uids : p.uids = (done.map fun n => (n.uid, ρ n.uid)).reverse
  names : p.names = done.filterMap Node.variableName?
  nodes : p.nodes = done.map fun n => { shifted anchor n with uid := ρ n.uid }
  supply : p.supply = q.skip done.length

theorem reused?_blank (blank : g.nodes = []) (n : Node) : reused? g n = none := by
  have unlisted : g.find? n.uid = none := by rw [Graph.find?, blank, List.find?_nil]
  have unnamed : ∀ name, g.findVariable? name = none := fun name => by
    rw [Graph.findVariable?, blank, List.find?_nil]
  simp [reused?, unlisted, unnamed]

theorem adapted_free {names : List String} (named : n.isVariable → n.variableName?.isSome)
    (free : ∀ name, n.variableName? = some name → name ∉ names) :
    adapted names anchor n = (shifted anchor n, names ++ n.variableName?.toList) := by
  unfold adapted shifted
  split
  · rename_i declares
    obtain ⟨name, called⟩ := Option.isSome_iff_exists.mp (named declares)
    have place := called
    rw [Node.variableName?, if_pos declares] at place
    obtain ⟨value, there, text⟩ := Option.bind_eq_some_iff.mp place
    obtain rfl := Node.text?_eq_some text
    obtain ⟨inside, same⟩ := List.getElem?_eq_some_iff.mp there
    have kept : n.values.set nameInput (.text name) = n.values := by
      rw [← same, List.set_getElem_self]
    rw [called, Option.getD_some, unusedNameLike_eq_self (free name called)]
    dsimp only
    rw [kept]
    rfl
  · have unnamed : n.variableName? = none := if_neg ‹_›
    rw [unnamed, Option.toList_none, List.append_nil]

theorem Copies.add {done : List Node} (copies : Copies anchor q ρ done p) (blank : g.nodes = [])
    {d : Definition} (found : c.find? n.fullName = some d) (conforms : n.Conforms d)
    (named : n.isVariable → n.variableName?.isSome)
    (free : ∀ name, n.variableName? = some name → name ∉ done.filterMap Node.variableName?)
    (drawn : (q.skip done.length).draw.1 = ρ n.uid) :
    Copies anchor q ρ (done ++ [n]) (p.add c g anchor n) := by
  have kept : { shifted anchor n with uid := ρ n.uid }.conform d =
      { shifted anchor n with uid := ρ n.uid } :=
    (conforms.of_same rfl rfl rfl : { shifted anchor n with uid := ρ n.uid }.Conforms d).conform_eq
  unfold Plan.add
  rw [found, reused?_blank blank, copies.names, adapted_free named free, copies.supply]
  dsimp only
  rw [drawn, kept]
  refine ⟨?_, ?_, ?_, ?_⟩
  · rw [copies.uids, List.map_append, List.reverse_append]
    rfl
  · rw [List.filterMap_append]
    cases called : n.variableName? with
    | none => simp [called]
    | some name => simp [called]
  · rw [copies.nodes, List.map_append]
    rfl
  · rw [List.length_append]
    rfl

theorem ofClipping_copies (blank : g.nodes = []) (formed : h.WellFormed c)
    (named : ∀ n ∈ h.nodes, n.isVariable → n.variableName?.isSome)
    (apart : h.Unique Node.variableName?)
    (renames : h.uids.map ρ = q.upcoming h.nodes.length) :
    Copies anchor q ρ h.nodes (ofClipping c g anchor q ⟨h.nodes⟩) := by
  suffices ∀ rest done p, done ++ rest = h.nodes → Copies anchor q ρ done p →
      Copies anchor q ρ h.nodes (rest.foldl (add c g anchor) p) by
    refine this h.nodes [] ⟨[], g.variableNames, [], q⟩ rfl ⟨rfl, ?_, rfl, rfl⟩
    rw [Graph.variableNames, Graph.variableNodes, blank]
    rfl
  intro rest
  induction rest with
  | nil =>
    intro done p all copies
    rw [List.append_nil] at all
    exact all ▸ copies
  | cons n rest ih =>
    intro done p all copies
    have listed : n ∈ h.nodes := all ▸ List.mem_append_right _ List.mem_cons_self
    obtain ⟨d, found, conforms⟩ := formed.conforms n listed
    have place : (h.nodes.map fun k => ρ k.uid)[done.length]? = some (ρ n.uid) := by
      rw [← all, List.getElem?_map, List.getElem?_append_right (Nat.le_refl _), Nat.sub_self]
      rfl
    rw [List.foldl_cons]
    refine ih (done ++ [n]) _ (by rw [← all, List.append_assoc]; rfl)
      (copies.add blank found conforms (named n listed) (fun name called taken => ?_) ?_)
    · obtain ⟨k, hk, also⟩ := List.mem_filterMap.mp taken
      have distinct := formed.distinct
      rw [Graph.uids, ← all, List.map_append] at distinct
      have differ : k.uid ≠ n.uid := (List.nodup_append.mp distinct).2.2 _
        (List.mem_map_of_mem hk) _ (List.mem_map_of_mem List.mem_cons_self)
      exact apart k (all ▸ List.mem_append_left _ hk) n listed differ name also called
    · have inside : done.length < h.nodes.length := by
        rw [← all, List.length_append, List.length_cons]
        omega
      have upcoming : (h.nodes.map fun k => ρ k.uid) = q.upcoming h.nodes.length := by
        rw [← renames, Graph.uids, List.map_map]
        rfl
      rw [upcoming, Supply.upcoming, List.getElem?_map, List.getElem?_range' inside,
        Option.map_some, Nat.one_mul] at place
      exact Option.some.inj place

theorem Copies.lookup {done : List Node} (copies : Copies anchor q ρ done p) (uid : Uid) :
    p.uids.lookup uid = if uid ∈ done.map Node.uid then some (ρ uid) else none := by
  have entries : ∀ nodes : List Node, (nodes.map fun n => (n.uid, ρ n.uid)).lookup uid =
      if uid ∈ nodes.map Node.uid then some (ρ uid) else none := by
    intro nodes
    induction nodes with
    | nil => rfl
    | cons n nodes ih =>
      rw [List.map_cons, lookup_cons_eq, ih]
      by_cases here : uid = n.uid <;> simp [here]
  rw [copies.uids, ← List.map_reverse, entries]
  simp only [List.map_reverse, List.mem_reverse]

/-! ## What is added -/

theorem single_eq_self {keys : List String} {nodes : List Node}
    (apart : nodes.Pairwise fun n m => ∀ k, n.singleKey? = some k → m.singleKey? ≠ some k)
    (new : ∀ n ∈ nodes, ∀ k, n.singleKey? = some k → k ∉ keys) : single keys nodes = nodes := by
  induction nodes generalizing keys with
  | nil => rfl
  | cons n nodes ih =>
    obtain ⟨differ, apart⟩ := List.pairwise_cons.mp apart
    have rest := fun m (hm : m ∈ nodes) => new m (List.mem_cons_of_mem n hm)
    rw [single]
    split
    · rename_i isSingle
      have keyed : n.singleKey? = some n.eventKey := if_pos isSingle
      have unlisted : ¬keys.contains n.eventKey := fun listed =>
        new n List.mem_cons_self _ keyed (List.contains_iff_mem.mp listed)
      rw [if_neg unlisted, ih apart fun m hm k also listed => ?_]
      rcases List.mem_cons.mp listed with rfl | listed
      · exact differ m hm _ keyed also
      · exact rest m hm k also listed
    · rw [ih apart rest]

section Renamed

variable {uids : List (Uid × Uid)} {keep : List Uid}

theorem retarget_eq_renamedTarget (uids : List (Uid × Uid)) (n : Node) : retarget uids n =
    { n with values := if n.access?.isSome
        then Node.renamedTarget (fun u => (uids.lookup u).getD u) n.values else n.values } := by
  obtain ⟨uid, fullName, position, values, links, flows⟩ := n
  unfold retarget
  split
  · rcases values with _ | ⟨value, rest⟩
    · rfl
    · cases value <;> rfl
  · rfl

theorem retarget_renamed (stands : ∀ u, uids.lookup u = if u ∈ h.uids then some (ρ u) else none)
    (empty : ρ "" = "") (stays : ∀ u, n.target? = some u → u ∉ h.uids → ρ u = u) :
    retarget uids { shifted anchor n with uid := ρ n.uid } =
      { shifted anchor n with
        uid := ρ n.uid
        values := ((shifted anchor n).rename ρ).values } := by
  have values : (if n.access?.isSome
      then Node.renamedTarget (fun u => (uids.lookup u).getD u) n.values else n.values) =
        ((shifted anchor n).rename ρ).values := by
    change _ = if n.access?.isSome then Node.renamedTarget ρ n.values else n.values
    split
    · rename_i bound
      unfold Node.renamedTarget
      split
      · rename_i target rest values
        have renamed : (uids.lookup target).getD target = ρ target := by
          rw [stands]
          split
          · rfl
          · rename_i unlisted
            by_cases named : target = ""
            · rw [named]
              exact empty.symm
            · refine (stays target ?_ unlisted).symm
              rw [Node.target?, if_pos bound, values]
              simp [Value.text?, named]
        dsimp only
        rw [renamed]
      · rfl
    · rfl
  rw [retarget_eq_renamedTarget, ← values]
  rfl

theorem brought_renamed (formed : h.WellFormed c) (listed : n ∈ h.nodes)
    (stands : ∀ u, uids.lookup u = if u ∈ h.uids then some (ρ u) else none)
    (kept : ∀ u ∈ h.uids, ρ u ∈ keep) (empty : ρ "" = "")
    (stays : ∀ u, n.target? = some u → u ∉ h.uids → ρ u = u) :
    brought g keep uids { shifted anchor n with uid := ρ n.uid } = (shifted anchor n).rename ρ := by
  have links : (n.links.map fun link => link.bind fun l =>
      (uids.lookup l.node).map fun node => { l with node }).map (fun link => link.filter fun l =>
        keep.contains l.node || g.contains l.node) = n.links.map (Option.map (Link.rename ρ)) := by
    rw [List.map_map]
    refine List.map_congr_left fun link there => ?_
    cases link with
    | none => rfl
    | some l =>
      have inside := formed.links n listed l there
      rw [Function.comp_apply, Option.bind_some, stands, if_pos inside, Option.map_some,
        Option.filter_some, List.contains_iff_mem.mpr (kept _ inside)]
      rfl
  have flows : (n.flows.map fun flow => flow.bind fun target => uids.lookup target).map
      (fun flow => flow.filter keep.contains) = n.flows.map (Option.map ρ) := by
    rw [List.map_map]
    refine List.map_congr_left fun flow there => ?_
    cases flow with
    | none => rfl
    | some target =>
      have inside := formed.flows n listed target there
      rw [Function.comp_apply, Option.bind_some, stands, if_pos inside, Option.filter_some,
        List.contains_iff_mem.mpr (kept _ inside)]
      rfl
  rw [brought, retarget_renamed stands empty stays, reconnect, release]
  dsimp only [shifted] at links flows ⊢
  rw [links, flows]
  rfl

end Renamed

theorem Copies.additions_eq (copies : Copies anchor q ρ h.nodes p) (blank : g.nodes = [])
    (formed : h.WellFormed c) (unique : h.Unique Node.singleKey?) (injective : ρ.Injective)
    (empty : ρ "" = "")
    (stays : ∀ n ∈ h.nodes, ∀ u, n.target? = some u → u ∉ h.uids → ρ u = u)
    (unheard : ∀ n ∈ h.nodes, ∀ u ∈ h.uids, n.fullName ≠ Kind.changeEventName ++ "|" ++ ρ u) :
    p.additions g = h.nodes.map fun n => (shifted anchor n).rename ρ := by
  have stands := copies.lookup
  have retargeted : p.nodes.map (retarget p.uids) = h.nodes.map fun n =>
      { shifted anchor n with uid := ρ n.uid, values := ((shifted anchor n).rename ρ).values } := by
    rw [copies.nodes, List.map_map]
    exact List.map_congr_left fun n hn => retarget_renamed stands empty (stays n hn)
  have alone : single (g.eventNodes.map Node.eventKey) (p.nodes.map (retarget p.uids)) =
      p.nodes.map (retarget p.uids) := by
    have events : g.eventNodes = [] := by rw [Graph.eventNodes, blank, List.filter_nil]
    rw [events]
    refine single_eq_self ?_ fun _ _ _ _ => List.not_mem_nil
    rw [retargeted, List.pairwise_map]
    have distinct : (h.rename ρ).uids.Nodup := by
      rw [Graph.rename_uids]
      exact formed.distinct.map injective
    have apart := (unique.rename injective empty stays unheard).pairwise distinct
    rw [Graph.rename_nodes, List.pairwise_map] at apart
    exact apart
  have keep : ∀ u ∈ h.uids, ρ u ∈ (p.nodes.map (retarget p.uids)).map Node.uid := by
    intro u hu
    obtain ⟨n, hn, rfl⟩ := List.mem_map.mp hu
    rw [retargeted, List.map_map]
    exact List.mem_map.mpr ⟨n, hn, rfl⟩
  have uids : ((p.nodes.map (retarget p.uids)).map (reconnect p.uids)).map Node.uid =
      (p.nodes.map (retarget p.uids)).map Node.uid := by
    rw [List.map_map]
    rfl
  rw [Plan.additions, alone]
  rw [uids, List.map_map, List.map_map, copies.nodes, List.map_map]
  rw [copies.nodes] at keep
  exact List.map_congr_left fun n hn => brought_renamed formed hn stands keep empty (stays n hn)

end Plan

end ScriptGraph
