import ScriptGraph.Proofs.Clipping.Plan
import ScriptGraph.Proofs.Node.Literals
import ScriptGraph.Proofs.Session.WellFormed
import ScriptGraph.Proofs.Session.Wording

/-!
Single events. Apart from custom events, a graph has at most one node of each event, and at most one
event for the changes of each variable. All that adds events or binds them to variables looks for
others first, except for switching a node to an overload.
-/

set_option autoImplicit false
set_option relaxedAutoImplicit false

namespace ScriptGraph

variable {c : Catalog} {a : Action} {g h : Graph} {p q : Supply} {uid : Uid} {d : Definition}
  {n m : Node}

namespace Node

/-- Two nodes are the same event, other than a custom one, or stand for the changes of one variable. -/
def Rivals (n m : Node) : Prop :=
  n.fullName = m.fullName ∧
    (n.kind = .event ∨ n.kind = .changeEvent ∧ n.target?.isSome ∧ n.target? = m.target?)

instance (n m : Node) : Decidable (n.Rivals m) :=
  inferInstanceAs (Decidable (_ ∧ _))

def occasion? (n : Node) : Option (String × Option Uid) :=
  match n.kind with
  | .event => some (n.fullName, none)
  | .changeEvent => n.target?.map fun uid => (n.fullName, some uid)
  | _ => none

theorem kind_of_occasion {k : String × Option Uid} (occurs : n.occasion? = some k) :
    n.kind = .event ∧ k = (n.fullName, none) ∨
      n.kind = .changeEvent ∧ ∃ uid, n.target? = some uid ∧ k = (n.fullName, some uid) := by
  unfold occasion? at occurs
  split at occurs
  · rename_i event
    exact .inl ⟨event, (Option.some.inj occurs).symm⟩
  · rename_i change
    obtain ⟨uid, bound, same⟩ := Option.map_eq_some_iff.mp occurs
    exact .inr ⟨change, uid, bound, same.symm⟩
  · cases occurs

theorem rivals_iff : n.Rivals m ↔ ∃ k, n.occasion? = some k ∧ m.occasion? = some k := by
  constructor
  · rintro ⟨name, event | ⟨change, bound, same⟩⟩
    · have event' : m.kind = .event := by rw [kind, ← name]; exact event
      refine ⟨(n.fullName, none), ?_, ?_⟩
      · rw [occasion?, event]
      · rw [occasion?, event', name]
    · have change' : m.kind = .changeEvent := by rw [kind, ← name]; exact change
      obtain ⟨uid, bound⟩ := Option.isSome_iff_exists.mp bound
      refine ⟨(n.fullName, some uid), ?_, ?_⟩
      · rw [occasion?, change, bound]
        rfl
      · rw [occasion?, change', ← same, bound, name]
        rfl
  · rintro ⟨k, first, second⟩
    rcases kind_of_occasion first with ⟨event, rfl⟩ | ⟨change, uid, bound, rfl⟩ <;>
      rcases kind_of_occasion second with ⟨-, same⟩ | ⟨-, uid', bound', same⟩ <;>
      simp only [Prod.mk.injEq, Option.some.injEq, reduceCtorEq, and_false] at same
    · exact ⟨same.1, .inl event⟩
    · obtain ⟨name, rfl⟩ := same
      exact ⟨name, .inr ⟨change, by rw [bound]; rfl, bound.trans bound'.symm⟩⟩

theorem Echoes.occasion? (echoes : m.Echoes n) : m.occasion? = n.occasion? := by
  rw [Node.occasion?, Node.occasion?, echoes.target?, kind, kind, echoes.fullName]

theorem occasion?_eq_none (event : n.kind ≠ .event) (change : n.kind ≠ .changeEvent) :
    n.occasion? = none := by
  unfold occasion?
  split
  · contradiction
  · contradiction
  · rfl

theorem occasion?_set {index : Nat} {value : Value} (other : n.kind = .changeEvent → index ≠ 0) :
    { n with values := n.values.set index value }.occasion? = n.occasion? := by
  have same : ∀ values, { n with values }.kind = n.kind := fun _ => rfl
  rw [occasion?, occasion?, same]
  split
  · rfl
  · rename_i change
    rw [target?, target?, List.getElem?_set_ne (other change)]
    rfl
  · rfl

theorem target?_set {value : Value}
    (bound : { n with values := n.values.set 0 value }.target? = some uid) :
    value.text? = some uid := by
  unfold target? at bound
  split at bound
  · obtain ⟨other, there, text⟩ := Option.bind_eq_some_iff.mp (Option.filter_eq_some_iff.mp bound).1
    obtain ⟨inside, same⟩ := List.getElem?_eq_some_iff.mp there
    rw [List.getElem_set_self] at same
    exact same ▸ text
  · cases bound

theorem settle_target? (typed : n.access?.isSome → d.inputType 0 = some textType) :
    (n.settle d).target? = n.target? := by
  have same : (n.settle d).access? = n.access? := rfl
  rw [target?, target?, same]
  split
  · rename_i access
    rw [settle, settled_text? (typed access)]
  · rfl

theorem settle_occasion? (typed : n.access?.isSome → d.inputType 0 = some textType) :
    (n.settle d).occasion? = n.occasion? := by
  have same : (n.settle d).kind = n.kind := rfl
  rw [occasion?, occasion?, settle_target? typed, same]
  rfl

theorem eventKey_of_occasion {k : String × Option Uid} (first : n.occasion? = some k)
    (second : m.occasion? = some k) :
    n.isSingleEvent ∧ m.isSingleEvent ∧ n.eventKey = m.eventKey := by
  have isSingle : ∀ {n : Node}, n.occasion? = some k → n.isSingleEvent := by
    intro n occurs
    rcases kind_of_occasion occurs with ⟨kind, -⟩ | ⟨kind, -⟩ <;>
      simp [isSingleEvent, isEvent, kind, Kind.isEvent]
  refine ⟨isSingle first, isSingle second, ?_⟩
  obtain ⟨name, event | ⟨change, -, same⟩⟩ := rivals_iff.mpr ⟨k, first, second⟩
  · have event' : m.kind = .event := by rw [kind, ← name]; exact event
    rw [eventKey, eventKey, event, event', if_neg (by decide), name]
    rfl
  · have change' : m.kind = .changeEvent := by rw [kind, ← name]; exact change
    rw [eventKey, eventKey, if_pos change, if_pos change', name, same]

end Node

theorem Catalog.Extends.fresh_target? (extension : c.Extends) (found : c.find? d.fullName = some d)
    (change : d.kind = .changeEvent) (uid : Uid) : (Node.fresh uid d).target? = none := by
  have intrinsic : ∃ e ∈ intrinsics, e.kind = .changeEvent ∧ e.initialValues = [.null] :=
    exists_intrinsic (P := fun kind e => kind = .changeEvent ∧ e.initialValues = [.null]) (by decide)
  obtain ⟨e, listed, kind, initial⟩ := intrinsic
  obtain rfl : d = e :=
    extension.eq_of_kind found listed (by rw [kind]; decide) (change.trans kind.symm)
  have values : (Node.fresh uid d).values = [.null] := by
    rw [← initial]
    rfl
  rw [Node.target?, values]
  split <;> rfl

theorem Plan.unique_additions (unique : g.Unique Node.occasion?) (plan : Plan) :
    ({ g with nodes := g.nodes ++ plan.additions g } : Graph).Unique Node.occasion? := by
  obtain ⟨apart, new⟩ :=
    single_apart (g.eventNodes.map Node.eventKey) (plan.nodes.map (retarget plan.uids))
  have kept : ∀ {keep : List Uid} {n : Node},
      (release g keep (reconnect plan.uids n)).Echoes n := ⟨rfl, rfl, rfl⟩
  have said : ∀ {keep : List Uid} {n : Node},
      (release g keep (reconnect plan.uids n)).occasion? = n.occasion? := kept.occasion?
  unfold additions
  rw [List.map_map]
  refine unique.append (List.pairwise_map.mpr (apart.imp fun differ k first second => ?_)) ?_
  · obtain ⟨isSingle, isSingle', same⟩ :=
      Node.eventKey_of_occasion (said.symm.trans first) (said.symm.trans second)
    exact differ isSingle isSingle' same
  · intro m hm k first n hn second
    obtain ⟨l, hl, rfl⟩ := List.mem_map.mp hm
    obtain ⟨isSingle, isSingle', same⟩ := Node.eventKey_of_occasion (said.symm.trans first) second
    refine new l hl isSingle (same ▸ List.mem_map_of_mem (List.mem_filter.mpr ⟨hn, ?_⟩))
    exact (Bool.and_eq_true _ _ ▸ isSingle').1

/-- An action does not switch a node to an event that another node is already. -/
def Graph.SwitchesApart (c : Catalog) (g : Graph) : Action → Prop
  | .setOverload uid fullName => ∀ n d, g.find? uid = some n → c.find? fullName = some d →
      ∀ m ∈ g.nodes, m.uid ≠ uid → ¬(Graph.switched d n).Rivals m
  | _ => True

private theorem access_unique (unique : g.Unique Node.occasion?) {use : Access} {variableUid : Uid}
    (found : c.find? use.fullName = some d) (named : n.fullName = d.fullName)
    (bound : ∀ u, n.target? = some u → u = variableUid)
    (single : use = .change → g.checkSingleChange variableUid none = .ok ()) :
    (g.push n).Unique Node.occasion? := by
  refine unique.push fun k occurs m hm occurs' => ?_
  have kind : n.kind = Kind.ofName use.fullName := by
    rw [Node.kind, named, Catalog.find?_fullName found]
  obtain ⟨name, event | ⟨change, bound', same⟩⟩ := Node.rivals_iff.mpr ⟨k, occurs, occurs'⟩
  · rw [kind] at event
    cases use <;> exact absurd event (by decide)
  · have uses : use = .change := by
      rw [kind] at change
      cases use <;> first | rfl | exact absurd change (by decide)
    have change' : m.kind = .changeEvent := by rw [Node.kind, ← name]; exact change
    obtain ⟨u, bound'⟩ := Option.isSome_iff_exists.mp bound'
    obtain rfl := bound u bound'
    cases Graph.checkSingleChange_eq_ok.mp (single uses) m hm change' (same.symm.trans bound')

private theorem storeValue_unique (formed : g.WellFormed c) (unique : g.Unique Node.occasion?)
    (found : g.find? n.uid = some n) {index : Nat} {value : Value}
    (stores : g.storeValue n d index value = .ok h) : h.Unique Node.occasion? := by
  obtain ⟨stored, -, single, rfl⟩ := Graph.storeValue_eq_ok stores
  refine unique.update (fun _ => rfl) fun m hm here k occurs m' hm' there occurs' => ?_
  obtain rfl := Graph.eq_of_find? formed.distinct found hm here
  by_cases bound : m.kind = .changeEvent ∧ index = 0
  · obtain ⟨change, rfl⟩ := bound
    obtain ⟨name, event | ⟨-, bound, same⟩⟩ := Node.rivals_iff.mpr ⟨k, occurs, occurs'⟩
    · exact absurd (change.symm.trans event) (by decide)
    · have change' : m'.kind = .changeEvent := by rw [Node.kind, ← name]; exact change
      obtain ⟨u, bound⟩ := Option.isSome_iff_exists.mp bound
      have checked := single change rfl u (Node.target?_set bound)
      have here' := Graph.checkSingleChange_eq_ok.mp checked m' hm' change' (same.symm.trans bound)
      exact there (Option.some.inj here')
  · rw [Node.occasion?_set fun change first => bound ⟨change, first⟩] at occurs
    exact unique m hm m' hm' (Ne.symm there) k occurs occurs'

theorem Change.unique_events (distinct : c.Distinct) (extension : c.Extends)
    (change : Change c a (g, p) (h, q)) (formed : g.WellFormed c) (unique : g.Unique Node.occasion?)
    (apart : g.SwitchesApart c a) : h.Unique Node.occasion? := by
  rcases change.rewording with echoes | rewords
  · exact unique.of_echoes echoes Node.Echoes.occasion?
  cases rewords with
  | @declare _ _ _ d found declares room name free isPublic =>
    refine unique.push fun k occurs => ?_
    have kind : (Session.declaration d (g.unusedNameLike name) isPublic p.draw.1).kind = .variable :=
      declares
    rw [Node.occasion?_eq_none (by rw [kind]; decide) (by rw [kind]; decide)] at occurs
    cases occurs
  | @add _ _ _ d found other single position =>
    refine unique.push fun k occurs m hm occurs' => ?_
    obtain ⟨name, event | ⟨change, bound, -⟩⟩ := Node.rivals_iff.mpr ⟨k, occurs, occurs'⟩
    · exact single event m hm name.symm
    · have unbound : ({ Node.fresh p.draw.1 d with position } : Node).target? = none :=
        extension.fresh_target? found change p.draw.1
      rw [unbound] at bound
      cases bound
  | @access _ _ _ use variableUid d found single position =>
    exact access_unique unique found rfl
      (fun u bound => (Option.some.inj (Node.target?_set bound)).symm) single
  | @bind _ _ _ uid target n name type found needs =>
    refine unique.update_of_kept (fun _ => rfl) fun m hm here k occurs => ?_
    obtain rfl := Graph.eq_of_find? formed.distinct found hm here
    have name : m.fullName = Kind.setReturnValueName :=
      Manner.fullName_of_internalVariable? (by rw [needs]; rfl)
    have kind : m.kind ≠ .changeEvent := by
      rw [Node.kind, name]
      decide
    rwa [Node.occasion?_set fun change => absurd change kind] at occurs
  | rename renames =>
    obtain ⟨n, current, found, named, -, -, rfl⟩ := Graph.renameVariable_eq_ok renames
    refine unique.update_of_kept (fun _ => rfl) fun m hm here k occurs => ?_
    rwa [Node.occasion?_set fun _ => by decide] at occurs
  | store found defined other stores => exact storeValue_unique formed unique found stores
  | switch switches =>
    obtain ⟨n, d, found, -, offered, rfl, rfl⟩ := Graph.setOverload_eq_ok switches
    have known := distinct.find?_of_mem (Catalog.mem_overloads offered)
    refine Graph.Unique.of_echoes ?_ (Graph.mapNodes_echoes (fun n => ?_) _) Node.Echoes.occasion?
    · refine unique.update (fun _ => rfl) fun n' hn here k occurs m hm there occurs' => ?_
      obtain rfl := Graph.eq_of_find? formed.distinct found hn here
      exact apart n' d found known m hm there (Node.rivals_iff.mpr ⟨k, occurs, occurs'⟩)
    · exact ⟨rfl, rfl, rfl⟩
  | repair =>
    refine unique.of_kept fun m hm => ?_
    obtain ⟨n, hn, d, found, echoes⟩ := formed.mem_repaired hm
    refine ⟨n, hn, echoes.uid, fun k occurs => ?_⟩
    rwa [echoes.occasion?, Node.settle_occasion? fun access =>
      extension.inputType_of_access found (Catalog.find?_kind found ▸ access)] at occurs
  | @paste _ anchor _ _ clipping holds =>
    have additions := Plan.unique_additions unique (Plan.ofClipping c g anchor p clipping)
    exact additions.of_echoes (Graph.foldl_relayout_echoes _ c _) Node.Echoes.occasion?

/-! ## Histories -/

namespace Session

/-- No action of a history switches a node to an event that another node is by then. -/
def SwitchesApart : Session → List Action → Prop
  | _, [] => True
  | s, action :: rest =>
    s.graph.SwitchesApart s.catalog action ∧ SwitchesApart (s.perform action).2 rest

private theorem perform_unique_events {s : Session} (distinct : s.catalog.Distinct)
    (extension : s.catalog.Extends) (sound : Sound s.catalog s.graph s.supply)
    (unique : s.graph.Unique Node.occasion?) {action : Action}
    (apart : s.graph.SwitchesApart s.catalog action) :
    Sound s.catalog (s.perform action).2.graph (s.perform action).2.supply ∧
      (s.perform action).2.graph.Unique Node.occasion? := by
  refine s.perform_induct (fun g p => Sound s.catalog g p ∧ g.Unique Node.occasion?) action ?_ ?_
    ⟨sound, unique⟩
  · intro other _ g h p q change ⟨sound, unique⟩
    refine ⟨change.sound distinct sound,
      change.unique_events distinct extension sound.formed unique ?_⟩
    cases action <;> first | trivial | exact absurd rfl (other _ _)
  · intro h q change ⟨sound, unique⟩
    exact ⟨change.sound distinct sound,
      change.unique_events distinct extension sound.formed unique apart⟩

/-- From a session without nodes, no two nodes of its graph are ever one event, unless a node is
switched to an event that there is already. -/
theorem after_create_events (distinct : c.Distinct) (extension : c.Extends) (settings : Settings)
    {supply : Supply} (fresh : supply.Fresh []) {actions : List Action}
    (apart : (create c settings supply).SwitchesApart actions) :
    ((create c settings supply).after actions).graph.nodes.Pairwise fun n m => ¬n.Rivals m := by
  suffices ∀ (actions : List Action) (s : Session), s.catalog = c → Sound c s.graph s.supply →
      s.graph.Unique Node.occasion? → s.SwitchesApart actions →
        (s.after actions).graph.uids.Nodup ∧ (s.after actions).graph.Unique Node.occasion? by
    obtain ⟨-, sound⟩ := Begun.sound distinct (.created settings fresh)
    have none : (create c settings supply).graph.Unique Node.occasion? :=
      fun n hn => absurd hn List.not_mem_nil
    obtain ⟨uids, unique⟩ := this actions _ rfl sound none apart
    refine (unique.pairwise uids).imp fun differ rivals => ?_
    obtain ⟨k, first, second⟩ := Node.rivals_iff.mp rivals
    exact differ k first second
  intro actions
  induction actions with
  | nil => exact fun s _ sound unique _ => ⟨sound.formed.distinct, unique⟩
  | cons action actions ih =>
    rintro s rfl sound unique ⟨apart, rest⟩
    obtain ⟨sound, unique⟩ := perform_unique_events distinct extension sound unique apart
    exact ih _ (s.perform_makes action).catalog sound unique rest

/-- The intrinsic definitions with an event that is offered in place of the one at the start. -/
def lateStart : Catalog := (Catalog.intrinsic.extend [(Definition.bare "Event_StartLate").withFlow [""]]).1

theorem lateStart_distinct : lateStart.Distinct := Catalog.intrinsic_distinct.extend _

theorem lateStart_extends : lateStart.Extends :=
  Catalog.intrinsic_extends.extend Catalog.intrinsic_distinct _

/-- An event that is switched to another one, after which it may be added again. -/
theorem after_create_events_switched : ((create lateStart .default .strokes).after
    [.addNode "Event_Start" .origin, .setOverload "||" "Event_StartLate",
      .addNode "Event_Start" .origin]).graph.nodes.Pairwise fun n m => ¬n.Rivals m := by
  refine after_create_events lateStart_distinct lateStart_extends .default
    (Supply.strokes_fresh (by simp)) ⟨trivial, ?_, trivial, trivial⟩
  intro n d _ _ m hm other
  have only : ∀ m ∈ ((create lateStart .default .strokes).perform
      (.addNode "Event_Start" .origin)).2.graph.nodes, m.uid = "||" := by decide +kernel
  exact absurd (only m hm) other

/-- Switched to an event that there is already, it is a second one. -/
theorem rivals_after_switch : lateStart.Extends ∧ ¬((create lateStart .default .strokes).after
    [.addNode "Event_Start" .origin, .addNode "Event_StartLate" .origin,
      .setOverload "||" "Event_StartLate"]).graph.nodes.Pairwise fun n m => ¬n.Rivals m :=
  ⟨lateStart_extends, by decide +kernel⟩

end Session

end ScriptGraph
