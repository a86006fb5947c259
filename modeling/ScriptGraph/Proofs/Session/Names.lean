import ScriptGraph.Proofs.Catalog.Methods
import ScriptGraph.Proofs.Clipping.Cut
import ScriptGraph.Proofs.Clipping.Plan
import ScriptGraph.Proofs.Clipping.RoundTrip
import ScriptGraph.Proofs.Node.Literals
import ScriptGraph.Proofs.Node.Names
import ScriptGraph.Proofs.Session.WellFormed
import ScriptGraph.Proofs.Session.Wording

/-!
Names of variables. Every variable has a name, and no two variables of a graph have one name: whatever
gives a variable a name looks at all names that are taken, and a clipping that is copied from a session
has a place for the name of each variable that it holds.
-/

set_option autoImplicit false
set_option relaxedAutoImplicit false

namespace ScriptGraph

variable {c : Catalog} {a : Action} {g h : Graph} {p q : Supply} {uid : Uid} {d : Definition}
  {n m : Node}

namespace Node

theorem Echoes.variableName? (echoes : m.Echoes n) : m.variableName? = n.variableName? := by
  rw [Node.variableName?, Node.variableName?, echoes.isVariable, echoes.values]

theorem variableName?_eq_none (other : ¬n.isVariable) : n.variableName? = none := if_neg other

theorem isVariable_of_named (named : n.variableName?.isSome) : n.isVariable := by
  refine Decidable.byContradiction fun other => ?_
  rw [variableName?_eq_none other] at named
  cases named

theorem variableName?_setName (declares : n.isVariable) (room : nameInput < n.values.length)
    (name : String) :
    { n with values := n.values.set nameInput (.text name) }.variableName? = some name := by
  have same : { n with values := n.values.set nameInput (.text name) }.isVariable = n.isVariable := rfl
  rw [variableName?, same, if_pos declares, List.getElem?_set_self room]
  rfl

theorem variableName?_set {index : Nat} {value : Value} (other : n.isVariable → index ≠ nameInput) :
    { n with values := n.values.set index value }.variableName? = n.variableName? := by
  have same : { n with values := n.values.set index value }.isVariable = n.isVariable := rfl
  rw [variableName?, variableName?, same]
  split
  · rename_i declares
    rw [List.getElem?_set_ne (other declares)]
  · rfl

theorem nameInput_lt (named : n.variableName?.isSome) : nameInput < n.values.length := by
  have declares := isVariable_of_named named
  obtain ⟨name, named⟩ := Option.isSome_iff_exists.mp named
  rw [variableName?, if_pos declares] at named
  obtain ⟨value, there, -⟩ := Option.bind_eq_some_iff.mp named
  exact (List.getElem?_eq_some_iff.mp there).1

theorem settle_variableName? (typed : n.isVariable → d.inputType nameInput = some textType) :
    (n.settle d).variableName? = n.variableName? := by
  have same : (n.settle d).isVariable = n.isVariable := rfl
  rw [variableName?, variableName?, same]
  split
  · rename_i declares
    rw [settle, settled_text? (typed declares)]
  · rfl

theorem conform_variableName? (named : n.variableName?.isSome) :
    (n.conform d).variableName? = n.variableName? := by
  have same : (n.conform d).isVariable = n.isVariable := rfl
  rw [variableName?, variableName?, same, conform, List.getElem?_append_left (nameInput_lt named)]

theorem switched_variableName? (named : n.variableName?.isSome) (declares : d.kind = .variable)
    (typed : d.inputType nameInput = some textType) :
    (Graph.switched d n).variableName? = n.variableName? := by
  have isVariable := isVariable_of_named named
  have place : nameInput < d.inputs.length := by
    refine Nat.lt_of_not_le fun beyond => ?_
    rw [Definition.inputType, List.getElem?_eq_none beyond] at typed
    cases typed
  have kept : { n with fullName := d.fullName, values := n.values.take d.inputs.length }.variableName? =
      n.variableName? := by
    have same : { n with fullName := d.fullName, values := n.values.take d.inputs.length }.isVariable =
        true := decide_eq_true declares
    rw [variableName?, variableName?, same, isVariable, List.getElem?_take_of_lt place]
  rw [Graph.switched, settle_variableName? fun _ => typed, conform_variableName? (kept ▸ named), kept]

end Node

namespace Graph

theorem mem_variableNames {name : String} :
    name ∈ g.variableNames ↔ ∃ n ∈ g.nodes, n.variableName? = some name := by
  rw [variableNames, List.mem_filterMap]
  refine exists_congr fun n => ⟨fun ⟨listed, named⟩ => ⟨(mem_variableNodes.mp listed).1, named⟩,
    fun ⟨listed, named⟩ => ⟨mem_variableNodes.mpr ⟨listed, ?_⟩, named⟩⟩
  rw [named]
  rfl

theorem not_mem_variableNames {name : String} (absent : g.findVariable? name = none) :
    name ∉ g.variableNames := by
  intro taken
  obtain ⟨n, listed, named⟩ := mem_variableNames.mp taken
  exact List.find?_eq_none.mp absent n listed (decide_eq_true named)

theorem mem_otherNames {name : String} : name ∈ g.otherNames uid ↔
    ∃ n ∈ g.nodes, n.uid ≠ uid ∧ n.variableName? = some name := by
  rw [otherNames, List.mem_filterMap]
  simp only [List.mem_filter, decide_eq_true_eq, mem_variableNodes]
  refine exists_congr fun n => ⟨fun ⟨⟨⟨listed, _⟩, other⟩, named⟩ => ⟨listed, other, named⟩,
    fun ⟨listed, other, named⟩ => ⟨⟨⟨listed, ?_⟩, other⟩, named⟩⟩
  rw [named]
  rfl

/-- Every variable has a name, and no two variables have one name. -/
structure Named (g : Graph) : Prop where
  named : ∀ n ∈ g.nodes, n.isVariable → n.variableName?.isSome
  apart : g.Unique Node.variableName?

theorem Named.of_echoes (named : g.Named) (echoes : h.Echoes g) : h.Named := by
  refine ⟨fun m hm declares => ?_, named.apart.of_echoes echoes Node.Echoes.variableName?⟩
  obtain ⟨n, hn, repeats⟩ := echoes m hm
  rw [repeats.variableName?]
  exact named.named n hn (repeats.isVariable ▸ declares)

theorem Named.push (named : g.Named) (new : n.isVariable →
    ∃ name, n.variableName? = some name ∧ name ∉ g.variableNames) : (g.push n).Named := by
  refine ⟨fun m hm declares => ?_, named.apart.push fun name called m hm called' => ?_⟩
  · rcases List.mem_append.mp hm with hm | hm
    · exact named.named m hm declares
    · obtain rfl := List.mem_singleton.mp hm
      obtain ⟨name, called, -⟩ := new declares
      rw [called]
      rfl
  · by_cases declares : n.isVariable
    · obtain ⟨other, called'', free⟩ := new declares
      obtain rfl := Option.some.inj (called.symm.trans called'')
      exact free (mem_variableNames.mpr ⟨m, hm, called'⟩)
    · rw [Node.variableName?_eq_none declares] at called
      cases called

theorem Named.update (named : g.Named) {change : Node → Node} (keeps : ∀ n, (change n).uid = n.uid)
    (kept : ∀ n ∈ g.nodes, n.uid = uid → ((change n).isVariable → n.isVariable) ∧
      (change n).variableName? = n.variableName?) : (g.update uid change).Named := by
  refine ⟨fun m hm declares => ?_, named.apart.update_of_kept keeps fun n hn here name called => ?_⟩
  · rcases mem_update hm with hm | ⟨n, hn, here, rfl⟩
    · exact named.named m hm declares
    · obtain ⟨declares', called⟩ := kept n hn here
      exact called ▸ named.named n hn (declares' declares)
  · exact (kept n hn here).2 ▸ called

theorem Named.rename (named : g.Named) (distinct : g.uids.Nodup) (found : g.find? uid = some n)
    (called : n.variableName?.isSome) {given : String} (free : given ∉ g.otherNames uid) :
    (g.update uid fun n => { n with values := n.values.set nameInput (.text given) }).Named := by
  have declares := Node.isVariable_of_named called
  have renamed : ∀ m ∈ g.nodes, m.uid = uid →
      { m with values := m.values.set nameInput (.text given) }.variableName? = some given := by
    intro m hm here
    obtain rfl := eq_of_find? distinct found hm here
    exact Node.variableName?_setName declares (Node.nameInput_lt called) given
  refine ⟨fun m hm declares => ?_, named.apart.update (fun _ => rfl) fun m hm here name has k hk there => ?_⟩
  · rcases mem_update hm with hm | ⟨k, hk, here, rfl⟩
    · exact named.named m hm declares
    · rw [renamed k hk here]
      rfl
  · obtain rfl := Option.some.inj (has.symm.trans (renamed m hm here))
    exact fun taken => free (mem_otherNames.mpr ⟨k, hk, there, taken⟩)

end Graph

/-! ## Clippings -/

/-- Every declaration in a clipping has a place for its name. -/
def Clipping.Roomy (k : Clipping) : Prop :=
  ∀ n ∈ k.nodes, n.isVariable → nameInput < n.values.length

namespace Plan

/-- The names of a plan are those of the graph and of the variables to be added, all of them different. -/
structure NamesApart (g : Graph) (plan : Plan) : Prop where
  named : ∀ m ∈ plan.nodes, m.isVariable → m.variableName?.isSome
  names : plan.names = g.variableNames ++ plan.nodes.filterMap Node.variableName?
  apart : plan.names.Nodup

private theorem adapted_names {names : List String} (apart : names.Nodup)
    (room : n.isVariable → nameInput < n.values.length) (anchor : Position) (uid : Uid)
    (d : Definition) :
    let k := { (adapted names anchor n).1 with uid }.conform d
    (k.isVariable → k.variableName?.isSome) ∧
      (adapted names anchor n).2 = names ++ k.variableName?.toList ∧
      (adapted names anchor n).2.Nodup := by
  unfold adapted
  split
  · rename_i declares
    dsimp only
    have called (name : String) :
        ({ n with values := n.values.set nameInput (.text name), uid }.conform d).variableName? =
          some name := by
      have there : { n with values := n.values.set nameInput (.text name), uid }.variableName? =
          some name := Node.variableName?_setName declares (room declares) name
      rw [Node.conform_variableName? (there ▸ rfl), there]
    rw [called]
    refine ⟨fun _ => rfl, rfl, List.nodup_append.mpr ⟨apart, List.nodup_singleton _, ?_⟩⟩
    rintro other taken _ listed rfl
    exact unusedNameLike_not_mem _ _ (List.mem_singleton.mp listed ▸ taken)
  · rename_i other
    have unnamed : ({ n with position := n.position + anchor, uid }.conform d).variableName? = none :=
      Node.variableName?_eq_none other
    dsimp only
    rw [unnamed]
    exact ⟨fun declares => absurd declares other, (List.append_nil _).symm, apart⟩

private theorem NamesApart.add {plan : Plan} {anchor : Position} (names : NamesApart g plan)
    (room : n.isVariable → nameInput < n.values.length) :
    NamesApart g (plan.add c g anchor n) := by
  unfold Plan.add
  split
  · exact names
  · rename_i d found
    split
    · exact ⟨names.named, names.names, names.apart⟩
    · obtain ⟨called, more, apart⟩ := adapted_names names.apart room anchor plan.supply.draw.1 d
      refine ⟨fun k hk declares => ?_, more.trans ?_, apart⟩
      · rcases List.mem_append.mp hk with hk | hk
        · exact names.named k hk declares
        · obtain rfl := List.mem_singleton.mp hk
          exact called declares
      · rw [names.names, List.filterMap_append, List.append_assoc]
        congr 2

theorem ofClipping_namesApart (distinct : g.uids.Nodup) (named : g.Named) (c : Catalog)
    (anchor : Position) (q : Supply) {clipping : Clipping} (roomy : clipping.Roomy) :
    NamesApart g (ofClipping c g anchor q clipping) := by
  have start : g.variableNames.Nodup := by
    have uids : (g.variableNodes.map Node.uid).Nodup := Graph.variableNodes_distinct distinct
    have differ := List.pairwise_map.mp uids
    rw [Graph.variableNames, List.Nodup, List.pairwise_filterMap]
    refine differ.imp_of_mem fun hn hm differ name called other called' same => ?_
    exact named.apart _ (Graph.mem_variableNodes.mp hn).1 _ (Graph.mem_variableNodes.mp hm).1 differ
      name called (same ▸ called')
  suffices ∀ (nodes : List Node) (plan : Plan),
      (∀ n ∈ nodes, n.isVariable → nameInput < n.values.length) → NamesApart g plan →
        NamesApart g (nodes.foldl (add c g anchor) plan) by
    refine this clipping.nodes ⟨[], g.variableNames, [], q⟩ roomy ⟨fun m hm => ?_, ?_, start⟩
    · exact absurd hm List.not_mem_nil
    · rw [List.filterMap_nil, List.append_nil]
  intro nodes
  induction nodes with
  | nil => exact fun plan _ names => names
  | cons n nodes ih =>
    exact fun plan rooms names => ih _ (fun m hm => rooms m (List.mem_cons_of_mem n hm))
      (names.add (rooms n List.mem_cons_self))

private theorem brought_called (keep : List Uid) (uids : List (Uid × Uid)) (n : Node) :
    (brought g keep uids n).isVariable = n.isVariable ∧
      (brought g keep uids n).variableName? = n.variableName? := by
  have kept : (brought g keep uids n).Echoes (retarget uids n) := ⟨rfl, rfl, rfl⟩
  rw [kept.variableName?, kept.isVariable]
  by_cases access : n.access?.isSome
  · have other : ∀ values, ¬({ n with values } : Node).isVariable := by
      intro values declares
      have kind : n.kind = .variable := of_decide_eq_true declares
      rw [Node.access?, kind] at access
      cases access
    obtain ⟨values, -, same⟩ := retarget_eq uids n
    rw [same, Node.variableName?_eq_none (other values), Node.variableName?_eq_none (other n.values)]
    exact ⟨rfl, rfl⟩
  · rw [retarget, if_neg access]
    exact ⟨rfl, rfl⟩

theorem NamesApart.additions {plan : Plan} (names : NamesApart g plan) (named : g.Named) :
    ({ g with nodes := g.nodes ++ plan.additions g } : Graph).Named := by
  obtain ⟨-, apart, new⟩ := List.nodup_append'.mp (names.names ▸ names.apart)
  rw [List.Nodup, List.pairwise_filterMap] at apart
  have called : ∀ {keep : List Uid} {n : Node} {name : String},
      (brought g keep plan.uids n).variableName? = some name → n.variableName? = some name :=
    fun called => (brought_called _ _ _).2 ▸ called
  refine ⟨fun m hm declares => ?_, named.apart.append ?_ fun m hm name takes k hk has => ?_⟩
  · rcases List.mem_append.mp hm with hm | hm
    · exact named.named m hm declares
    · obtain ⟨k, hk, rfl⟩ := mem_additions hm
      obtain ⟨same, called⟩ := brought_called (g := g) (plan.added g) plan.uids k
      rw [called]
      exact names.named k hk (same ▸ declares)
  · -- Of the nodes of the plan some are left out, the others stay in order.
    have drafts : (plan.nodes.map (retarget plan.uids)).Pairwise fun n m => ∀ keep name,
        (release g keep (reconnect plan.uids n)).variableName? = some name →
          (release g keep (reconnect plan.uids m)).variableName? ≠ some name := by
      refine List.pairwise_map.mpr (apart.imp fun differ keep name first second => ?_)
      exact differ name (called first) name (called second) rfl
    unfold Plan.additions
    rw [List.map_map]
    exact List.pairwise_map.mpr ((drafts.sublist (single_sublist _ _)).imp fun differ => differ _)
  · obtain ⟨l, hl, rfl⟩ := mem_additions hm
    exact new (Graph.mem_variableNames.mpr ⟨k, hk, has⟩)
      (List.mem_filterMap.mpr ⟨l, hl, called takes⟩)

end Plan

/-! ## Changes -/

private theorem Graph.Named.switched (named : g.Named) (formed : g.WellFormed c)
    (distinct : c.Distinct) (methods : c.OfMethods) {fullName : String}
    (switches : g.setOverload c uid fullName = .ok h) : h.Named := by
  obtain ⟨n, d, found, defined, offered, -, rfl⟩ := Graph.setOverload_eq_ok switches
  obtain ⟨e, defined⟩ := Option.isSome_iff_exists.mp defined
  have known := distinct.find?_of_mem (Catalog.mem_overloads offered)
  refine Graph.Named.of_echoes ?_ (Graph.mapNodes_echoes (fun n => ?_) _)
  · refine named.update (fun _ => rfl) fun m hm here => ?_
    obtain rfl := Graph.eq_of_find? formed.distinct found hm here
    have kind : (Graph.switched d m).isVariable = decide (d.kind = .variable) := rfl
    by_cases declares : m.kind = .variable
    · have declares' := Catalog.declares_of_mem_overloads declares offered
      have typed := methods.namesByText _ d known declares'
      exact ⟨fun _ => decide_eq_true declares, Node.switched_variableName?
        (named.named m hm (decide_eq_true declares)) declares' typed⟩
    · have other := methods.not_declares_of_mem_overloads defined declares offered
      have unnamed : (Graph.switched d m).variableName? = none :=
        Node.variableName?_eq_none (by rw [kind, decide_eq_true_eq]; exact other)
      rw [unnamed, Node.variableName?_eq_none (by rw [Node.isVariable, decide_eq_true_eq]; exact declares)]
      exact ⟨fun declares' => absurd (of_decide_eq_true declares') other, rfl⟩
  · exact ⟨rfl, rfl, rfl⟩

theorem declaration_variableName? (declares : d.kind = .variable)
    (room : publicInput < d.inputs.length) (name : String) (isPublic : Bool) (uid : Uid) :
    (Session.declaration d name isPublic uid).variableName? = some name := by
  have length : (Node.fresh uid d).values.length = d.inputs.length := List.length_map _
  have called := Node.variableName?_setName (n := Node.fresh uid d) (decide_eq_true declares)
    (length ▸ Nat.lt_trans (by decide) room) name
  exact (Node.variableName?_set fun _ => by decide).trans called

theorem Change.named (distinct : c.Distinct) (methods : c.OfMethods)
    (change : Change c a (g, p) (h, q)) (formed : g.WellFormed c) (named : g.Named)
    (roomy : ∀ text anchor, a = .paste text anchor → ∀ clipping,
      Clipping.ofText text = .ok clipping → clipping.Roomy) : h.Named := by
  rcases change.rewording with echoes | rewords
  · exact named.of_echoes echoes
  cases rewords with
  | @declare _ _ _ d found declares room name free isPublic =>
    exact named.push fun _ => ⟨g.unusedNameLike name,
      declaration_variableName? declares room _ isPublic _, unusedNameLike_not_mem _ _⟩
  | @add _ _ _ d found other single position =>
    exact named.push fun declares => absurd (of_decide_eq_true declares) other
  | @access _ _ _ use variableUid d found single position =>
    refine named.push fun declares => absurd (of_decide_eq_true declares) ?_
    change d.kind ≠ .variable
    rw [Catalog.find?_kind found]
    cases use <;> decide
  | @bind _ _ _ uid target n name type found needs =>
    refine named.update (fun _ => rfl) fun m hm here => ⟨id, ?_⟩
    exact Node.variableName?_set fun _ => by decide
  | rename renames =>
    obtain ⟨n, current, found, called, -, rfl, rfl⟩ := Graph.renameVariable_eq_ok renames
    exact named.rename formed.distinct found (called ▸ rfl) (unusedNameLike_not_mem _ _)
  | @store _ _ _ n d index value h found defined other stores =>
    obtain ⟨stored, -, -, rfl⟩ := Graph.storeValue_eq_ok stores
    refine named.update (fun _ => rfl) fun m hm here => ⟨id, ?_⟩
    obtain rfl := Graph.eq_of_find? formed.distinct found hm here
    exact Node.variableName?_set other
  | switch switches => exact named.switched formed distinct methods switches
  | repair =>
    have kept : ∀ m ∈ (g.repaired c).nodes, ∃ n ∈ g.nodes, m.uid = n.uid ∧
        m.isVariable = n.isVariable ∧ m.variableName? = n.variableName? := by
      intro m hm
      obtain ⟨n, hn, d, found, repeats⟩ := formed.mem_repaired hm
      refine ⟨n, hn, repeats.uid, repeats.isVariable, repeats.variableName?.trans ?_⟩
      exact Node.settle_variableName? fun declares =>
        methods.namesByText _ d found (of_decide_eq_true declares)
    refine ⟨fun m hm declares => ?_, named.apart.of_kept fun m hm => ?_⟩
    · obtain ⟨n, hn, -, same, called⟩ := kept m hm
      exact called ▸ named.named n hn (same ▸ declares)
    · obtain ⟨n, hn, same, -, called⟩ := kept m hm
      exact ⟨n, hn, same, fun name has => called ▸ has⟩
  | @paste _ anchor _ _ clipping holds =>
    have names := Plan.ofClipping_namesApart formed.distinct named c anchor p
      (roomy _ _ rfl clipping holds)
    exact (names.additions named).of_echoes (Graph.foldl_relayout_echoes _ c _)

/-! ## Copies -/

namespace Graph

theorem Named.roomy (named : g.Named) {selection : List Uid} {clipping : Clipping}
    (holds : Clipping.ofText (g.clip selection).toText = .ok clipping) : clipping.Roomy := by
  rw [Clipping.ofText_toText] at holds
  split at holds
  · cases holds
  · rename_i nodes reads
    cases holds
    intro m hm declares
    obtain ⟨k, hk, read⟩ := exists_of_mem_mapM reads hm
    obtain ⟨n, hn, repeats⟩ := g.clip_echoes selection k hk
    obtain ⟨-, name, length⟩ := Node.of_ofJson?_readBack read
    rw [length, repeats.values]
    refine Node.nameInput_lt (named.named n hn ?_)
    rwa [Node.isVariable, Node.kind, ← repeats.fullName, ← name]

end Graph

/-! ## Histories -/

namespace Session

/-- Sessions that start without nodes and take clippings from each other only. -/
inductive Authored : Session → Prop
  | created {c : Catalog} (distinct : c.Distinct) (methods : c.OfMethods) (settings : Settings)
      {supply : Supply} (fresh : supply.Fresh []) : Authored (create c settings supply)
  | performed {s : Session} {action : Action} (authored : Authored s)
      (other : ∀ text anchor, action ≠ .paste text anchor) : Authored (s.perform action).2
  | pasted {s t : Session} (authored : Authored s) (source : Authored t) (selection : List Uid)
      (anchor : Position) : Authored (s.perform (.paste (t.copy selection) anchor)).2

variable {s : Session}

theorem perform_named (distinct : s.catalog.Distinct) (methods : s.catalog.OfMethods)
    (sound : Sound s.catalog s.graph s.supply) (named : s.graph.Named) {action : Action}
    (roomy : ∀ text anchor, action = .paste text anchor → ∀ clipping,
      Clipping.ofText text = .ok clipping → clipping.Roomy) :
    Sound s.catalog (s.perform action).2.graph (s.perform action).2.supply ∧
      (s.perform action).2.graph.Named :=
  changes_induct (fun g p => Sound s.catalog g p ∧ g.Named)
    (fun change ⟨sound, named⟩ => ⟨change.sound distinct sound,
      change.named distinct methods sound.formed named roomy⟩)
    (s.perform_makes action).changes ⟨sound, named⟩

private theorem Authored.invariant (authored : Authored s) :
    s.catalog.Distinct ∧ s.catalog.OfMethods ∧ Sound s.catalog s.graph s.supply ∧ s.graph.Named := by
  induction authored with
  | @created c distinct methods settings supply fresh =>
    obtain ⟨-, sound⟩ := Begun.sound distinct (.created settings fresh)
    exact ⟨distinct, methods, sound, fun n hn => absurd hn List.not_mem_nil,
      fun n hn => absurd hn List.not_mem_nil⟩
  | @performed s action _ other ih =>
    obtain ⟨distinct, methods, sound, named⟩ := ih
    rw [(s.perform_makes action).catalog]
    exact ⟨distinct, methods, perform_named distinct methods sound named
      fun text anchor same => absurd same (other text anchor)⟩
  | @pasted s t _ _ selection anchor ih source =>
    obtain ⟨distinct, methods, sound, named⟩ := ih
    obtain ⟨-, -, -, origin⟩ := source
    rw [(s.perform_makes _).catalog]
    refine ⟨distinct, methods, perform_named distinct methods sound named ?_⟩
    rintro text anchor ⟨⟩ clipping holds
    exact origin.roomy holds

private theorem renameVariable_given {uid : Uid} {name given : String}
    (renames : (s.renameVariable uid name).1 = .ok given) :
    ((s.renameVariable uid name).2.graph.find? uid).bind Node.variableName? = some given := by
  unfold renameVariable editing at renames ⊢
  split at renames
  · cases renames
  · rename_i ready
    rw [if_neg ready]
    split at renames
    · cases renames
    · rename_i other same
      cases renames
      obtain ⟨n, found, called⟩ := Graph.renameVariable_eq_same same
      exact found ▸ called
    · rename_i other h changes
      cases renames
      obtain ⟨n, current, found, called, -, -, rfl⟩ := Graph.renameVariable_eq_ok changes
      have kept : ∀ n : Node,
          { n with values := n.values.set nameInput (.text given) }.uid = n.uid := fun _ => rfl
      change ((s.graph.update uid _).find? uid).bind _ = _
      rw [Graph.find?_update kept, if_pos rfl, found]
      exact Node.variableName?_setName (Node.isVariable_of_named (called ▸ rfl))
        (Node.nameInput_lt (called ▸ rfl)) given

/-- In every authored session a variable has a text as its name, no two variables have one name, and a
variable that is renamed is called as it was said to be. -/
theorem authored_names (authored : Authored s) :
    (∀ n ∈ s.graph.nodes, n.isVariable → ∃ name, n.values[nameInput]? = some (.text name)) ∧
      (s.graph.nodes.filterMap Node.variableName?).Nodup ∧
      ∀ uid name given, (s.renameVariable uid name).1 = .ok given →
        ((s.renameVariable uid name).2.graph.find? uid).bind Node.variableName? = some given := by
  obtain ⟨-, -, ⟨formed, -⟩, named⟩ := authored.invariant
  refine ⟨fun n hn declares => ?_, ?_, fun uid name given => renameVariable_given⟩
  · obtain ⟨name, called⟩ := Option.isSome_iff_exists.mp (named.named n hn declares)
    rw [Node.variableName?, if_pos declares] at called
    obtain ⟨value, there, text⟩ := Option.bind_eq_some_iff.mp called
    cases value <;> cases text
    exact ⟨name, there⟩
  · rw [List.Nodup, List.pairwise_filterMap]
    refine (named.apart.pairwise formed.distinct).imp fun differ k has l has' => ?_
    rintro rfl
    exact differ k has has'

def counting (c : Catalog) : Session :=
  ((create c .default .strokes).perform (.addVariable int32Type "count" true)).2

def returning (c : Catalog) : Session :=
  (((create c .default .strokes).perform (.addNode Kind.setReturnValueName .origin)).2.perform
    (.addVariable int32Type "count" false)).2

private theorem counting_authored {c : Catalog} (begins : Authored (create c .default .strokes)) :
    Authored (counting c) :=
  .performed begins fun _ _ => nofun

private theorem returning_authored {c : Catalog} (begins : Authored (create c .default .strokes)) :
    Authored (returning c) :=
  .performed (.performed begins fun _ _ => nofun) fun _ _ => nofun

def getPosition : Definition :=
  .bare "UnityEngineTransform.__get_position__UnityEngineVector3"

theorem authored_names_copied :
    (((returning (Catalog.intrinsic.extend [getPosition]).1).perform
      (.paste ((counting (Catalog.intrinsic.extend [getPosition]).1).copy ["||"])
        .origin)).2.graph.nodes.filterMap Node.variableName?).Nodup := by
  have methods : (Catalog.intrinsic.extend [getPosition]).1.OfMethods := by
    refine Catalog.intrinsic_extend_ofMethods fun d listed => ?_
    obtain rfl := List.mem_singleton.mp listed
    exact ⟨"UnityEngineTransform", "get_position", "UnityEngineVector3", by decide, by decide⟩
  have begins : Authored (create (Catalog.intrinsic.extend [getPosition]).1 .default .strokes) :=
    .created (Catalog.intrinsic_distinct.extend _) methods .default (Supply.strokes_fresh (by simp))
  exact (authored_names (.pasted (returning_authored begins) (counting_authored begins) ["||"]
    .origin)).2.1

end Session

end ScriptGraph
