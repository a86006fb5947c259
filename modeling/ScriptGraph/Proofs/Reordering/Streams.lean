import ScriptGraph.Proofs.Lowering.Streams
import ScriptGraph.Proofs.Reordering.Requests

/-!
Lowering over a renumbered heap. It never computes with slots, only passes them on, so two runs whose
heaps differ in their numbering emit the same code but for the numbers in it.
-/

set_option autoImplicit false
set_option relaxedAutoImplicit false

namespace ScriptGraph

def Op.renumber (π : Equiv.Perm Slot) : Op → Op
  | .copy source destination => .copy (π source) (π destination)
  | .call method slots => .call method (slots.map π)
  | .jump target => .jump target
  | .jumpUnless condition target => .jumpUnless (π condition) target
  | .label mark => .label mark

def Stream.renumber (π : Equiv.Perm Slot) (s : Stream) : Stream :=
  { s with ops := s.ops.map (Op.renumber π) }

namespace Lowering

variable {π : Equiv.Perm Slot} {α β γ δ : Type}

/-- Two states of lowering that differ in the numbers of slots only. -/
structure Renumbered (π : Equiv.Perm Slot) (s t : Lowering) : Prop where
  heap : s.heap.Renumbered π t.heap
  diagnostics : t.diagnostics = s.diagnostics
  nextLabel : t.nextLabel = s.nextLabel
  emitted : t.emitted = s.emitted

theorem Renumbered.of_heap {h k : HeapLayout} (heap : h.Renumbered π k)
    (diagnostics : List Diagnostic) :
    Renumbered π ⟨h, diagnostics, 0, []⟩ ⟨k, diagnostics, 0, []⟩ :=
  ⟨heap, rfl, rfl, rfl⟩

def Supply.renumber (π : Equiv.Perm Slot) (supplied : Supply) : Supply :=
  { supplied with code := supplied.code.map (Op.renumber π), slot := π supplied.slot }

def Supplies.renumber (π : Equiv.Perm Slot) (supplies : Supplies) : Supplies :=
  { supplies with code := supplies.code.map (Op.renumber π), slots := supplies.slots.map π }

/-- A step that does to renumbered states what another does to the states, with a changed result. -/
def Renumbers (π : Equiv.Perm Slot) (change : α → β) (x : Step α) (y : Step β) : Prop :=
  ∀ s t, s.Renumbered π t → Agree (fun a b => b.1 = change a.1 ∧ a.2.Renumbered π b.2) (x s) (y t)

/-- A step that emits code emits the same code with its slots renumbered. -/
abbrev RenumbersCode (π : Equiv.Perm Slot) (x y : Step (List Op)) : Prop :=
  Renumbers π (List.map (Op.renumber π)) x y

namespace Renumbers

theorem pure {change : α → β} {a : α} {b : β} (same : b = change a) :
    Renumbers π change (Pure.pure a : Step α) (Pure.pure b) :=
  fun _ _ renumbered => .ok ⟨same, renumbered⟩

theorem throw (change : α → β) (error : CompileError) :
    Renumbers π change (MonadExcept.throw error : Step α) (MonadExcept.throw error) :=
  fun _ _ _ => .error error

theorem bind {first : α → β} {second : γ → δ} {x : Step α} {y : Step β} {f : α → Step γ}
    {k : β → Step δ} (begins : Renumbers π first x y)
    (continues : ∀ a, Renumbers π second (f a) (k (first a))) :
    Renumbers π second (x >>= f) (y >>= k) := by
  intro s t renumbered
  rw [bind_apply, bind_apply]
  have begun := begins s t renumbered
  generalize x s = left at begun
  generalize y t = right at begun
  cases begun with
  | error error => exact .error error
  | @ok a b holds =>
    obtain ⟨b, t⟩ := b
    obtain ⟨rfl, renumbered⟩ := holds
    exact continues a.1 a.2 t renumbered

theorem mapM {view : α → β} {change : γ → δ} {f : α → Step γ} {k : β → Step δ} {as : List α}
    (each : ∀ a, Renumbers π change (f a) (k (view a))) :
    Renumbers π (List.map change) (as.mapM f) ((as.map view).mapM k) := by
  induction as with
  | nil => exact pure rfl
  | cons a as ih =>
    rw [List.map_cons, List.mapM_cons, List.mapM_cons]
    exact (each a).bind fun _ => ih.bind fun _ => pure rfl

theorem newLabel : Renumbers π id newLabel newLabel := fun _ _ renumbered =>
  .ok ⟨renumbered.nextLabel, renumbered.heap, renumbered.diagnostics,
    congrArg (· + 1) renumbered.nextLabel, renumbered.emitted⟩

theorem report (uid : Uid) (problem : Problem) :
    Renumbers π id (report uid problem) (report uid problem) := fun _ _ renumbered =>
  .ok ⟨rfl, renumbered.heap, congrArg (· ++ _) renumbered.diagnostics, renumbered.nextLabel,
    renumbered.emitted⟩

theorem onHeap {request : HeapLayout → Slot × HeapLayout}
    (same : ∀ h k, h.Renumbered π k → HeapLayout.Renumbered.Granted π (request h) (request k)) :
    Renumbers π π (onHeap request) (onHeap request) := by
  intro s t renumbered
  obtain ⟨slot, heap⟩ := same _ _ renumbered.heap
  exact .ok ⟨slot, heap, renumbered.diagnostics, renumbered.nextLabel, renumbered.emitted⟩

theorem onHeapOrFail {request : HeapLayout → Except CompileError (Slot × HeapLayout)}
    (same : ∀ h k, h.Renumbered π k → Agree (HeapLayout.Renumbered.Granted π) (request h) (request k)) :
    Renumbers π π (onHeapOrFail request) (onHeapOrFail request) := by
  intro s t renumbered
  have granted := same _ _ renumbered.heap
  unfold Lowering.onHeapOrFail
  generalize request s.heap = left at granted
  generalize request t.heap = right at granted
  cases granted with
  | error error => exact .error error
  | ok holds =>
    exact .ok ⟨holds.1, holds.2, renumbered.diagnostics, renumbered.nextLabel, renumbered.emitted⟩

theorem constant (type : String) (value : Value) :
    Renumbers π π (constant type value) (constant type value) :=
  onHeap fun _ _ renumbered => renumbered.constantSlot type value

theorem scratch (type : String) : Renumbers π π (scratch type) (scratch type) :=
  onHeap fun _ _ renumbered => renumbered.scratchSlot type

theorem output (uid : Uid) (index : Nat) : Renumbers π π (output uid index) (output uid index) :=
  onHeapOrFail fun _ _ renumbered => renumbered.outputSlot uid index

theorem outputs (uid : Uid) (count : Nat) :
    Renumbers π (List.map π) (outputs uid count) (outputs uid count) := by
  have each : Renumbers π (List.map π) ((List.range count).mapM (Lowering.output uid))
      (((List.range count).map id).mapM (Lowering.output uid)) := mapM (output uid)
  rwa [List.map_id] at each

theorem variableSlot (uid : Uid) : Renumbers π π (variableSlot uid) (variableSlot uid) := by
  intro s t renumbered
  unfold Lowering.variableSlot
  rw [renumbered.heap.findVariable?]
  cases s.heap.findVariable? uid with
  | none => exact .error _
  | some slot => exact .ok ⟨rfl, renumbered⟩

theorem present (uid : Uid) (found : Option α) :
    Renumbers π id (present uid found) (present uid found) := by
  cases found with
  | none => exact throw id _
  | some a => exact pure rfl

theorem placed (c : Catalog) (g : Graph) (uid : Uid) :
    Renumbers π id (placed c g uid) (placed c g uid) :=
  (present uid _).bind fun _ => (present uid _).bind fun _ => pure rfl

end Renumbers

/-! ## Inputs -/

section Inputs

variable {feed : List Uid → Link → Step Supply} {n : Node} {d : Definition}

def RenumbersFeed (π : Equiv.Perm Slot) (feed : List Uid → Link → Step Supply) : Prop :=
  ∀ evaluated link, Renumbers π (Supply.renumber π) (feed evaluated link) (feed evaluated link)

theorem inputAs_renumbers (feeds : RenumbersFeed π feed) (index : Nat) (declared : Option String)
    (evaluated : List Uid) : Renumbers π (Supply.renumber π)
      (inputAs feed n d index declared evaluated) (inputAs feed n d index declared evaluated) := by
  unfold inputAs
  split
  · exact feeds evaluated _
  · exact (Renumbers.constant _ _).bind fun _ => .pure rfl

theorem inputs_renumbers (feeds : RenumbersFeed π feed) (indices : List Nat)
    (evaluated : List Uid) : Renumbers π (Supplies.renumber π) (inputs feed n d indices evaluated)
      (inputs feed n d indices evaluated) := by
  induction indices generalizing evaluated with
  | nil => exact .pure rfl
  | cons index indices ih =>
    rw [inputs]
    refine (inputAs_renumbers feeds index _ evaluated).bind fun first => ?_
    refine (ih first.evaluated).bind fun others => ?_
    exact .pure (by simp [Supply.renumber, Supplies.renumber])

theorem callOf_renumbers (supplies : Supplies) :
    RenumbersCode π (callOf n d supplies) (callOf n d (supplies.renumber π)) :=
  (Renumbers.outputs n.uid _).bind fun _ => .pure (by simp [Supplies.renumber, Op.renumber])

theorem compute_renumbers (feeds : RenumbersFeed π feed) (evaluated : List Uid) (link : Link) :
    Renumbers π (Supply.renumber π) (compute feed n d evaluated link)
      (compute feed n d evaluated link) := by
  refine (inputs_renumbers feeds _ evaluated).bind fun supplies => ?_
  refine (callOf_renumbers supplies).bind fun code => ?_
  exact (Renumbers.output _ _).bind fun slot => .pure rfl

theorem supplyFrom_renumbers (source : Source) {computation : Step Supply}
    (visiting evaluated : List Uid) (link : Link)
    (computes : Renumbers π (Supply.renumber π) computation computation) :
    Renumbers π (Supply.renumber π)
      (supplyFrom source computation (breakCycle evaluated link) visiting evaluated link)
      (supplyFrom source computation (breakCycle evaluated link) visiting evaluated link) := by
  have stored : Renumbers π (Supply.renumber π)
      (do return ⟨[], ← output link.node link.output, evaluated⟩)
      (do return ⟨[], ← output link.node link.output, evaluated⟩) :=
    (Renumbers.output _ _).bind fun _ => .pure rfl
  cases source with
  | literal type value => exact (Renumbers.constant type value).bind fun _ => .pure rfl
  | «variable» uid => exact (Renumbers.variableSlot uid).bind fun _ => .pure rfl
  | stored => exact stored
  | computed =>
    simp only [supplyFrom]
    split
    · exact stored
    · split
      · refine (Renumbers.report _ _).bind fun _ => ?_
        exact (Renumbers.constant _ _).bind fun _ => .pure rfl
      · exact computes

theorem supply_renumbers (c : Catalog) (g : Graph) (depth : Nat) (visiting : List Uid) :
    RenumbersFeed π (supply c g depth visiting) := by
  induction depth generalizing visiting with
  | zero => exact fun _ _ => Renumbers.throw _ _
  | succ depth ih =>
    intro evaluated link
    rw [supply_succ]
    refine (Renumbers.placed c g link.node).bind fun (n, d) => ?_
    exact supplyFrom_renumbers _ visiting evaluated link (compute_renumbers (ih _) evaluated link)

end Inputs

/-! ## Flows -/

section Flows

variable {feed : List Uid → Link → Step Supply} {follow : Uid → Target → Step (List Op)}
  {n : Node} {d : Definition}

def RenumbersFlows (π : Equiv.Perm Slot) (follow : Uid → Target → Step (List Op)) : Prop :=
  ∀ uid exit, RenumbersCode π (follow uid exit) (follow uid exit)

theorem port_renumbers (follows : RenumbersFlows π follow) (index : Nat) (exit : Target) :
    RenumbersCode π (port follow n index exit) (port follow n index exit) := by
  unfold port
  split
  · exact follows _ exit
  · exact .pure rfl

theorem chains_renumbers (follows : RenumbersFlows π follow) (exit : Target) (uids : List Uid) :
    RenumbersCode π (chains follow exit uids) (chains follow exit uids) := by
  induction uids with
  | nil => exact .pure rfl
  | cons uid rest ih =>
    cases rest with
    | nil => exact follows uid exit
    | cons next rest =>
      refine Renumbers.newLabel.bind fun after => (follows uid _).bind fun code => ?_
      exact ih.bind fun others => .pure (by simp [Op.renumber])

theorem choice_renumbers (follows : RenumbersFlows π follow) (condition : Slot) (exit : Target) :
    RenumbersCode π (choice follow n condition exit) (choice follow n (π condition) exit) := by
  refine Renumbers.newLabel.bind fun otherwise => (port_renumbers follows 0 exit).bind fun first => ?_
  exact (port_renumbers follows 1 exit).bind fun second => .pure (by simp [Op.renumber])

theorem counting_renumbers (follows : RenumbersFlows π follow) (index stop step inRange : Slot)
    (opening : List Op) (exit : Target) :
    RenumbersCode π (counting follow n index stop step inRange opening exit)
      (counting follow n (π index) (π stop) (π step) (π inRange) (opening.map (Op.renumber π))
        exit) := by
  refine Renumbers.newLabel.bind fun header => Renumbers.newLabel.bind fun increment => ?_
  refine Renumbers.newLabel.bind fun done => (port_renumbers follows 0 _).bind fun body => ?_
  exact (port_renumbers follows 1 exit).bind fun after => .pure (by simp [Op.renumber])

theorem forLoop_renumbers (feeds : RenumbersFeed π feed) (follows : RenumbersFlows π follow)
    (exit : Target) : RenumbersCode π (forLoop feed follow n d exit) (forLoop feed follow n d exit) := by
  refine (inputAs_renumbers feeds 0 _ []).bind fun start => ?_
  refine (inputAs_renumbers feeds 1 _ start.evaluated).bind fun stop => ?_
  refine (inputAs_renumbers feeds 2 _ stop.evaluated).bind fun step => ?_
  refine (Renumbers.output n.uid 0).bind fun index => ?_
  refine (Renumbers.scratch boolType).bind fun inRange => ?_
  refine (counting_renumbers follows index stop.slot step.slot inRange [] exit).bind fun loop => ?_
  exact .pure (by simp [Supply.renumber, Op.renumber])

theorem foreachLoop_renumbers (feeds : RenumbersFeed π feed) (follows : RenumbersFlows π follow)
    (exit : Target) :
    RenumbersCode π (foreachLoop feed follow n d exit) (foreachLoop feed follow n d exit) := by
  refine (inputAs_renumbers feeds 0 _ []).bind fun array => ?_
  refine (Renumbers.output n.uid 0).bind fun item => ?_
  refine (Renumbers.constant int32Type (.int32 0)).bind fun first => ?_
  refine (Renumbers.constant int32Type (.int32 1)).bind fun one => ?_
  refine (Renumbers.scratch int32Type).bind fun index => ?_
  refine (Renumbers.scratch int32Type).bind fun length => ?_
  refine (Renumbers.scratch boolType).bind fun inRange => ?_
  refine (counting_renumbers follows index length one inRange
    [.call arrayGetMethod [array.slot, index, item]] exit).bind fun loop => ?_
  exact .pure (by simp [Supply.renumber, Op.renumber])

theorem assignment_renumbers (g : Graph) (feeds : RenumbersFeed π feed)
    (follows : RenumbersFlows π follow) (exit : Target) :
    RenumbersCode π (assignment g feed follow n d exit) (assignment g feed follow n d exit) := by
  rw [assignment_eq]
  refine (Renumbers.present _ _).bind fun target => (Renumbers.present _ _).bind fun variableNode => ?_
  refine (Renumbers.variableSlot target).bind fun slot => ?_
  refine (inputAs_renumbers feeds 1 _ []).bind fun value => ?_
  have notices : RenumbersCode π (notice g n d target variableNode) (notice g n d target variableNode) := by
    unfold notice
    split
    · refine (Renumbers.constant _ _).bind fun this => ?_
      exact (Renumbers.constant _ _).bind fun event => .pure rfl
    · exact .pure rfl
  refine notices.bind fun change => (port_renumbers follows 0 exit).bind fun rest => ?_
  exact .pure (by simp [Supply.renumber, Op.renumber])

theorem body_renumbers (g : Graph) (feeds : RenumbersFeed π feed)
    (follows : RenumbersFlows π follow) (exit : Target) :
    RenumbersCode π (body g feed follow n d exit) (body g feed follow n d exit) := by
  have called : RenumbersCode π (call feed follow n d exit) (call feed follow n d exit) := by
    refine (inputs_renumbers feeds _ []).bind fun supplies => ?_
    refine (callOf_renumbers supplies).bind fun code => ?_
    exact (port_renumbers follows 0 exit).bind fun rest => .pure (by simp)
  unfold body
  split
  · exact chains_renumbers follows exit _
  · refine (inputAs_renumbers feeds 0 _ []).bind fun condition => ?_
    refine (choice_renumbers follows condition.slot exit).bind fun chosen => ?_
    exact .pure (by simp [Supply.renumber])
  · refine (inputAs_renumbers feeds 0 _ []).bind fun object => ?_
    refine (Renumbers.scratch boolType).bind fun valid => ?_
    refine (choice_renumbers follows valid exit).bind fun chosen => ?_
    exact .pure (by simp [Supply.renumber, Op.renumber])
  · exact forLoop_renumbers feeds follows exit
  · exact foreachLoop_renumbers feeds follows exit
  · refine Renumbers.newLabel.bind fun header => Renumbers.newLabel.bind fun done => ?_
    refine (inputAs_renumbers feeds 0 _ []).bind fun condition => ?_
    refine (port_renumbers follows 0 _).bind fun body => (port_renumbers follows 1 exit).bind fun after => ?_
    exact .pure (by simp [Supply.renumber, Op.renumber])
  · exact assignment_renumbers g feeds follows exit
  · exact assignment_renumbers g feeds follows exit
  · exact called

end Flows

/-! ## Events -/

variable (c : Catalog) (g : Graph)

theorem chain_renumbers (depth : Nat) : RenumbersFlows π (chain c g depth) := by
  induction depth with
  | zero => exact fun uid exit => Renumbers.throw _ _
  | succ depth ih =>
    intro uid exit s t renumbered
    rw [chain_succ, chain_succ, renumbered.emitted]
    cases s.emitted.lookup (uid, exit) with
    | some label => exact .ok ⟨rfl, renumbered⟩
    | none =>
      have code : ∀ label, RenumbersCode π (labelledBody c g depth uid exit label)
          (labelledBody c g depth uid exit label) := fun label =>
        (Renumbers.placed c g uid).bind fun found =>
          (body_renumbers g (supply_renumbers c g _ []) ih exit).bind fun code => .pure rfl
      rw [renumbered.nextLabel]
      refine code s.nextLabel (entered uid exit s) (entered uid exit t) ?_
      refine ⟨renumbered.heap, renumbered.diagnostics, congrArg (· + 1) renumbered.nextLabel, ?_⟩
      change (_, t.nextLabel) :: t.emitted = _
      rw [renumbered.nextLabel, renumbered.emitted]
      rfl

theorem nameParameters_renumbers (uid : Uid) (entry : String) (index : Nat)
    (parameters : List Parameter) : Renumbers π id (nameParameters uid entry index parameters)
      (nameParameters uid entry index parameters) := by
  induction parameters generalizing index with
  | nil => exact .pure rfl
  | cons p rest ih =>
    have named := Renumbers.onHeapOrFail (π := π) fun h k renumbered =>
      HeapLayout.Renumbered.namedOutputSlot renumbered uid index (parameterName entry p)
    exact named.bind fun _ => ih (index + 1)

theorem entries_renumbers (taken : List String) (nodes : List Node) :
    Renumbers π id (entries c g taken nodes) (entries c g taken nodes) := by
  induction nodes generalizing taken with
  | nil => exact .pure rfl
  | cons n nodes ih =>
    have named : Renumbers π id (entryName? g n) (entryName? g n) := by
      rw [entryName?_eq]
      split
      · exact (Renumbers.report _ _).bind fun _ => .pure rfl
      · exact .pure rfl
    rw [entries]
    split
    · exact ih taken
    · refine named.bind fun claimed => ?_
      cases claimed with
      | none => exact ih taken
      | some name =>
        dsimp only [id]
        split
        · exact (Renumbers.report _ _).bind fun _ => ih taken
        · refine (nameParameters_renumbers _ _ _ _).bind fun _ => ?_
          exact (ih _).bind fun others => .pure rfl

theorem streams_renumbers :
    Renumbers π (List.map (Stream.renumber π)) (streams c g) (streams c g) := by
  refine (entries_renumbers c g [] g.eventNodes).bind fun found => ?_
  have each : Renumbers π (List.map (Stream.renumber π))
      (found.mapM fun entry => stream c g entry.1 entry.2)
      ((found.map id).mapM fun entry => stream c g entry.1 entry.2) := by
    refine Renumbers.mapM fun entry => ?_
    have emptied : Renumbers π id (modify fun s => { s with emitted := [] } : Step Unit)
        (modify fun s => { s with emitted := [] }) := fun _ _ renumbered =>
      .ok ⟨rfl, renumbered.heap, renumbered.diagnostics, renumbered.nextLabel, rfl⟩
    refine emptied.bind fun _ => ?_
    exact (port_renumbers (chain_renumbers c g _) 0 .halt).bind fun _ => .pure rfl
  rwa [List.map_id] at each

end Lowering

end ScriptGraph
