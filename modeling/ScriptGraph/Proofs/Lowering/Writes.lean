import ScriptGraph.Proofs.Lowering.Streams
import ScriptGraph.Proofs.Machine.Hosts

/-!
What lowered code writes to. A copy goes to the slot of an output, of a variable or to a scratch slot,
and a call has as many slots for the inputs of its method ahead of others as the method takes; so no
constant is ever written to, but for the inputs that a host hands back.
-/

set_option autoImplicit false
set_option relaxedAutoImplicit false

namespace ScriptGraph

/-- How many inputs a method takes: those that control flow is built from, and those that a catalog
defines. -/
def Catalog.Takes (c : Catalog) (method : String) (inputs : Nat) : Prop :=
  (method, inputs) ∈ controlMethods ∨
    ∃ name d, c.find? name = some d ∧ d.fullName = method ∧ d.inputs.length = inputs

def Catalog.Spares (c : Catalog) (writable : Slot → Prop) (method : String) (slots : List Slot) : Prop :=
  ∃ inputs others, slots = inputs ++ others ∧ c.Takes method inputs.length ∧
    ∀ slot ∈ others, writable slot

/-- An operation changes nothing but slots that may be written to, if methods leave their inputs as
they are. -/
def Op.Spares (c : Catalog) (writable : Slot → Prop) : Op → Prop
  | .copy _ destination => writable destination
  | .call method slots => c.Spares writable method slots
  | _ => True

def SparingOps (c : Catalog) (writable : Slot → Prop) (ops : List Op) : Prop :=
  ∀ op ∈ ops, op.Spares c writable

section Code

variable {c : Catalog} {writable : Slot → Prop}

@[simp] theorem sparingOps_nil : SparingOps c writable [] := by
  simp [SparingOps]

@[simp] theorem sparingOps_append {ops rest : List Op} :
    SparingOps c writable (ops ++ rest) ↔ SparingOps c writable ops ∧ SparingOps c writable rest := by
  simp only [SparingOps, List.mem_append, or_imp, forall_and]

@[simp] theorem sparingOps_cons {op : Op} {ops : List Op} :
    SparingOps c writable (op :: ops) ↔ op.Spares c writable ∧ SparingOps c writable ops := by
  simp only [SparingOps, List.mem_cons, forall_eq_or_imp]

theorem Catalog.Spares.control {method : String} {result : Slot} (count : Nat) (inputs : List Slot)
    (listed : (method, count) ∈ controlMethods) (length : inputs.length = count)
    (written : writable result) : c.Spares writable method (inputs ++ [result]) :=
  ⟨inputs, [result], rfl, .inl (length ▸ listed), by simpa using written⟩

end Code

/-! ## Slots that are no constants -/

namespace HeapLayout

/-- A slot that belongs to no constant. -/
def Writable (h : HeapLayout) (slot : Slot) : Prop :=
  ∀ type value, h.slot? (.constant type value) ≠ some slot

theorem Sound.writable {h : HeapLayout} (sound : Sound h) {key : Key} {slot : Slot}
    (granted : h.slot? key = some slot) (other : ∀ type value, key ≠ .constant type value) :
    h.Writable slot :=
  fun type value found => other type value (sound.injective _ _ _ granted found)

theorem Grows.writable {h later : HeapLayout} (grows : Grows h later) {slot : Nat}
    (written : h.Writable slot) (inside : slot < h.size) : later.Writable slot := by
  intro type value found
  rcases grows.fresh _ _ found with before | above
  · exact written type value before
  · exact absurd inside (Nat.not_lt_of_le above)

end HeapLayout

namespace Lowering

open HeapLayout (Grows Sound Key)

variable {α β : Type}

/-! ## Steps on the way to a layout -/

/-- A step keeps the layout sound and lets it grow, and if it has grown into a certain layout in the
end, the result of the step has a property. -/
def Ensures (h : HeapLayout) (P : α → Prop) (x : Step α) : Prop :=
  ∀ s a t, Sound s.heap → x s = .ok (a, t) →
    Sound t.heap ∧ Grows s.heap t.heap ∧ (Grows t.heap h → P a)

namespace Ensures

variable {h : HeapLayout} {P Q : α → Prop}

theorem pure {a : α} (holds : P a) : Ensures h P (Pure.pure a : Step α) := by
  intro s b t sound given
  obtain ⟨rfl, rfl⟩ := pure_eq_ok.mp given
  exact ⟨sound, .refl _, fun _ => holds⟩

theorem bind {R : β → Prop} {x : Step α} {f : α → Step β} (first : Ensures h P x)
    (second : ∀ a, Ensures h (fun b => P a → R b) (f a)) : Ensures h R (x >>= f) := by
  intro s b t sound given
  obtain ⟨a, r, hx, hf⟩ := bind_eq_ok.mp given
  obtain ⟨between, grows, holds⟩ := first s a r sound hx
  obtain ⟨after, later, follows⟩ := second a r b t between hf
  exact ⟨after, grows.trans later, fun final => follows final (holds (later.trans final))⟩

theorem imp {x : Step α} (ensures : Ensures h P x) (weaker : ∀ a, P a → Q a) : Ensures h Q x := by
  intro s a t sound given
  obtain ⟨after, grows, holds⟩ := ensures s a t sound given
  exact ⟨after, grows, fun final => weaker a (holds final)⟩

theorem throw (error : CompileError) : Ensures h P (MonadExcept.throw error : Step α) := by
  intro s a t _ given
  rw [throw_apply] at given
  cases given

theorem mapM {f : β → Step α} {bs : List β} (each : ∀ b ∈ bs, Ensures h P (f b)) :
    Ensures h (fun as => ∀ a ∈ as, P a) (bs.mapM f) := by
  induction bs with
  | nil =>
    rw [List.mapM_nil]
    exact pure (by simp)
  | cons b bs ih =>
    rw [List.forall_mem_cons] at each
    rw [List.mapM_cons]
    refine each.1.bind fun a => (ih each.2).bind fun as => pure fun rest first => ?_
    exact List.forall_mem_cons.mpr ⟨first, rest⟩

theorem of_prepares {x : Step α} (prepares : ∀ s a t, x s = .ok (a, t) → Prepares s t)
    (holds : ∀ s a t, Sound t.heap → x s = .ok (a, t) → Grows t.heap h → P a) : Ensures h P x := by
  intro s a t sound given
  have prepares := prepares s a t given
  have after := prepares.sound sound
  exact ⟨after, prepares.grows, holds s a t after given⟩

theorem report (uid : Uid) (problem : Problem) :
    Ensures h (fun _ => True) (Lowering.report uid problem) :=
  of_prepares (fun _ _ _ => report_prepares) fun _ _ _ _ _ _ => trivial

theorem newLabel : Ensures h (fun _ => True) Lowering.newLabel := by
  intro s label t sound given
  obtain ⟨-, rfl⟩ := newLabel_eq_ok.mp given
  exact ⟨sound, .refl _, fun _ => trivial⟩

theorem present (uid : Uid) (found : Option α) :
    Ensures h (fun _ => True) (Lowering.present uid found) := by
  intro s a t sound given
  obtain ⟨-, rfl⟩ := present_eq_ok.mp given
  exact ⟨sound, .refl _, fun _ => trivial⟩

theorem placed {c : Catalog} {g : Graph} {uid : Uid} {f : Node × Definition → Step α}
    (rest : ∀ n d, c.find? n.fullName = some d → Ensures h P (f (n, d))) :
    Ensures h P (Lowering.placed c g uid >>= f) := by
  intro s a t sound given
  obtain ⟨⟨n, d⟩, r, found, given⟩ := bind_eq_ok.mp given
  obtain ⟨-, defined, rfl⟩ := placed_eq_ok.mp found
  exact rest n d defined s a t sound given

theorem constant (type : String) (value : Value) :
    Ensures h (fun _ => True) (Lowering.constant type value) :=
  of_prepares (fun _ _ _ given => (constant_obtains given).prepares) fun _ _ _ _ _ _ => trivial

private theorem of_obtains {x : Step Slot} {key : Key} (other : ∀ type value, key ≠ .constant type value)
    (obtains : ∀ s slot t, x s = .ok (slot, t) → Obtains s key slot t) : Ensures h h.Writable x :=
  of_prepares (fun s slot t given => (obtains s slot t given).prepares)
    fun s slot t sound given final =>
      have granted := (obtains s slot t given).granted
      final.writable (sound.writable granted other) (sound.bound _ _ granted)

theorem output (uid : Uid) (index : Nat) : Ensures h h.Writable (Lowering.output uid index) :=
  of_obtains (fun _ _ => Key.noConfusion) fun _ _ _ => output_obtains

theorem outputs (uid : Uid) (count : Nat) :
    Ensures h (fun slots => ∀ slot ∈ slots, h.Writable slot) (Lowering.outputs uid count) :=
  mapM fun index _ => output uid index

theorem variableSlot (uid : Uid) : Ensures h h.Writable (Lowering.variableSlot uid) :=
  of_obtains (fun _ _ => Key.noConfusion) fun _ _ _ => variableSlot_obtains

theorem scratch (type : String) : Ensures h h.Writable (Lowering.scratch type) := by
  intro s slot t sound given
  have extra := scratch_extra given
  refine ⟨extra.prepares.sound sound, extra.prepares.grows, fun final => ?_⟩
  refine final.writable (fun type value found => ?_) extra.inside
  rw [extra.slots, extra.slot_eq] at found
  exact absurd (sound.bound _ _ found) (Nat.lt_irrefl _)

end Ensures

/-! ## Inputs -/

variable {c : Catalog} {g : Graph} {h : HeapLayout}

abbrev Sparing (c : Catalog) (h : HeapLayout) : List Op → Prop := SparingOps c h.Writable

section Inputs

variable {feed : List Uid → Link → Step Supply} {n : Node} {d : Definition}

def SparingFeed (c : Catalog) (h : HeapLayout) (feed : List Uid → Link → Step Supply) : Prop :=
  ∀ evaluated link, Ensures h (fun supply => Sparing c h supply.code) (feed evaluated link)

theorem inputAs_sparing (feeds : SparingFeed c h feed) (index : Nat) (declared : Option String)
    (evaluated : List Uid) :
    Ensures h (fun supply => Sparing c h supply.code) (inputAs feed n d index declared evaluated) := by
  unfold inputAs
  split
  · exact feeds evaluated _
  · exact (Ensures.constant _ _).bind fun _ => .pure fun _ => sparingOps_nil

theorem input_sparing (feeds : SparingFeed c h feed) (index : Nat) (evaluated : List Uid) :
    Ensures h (fun supply => Sparing c h supply.code) (input feed n d index evaluated) :=
  inputAs_sparing feeds index _ evaluated

theorem inputs_sparing (feeds : SparingFeed c h feed) (indices : List Nat) (evaluated : List Uid) :
    Ensures h (fun supplies => Sparing c h supplies.code ∧ supplies.slots.length = indices.length)
      (inputs feed n d indices evaluated) := by
  induction indices generalizing evaluated with
  | nil => exact .pure ⟨sparingOps_nil, rfl⟩
  | cons index indices ih =>
    rw [inputs]
    refine (input_sparing feeds index evaluated).bind fun first => (ih first.evaluated).bind
      fun others => .pure ?_
    rintro ⟨rest, lengths⟩ code
    exact ⟨sparingOps_append.mpr ⟨code, rest⟩, congrArg Nat.succ lengths⟩

theorem callOf_sparing {name : String} (defined : c.find? name = some d) (supplies : Supplies) :
    Ensures h (fun code => Sparing c h supplies.code ∧ supplies.slots.length = d.inputs.length →
      Sparing c h code) (callOf n d supplies) := by
  refine (Ensures.outputs n.uid d.outputs.length).bind fun results => .pure ?_
  rintro written ⟨code, lengths⟩
  have call : c.Spares h.Writable d.fullName (supplies.slots ++ results) :=
    ⟨supplies.slots, results, rfl, .inr ⟨name, d, defined, rfl, lengths.symm⟩, written⟩
  exact sparingOps_append.mpr ⟨code, sparingOps_cons.mpr ⟨call, sparingOps_nil⟩⟩

theorem compute_sparing (feeds : SparingFeed c h feed) {name : String}
    (defined : c.find? name = some d) (evaluated : List Uid) (link : Link) :
    Ensures h (fun supply => Sparing c h supply.code) (compute feed n d evaluated link) := by
  refine (inputs_sparing feeds _ evaluated).bind fun supplies => (callOf_sparing defined supplies).bind
    fun code => (Ensures.output link.node link.output).bind fun slot => .pure ?_
  intro _ called made
  rw [List.length_range] at made
  exact called made

end Inputs

theorem breakCycle_sparing (evaluated : List Uid) (link : Link) :
    Ensures h (fun supply => Sparing c h supply.code) (breakCycle evaluated link) :=
  (Ensures.report _ _).bind fun _ => (Ensures.constant _ _).bind fun _ =>
    .pure fun _ _ => sparingOps_nil

theorem supply_sparing (c : Catalog) (g : Graph) (depth : Nat) (visiting : List Uid) :
    SparingFeed c h (supply c g depth visiting) := by
  induction depth generalizing visiting with
  | zero =>
    intro evaluated link
    rw [supply_zero]
    exact .throw _
  | succ depth ih =>
    intro evaluated link
    rw [supply_succ]
    refine .placed fun n d defined => ?_
    dsimp only
    cases sourceOf n d with
    | literal type value => exact (Ensures.constant type value).bind fun _ => .pure fun _ => sparingOps_nil
    | «variable» uid => exact (Ensures.variableSlot uid).bind fun _ => .pure fun _ => sparingOps_nil
    | stored => exact (Ensures.output _ _).bind fun _ => .pure fun _ => sparingOps_nil
    | computed =>
      rw [supplyFrom]
      split
      · exact (Ensures.output _ _).bind fun _ => .pure fun _ => sparingOps_nil
      · split
        · exact breakCycle_sparing evaluated link
        · exact compute_sparing (ih _) defined evaluated link

theorem feedOf_sparing (c : Catalog) (g : Graph) : SparingFeed c h (feedOf c g) :=
  supply_sparing c g _ _

/-! ## Flows -/

section Flows

variable {feed : List Uid → Link → Step Supply} {follow : Uid → Target → Step (List Op)} {n : Node}
  {d : Definition}

def SparingFlow (c : Catalog) (h : HeapLayout) (follow : Uid → Target → Step (List Op)) : Prop :=
  ∀ uid exit, Ensures h (Sparing c h) (follow uid exit)

theorem port_sparing (follows : SparingFlow c h follow) (index : Nat) (exit : Target) :
    Ensures h (Sparing c h) (port follow n index exit) := by
  unfold port
  split
  · exact follows _ exit
  · exact .pure (by simp [Op.Spares])

theorem chains_sparing (follows : SparingFlow c h follow) (exit : Target) (uids : List Uid) :
    Ensures h (Sparing c h) (chains follow exit uids) := by
  induction uids with
  | nil => exact .pure (by simp [Op.Spares])
  | cons uid rest ih =>
    cases rest with
    | nil => exact follows uid exit
    | cons next rest =>
      rw [chains]
      refine Ensures.newLabel.bind fun after => (follows uid _).bind fun code => ih.bind fun others =>
        .pure fun rest first _ => ?_
      simp [Op.Spares, first, rest]

theorem choice_sparing (follows : SparingFlow c h follow) (condition : Slot) (exit : Target) :
    Ensures h (Sparing c h) (choice follow n condition exit) := by
  refine Ensures.newLabel.bind fun otherwise => (port_sparing follows 0 exit).bind fun first =>
    (port_sparing follows 1 exit).bind fun second => .pure fun other one _ => ?_
  simp [Op.Spares, one, other]

theorem branch_sparing (feeds : SparingFeed c h feed) (follows : SparingFlow c h follow)
    (exit : Target) : Ensures h (Sparing c h) (branch feed follow n d exit) := by
  refine (input_sparing feeds 0 []).bind fun condition =>
    (choice_sparing follows condition.slot exit).bind fun rest => .pure fun chosen made => ?_
  simp [made, chosen]

theorem validity_sparing (feeds : SparingFeed c h feed) (follows : SparingFlow c h follow)
    (exit : Target) : Ensures h (Sparing c h) (validity feed follow n d exit) := by
  refine (input_sparing feeds 0 []).bind fun object => (Ensures.scratch boolType).bind fun valid =>
    (choice_sparing follows valid exit).bind fun rest => .pure fun chosen written made => ?_
  have asks : c.Spares h.Writable isValidMethod [object.slot, valid] :=
    .control 1 [object.slot] (by decide) rfl written
  simp [Op.Spares, made, asks, chosen]

theorem whileLoop_sparing (feeds : SparingFeed c h feed) (follows : SparingFlow c h follow)
    (exit : Target) : Ensures h (Sparing c h) (whileLoop feed follow n d exit) := by
  refine Ensures.newLabel.bind fun header => Ensures.newLabel.bind fun done =>
    (input_sparing feeds 0 []).bind fun condition => (port_sparing follows 0 _).bind fun round =>
    (port_sparing follows 1 exit).bind fun after => .pure fun leaves goes made _ _ => ?_
  simp [Op.Spares, made, goes, leaves]

theorem counting_sparing (follows : SparingFlow c h follow) (index stop step inRange : Slot)
    (opening : List Op) (exit : Target) :
    Ensures h (fun code => h.Writable index → h.Writable inRange → Sparing c h opening →
      Sparing c h code) (counting follow n index stop step inRange opening exit) := by
  refine Ensures.newLabel.bind fun header => Ensures.newLabel.bind fun increment =>
    Ensures.newLabel.bind fun done => (port_sparing follows 0 _).bind fun round =>
    (port_sparing follows 1 exit).bind fun after => .pure fun leaves goes _ _ _ counts ranges opens => ?_
  have compares : c.Spares h.Writable lessThanMethod [index, stop, inRange] :=
    .control 2 [index, stop] (by decide) rfl ranges
  have steps : c.Spares h.Writable additionMethod [index, step, index] :=
    .control 2 [index, step] (by decide) rfl counts
  simp [Op.Spares, compares, opens, goes, steps, leaves]

theorem forLoop_sparing (feeds : SparingFeed c h feed) (follows : SparingFlow c h follow)
    (exit : Target) : Ensures h (Sparing c h) (forLoop feed follow n d exit) := by
  refine (input_sparing feeds 0 []).bind fun start => (input_sparing feeds 1 _).bind fun stop =>
    (input_sparing feeds 2 _).bind fun step => (Ensures.output n.uid 0).bind fun index =>
    (Ensures.scratch boolType).bind fun inRange =>
    (counting_sparing follows index stop.slot step.slot inRange [] exit).bind fun rest =>
    .pure fun counted ranges counts third second first => ?_
  simp [Op.Spares, first, second, third, counts, counted counts ranges sparingOps_nil]

theorem foreachLoop_sparing (feeds : SparingFeed c h feed) (follows : SparingFlow c h follow)
    (exit : Target) : Ensures h (Sparing c h) (foreachLoop feed follow n d exit) := by
  refine (input_sparing feeds 0 []).bind fun array => (Ensures.output n.uid 0).bind fun item =>
    (Ensures.constant _ _).bind fun first => (Ensures.constant _ _).bind fun one =>
    (Ensures.scratch int32Type).bind fun index => (Ensures.scratch int32Type).bind fun length =>
    (Ensures.scratch boolType).bind fun inRange =>
    (counting_sparing follows index length one inRange
      [.call arrayGetMethod [array.slot, index, item]] exit).bind fun rest =>
    .pure fun counted ranges measures counts _ _ holds made => ?_
  have gets : c.Spares h.Writable arrayGetMethod [array.slot, index, item] :=
    .control 2 [array.slot, index] (by decide) rfl holds
  have sizes : c.Spares h.Writable arrayLengthMethod [array.slot, length] :=
    .control 1 [array.slot] (by decide) rfl measures
  have each := counted counts ranges (by simpa [Op.Spares] using gets)
  simp [Op.Spares, made, counts, sizes, each]

theorem notice_sparing (c : Catalog) (g : Graph) (target : Uid) (variableNode : Node) :
    Ensures h (Sparing c h) (notice g n d target variableNode) := by
  unfold notice
  split
  · refine (Ensures.constant _ _).bind fun this => (Ensures.constant _ _).bind fun event =>
      .pure fun _ _ => ?_
    have listed : (sendEventMethod, 2) ∈ controlMethods := by decide
    have sends : c.Spares h.Writable sendEventMethod [this, event] :=
      ⟨[this, event], [], rfl, .inl listed, by simp⟩
    simpa [Op.Spares] using sends
  · exact .pure sparingOps_nil

theorem assignment_sparing (g : Graph) (feeds : SparingFeed c h feed) (follows : SparingFlow c h follow)
    (exit : Target) : Ensures h (Sparing c h) (assignment g feed follow n d exit) := by
  rw [assignment_eq]
  refine (Ensures.present _ _).bind fun target => (Ensures.present _ _).bind fun variableNode =>
    (Ensures.variableSlot target).bind fun slot => (inputAs_sparing feeds 1 _ []).bind fun value =>
    (notice_sparing c g target variableNode).bind fun change => (port_sparing follows 0 exit).bind
    fun rest => .pure fun goes tells made written _ _ => ?_
  simp [Op.Spares, made, written, tells, goes]

theorem call_sparing {name : String} (defined : c.find? name = some d) (feeds : SparingFeed c h feed)
    (follows : SparingFlow c h follow) (exit : Target) :
    Ensures h (Sparing c h) (call feed follow n d exit) := by
  refine (inputs_sparing feeds _ []).bind fun supplies => (callOf_sparing defined supplies).bind
    fun code => (port_sparing follows 0 exit).bind fun rest => .pure fun goes called made => ?_
  rw [List.length_range] at made
  exact sparingOps_append.mpr ⟨called made, goes⟩

theorem body_sparing (g : Graph) {name : String} (defined : c.find? name = some d)
    (feeds : SparingFeed c h feed) (follows : SparingFlow c h follow) (exit : Target) :
    Ensures h (Sparing c h) (body g feed follow n d exit) := by
  unfold body
  cases d.kind
  case block => exact chains_sparing follows exit n.targets
  case branch => exact branch_sparing feeds follows exit
  case isValid => exact validity_sparing feeds follows exit
  case forLoop => exact forLoop_sparing feeds follows exit
  case foreachLoop => exact foreachLoop_sparing feeds follows exit
  case whileLoop => exact whileLoop_sparing feeds follows exit
  case setVariable => exact assignment_sparing g feeds follows exit
  case setReturnValue => exact assignment_sparing g feeds follows exit
  all_goals exact call_sparing defined feeds follows exit

end Flows

theorem chain_sparing (c : Catalog) (g : Graph) (depth : Nat) : SparingFlow c h (chain c g depth) := by
  induction depth with
  | zero =>
    intro uid exit s code t _ given
    cases given
  | succ depth ih =>
    intro uid exit s code t sound given
    rcases chain_eq_ok given with ⟨label, -, rfl, rfl⟩ | ⟨-, less, n, d, rest, same, -, defined, given, rfl⟩
    · exact ⟨sound, .refl _, fun _ => by simp [Op.Spares]⟩
    · obtain rfl := Nat.succ.inj same
      obtain ⟨after, grows, sparing⟩ :=
        body_sparing g defined (feedOf_sparing c g) ih exit (entered uid exit s) rest t sound given
      exact ⟨after, grows, fun final => sparingOps_cons.mpr ⟨trivial, sparing final⟩⟩

theorem stream_sparing (c : Catalog) (g : Graph) (name : String) (n : Node) :
    Ensures h (fun stream => Sparing c h stream.ops) (stream c g name n) := by
  intro s result t sound given
  obtain ⟨-, given⟩ := stream_eq_ok given
  exact port_sparing (chain_sparing c g _) 0 .halt { s with emitted := [] } result.ops t sound given

theorem streams_sparing (c : Catalog) (g : Graph) :
    Ensures h (fun streams => Sparing c h (Assembly.allOps streams)) (streams c g) := by
  have entered : Ensures h (fun _ => True) (entries c g [] g.eventNodes) :=
    .of_prepares (fun _ _ _ given => (entries_eq_ok given).2) fun _ _ _ _ _ _ => trivial
  refine entered.bind fun found => (Ensures.mapM fun entry _ => stream_sparing c g entry.1 entry.2).imp ?_
  intro streams each _ op listed
  obtain ⟨stream, among, listed⟩ := List.mem_flatMap.mp listed
  exact each stream among op listed

end Lowering

end ScriptGraph
