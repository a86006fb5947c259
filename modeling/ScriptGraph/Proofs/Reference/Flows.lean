import ScriptGraph.Proofs.Reference.Placement

/-!
The code of every kind of node does what the node does, if the code of the nodes that its flows lead
to does.
-/

set_option autoImplicit false
set_option relaxedAutoImplicit false

namespace ScriptGraph.Reference

open Assembly (Standing addressOf)
open Lowering (Listing Piece Register Script feedOf)

variable {σ : Type}

/-- What the code of an event is run on: everything that it refers to is in place. -/
structure Stage (S : Setting σ) (c : Catalog) (g : Graph) (L : Listing) (script : Script)
    (rounds : Nat) (returns : List Address) (send : String → Run σ Unit) : Prop where
  extension : c.Extends
  live : g.Live c
  founded : g.Founded c
  houses : S.memory.Houses c g L.heap
  signed : c.Signed
  obeys : S.host.Obeys c
  sends : S.Sends rounds send returns
  ops : L.ops = S.ops
  within : script.Within c g L
  registers : ∀ frames uid exit piece name slot, exitOf? script.pieces frames = some exit →
    pieceOf? script.pieces uid exit = some piece → piece.registers.lookup name = some slot →
    S.memory.keeps ⟨script.name, frames, uid⟩ name slot

/-- A node that the flow has come to within frames, and the piece of code for it. -/
structure Reached (c : Catalog) (g : Graph) (script : Script) (n : Node) (d : Definition)
    (frames : List Frame) (piece : Piece) : Prop where
  listed : n ∈ g.nodes
  defined : c.find? n.fullName = some d
  exit : exitOf? script.pieces frames = some piece.exit
  piece : pieceOf? script.pieces n.uid piece.exit = some piece

theorem Reached.inner {c : Catalog} {g : Graph} {script : Script} {n : Node} {d : Definition}
    {frames : List Frame} {piece : Piece} (reached : Reached c g script n d frames piece)
    {part : Nat} {label : Label} (found : piece.inner[part]? = some label) :
    exitOf? script.pieces (⟨n.uid, part⟩ :: frames) = some (.label label) :=
  exitOf?_cons.mpr ⟨_, piece, label, reached.exit, reached.piece, found, rfl⟩

/-- The code for a node and a continuation, or a jump to it, does what following the flow to the node
does and then goes on at the continuation. -/
def Setting.Follows (S : Setting σ) (L : Listing) (pieces : List Piece) (rounds : Nat)
    (returns : List Address) (follow : Follow σ) (uid : Uid) : Prop :=
  ∀ frames exit op rest (start : Nat), exitOf? pieces frames = some exit → L.Starts uid exit op →
    Standing S.ops start (op :: rest) →
      S.Simulates rounds 0 returns start (follow frames uid) fun _ address =>
        address = addressOf S.ops exit

theorem Setting.port_simulates {S : Setting σ} {L : Listing} {pieces : List Piece} {rounds : Nat}
    {returns : List Address} {follow : Follow σ} {n : Node} {frames : List Frame}
    (follows : ∀ next, some next ∈ n.flows → S.Follows L pieces rounds returns follow next)
    {index start : Nat} {exit : Target} {op : Op} {rest : List Op}
    (hexit : exitOf? pieces frames = some exit) (goes : L.Goes n index exit op)
    (standing : Standing S.ops start (op :: rest)) :
    S.Simulates rounds 0 returns start (port (follow frames) n index) fun _ address =>
      address = addressOf S.ops exit := by
  unfold Listing.Goes at goes
  unfold port
  cases flow : n.flows[index]?.join with
  | some next =>
    simp only [flow] at goes
    exact follows next (Lowering.mem_of_join_eq_some flow) frames exit op rest start hexit goes
      standing
  | none =>
    simp only [flow] at goes
    subst goes
    have ends : S.Simulates rounds 0 returns (addressOf S.ops exit) (pure ()) fun _ address =>
        address = addressOf S.ops exit := Setting.Simulates.pure rfl
    exact Setting.jump_simulates standing ends

/-! ## Visits of items -/

/-- The slots of a loop that visits items. -/
structure Visit where
  array : Slot
  item : Slot
  one : Slot
  position : Slot
  length : Slot
  inRange : Slot

namespace Visit

/-- What the loop keeps for itself: how far it has come, and the length of its array. -/
def kept (visit : Visit) (position length : Value) : List (Slot × Value) :=
  [(visit.position, position), (visit.length, length)]

/-- The slots are those of the loop at a site, and those of its array and its item. -/
structure Stands (visit : Visit) (M : Memory) (site : Site) (array : Place) : Prop where
  position : M.keeps site .position visit.position
  length : M.keeps site .length visit.length
  inRange : M.keeps site .inRange visit.inRange
  array : M.stands array visit.array
  item : M.stands (.cell (.output site.node 0)) visit.item
  one : M.stands (.literal (.int32 1)) visit.one

end Visit

namespace Visit.Stands

open Setting (Carries Shows Spare)

variable {S : Setting σ} {visit : Visit} {site : Site} {array : Place} {scope : S.Scope}
  {rounds start : Nat} {returns : List Address} {send : String → Run σ Unit} {rest : List Op}
  (position length : Value)

theorem apart (stands : visit.Stands S.memory site array) : visit.position ≠ visit.length :=
  fun same => Register.noConfusion (S.memory.single stands.position (same ▸ stands.length)).2

theorem owned (stands : visit.Stands S.memory site array) {running : List Site}
    (known : site ∈ running) : S.Owned running (visit.kept position length) := by
  intro entry listed
  simp only [Visit.kept, List.mem_cons, List.not_mem_nil, or_false] at listed
  rcases listed with rfl | rfl
  · exact ⟨site, known, .position, by simp, stands.position⟩
  · exact ⟨site, known, .length, by simp, stands.length⟩

theorem compares (stands : visit.Stands S.memory site array) (known : site ∈ scope.running)
    (control : ∀ entry ∈ controlMethods, S.host.Keeps entry.1 entry.2) {otherwise : Target}
    (code : Standing S.ops start (.call lessThanMethod [visit.position, visit.length, visit.inRange] ::
      .jumpUnless visit.inRange otherwise :: rest)) :
    S.Carries scope (visit.kept position length) (fun _ => visit.kept position length) rounds 1 returns
      start (judge S.host send lessThanMethod [.literal position, .literal length])
      fun holds address => address = if holds then start + 2 else addressOf S.ops otherwise := by
  have owned := stands.owned position length known
  have shows : List.Forall₂ (S.Shows (scope.keep _ owned) [])
      [.literal position, .literal length] [visit.position, visit.length] :=
    .cons (Shows.of_held (by simp [Visit.kept, Setting.Scope.keep]))
      (.cons (Shows.of_held (by simp [Visit.kept, Setting.Scope.keep])) .nil)
  exact Carries.framed owned (Setting.judge_carries control [visit.position, visit.length] send code
    (by simp [askedMethods]) shows (Spare.of_answer stands.inRange (by simp)))

theorem gets (stands : visit.Stands S.memory site array) (known : site ∈ scope.running)
    (control : ∀ entry ∈ controlMethods, S.host.Keeps entry.1 entry.2)
    (sends : S.Sends rounds send returns)
    (code : Standing S.ops start
      (.call arrayGetMethod [visit.array, visit.position, visit.item] :: rest)) :
    S.Carries scope (visit.kept position length) (fun _ => visit.kept position length) rounds 1 returns
      start (invoke S.host send arrayGetMethod [array, .literal position]
        [.cell (.output site.node 0)])
      fun _ address => address = start + 1 := by
  have owned := stands.owned position length known
  have shown : S.Shows (scope.keep _ owned) [] (.literal position) visit.position :=
    Shows.of_held (by simp [Visit.kept, Setting.Scope.keep])
  exact Carries.framed owned (Setting.invoke_carries [visit.array, visit.position] [visit.item] sends
    code (.cons (Shows.of_stands stands.array) (.cons shown .nil)) (.cons stands.item .nil)
    (by simp [Place.isWritable]) (control (arrayGetMethod, 2) (by simp [controlMethods])))

theorem advances (stands : visit.Stands S.memory site array) (spare : S.Spare scope visit.position)
    (control : ∀ entry ∈ controlMethods, S.host.Keeps entry.1 entry.2)
    (code : Standing S.ops start
      (.call additionMethod [visit.position, visit.one, visit.position] :: rest)) :
    S.Carries scope (visit.kept position length) (fun next => visit.kept next length) rounds 1 returns
      start (ask S.host send additionMethod int32Type [.literal position, .literal (.int32 1)])
      fun _ address => address = start + 1 := by
  have shown : S.Shows scope (visit.kept position length) (.literal position) visit.position :=
    Shows.of_held (by simp [Visit.kept])
  have apart : ∀ entry ∈ [(visit.length, length)], entry.1 ≠ visit.position := by
    intro entry listed
    obtain rfl := List.mem_singleton.mp listed
    exact stands.apart.symm
  exact Setting.ask_carries control [visit.position, visit.one] send int32Type code
    (by simp [askedMethods]) (.cons shown (.cons (Shows.of_stands stands.one) .nil)) spare
    (by simp [Visit.kept]) apart

end Visit.Stands

/-! ## Stages -/

namespace Stage

open Setting (Carries Simulates)

variable {S : Setting σ} {c : Catalog} {g : Graph} {L : Listing} {script : Script} {rounds : Nat}
  {returns : List Address} {send : String → Run σ Unit}
  {n : Node} {d : Definition} {frames : List Frame} {piece : Piece} {follow : Follow σ}

theorem standing (stage : Stage S c g L script rounds returns send) {label : Label}
    {code : List Op} (inside : .label label :: code <:+: L.ops) :
    Standing S.ops (addressOf S.ops (.label label)) code :=
  Standing.of_infix S.distinct (stage.ops ▸ inside)

/-- The way in which a node of the flow has its inputs evaluated. -/
abbrev feed (_ : Stage S c g L script rounds returns send) : Feed σ :=
  evaluate c g S.host send (g.nodes.length + 1)

theorem input (stage : Stage S c g L script rounds returns send) (listed : n ∈ g.nodes)
    {index start : Nat} {declared : Option String} {evaluated : List Uid}
    {supplied : Lowering.Supply}
    (given : L.Supplied (Lowering.inputAs (feedOf c g) n d index declared evaluated) supplied)
    (standing : Standing S.ops start supplied.code) :
    S.Simulates rounds 0 returns start (input stage.feed n d index evaluated)
      (S.Supplied supplied start) := by
  obtain ⟨s, t, given, grows⟩ := given
  refine Setting.inputAs_simulates stage.houses ?_ given grows standing
  exact Setting.feedOf_simulates stage.live stage.founded stage.houses stage.signed stage.obeys
    stage.sends listed

theorem register (stage : Stage S c g L script rounds returns send)
    (reached : Reached c g script n d frames piece) {name : Register} {slot : Slot}
    (kept : piece.registers.lookup name = some slot) :
    S.memory.keeps ⟨script.name, frames, n.uid⟩ name slot :=
  stage.registers frames n.uid piece.exit piece name slot reached.exit reached.piece kept

theorem loop_output (stage : Stage S c g L script rounds returns send)
    (reached : Reached c g script n d frames piece) (loop : d.kind = .forLoop ∨ d.kind = .foreachLoop)
    {slot : Slot} (granted : L.heap.slot? (.output n.uid 0) = some slot) :
    S.memory.stands (.cell (.output n.uid 0)) slot := by
  have found : g.find? n.uid = some n := Graph.find?_of_mem stage.live.distinct reached.listed
  have single := stage.extension.outputs_of_loop reached.defined loop
  exact stage.houses.output _ _ _ ⟨n, d, found, reached.defined, single.symm ▸ Nat.one_pos⟩ granted

theorem notice_simulates (stage : Stage S c g L script rounds returns send) {target : Uid}
    {variableNode : Node} (found : g.find? target = some variableNode) {change rest : List Op}
    (given : L.Supplied (Lowering.notice g n d target variableNode) change) {start : Nat}
    (standing : Standing S.ops start (change ++ rest)) :
    S.Simulates rounds 0 returns start (notice g S.host send n d target) fun _ address =>
      address = start + codeLength change := by
  obtain ⟨s, t, given, grows⟩ := given
  unfold Lowering.notice at given
  unfold notice
  rw [found, Option.bind_some]
  split at given
  · rename_i asked
    rw [if_pos asked]
    simp only [Lowering.sendChange, Lowering.bind_eq_ok, Lowering.pure_eq_ok] at given
    obtain ⟨this, r, hthis, event, q, hevent, rfl, rfl⟩ := given
    have atEvent := Lowering.constant_obtains hevent
    have thisStands := stage.houses.literal _ _ _
      ((atEvent.prepares.grows.trans grows).kept _ _ (Lowering.constant_obtains hthis).granted)
    have eventStands := stage.houses.literal _ _ _ (grows.kept _ _ atEvent.granted)
    exact (Setting.invoke_simulates [this, event] [] stage.sends standing
      (.cons thisStands (.cons eventStands .nil)) .nil (by simp)
      (stage.obeys.control (sendEventMethod, 2) (by simp [controlMethods]))).lazily
  · rename_i unasked
    rw [if_neg unasked]
    obtain ⟨rfl, rfl⟩ := Lowering.pure_eq_ok.mp given
    exact Simulates.pure rfl

/-- The chains of a block from one on; each but the last comes back to the place of the next. -/
theorem parts_simulates (stage : Stage S c g L script rounds returns send)
    (reached : Reached c g script n d frames piece) {uids : List Uid}
    (follows : ∀ next ∈ uids, S.Follows L script.pieces rounds returns follow next) {part : Nat}
    {place : Label} {inner : List Label}
    (entered : ∀ index, piece.inner[part + index]? = inner[index]?)
    (parted : L.Parted piece.exit place uids inner) :
    S.Simulates rounds 0 returns (addressOf S.ops (.label place))
      (parts follow frames n.uid part uids) fun _ address =>
        address = addressOf S.ops piece.exit := by
  induction uids generalizing part place inner with
  | nil =>
    have ends : S.Simulates rounds 0 returns (addressOf S.ops piece.exit) (pure ()) fun _ address =>
        address = addressOf S.ops piece.exit := Simulates.pure rfl
    exact Setting.jump_simulates (stage.standing parted) ends
  | cons uid rest ih =>
    rw [List.forall_mem_cons] at follows
    cases rest with
    | nil =>
      obtain ⟨op, hcode, starts⟩ := parted
      exact follows.1 frames piece.exit op [] _ reached.exit starts (stage.standing hcode)
    | cons next rest =>
      cases inner with
      | nil => exact absurd parted id
      | cons after inner =>
        obtain ⟨op, hcode, starts, others⟩ := parted
        have back := reached.inner (entered 0)
        refine (follows.1 _ _ op [] _ back starts (stage.standing hcode)).andThen ?_
        rintro ⟨⟩ _ rfl
        refine ih follows.2 (fun index => ?_) others
        rw [Nat.add_right_comm, Nat.add_assoc]
        exact entered (index + 1)

/-- The rounds of a loop that visits items. What the chain of an item runs is run in a scope in which the
loop keeps its place. -/
theorem visits_carries (stage : Stage S c g L script rounds returns send)
    (follows : ∀ next, some next ∈ n.flows → S.Follows L script.pieces rounds returns follow next)
    {scope : S.Scope} {visit : Visit} {array : Place}
    {header increment done : Label} {first : Op} {rest : List Op}
    (running : ⟨script.name, frames, n.uid⟩ ∈ scope.running)
    (stands : visit.Stands S.memory ⟨script.name, frames, n.uid⟩ array)
    (spare : S.Spare scope visit.position)
    (body : Standing S.ops (addressOf S.ops (.label header))
      (.call lessThanMethod [visit.position, visit.length, visit.inRange] ::
        .jumpUnless visit.inRange (.label done) ::
          .call arrayGetMethod [visit.array, visit.position, visit.item] :: first :: rest))
    (within : exitOf? script.pieces (⟨n.uid, 0⟩ :: frames) = some (.label increment))
    (hfirst : L.Goes n 0 (.label increment) first)
    (stepping : Standing S.ops (addressOf S.ops (.label increment))
      [.call additionMethod [visit.position, visit.one, visit.position], .jump (.label header)])
    (granted : Nat) (enough : granted ≤ rounds) (position length : Value) :
    S.Carries scope (visit.kept position length) (fun _ => []) granted 0 returns
      (addressOf S.ops (.label header))
      (visits S.host send follow frames n array length granted position)
      fun _ address => address = addressOf S.ops (.label done) := by
  induction granted generalizing position with
  | zero => exact fun _ a _ _ _ => ⟨0, a, Nat.le_refl 0, .refl a⟩
  | succ granted ih =>
    have fewer : granted ≤ rounds := Nat.le_of_succ_le enough
    have owned := stands.owned position length running
    refine ((stands.compares position length running stage.obeys.control body).bind 0 ?_
      (Nat.le_of_eq (Nat.add_comm granted 1))).weaken (Nat.le_refl _) (Nat.zero_le _)
    intro holds address hereafter
    cases holds with
    | true =>
      obtain rfl : address = _ := hereafter
      have access := (body.next rfl).next rfl
      refine ((stands.gets position length running stage.obeys.control stage.sends access).weaken fewer
        (Nat.zero_le 1)).andThen ?_
      rintro ⟨⟩ _ rfl
      have goes := Setting.port_simulates follows within hfirst (access.next rfl) (scope.keep _ owned)
      refine ((Carries.framed owned goes).weaken fewer (Nat.le_refl 0)).andThen ?_
      rintro ⟨⟩ _ rfl
      refine (stands.advances position length spare stage.obeys.control stepping).andThen ?_
      rintro next _ rfl
      exact Setting.jump_carries (stepping.next rfl) (ih fewer next)
    | false =>
      have ends : S.Carries scope [] (fun _ => []) granted 0 returns address (pure ())
          fun _ address => address = addressOf S.ops (.label done) :=
        Carries.pure (fun _ => []) hereafter
      exact ends.less (List.nil_subset _)

/-! ## Kinds of nodes -/

section Kinds

variable (stage : Stage S c g L script rounds returns send)
  (reached : Reached c g script n d frames piece)
  (follows : ∀ next, some next ∈ n.flows → S.Follows L script.pieces rounds returns follow next)

include stage reached follows

theorem choice_simulates {condition : Run σ Bool} {start behind : Nat} {otherwise : Label}
    {first second : Op} {rest : List Op}
    (decides : S.Simulates rounds 1 returns start condition fun holds address =>
      address = if holds then behind else addressOf S.ops (.label otherwise))
    (code : Standing S.ops behind (first :: rest)) (hfirst : L.Goes n 0 piece.exit first)
    (helse : [.label otherwise, second] <:+: L.ops) (hsecond : L.Goes n 1 piece.exit second) :
    S.Simulates rounds 0 returns start (choice (follow frames) n condition) fun _ address =>
      address = addressOf S.ops piece.exit := by
  refine decides.andThen ?_
  intro holds address hereafter
  cases holds with
  | true =>
    obtain rfl : address = behind := hereafter
    exact Setting.port_simulates follows reached.exit hfirst code
  | false =>
    obtain rfl : address = _ := hereafter
    exact Setting.port_simulates follows reached.exit hsecond (stage.standing helse)

theorem branch_simulates (shape : L.BranchShape c g n d piece) :
    S.Simulates rounds 0 returns (addressOf S.ops (.label piece.label))
      (branch stage.feed follow frames n d) fun _ address =>
        address = addressOf S.ops piece.exit := by
  obtain ⟨condition, supplied, otherwise, first, second, hcode, helse, hfirst, hsecond⟩ := shape
  have code := stage.standing hcode
  refine (stage.input reached.listed supplied code.left).andThen ?_
  rintro place _ ⟨stands, -, rfl⟩
  exact stage.choice_simulates reached follows (Setting.test_simulates code.right stands)
    (code.right.next rfl) hfirst helse hsecond

theorem validity_simulates (shape : L.ValidityShape c g n d piece) :
    S.Simulates rounds 0 returns (addressOf S.ops (.label piece.label))
      (validity S.host send stage.feed follow frames n d) fun _ address =>
        address = addressOf S.ops piece.exit := by
  obtain ⟨object, valid, supplied, kept, otherwise, first, second, hcode, helse, hfirst, hsecond⟩ :=
    shape
  simp only [List.cons_append, List.append_assoc] at hcode
  have code := stage.standing hcode
  refine (stage.input reached.listed supplied code.left).andThen ?_
  rintro place _ ⟨stands, -, rfl⟩
  have hvalid : S.memory.keeps ⟨script.name, frames, n.uid⟩ .valid valid :=
    stage.register reached (by rw [kept]; rfl)
  refine stage.choice_simulates reached follows ?_ ((code.right.next rfl).next rfl) hfirst helse
    hsecond
  exact Setting.judge_simulates stage.obeys.control [object.slot] send code.right
    (by simp [askedMethods]) (.cons stands .nil) hvalid (by simp)

theorem whileLoop_simulates (shape : L.WhileShape c g n d piece) :
    S.Simulates rounds 0 returns (addressOf S.ops (.label piece.label))
      (whileLoop stage.feed follow rounds frames n d) fun _ address =>
        address = addressOf S.ops piece.exit := by
  obtain ⟨header, done, condition, first, second, supplied, inner, hcode, hdone, hfirst, hsecond⟩ :=
    shape
  have code := stage.standing hcode
  have top : addressOf S.ops (.label header) = addressOf S.ops (.label piece.label) :=
    code.addressOf_eq S.distinct
  have body := code.skip
  have within : exitOf? script.pieces (⟨n.uid, 0⟩ :: frames) = some (.label header) :=
    reached.inner (by rw [inner]; rfl)
  refine (Simulates.iterate (addressOf S.ops (.label done)) ?_).andThen ?_
  · refine (stage.input reached.listed supplied body.left).bind 1 ?_
      (Nat.le_of_eq (Nat.zero_add rounds).symm)
    rintro place _ ⟨stands, -, rfl⟩
    refine (Setting.test_simulates body.right stands).bind 0 ?_ (Nat.le_add_left _ _)
    intro holds address hereafter
    cases holds with
    | true =>
      obtain rfl : address = _ := hereafter
      refine (Setting.port_simulates follows within hfirst (body.right.next rfl)).andThen ?_
      rintro ⟨⟩ _ rfl
      exact Simulates.pure top
    | false => exact Simulates.pure hereafter
  · rintro ⟨⟩ _ rfl
    exact Setting.port_simulates follows reached.exit hsecond (stage.standing hdone)

theorem forLoop_simulates (kind : d.kind = .forLoop) (shape : L.ForShape c g n d piece) :
    S.Simulates rounds 0 returns (addressOf S.ops (.label piece.label))
      (forLoop S.host send stage.feed follow rounds frames n d) fun _ address =>
        address = addressOf S.ops piece.exit := by
  obtain ⟨start, stop, step, index, inRange, hstart, hstop, hstep, granted, kept, header, increment,
    done, first, second, inner, hcode, hincrement, hdone, hfirst, hsecond⟩ := shape
  simp only [List.cons_append, List.append_assoc, List.nil_append] at hcode
  have hindex := stage.loop_output reached (Or.inl kind) granted
  have hrange : S.memory.keeps ⟨script.name, frames, n.uid⟩ .inRange inRange :=
    stage.register reached (by rw [kept]; rfl)
  have within : exitOf? script.pieces (⟨n.uid, 0⟩ :: frames) = some (.label increment) :=
    reached.inner (by rw [inner]; rfl)
  have code := stage.standing hcode
  have stepping := stage.standing hincrement
  refine (stage.input reached.listed hstart code.left).andThen ?_
  rintro begin _ ⟨hbegin, hevaluated, rfl⟩
  rw [hevaluated]
  refine (stage.input reached.listed hstop code.right.left).andThen ?_
  rintro last _ ⟨hlast, hevaluated, rfl⟩
  rw [hevaluated]
  refine (stage.input reached.listed hstep code.right.right.left).andThen ?_
  rintro increase _ ⟨hincrease, -, rfl⟩
  have setting := code.right.right.right
  refine (Setting.copy_simulates setting hbegin hindex rfl).andThen ?_
  rintro ⟨⟩ _ rfl
  have body := setting.next rfl
  have top := body.addressOf_eq S.distinct
  have round := body.skip
  have increases := Setting.invoke_simulates [index, step.slot] [index] stage.sends stepping
    (.cons hindex (.cons hincrease .nil)) (.cons hindex .nil) (by simp [Place.isWritable])
    (stage.obeys.control (additionMethod, 2) (by simp [controlMethods]))
  refine (Simulates.iterate (addressOf S.ops (.label done)) ?_).andThen ?_
  · refine (Setting.judge_simulates stage.obeys.control [index, stop.slot] send round
      (by simp [askedMethods]) (.cons hindex (.cons hlast .nil)) hrange (by simp)).bind 0 ?_
        (Nat.le_add_left _ _)
    intro holds address hereafter
    cases holds with
    | true =>
      obtain rfl : address = _ := hereafter
      refine (Setting.port_simulates follows within hfirst ((round.next rfl).next rfl)).andThen ?_
      rintro ⟨⟩ _ rfl
      refine increases.andThen ?_
      rintro ⟨⟩ _ rfl
      exact Setting.jump_simulates (stepping.next rfl) (Simulates.pure top)
    | false => exact Simulates.pure hereafter
  · rintro ⟨⟩ _ rfl
    exact Setting.port_simulates follows reached.exit hsecond (stage.standing hdone)

theorem foreachLoop_simulates (kind : d.kind = .foreachLoop) (shape : L.ForeachShape c g n d piece) :
    S.Simulates rounds 0 returns (addressOf S.ops (.label piece.label))
      (foreachLoop S.host send stage.feed follow rounds script.name frames n d) fun _ address =>
        address = addressOf S.ops piece.exit := by
  obtain ⟨array, item, origin, one, index, length, inRange, harray, granted, horigin, hone, kept, header,
    increment, done, first, second, inner, hcode, hincrement, hdone, hfirst, hsecond⟩ := shape
  simp only [List.cons_append, List.append_assoc, List.nil_append] at hcode
  have within : exitOf? script.pieces (⟨n.uid, 0⟩ :: frames) = some (.label increment) :=
    reached.inner (by rw [inner]; rfl)
  have code := stage.standing hcode
  refine (stage.input reached.listed harray code.left).andThen ?_
  rintro place _ ⟨hplace, -, rfl⟩
  let visit : Visit := ⟨array.slot, item, one, index, length, inRange⟩
  have stands : visit.Stands S.memory ⟨script.name, frames, n.uid⟩ place.1 :=
    { position := stage.register reached (by rw [kept]; rfl)
      length := stage.register reached (by rw [kept]; rfl)
      inRange := stage.register reached (by rw [kept]; rfl)
      array := hplace
      item := stage.loop_output reached (Or.inr kind) granted
      one := stage.houses.literal _ _ _ hone }
  have setting := code.right
  have measuring := setting.next rfl
  have body := measuring.next rfl
  have top := body.addressOf_eq S.distinct
  have passes : S.Simulates rounds 0 returns
      (addressOf S.ops (.label piece.label) + codeLength array.code)
      (Reference.within ⟨script.name, frames, n.uid⟩ do
        let length ← ask S.host send arrayLengthMethod int32Type [place.1]
        visits S.host send follow frames n place.1 length rounds (.int32 0))
      fun _ address => address = addressOf S.ops (.label done) := by
    refine Simulates.within fun scope running free => ?_
    have spare : S.Spare scope index :=
      ⟨⟨_, _, stands.position⟩, free .position (by simp) index stands.position⟩
    have longer : S.Spare scope length :=
      ⟨⟨_, _, stands.length⟩, free .length (by simp) length stands.length⟩
    have apart : ∀ entry ∈ [(index, Value.int32 0)], entry.1 ≠ length := by
      intro entry listed
      obtain rfl := List.mem_singleton.mp listed
      exact stands.apart
    refine Setting.seed_carries setting (stage.houses.literal _ _ _ horigin) spare ?_
    refine (Setting.ask_carries stage.obeys.control [array.slot] send int32Type measuring
      (by simp [askedMethods]) (.cons (Setting.Shows.of_stands hplace) .nil) longer
      (List.Subset.refl _) apart).andThen ?_
    rintro measure _ rfl
    have visits := stage.visits_carries follows running stands spare (top.symm ▸ body.skip)
      within hfirst (stage.standing hincrement) rounds (Nat.le_refl rounds) (.int32 0) measure
    rw [top] at visits
    exact visits.less (by simp [visit, Visit.kept])
  refine passes.andThen ?_
  rintro ⟨⟩ _ rfl
  exact Setting.port_simulates follows reached.exit hsecond (stage.standing hdone)

theorem assignment_simulates (shape : L.AssignmentShape c g n d piece) :
    S.Simulates rounds 0 returns (addressOf S.ops (.label piece.label))
      (assignment g S.host send stage.feed follow frames n d) fun _ address =>
        address = addressOf S.ops piece.exit := by
  obtain ⟨target, variableNode, slot, value, change, op, htarget, hvariable, granted, hvalue,
    hchange, hcode, goes⟩ := shape
  simp only [List.cons_append, List.append_assoc] at hcode
  have code := stage.standing hcode
  have bound := stage.houses.bound target slot granted
  unfold assignment
  rw [htarget]
  refine (stage.input reached.listed hvalue code.left).andThen ?_
  rintro place _ ⟨stands, -, rfl⟩
  refine (Setting.copy_simulates code.right stands bound rfl).andThen ?_
  rintro ⟨⟩ _ rfl
  have behind := code.right.next rfl
  refine (stage.notice_simulates hvariable hchange behind).andThen ?_
  rintro ⟨⟩ _ rfl
  exact Setting.port_simulates follows reached.exit goes behind.right

theorem call_simulates (shape : L.CallShape c g n d piece) :
    S.Simulates rounds 0 returns (addressOf S.ops (.label piece.label))
      (call S.host send stage.feed follow frames n d) fun _ address =>
        address = addressOf S.ops piece.exit := by
  obtain ⟨supplies, code, op, ⟨s, t, hsupplies, grows⟩, ⟨q, r, hcall, later⟩, hcode, goes⟩ := shape
  obtain ⟨-, results, granted, rfl⟩ := Lowering.callOf_obtains hcall
  simp only [List.cons_append, List.append_assoc] at hcode
  have standing := stage.standing hcode
  have found : g.find? n.uid = some n := Graph.find?_of_mem stage.live.distinct reached.listed
  have feeds := Setting.feedOf_simulates stage.live stage.founded stage.houses stage.signed
    stage.obeys stage.sends reached.listed
  refine (Setting.inputs_simulates stage.houses (Lowering.feedOf_feeds c g) feeds hsupplies grows
    standing.left).andThen ?_
  rintro places _ ⟨stand, -, length, rfl⟩
  have houtputs := stage.houses.outputs found reached.defined
    (granted.imp fun index slot granted => later.kept _ _ granted)
  have keeps : S.host.Keeps d.fullName places.1.length := by
    rw [length, List.length_range]
    exact stage.obeys.keeps stage.signed reached.defined
  refine (Setting.invoke_simulates supplies.slots results stage.sends standing.right stand houtputs
    ?_ keeps).andThen ?_
  · intro place listed
    obtain ⟨index, -, rfl⟩ := List.mem_map.mp listed
    rfl
  · rintro ⟨⟩ _ rfl
    exact Setting.port_simulates follows reached.exit goes (standing.right.next rfl)

theorem body_simulates (shape : L.Shape c g n d piece) :
    S.Simulates rounds 0 returns (addressOf S.ops (.label piece.label))
      (body g S.host send stage.feed follow rounds script.name frames n d) fun _ address =>
        address = addressOf S.ops piece.exit := by
  unfold Listing.Shape at shape
  unfold body
  cases kind : d.kind <;> simp only [kind] at shape ⊢
  case block =>
    refine stage.parts_simulates reached (fun next listed => ?_) (fun index => ?_) shape
    · obtain ⟨flow, hflow, same⟩ := List.mem_filterMap.mp listed
      obtain rfl : flow = some next := same
      exact follows next hflow
    · rw [Nat.zero_add]
  case branch => exact stage.branch_simulates reached follows shape
  case isValid => exact stage.validity_simulates reached follows shape
  case forLoop => exact stage.forLoop_simulates reached follows kind shape
  case foreachLoop => exact stage.foreachLoop_simulates reached follows kind shape
  case whileLoop => exact stage.whileLoop_simulates reached follows shape
  case setVariable => exact stage.assignment_simulates reached follows shape
  case setReturnValue => exact stage.assignment_simulates reached follows shape
  all_goals exact stage.call_simulates reached follows shape

end Kinds

/-! ## Chains -/

/-- The code of the chain that starts at a node does what running the chain does, however deep in the
graph the node is. -/
theorem chain_simulates (stage : Stage S c g L script rounds returns send) {rank : Uid → Nat}
    (falls : ∀ n ∈ g.nodes, ∀ target, some target ∈ n.flows → rank target < rank n.uid)
    (height : Nat) (uid : Uid) (room : rank uid < height) :
    S.Follows L script.pieces rounds returns (chain c g S.host rounds send script.name height)
      uid := by
  induction height generalizing uid with
  | zero => exact absurd room (Nat.not_lt_zero _)
  | succ height ih =>
    intro frames exit op rest start hexit starts standing
    obtain ⟨label, noted, starts⟩ := starts
    rw [stage.within.emitted] at noted
    obtain ⟨listed, hlisted, hkey, -⟩ := stage.within.known _ _ noted
    obtain ⟨piece, hpiece⟩ : ∃ piece, pieceOf? script.pieces uid exit = some piece := by
      rw [← Option.isSome_iff_exists, pieceOf?, List.find?_isSome]
      exact ⟨listed, hlisted, decide_eq_true hkey⟩
    obtain ⟨hmem, rfl, rfl⟩ := pieceOf?_eq_some hpiece
    have hlabel : piece.label = label :=
      Option.some.inj ((stage.within.noted piece hmem).symm.trans noted)
    obtain ⟨-, n, d, found, defined, shape⟩ := stage.within.shaped piece hmem
    have huid := Graph.find?_uid found
    have placed : placed? c g piece.uid = some (n, d) := placed?_eq_some.mpr ⟨found, defined⟩
    have reached : Reached c g script n d frames piece :=
      ⟨Graph.find?_mem found, defined, hexit, huid.symm ▸ hpiece⟩
    have acts : S.Simulates rounds 0 returns (addressOf S.ops (.label piece.label))
        (chain c g S.host rounds send script.name (height + 1) frames piece.uid) fun _ address =>
          address = addressOf S.ops piece.exit := by
      simp only [chain, placed]
      refine stage.body_simulates reached (fun next listed => ih next ?_) shape
      have less := falls n reached.listed next listed
      rw [huid] at less
      exact Nat.lt_of_lt_of_le less (Nat.le_of_lt_succ room)
    rcases starts with rfl | rfl
    · rw [hlabel, standing.addressOf_eq S.distinct] at acts
      exact acts
    · rw [hlabel] at acts
      exact Setting.jump_simulates standing acts

end Stage

end ScriptGraph.Reference
