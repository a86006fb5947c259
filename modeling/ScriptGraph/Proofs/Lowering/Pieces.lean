import ScriptGraph.Proofs.Lowering.Closed
import ScriptGraph.Proofs.Reference.Semantics
import Mathlib.Data.List.Nodup

/-!
The pieces that code is made of: for every node and continuation that was met, its code, the places
where chains come back to it and the slots it keeps for itself.
-/

set_option autoImplicit false
set_option relaxedAutoImplicit false

namespace ScriptGraph.Lowering

open HeapLayout (Grows Sound)

/-- What the code of a node keeps in slots of its own. -/
inductive Register where
  | valid
  | inRange
  | position
  | length
deriving DecidableEq

def Register.default : Register → Value
  | .valid | .inRange => .defaultFor (some boolType)
  | .position | .length => .defaultFor (some int32Type)

/-- The code of a node that goes on at a continuation. -/
structure Piece where
  uid : Uid
  exit : Target
  label : Label
  /-- Where the chains that come back to the node go on. -/
  inner : List Label
  registers : List (Register × Slot)

namespace Piece

def key (piece : Piece) : Uid × Target := (piece.uid, piece.exit)

def slots (piece : Piece) : List Slot := piece.registers.map Prod.snd

end Piece

/-- Code as a whole, what was noted while emitting it, and the heap it is for. -/
structure Listing where
  ops : List Op
  emitted : List ((Uid × Target) × Label)
  heap : HeapLayout

namespace Listing

/-- Whether code and the state after emitting it have become part of the whole. -/
structure Covers (L : Listing) (code : List Op) (t : Lowering) : Prop where
  code : code <:+: L.ops
  emitted : ∀ key label, t.emitted.lookup key = some label → L.emitted.lookup key = some label
  grows : Grows t.heap L.heap

def Starts (L : Listing) (uid : Uid) (exit : Target) (op : Op) : Prop :=
  ∃ label, L.emitted.lookup (uid, exit) = some label ∧
    (op = .label label ∨ op = .jump (.label label))

/-- Whether an operation begins what a flow output leads to. -/
def Goes (L : Listing) (n : Node) (index : Nat) (exit : Target) (op : Op) : Prop :=
  match n.flows[index]?.join with
  | some next => L.Starts next exit op
  | none => op = .jump exit

/-- A step that was taken on the way to the whole. -/
def Supplied {α : Type} (L : Listing) (x : Step α) (a : α) : Prop :=
  ∃ s t, x s = .ok (a, t) ∧ Grows t.heap L.heap

/-- Code that chooses one of two flow outputs after an opening. -/
def Chosen (L : Listing) (n : Node) (exit : Target) (opening : List Op) (condition : Slot) : Prop :=
  ∃ otherwise first second,
    opening ++ [.jumpUnless condition (.label otherwise), first] <:+: L.ops ∧
    [.label otherwise, second] <:+: L.ops ∧ L.Goes n 0 exit first ∧ L.Goes n 1 exit second

/-- Code that counts an index up to an end after an opening. -/
def Counted (L : Listing) (n : Node) (exit : Target) (inner : List Label) (opening : List Op)
    (index stop step inRange : Slot) (each : List Op) : Prop :=
  ∃ header increment done first second, inner = [increment] ∧
    opening ++ .label header :: .call lessThanMethod [index, stop, inRange] ::
      .jumpUnless inRange (.label done) :: each ++ [first] <:+: L.ops ∧
    [.label increment, .call additionMethod [index, step, index], .jump (.label header)] <:+: L.ops ∧
    [.label done, second] <:+: L.ops ∧ L.Goes n 0 (.label increment) first ∧
    L.Goes n 1 exit second

def Parted (L : Listing) (exit : Target) : Label → List Uid → List Label → Prop
  | place, [], _ => [.label place, .jump exit] <:+: L.ops
  | place, [last], _ => ∃ op, [.label place, op] <:+: L.ops ∧ L.Starts last exit op
  | place, uid :: next :: rest, after :: inner =>
    ∃ op, [.label place, op] <:+: L.ops ∧ L.Starts uid (.label after) op ∧
      L.Parted exit after (next :: rest) inner
  | _, _ :: _ :: _, [] => False

section Shapes

variable (c : Catalog) (g : Graph) (L : Listing) (n : Node) (d : Definition) (piece : Piece)

def BranchShape : Prop :=
  ∃ condition, L.Supplied (input (feedOf c g) n d 0 []) condition ∧
    L.Chosen n piece.exit (.label piece.label :: condition.code) condition.slot

def ValidityShape : Prop :=
  ∃ object valid, L.Supplied (input (feedOf c g) n d 0 []) object ∧
    piece.registers = [(.valid, valid)] ∧
    L.Chosen n piece.exit
      (.label piece.label :: object.code ++ [.call isValidMethod [object.slot, valid]]) valid

def WhileShape : Prop :=
  ∃ header done condition first second, L.Supplied (input (feedOf c g) n d 0 []) condition ∧
    piece.inner = [header] ∧
    .label piece.label :: .label header :: condition.code ++
      [.jumpUnless condition.slot (.label done), first] <:+: L.ops ∧
    [.label done, second] <:+: L.ops ∧ L.Goes n 0 (.label header) first ∧
    L.Goes n 1 piece.exit second

def ForShape : Prop :=
  ∃ start stop step index inRange, L.Supplied (input (feedOf c g) n d 0 []) start ∧
    L.Supplied (input (feedOf c g) n d 1 start.evaluated) stop ∧
    L.Supplied (input (feedOf c g) n d 2 stop.evaluated) step ∧
    L.heap.slot? (.output n.uid 0) = some index ∧ piece.registers = [(.inRange, inRange)] ∧
    L.Counted n piece.exit piece.inner
      (.label piece.label :: start.code ++ stop.code ++ step.code ++ [.copy start.slot index])
      index stop.slot step.slot inRange []

def ForeachShape : Prop :=
  ∃ array item first one index length inRange,
    L.Supplied (input (feedOf c g) n d 0 []) array ∧
    L.heap.slot? (.output n.uid 0) = some item ∧
    L.heap.slot? (.constant int32Type (.int32 0)) = some first ∧
    L.heap.slot? (.constant int32Type (.int32 1)) = some one ∧
    piece.registers = [(.position, index), (.length, length), (.inRange, inRange)] ∧
    L.Counted n piece.exit piece.inner
      (.label piece.label :: array.code ++
        [.copy first index, .call arrayLengthMethod [array.slot, length]])
      index length one inRange [.call arrayGetMethod [array.slot, index, item]]

def AssignmentShape : Prop :=
  ∃ target variableNode slot value change op, n.target? = some target ∧
    g.find? target = some variableNode ∧ L.heap.slot? (.variable target) = some slot ∧
    L.Supplied (inputAs (feedOf c g) n d 1 variableNode.variableType? []) value ∧
    L.Supplied (notice g n d target variableNode) change ∧
    .label piece.label :: value.code ++ .copy value.slot slot :: change ++ [op] <:+: L.ops ∧
    L.Goes n 0 piece.exit op

def CallShape : Prop :=
  ∃ supplies code op,
    L.Supplied (inputs (feedOf c g) n d (List.range d.inputs.length) []) supplies ∧
    L.Supplied (callOf n d supplies) code ∧ .label piece.label :: code ++ [op] <:+: L.ops ∧
    L.Goes n 0 piece.exit op

/-- What the code of a node looks like within the whole, by the kind of the node. -/
def Shape : Prop :=
  match d.kind with
  | .block => L.Parted piece.exit piece.label n.targets piece.inner
  | .branch => L.BranchShape c g n d piece
  | .isValid => L.ValidityShape c g n d piece
  | .forLoop => L.ForShape c g n d piece
  | .foreachLoop => L.ForeachShape c g n d piece
  | .whileLoop => L.WhileShape c g n d piece
  | .setVariable | .setReturnValue => L.AssignmentShape c g n d piece
  | _ => L.CallShape c g n d piece

def Prepared : Prop :=
  ∀ entry ∈ piece.registers,
    (L.heap.symbols[entry.2]?).map Symbol.default = some entry.1.default

end Shapes

end Listing

def Piece.Shaped (c : Catalog) (g : Graph) (L : Listing) (piece : Piece) : Prop :=
  L.Prepared piece ∧ ∃ n d, g.find? piece.uid = some n ∧ c.find? n.fullName = some d ∧
    L.Shape c g n d piece

/-! ## Emitting pieces -/

/-- Lowering from one state to another emits code that is made of pieces; labels and slots handed
out on the way that belong to somebody are listed. -/
structure Yields (c : Catalog) (g : Graph) (s : Lowering) (code : List Op) (t : Lowering)
    (pieces : List Piece) (labels : List Label) (slots : List Slot) : Prop where
  grows : Grows s.heap t.heap
  sound : Sound t.heap
  next : s.nextLabel ≤ t.nextLabel
  kept : ∀ key label, s.emitted.lookup key = some label → t.emitted.lookup key = some label
  known : ∀ key label, t.emitted.lookup key = some label → s.emitted.lookup key = some label ∨
    ∃ piece ∈ pieces, piece.key = key ∧ piece.label = label
  noted : ∀ piece ∈ pieces, t.emitted.lookup piece.key = some piece.label
  freshLabels : Fresh s.nextLabel t.nextLabel labels
  freshSlots : Fresh s.heap.size t.heap.size slots
  free : ∀ (slot : Nat), slot ∈ slots → ∀ key, t.heap.slot? key ≠ some slot
  shaped : ∀ L : Listing, L.Covers code t → ∀ piece ∈ pieces, piece.Shaped c g L

theorem Fresh.mono {first last earlier later : Nat} {labels : List Nat}
    (fresh : Fresh first last labels) (hfirst : earlier ≤ first) (hlast : last ≤ later) :
    Fresh earlier later labels := by
  refine ⟨fresh.1, fun label hlabel => ?_⟩
  have hbounds := fresh.2 label hlabel
  omega

theorem Fresh.single {first last label : Nat} (hfirst : first ≤ label) (hlast : label < last) :
    Fresh first last [label] := by
  refine ⟨List.nodup_singleton label, fun other hother => ?_⟩
  obtain rfl := List.mem_singleton.mp hother
  exact ⟨hfirst, hlast⟩

variable {c : Catalog} {g : Graph}

theorem Listing.Covers.narrow {L : Listing} {code part : List Op} {t : Lowering}
    (covers : L.Covers code t) (inside : part <:+: code) : L.Covers part t :=
  ⟨inside.trans covers.code, covers.emitted, covers.grows⟩

theorem Yields.covers {s t : Lowering} {code rest : List Op} {pieces : List Piece}
    {labels : List Label} {slots : List Slot} {L : Listing}
    (yields : Yields c g s rest t pieces labels slots) (covers : L.Covers code t) {part : List Op}
    (inside : part <:+: code) : L.Covers part s := by
  refine ⟨inside.trans covers.code, fun key label noted => ?_, yields.grows.trans covers.grows⟩
  exact covers.emitted key label (yields.kept key label noted)

namespace Yields

variable {r s t : Lowering} {code : List Op}

theorem reserved {count : Nat} (reserves : Reserves count s t) (sound : Sound s.heap) :
    Yields c g s code t [] [] [] where
  grows := reserves.grows
  sound := reserves.sound sound
  next := by
    rw [reserves.nextLabel]
    exact Nat.le_add_right _ _
  kept key label noted := by rwa [reserves.emitted]
  known key label noted := Or.inl (by rwa [reserves.emitted] at noted)
  noted := by simp
  freshLabels := Fresh.nil _ _
  freshSlots := Fresh.nil _ _
  free := by simp
  shaped := by simp

theorem prepared (prepares : Prepares s t) (sound : Sound s.heap) :
    Yields c g s code t [] [] [] :=
  reserved prepares.reserves sound

theorem labelled {label : Label} (given : newLabel s = .ok (label, t)) (sound : Sound s.heap) :
    Yields c g s code t [] [label] [] := by
  obtain ⟨rfl, reserves⟩ := newLabel_reserves given
  refine { reserved reserves sound with freshLabels := Fresh.single (Nat.le_refl _) ?_ }
  rw [reserves.nextLabel]
  exact Nat.lt_succ_self _

theorem scratched {type : String} {slot : Slot} (extra : Extra s type slot t)
    (sound : Sound s.heap) : Yields c g s code t [] [] [slot] := by
  have hsize := extra.size_eq
  have hslot := extra.slot_eq
  refine { prepared extra.prepares sound with freshSlots := Fresh.single ?_ ?_, free := ?_ }
  · exact Nat.le_of_eq hslot.symm
  · rw [hslot, hsize]
    exact Nat.lt_succ_self _
  · intro other hother key granted
    obtain rfl := List.mem_singleton.mp hother
    rw [extra.slots, hslot] at granted
    exact absurd (sound.bound key _ granted) (Nat.lt_irrefl _)

variable {first second : List Op} {before after : List Piece} {labels others : List Label}
  {slots more : List Slot}

theorem append (begins : Yields c g r first s before labels slots)
    (goes : Yields c g s second t after others more) (hfirst : first <:+: code)
    (hsecond : second <:+: code) :
    Yields c g r code t (before ++ after) (labels ++ others) (slots ++ more) where
  grows := begins.grows.trans goes.grows
  sound := goes.sound
  next := Nat.le_trans begins.next goes.next
  kept key label noted := goes.kept key label (begins.kept key label noted)
  known key label noted := by
    rcases goes.known key label noted with noted | ⟨piece, listed, found⟩
    · rcases begins.known key label noted with noted | ⟨piece, listed, found⟩
      · exact Or.inl noted
      · exact Or.inr ⟨piece, List.mem_append_left _ listed, found⟩
    · exact Or.inr ⟨piece, List.mem_append_right _ listed, found⟩
  noted piece listed := by
    rcases List.mem_append.mp listed with listed | listed
    · exact goes.kept _ _ (begins.noted piece listed)
    · exact goes.noted piece listed
  freshLabels := begins.freshLabels.append goes.freshLabels begins.next goes.next
  freshSlots := begins.freshSlots.append goes.freshSlots begins.grows.size_le goes.grows.size_le
  free slot listed key granted := by
    rcases List.mem_append.mp listed with listed | listed
    · rcases goes.grows.fresh key slot granted with granted | above
      · exact begins.free slot listed key granted
      · have hbound := (begins.freshSlots.2 slot listed).2
        omega
    · exact goes.free slot listed key granted
  shaped L covers piece listed := by
    rcases List.mem_append.mp listed with listed | listed
    · exact begins.shaped L (goes.covers covers hfirst) piece listed
    · exact goes.shaped L (covers.narrow hsecond) piece listed

theorem after_silent (silent : Yields c g r [] s [] [] [])
    (goes : Yields c g s code t after others more) : Yields c g r code t after others more :=
  silent.append goes (List.nil_infix) (List.infix_refl code)

theorem after_label {label : Label} (given : newLabel r = .ok (label, s)) (sound : Sound r.heap)
    (goes : Yields c g s code t after others more) :
    Yields c g r code t after (label :: others) more :=
  (labelled given sound).append goes (List.nil_infix) (List.infix_refl code)

theorem after_scratch {type : String} {slot : Slot} (extra : Extra r type slot s)
    (sound : Sound r.heap) (goes : Yields c g s code t after others more) :
    Yields c g r code t after others (slot :: more) :=
  (scratched extra sound).append goes (List.nil_infix) (List.infix_refl code)

theorem widen {part : List Op} (yields : Yields c g s part t after others more)
    (inside : part <:+: code) : Yields c g s code t after others more := by
  refine { yields with shaped := fun L covers => ?_ }
  exact yields.shaped L (covers.narrow inside)

theorem reorder {labels : List Nat} {slots : List Nat}
    (yields : Yields c g s code t after labels slots) {others more : List Nat}
    (hlabels : labels.Perm others) (hslots : slots.Perm more) :
    Yields c g s code t after others more := by
  refine { yields with
    freshLabels := yields.freshLabels.perm hlabels
    freshSlots := yields.freshSlots.perm hslots
    free := fun slot listed => ?_ }
  exact yields.free slot (hslots.mem_iff.mpr listed)

end Yields

def Made (c : Catalog) (g : Graph) (s : Lowering) (code : List Op) (t : Lowering)
    (pieces : List Piece) : Prop :=
  Yields c g s code t pieces (pieces.flatMap Piece.inner) (pieces.flatMap Piece.slots)

theorem Made.append {r s t : Lowering} {first second code : List Op} {before after : List Piece}
    (begins : Made c g r first s before) (goes : Made c g s second t after)
    (hfirst : first <:+: code) (hsecond : second <:+: code) :
    Made c g r code t (before ++ after) := by
  unfold Made
  rw [List.flatMap_append, List.flatMap_append]
  exact Yields.append begins goes hfirst hsecond

/-- Following flows emits code made of pieces, which begins with or leads to the code of the node. -/
def Composes (c : Catalog) (g : Graph) (follow : Uid → Target → Step (List Op)) : Prop :=
  ∀ uid exit s code t, Sound s.heap → follow uid exit s = .ok (code, t) →
    ∃ pieces, Made c g s code t pieces ∧
      ∃ op rest, code = op :: rest ∧ ∀ L : Listing, L.Covers code t → L.Starts uid exit op

/-- Code of a node, given what it looks like. -/
def Forms (c : Catalog) (g : Graph) (looks : Listing → Piece → Prop) (uid : Uid) (exit : Target)
    (s : Lowering) (code : List Op) (t : Lowering) : Prop :=
  ∃ pieces inner registers,
    Yields c g s code t pieces (inner ++ pieces.flatMap Piece.inner)
      (registers.map Prod.snd ++ pieces.flatMap Piece.slots) ∧
    ∀ (L : Listing) label, L.Covers (.label label :: code) t →
      L.Prepared ⟨uid, exit, label, inner, registers⟩ ∧
        looks L ⟨uid, exit, label, inner, registers⟩

section Flows

variable {follow : Uid → Target → Step (List Op)} {n : Node} {d : Definition} {uid : Uid}
  {exit : Target} {code : List Op} {s t : Lowering}

theorem port_made (composes : Composes c g follow) (sound : Sound s.heap) {index : Nat}
    (given : port follow n index exit s = .ok (code, t)) :
    ∃ pieces, Made c g s code t pieces ∧
      ∃ op rest, code = op :: rest ∧ ∀ L : Listing, L.Covers code t → L.Goes n index exit op := by
  unfold port at given
  unfold Listing.Goes
  cases hflow : n.flows[index]?.join with
  | some next =>
    simp only [hflow] at given
    exact composes next exit s code t sound given
  | none =>
    simp only [hflow] at given
    obtain ⟨rfl, rfl⟩ := pure_eq_ok.mp given
    exact ⟨[], Yields.prepared (Prepares.refl s) sound, _, [], rfl, fun _ _ => rfl⟩

theorem choice_made (composes : Composes c g follow) (sound : Sound s.heap) {condition : Slot}
    (given : choice follow n condition exit s = .ok (code, t)) :
    ∃ pieces, Made c g s code t pieces ∧ ∀ (L : Listing) opening,
      L.Covers (opening ++ code) t → L.Chosen n exit opening condition := by
  simp only [choice, bind_eq_ok, pure_eq_ok] at given
  obtain ⟨otherwise, r, hlabel, first, q, hfirst, second, u, hsecond, rfl, rfl⟩ := given
  have reserves := (newLabel_reserves hlabel).2
  obtain ⟨before, made, op, rest, rfl, goes⟩ :=
    port_made composes (reserves.sound sound) hfirst
  obtain ⟨after, made', op', rest', rfl, goes'⟩ := port_made composes made.sound hsecond
  refine ⟨before ++ after, ?_, fun L opening covers => ?_⟩
  · refine Yields.after_silent (Yields.reserved reserves sound) ?_
    refine Made.append made made' ⟨[.jumpUnless condition (.label otherwise)],
      .label otherwise :: op' :: rest', by simp⟩ ?_
    exact ⟨.jumpUnless condition (.label otherwise) :: op :: rest ++ [.label otherwise], [], by simp⟩
  · have hcovers : L.Covers (op' :: rest') u := covers.narrow
      ⟨opening ++ .jumpUnless condition (.label otherwise) :: op :: rest ++ [.label otherwise], [],
        by simp⟩
    have hfirst : L.Covers (op :: rest) q := Yields.covers made' covers
      ⟨opening ++ [.jumpUnless condition (.label otherwise)], .label otherwise :: op' :: rest',
        by simp⟩
    refine ⟨otherwise, op, op', ?_, ?_, goes L hfirst, goes' L hcovers⟩
    · exact List.IsInfix.trans ⟨[], rest ++ .label otherwise :: op' :: rest', by simp⟩ covers.code
    · exact List.IsInfix.trans
        ⟨opening ++ .jumpUnless condition (.label otherwise) :: op :: rest, rest', by simp⟩
        covers.code

end Flows

end ScriptGraph.Lowering
