import ScriptGraph.Proofs.Compilation.Counting
import Mathlib.Algebra.Group.Nat.Defs

/-!
Foreach loops. The loop keeps a position and the length that its array has when it is entered, but takes
each item from the array as it is when the item's turn comes. As long as its body leaves the items whose
turn is still to come, it visits them all.
-/

set_option autoImplicit false
set_option relaxedAutoImplicit false

namespace ScriptGraph

open Activity (Leads)
open Assembly (Standing addressOf allOps)
open Lowering (Listing Piece Register Script feedOf input)
open Reference (Scripted Setting eventOf? streamsOf)

/-- A loop that visits items, where its array is ready, and the slots of the array, of what the loop
keeps for itself, and of the constants that it begins and goes on with. -/
structure Visitor extends Loop where
  ready : Address
  array : Slot
  position : Slot
  length : Slot
  zero : Slot
  one : Slot

namespace Visitor

/-- Whether a visitor is the code of a node that goes on at a continuation. -/
structure Belongs (c : Catalog) (g : Graph) (L : Listing) (n : Node) (d : Definition) (piece : Piece)
    (visitor : Visitor) : Prop where
  loop : L.Loops n piece.exit visitor.toLoop
  input : ∃ array, L.Supplied (input (feedOf c g) n d 0 []) array ∧ visitor.array = array.slot ∧
    Standing L.ops (addressOf L.ops (.label piece.label)) array.code ∧
    visitor.ready = addressOf L.ops (.label piece.label) + codeLength array.code
  registers : ∃ inRange, piece.registers =
    [(.position, visitor.position), (.length, visitor.length), (.inRange, inRange)]
  zero : L.heap.slot? (.constant int32Type (.int32 0)) = some visitor.zero
  one : L.heap.slot? (.constant int32Type (.int32 1)) = some visitor.one

/-- A body leaves what the loop keeps for itself as it is, and those items of the array that are still
to come. -/
def Keeps (visitor : Visitor) (k : Nat) (entry last : Activity BasicHost) : Prop :=
  (∀ slot ∈ [visitor.position, visitor.length, visitor.one],
    last.heap[slot]? = entry.heap[slot]?) ∧
  ∀ items, entry.heap[visitor.array]? = some (.array items) →
    ∃ others, last.heap[visitor.array]? = some (.array others) ∧
      others.drop (k + 1) = items.drop (k + 1)

/-- Whether a visitor visits all items of its array, whenever the array is ready and its body completes:
the body is shown every item, one after the other, and then the run goes on behind the loop. -/
def Exact (visitor : Visitor) (p : Program) : Prop :=
  ∀ (returns : List Address) (a : Activity BasicHost) (items : List Value),
    p.symbols.length ≤ a.heap.size → a.At visitor.ready returns →
    a.heap[visitor.array]? = some (.array items) → a.heap[visitor.zero]? = some (.int32 0) →
    a.heap[visitor.one]? = some (.int32 1) → items.length < 2 ^ 31 →
    (∀ first, Leads p BasicHost.host 2 a first →
      visitor.Completes p BasicHost.host returns visitor.Keeps first) →
    ∃ after, visitor.Passes p BasicHost.host returns 2 items a after ∧
      ∃ steps, ∀ budget left, steps ≤ left →
        Activity.run p p.instructions.toArray BasicHost.host budget left a =
          Activity.run p p.instructions.toArray BasicHost.host budget (left - steps) after

/-- A visitor in a program: where it stands, and that the slots it writes to are different from those
that it goes by. -/
structure Placed (S : Setting BasicHost) (visitor : Visitor) (inRange : Slot) : Prop where
  counting : visitor.Counting S.ops visitor.position visitor.length visitor.one inRange
    [.call arrayGetMethod [visitor.array, visitor.position, visitor.shown]]
  opens : Standing S.ops visitor.ready [.copy visitor.zero visitor.position,
    .call arrayLengthMethod [visitor.array, visitor.length]]
  top : visitor.top = visitor.ready + 2
  body : visitor.body = visitor.top + 3
  inside : ∀ slot ∈ [visitor.shown, inRange, visitor.position, visitor.length],
    slot < S.program.symbols.length
  shows : ∀ slot ∈ [visitor.position, visitor.length, visitor.one, visitor.array],
    visitor.shown ≠ slot
  decides : ∀ slot ∈ [visitor.position, visitor.length, visitor.one, visitor.array], inRange ≠ slot
  moves : ∀ slot ∈ [visitor.length, visitor.one, visitor.array], visitor.position ≠ slot
  measures : ∀ slot ∈ [visitor.position, visitor.one, visitor.array], visitor.length ≠ slot

namespace Placed

variable {S : Setting BasicHost} {visitor : Visitor} {inRange : Slot} {returns : List Address}
  {items : List Value} {heap : Array Value} {k : Nat}

/-- After a number of rounds: what the loop goes by. -/
structure Stands (S : Setting BasicHost) (visitor : Visitor) (items : List Value) (k : Nat)
    (heap : Array Value) : Prop where
  size : S.program.symbols.length ≤ heap.size
  position : heap[visitor.position]? = some (.int32 (.ofInt k))
  length : heap[visitor.length]? = some (.int32 (.ofInt items.length))
  one : heap[visitor.one]? = some (.int32 1)
  array : ∃ others, heap[visitor.array]? = some (.array others) ∧ others.drop k = items.drop k

theorem Stands.set (stands : Stands S visitor items k heap) {slot : Slot} (value : Value)
    (apart : ∀ other ∈ [visitor.position, visitor.length, visitor.one, visitor.array],
      slot ≠ other) : Stands S visitor items k (heap.setIfInBounds slot value) := by
  simp only [List.forall_mem_cons] at apart
  obtain ⟨position, length, one, array, -⟩ := apart
  refine ⟨by rw [Array.size_setIfInBounds]; exact stands.size, ?_, ?_, ?_, ?_⟩
  · rw [Array.getElem?_setIfInBounds_ne position, stands.position]
  · rw [Array.getElem?_setIfInBounds_ne length, stands.length]
  · rw [Array.getElem?_setIfInBounds_ne one, stands.one]
  · rw [Array.getElem?_setIfInBounds_ne array]
    exact stands.array

theorem Stands.next (placed : Placed S visitor inRange) {entry last : Activity BasicHost}
    (stands : Stands S visitor items k entry.heap) (size : last.heap.size = entry.heap.size)
    (keeps : visitor.Keeps k entry last) :
    Stands S visitor items (k + 1)
      (last.heap.setIfInBounds visitor.position (.int32 (.ofInt k + 1))) := by
  obtain ⟨kept, leaves⟩ := keeps
  obtain ⟨before, found, rest⟩ := stands.array
  obtain ⟨others, array, left⟩ := leaves before found
  have moves := placed.moves
  simp only [List.forall_mem_cons] at kept moves
  have inside := placed.inside visitor.position (by simp)
  have larger := size ▸ stands.size
  refine ⟨by rwa [Array.size_setIfInBounds], ?_, ?_, ?_, ?_⟩
  · rw [Array.getElem?_setIfInBounds_self_of_lt (Nat.lt_of_lt_of_le inside larger),
      Int.natCast_succ, Int32.ofInt_add]
    rfl
  · rw [Array.getElem?_setIfInBounds_ne moves.1, kept.2.1, stands.length]
  · rw [Array.getElem?_setIfInBounds_ne moves.2.1, kept.2.2.1, stands.one]
  · refine ⟨others, by rw [Array.getElem?_setIfInBounds_ne moves.2.2.1, array], ?_⟩
    rw [left, ← List.drop_drop, rest, List.drop_drop]

private theorem toInt_ofInt (short : items.length < 2 ^ 31) (within : k ≤ items.length) :
    (Int32.ofInt k).toInt = k :=
  Int32.toInt_ofInt_of_le (by omega) (by omega)

theorem Stands.item (stands : Stands S visitor items k heap) (below : k < items.length) :
    ∃ others, heap[visitor.array]? = some (.array others) ∧ others[k]? = some (items.getD k .null) := by
  obtain ⟨others, array, rest⟩ := stands.array
  have heads := congrArg (·[0]?) rest
  simp only [List.getElem?_drop, Nat.add_zero] at heads
  refine ⟨others, array, ?_⟩
  rw [heads, List.getD_eq_getElem?_getD, List.getElem?_eq_getElem below]
  rfl

theorem enters (placed : Placed S visitor inRange) (basic : S.host = BasicHost.host)
    (short : items.length < 2 ^ 31) (below : k < items.length) {b : Activity BasicHost}
    (there : b.At visitor.top returns) (stands : Stands S visitor items k b.heap) :
    ∃ entry, visitor.Enters S.program S.host returns b entry ∧
      entry.heap[visitor.shown]? = some (items.getD k .null) ∧
      Stands S visitor items k entry.heap := by
  have now := toInt_ofInt short (Nat.le_of_lt below)
  have decides : (Int32.ofInt k).toInt < (Int32.ofInt items.length).toInt := by
    rw [now, toInt_ofInt short (Nat.le_refl _)]
    exact Int.ofNat_lt.mpr below
  obtain ⟨d, tests, tested, same⟩ := placed.counting.tests_takes basic there stands.position
    stands.length (Nat.lt_of_lt_of_le (placed.inside inRange (by simp)) stands.size)
  rw [if_pos decides] at tested
  have holds : Stands S visitor items k d.heap := same ▸ stands.set _ placed.decides
  -- the item is taken from the array as it is now
  obtain ⟨others, array, found⟩ := holds.item below
  have inside := Nat.lt_of_lt_of_le (placed.inside visitor.shown (by simp)) holds.size
  have reads : Reads d.heap [visitor.array, visitor.position] [.array others, .int32 (.ofInt k)] :=
    .cons array (.cons holds.position .nil)
  obtain ⟨_, -, standing⟩ := placed.counting.tests
  obtain ⟨entry, takes, arrives, stored⟩ := Setting.answer_takes basic reads
    ((standing.next rfl).next rfl) tested inside ⟨nofun, nofun⟩
    fun _ _ => BasicHost.execute_arrayGet now found
  refine ⟨entry, ⟨?_, placed.body ▸ arrives⟩, ?_, stored ▸ holds.set _ placed.shows⟩
  · rw [placed.body, Nat.add_sub_cancel_left]
    exact tests.trans takes
  · rw [stored, Array.getElem?_setIfInBounds_self_of_lt inside]

theorem turns (placed : Placed S visitor inRange) (basic : S.host = BasicHost.host)
    (short : items.length < 2 ^ 31) :
    visitor.Turns S.program S.host returns visitor.Keeps items.length (items.getD · .null)
      fun k b => Stands S visitor items k b.heap where
  round k b below there stands := by
    obtain ⟨entry, enters, shows, holds⟩ := placed.enters basic short below there stands
    refine ⟨entry, enters, shows, fun last comes keeps => ?_⟩
    obtain ⟨n, ran⟩ := comes.leads
    have kept := keeps.1
    simp only [List.forall_mem_cons] at kept
    obtain ⟨c, back, top, moved⟩ := placed.counting.counts_takes basic comes.at
      (kept.1.trans holds.position) (kept.2.2.1.trans holds.one)
    exact ⟨c, back, top, moved ▸ holds.next placed ran.heap_size keeps⟩
  leaves b there stands := by
    have decides : ¬(Int32.ofInt items.length).toInt < (Int32.ofInt items.length).toInt :=
      Int.lt_irrefl _
    obtain ⟨after, leads, leaves, -⟩ := placed.counting.tests_takes basic there stands.position
      stands.length (Nat.lt_of_lt_of_le (placed.inside inRange (by simp)) stands.size)
    rw [if_neg decides] at leaves
    exact ⟨after, leads, leaves⟩

theorem begins (placed : Placed S visitor inRange) (basic : S.host = BasicHost.host)
    {a : Activity BasicHost} (size : S.program.symbols.length ≤ a.heap.size)
    (there : a.At visitor.ready returns) (array : a.heap[visitor.array]? = some (.array items))
    (zero : a.heap[visitor.zero]? = some (.int32 0)) (one : a.heap[visitor.one]? = some (.int32 1)) :
    ∃ first, Leads S.program S.host 2 a first ∧ first.At visitor.top returns ∧
      Stands S visitor items 0 first.heap := by
  have moves := placed.moves
  have measures := placed.measures
  simp only [List.forall_mem_cons] at moves measures
  obtain ⟨apart, alone, separate, -⟩ := moves
  have positioned := Nat.lt_of_lt_of_le (placed.inside visitor.position (by simp)) size
  obtain ⟨b, copies, here, same⟩ := Setting.copy_takes placed.opens there zero positioned
  have inside : visitor.length < b.heap.size := by
    rw [same, Array.size_setIfInBounds]
    exact Nat.lt_of_lt_of_le (placed.inside visitor.length (by simp)) size
  have found : b.heap[visitor.array]? = some (.array items) := by
    rw [same, Array.getElem?_setIfInBounds_ne separate, array]
  have reads : Reads b.heap [visitor.array] [.array items] := .cons found .nil
  obtain ⟨first, calls, behind, stored⟩ := Setting.answer_takes basic reads
    (placed.opens.next rfl) here inside ⟨nofun, nofun⟩
    fun _ _ => BasicHost.execute_arrayLength items
  refine ⟨first, copies.trans calls, placed.top ▸ behind, ?_, ?_, ?_, ?_, items, ?_, rfl⟩ <;>
    rw [stored]
  · rw [Array.size_setIfInBounds, same, Array.size_setIfInBounds]
    exact size
  · rw [Array.getElem?_setIfInBounds_ne measures.1, same,
      Array.getElem?_setIfInBounds_self_of_lt positioned]
    rfl
  · exact Array.getElem?_setIfInBounds_self_of_lt inside
  · rw [Array.getElem?_setIfInBounds_ne measures.2.1, same, Array.getElem?_setIfInBounds_ne alone,
      one]
  · rw [Array.getElem?_setIfInBounds_ne measures.2.2.1, found]

theorem exact (placed : Placed S visitor inRange) (basic : S.host = BasicHost.host) :
    visitor.Exact S.program := by
  intro returns a items size there array zero one short completes
  rw [← basic] at completes ⊢
  obtain ⟨first, leads, top, stands⟩ := placed.begins basic size there array zero one
  obtain ⟨after, passes⟩ := (placed.turns basic short).passes leads top stands
    (completes first leads)
  have all : (List.range items.length).map (items.getD · .null) = items := by
    refine List.ext_getElem (by simp) fun k _ below => ?_
    rw [List.getElem_map, List.getElem_range, List.getD_eq_getElem?_getD,
      List.getElem?_eq_getElem below]
    rfl
  rw [all] at passes
  exact ⟨after, passes, passes.run⟩

end Placed

/-! ## The code of nodes that visit items -/

variable {c : Catalog} {g : Graph} {h : HeapLayout} {scripts : List Script} {p : Program}
  {script : Script} {piece : Piece} {n : Node} {d : Definition}

theorem exists_of_shape (scripted : Scripted c g h scripts p)
    (room : p.instructions.length ≤ haltAddress) (listed : script ∈ scripts)
    (part : piece ∈ script.pieces) (apart : ∀ link, some link ∈ n.links → link.node ≠ n.uid)
    (shape : Listing.ForeachShape c g ⟨allOps (streamsOf scripts), script.emitted, h⟩ n d piece) :
    ∃ visitor : Visitor,
      visitor.Belongs c g ⟨allOps (streamsOf scripts), script.emitted, h⟩ n d piece ∧
      visitor.Exact p := by
  obtain ⟨array, item, initial, one, position, length, inRange, given, granted, zeros, ones,
    registers, counted⟩ := shape
  simp only [List.cons_append] at counted
  obtain ⟨loop, rfl, loops, counting, standing, top, body⟩ :=
    counted.exists_loop scripted.distinct granted
  obtain ⟨arrayKey, arrayGranted, arrayOther⟩ := given.foreign apart
  have distinct := registers ▸ scripted.registers_nodup listed part
  have kept : ∀ entry ∈ [(Register.position, position), (.length, length), (.inRange, inRange)],
      entry ∈ piece.registers := fun entry listed => registers ▸ listed
  simp only [List.forall_mem_cons] at kept
  simp only [List.map_cons, List.map_nil, List.nodup_cons, List.mem_cons, List.not_mem_nil, or_false,
    not_or] at distinct
  obtain ⟨⟨hlength, hinRange⟩, hdecides, -⟩ := distinct
  let visitor : Visitor := { loop with
    ready := addressOf (allOps (streamsOf scripts)) (.label piece.label) + codeLength array.code
    array := array.slot
    position := position
    length := length
    zero := initial
    one := one }
  have placed : Placed (scripted.setting BasicHost.host_forgets room) visitor inRange := {
    counting := counting
    opens := standing.right
    top := by
      rw [codeLength_append] at top
      exact top
    body := body
    inside := by
      simp only [List.forall_mem_cons]
      exact ⟨scripted.granted_lt granted, scripted.register_lt listed part kept.2.2.1,
        scripted.register_lt listed part kept.1, scripted.register_lt listed part kept.2.1,
        List.forall_mem_nil _⟩
    shows := by
      simp only [List.forall_mem_cons]
      exact ⟨(scripted.register_ne listed part kept.1 granted).symm,
        (scripted.register_ne listed part kept.2.1 granted).symm,
        scripted.output_ne granted (.of_constant ones),
        scripted.output_ne granted ⟨_, arrayGranted, arrayOther⟩, List.forall_mem_nil _⟩
    decides := by
      simp only [List.forall_mem_cons]
      exact ⟨Ne.symm hinRange, Ne.symm hdecides, scripted.register_ne listed part kept.2.2.1 ones,
        scripted.register_ne listed part kept.2.2.1 arrayGranted, List.forall_mem_nil _⟩
    moves := by
      simp only [List.forall_mem_cons]
      exact ⟨hlength, scripted.register_ne listed part kept.1 ones,
        scripted.register_ne listed part kept.1 arrayGranted, List.forall_mem_nil _⟩
    measures := by
      simp only [List.forall_mem_cons]
      exact ⟨Ne.symm hlength, scripted.register_ne listed part kept.2.1 ones,
        scripted.register_ne listed part kept.2.1 arrayGranted, List.forall_mem_nil _⟩ }
  exact ⟨visitor, ⟨loops, ⟨array, given, rfl, standing.left, rfl⟩, ⟨inRange, registers⟩, zeros, ones⟩,
    placed.exact rfl⟩

end Visitor

/-- Foreach visits every item. In the program of a graph every Foreach node visits the items of its
array, wherever its code is entered with an array and its constants, as long as its body completes,
leaves what the loop keeps for itself as it is, and leaves the items whose turn is still to come in the
array. -/
theorem Graph.compile_visits {c : Catalog} {strict : Bool} {g : Graph} {result : Compilation}
    (distinct : g.uids.Nodup) (compiled : g.compile c strict = .ok result)
    (room : result.program.instructions.length ≤ haltAddress) :
    ∃ h scripts, Scripted c (g.snapshot c).1 h scripts result.program ∧
      ∀ script ∈ scripts, ∀ piece ∈ script.pieces, ∀ n d,
        (g.snapshot c).1.find? piece.uid = some n → c.find? n.fullName = some d →
        d.kind = .foreachLoop → ∃ visitor : Visitor,
          visitor.Belongs c (g.snapshot c).1 ⟨allOps (streamsOf scripts), script.emitted, h⟩ n d
            piece ∧
          visitor.Exact result.program := by
  obtain ⟨h, scripts, scripted⟩ := Compilation.scripted_of_ofSnapshot compiled
  refine ⟨h, scripts, scripted, fun script listed piece part n d found known kind => ?_⟩
  have shape := scripted.shape_of listed part found known
  rw [Listing.Shape, kind] at shape
  refine Visitor.exists_of_shape scripted room listed part (fun link linked => ?_) shape
  exact (snapshot_valid c distinct).apart n.uid link ⟨n, find?_mem found, rfl, linked⟩

namespace Compilation

def visiting : Catalog := ⟨[
  (Definition.bare "Event_Start").withFlow [""],
  { Definition.bare Kind.foreachName with
    inputs := [⟨"array", some arrayType, .null⟩]
    outputs := [⟨"item", some objectType, .null⟩] }.withFlow ["Body", "Exit"],
  { Definition.bare Kind.getVariableName with
    inputs := [⟨"variable", some textType, .null⟩]
    outputs := [⟨"value", some objectType, .null⟩] },
  { Definition.bare Kind.setVariableName with
    inputs := [⟨"variable", some textType, .null⟩, ⟨"value", some objectType, .null⟩,
      ⟨"sendChange", some boolType, .bool false⟩] }.withFlow [""],
  Catalog.variableOf arrayType]⟩

def overTwo : Node :=
  ⟨"loop", Kind.foreachName, .origin, [.array [.int32 4, .int32 9]], [none], [none, none]⟩

def tour : Graph := { Graph.empty "tour" with nodes := [beginning, overTwo] }

theorem compile_visits_tour : ∃ result, tour.compile visiting true = .ok result ∧
    ∃ (visitor : Visitor) (a after : Activity BasicHost),
      a.heap = (Machine.load result.program 0).heap ∧ a.At visitor.ready [] ∧
      visitor.Passes result.program BasicHost.host [] 2 [.int32 4, .int32 9] a after := by
  have snapshot : (tour.snapshot visiting).1 = tour := by decide +kernel
  have claimed : eventOf? visiting tour "_start" = some beginning := by decide +kernel
  have short : (tour.compile visiting true).toOption.any
      (fun result => result.program.instructions.length ≤ haltAddress) = true := by decide +kernel
  obtain ⟨result, compiled, room⟩ := exists_short short
  obtain ⟨h, scripts, scripted, visits⟩ := Graph.compile_visits (by decide) compiled room
  rw [snapshot] at scripted visits
  obtain ⟨script, listed, piece, part, uid⟩ := scripted.exists_piece claimed rfl
  have found : tour.find? piece.uid = some overTwo := by
    rw [uid]
    rfl
  obtain ⟨visitor, ⟨loops, ⟨array, given, harray, -, -⟩, -, zeros, ones⟩, exact⟩ :=
    visits script listed piece part _ _ found rfl rfl
  obtain ⟨_, granted⟩ := given.literal rfl
  let a : Activity BasicHost := ⟨(Machine.load result.program 0).heap, .fresh [] true,
    visitor.ready, [], ⟨0, 0⟩⟩
  have empty : ∀ first, visitor.Completes result.program BasicHost.host [] visitor.Keeps first := by
    refine loops.completes (S := scripted.setting BasicHost.host_forgets room) rfl rfl ?_
    intro k entry last same
    exact ⟨fun _ _ => by rw [same], fun items there => ⟨items, same ▸ there, rfl⟩⟩
  obtain ⟨after, passes, -⟩ := exact [] a [.int32 4, .int32 9] (by simp [a, Machine.load]) rfl
    (harray ▸ scripted.load_constant granted 0) (scripted.load_constant zeros 0)
    (scripted.load_constant ones 0) (by decide) fun first _ => empty first
  exact ⟨result, compiled, visitor, a, after, rfl, rfl, passes⟩

/-- A visit of the items of a variable that the body empties. -/
def emptying : Graph := { Graph.empty "emptying" with
  nodes := [
    ⟨"items", Kind.variablePrefix ++ arrayType, .origin,
      [.array [.int32 4, .int32 9], .text "items", .bool false, .bool false, .text "none"],
      [none, none, none, none, none], []⟩,
    beginning,
    ⟨"current", Kind.getVariableName, .origin, [.text "items"], [none], []⟩,
    ⟨"loop", Kind.foreachName, .origin, [.null], [some ⟨"current", 0⟩], [some "clear", none]⟩,
    ⟨"clear", Kind.setVariableName, .origin, [.text "items", .array [], .bool false],
      [none, none, none], [none]⟩] }

def emptied : Program where
  name := "emptying"
  updateOrder := 0
  entryPoints := [⟨"_start", 0⟩]
  instructions := [.copy 2 4, .call arrayLengthMethod [0, 5], .call lessThanMethod [4, 5, 6],
    .jumpUnless 6 9, .call arrayGetMethod [0, 4, 1], .copy 7 0, .jump 7,
    .call additionMethod [4, 3, 4], .jump 2, .jump haltAddress]
  symbols := [HeapLayout.internal "items" arrayType (.array [.int32 4, .int32 9]),
    HeapLayout.internal "__intnl_SystemObject_0" objectType .null,
    HeapLayout.internal "__const_SystemInt32_0" int32Type (.int32 0),
    HeapLayout.internal "__const_SystemInt32_1" int32Type (.int32 1),
    HeapLayout.internal "__intnl_SystemInt32_0" int32Type (.int32 0),
    HeapLayout.internal "__intnl_SystemInt32_1" int32Type (.int32 0),
    HeapLayout.internal "__intnl_SystemBoolean_0" boolType (.bool false),
    HeapLayout.internal "__const_SystemObjectArray_0" arrayType (.array [])]

/-- Otherwise a loop can fail by itself. A body that empties the array while an item is still to come
leaves the loop without that item, and its own attempt to get it ends the run. -/
theorem visits_astray :
    (emptying.compile visiting true).toOption.map Compilation.program = some emptied ∧
    ((Machine.load emptied 100).run BasicHost.host (.fresh [] true) "_start").1 =
      .error (.callFailed arrayGetMethod "index 1 is out of range") ∧
    ((Machine.load emptied 100).run BasicHost.host (.fresh [] true) "_start").2.2.callsTo
        arrayGetMethod =
      [[.array [.int32 4, .int32 9], .int32 0, .null], [.array [], .int32 1, .int32 4]] := by
  refine ⟨?_, ?_, ?_⟩ <;> decide +kernel

end Compilation

end ScriptGraph
