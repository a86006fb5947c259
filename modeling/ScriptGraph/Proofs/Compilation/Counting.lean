import ScriptGraph.Proofs.Compilation.Loops
import ScriptGraph.Proofs.Compilation.Refinement
import ScriptGraph.Proofs.Snapshot.Compilable
import Mathlib.Algebra.Group.Int.Defs

/-!
For loops. The loop tests its index against an end that it reads again each time, and adds a step that
it reads again each time. As long as its body leaves the three as they are, and none of the indices
within the range is so close to the greatest integer that the next one is not an integer, it counts as
it says.
-/

set_option autoImplicit false
set_option relaxedAutoImplicit false

namespace ScriptGraph

open Activity (Leads)
open Assembly (Standing addressOf allOps)
open Lowering (Listing Piece Script feedOf input)
open Reference (Scripted Setting eventOf? streamsOf)

/-- A loop that counts, where its inputs are ready, and the slots that they are read from. -/
structure Counter extends Loop where
  ready : Address
  start : Slot
  stop : Slot
  step : Slot

namespace Counter

/-- Whether a counter is the code of a node that goes on at a continuation. -/
structure Belongs (c : Catalog) (g : Graph) (L : Listing) (n : Node) (d : Definition) (piece : Piece)
    (counter : Counter) : Prop where
  loop : L.Loops n piece.exit counter.toLoop
  inputs : ∃ start stop step, L.Supplied (input (feedOf c g) n d 0 []) start ∧
    L.Supplied (input (feedOf c g) n d 1 start.evaluated) stop ∧
    L.Supplied (input (feedOf c g) n d 2 stop.evaluated) step ∧
    counter.start = start.slot ∧ counter.stop = stop.slot ∧ counter.step = step.slot ∧
    Standing L.ops (addressOf L.ops (.label piece.label)) (start.code ++ stop.code ++ step.code) ∧
    counter.ready = addressOf L.ops (.label piece.label) +
      codeLength (start.code ++ stop.code ++ step.code)

/-- A body leaves what the loop goes by as it is. -/
def Keeps (counter : Counter) (_ : Nat) (entry last : Activity BasicHost) : Prop :=
  ∀ slot ∈ [counter.shown, counter.stop, counter.step], last.heap[slot]? = entry.heap[slot]?

/-- Whether a counter counts from its start in steps up to its end, whenever its inputs are ready and
its body completes: the body is shown every index below the end, one after the other, and then the run
goes on behind the loop. -/
def Exact (counter : Counter) (p : Program) : Prop :=
  ∀ (returns : List Address) (a : Activity BasicHost) (start stop step : Int32),
    p.symbols.length ≤ a.heap.size → a.At counter.ready returns →
    a.heap[counter.start]? = some (.int32 start) → a.heap[counter.stop]? = some (.int32 stop) →
    a.heap[counter.step]? = some (.int32 step) → 0 < step.toInt →
    (∀ k : Nat, start.toInt + k * step.toInt < stop.toInt →
      start.toInt + (k + 1) * step.toInt < 2 ^ 31) →
    (∀ first, Leads p BasicHost.host 1 a first →
      counter.Completes p BasicHost.host returns counter.Keeps first) →
    ∃ indices : List Int32,
      (∀ (k : Nat) (i : Int32), indices[k]? = some i → i.toInt = start.toInt + k * step.toInt) ∧
      (∀ k : Nat, k < indices.length ↔ start.toInt + k * step.toInt < stop.toInt) ∧
      ∃ after, counter.Passes p BasicHost.host returns 1 (indices.map .int32) a after ∧
        ∃ steps, ∀ budget left, steps ≤ left →
          Activity.run p p.instructions.toArray BasicHost.host budget left a =
            Activity.run p p.instructions.toArray BasicHost.host budget (left - steps) after

/-! ## Numbers of rounds -/

def rounds (start stop step : Int) : Nat := ((stop - start + (step - 1)) / step).toNat

theorem lt_rounds {start stop step : Int} (positive : 0 < step) (k : Nat) :
    k < rounds start stop step ↔ start + k * step < stop := by
  rw [rounds, Int.lt_toNat, ← Int.add_one_le_iff, Int.le_ediv_iff_mul_le positive, Int.add_mul]
  omega

/-- The index of a round, as the loop computes it. -/
def index (start step : Int32) (k : Nat) : Int32 := .ofInt (start.toInt + k * step.toInt)

variable {start stop step : Int32}

theorem index_zero : index start step 0 = start := by
  rw [index, Int.natCast_zero, Int.zero_mul, Int.add_zero, Int32.ofInt_toInt]

theorem index_succ (k : Nat) : index start step k + step = index start step (k + 1) := by
  rw [index, index, Int.natCast_succ, Int.add_mul, Int.one_mul, ← Int.add_assoc,
    Int32.ofInt_add _ step.toInt, Int32.ofInt_toInt step]

theorem toInt_index (positive : 0 < step.toInt)
    (bounded : ∀ k : Nat, start.toInt + k * step.toInt < stop.toInt →
      start.toInt + (k + 1) * step.toInt < 2 ^ 31) {k : Nat}
    (within : k ≤ rounds start.toInt stop.toInt step.toInt) :
    (index start step k).toInt = start.toInt + k * step.toInt := by
  have least := start.le_toInt
  have further : 0 ≤ (k : Int) * step.toInt :=
    Int.mul_nonneg (Int.natCast_nonneg k) (Int.le_of_lt positive)
  refine Int32.toInt_ofInt_of_le (by omega) ?_
  cases k with
  | zero =>
    rw [Int.natCast_zero, Int.zero_mul, Int.add_zero]
    exact start.toInt_lt
  | succ k => exact bounded k ((lt_rounds positive k).mp within)

/-! ## Runs -/

/-- A counter in a program: where it stands, and that its slots are different ones. -/
structure Placed (S : Setting BasicHost) (counter : Counter) (inRange : Slot) : Prop where
  counting : counter.Counting S.ops counter.shown counter.stop counter.step inRange []
  opens : Standing S.ops counter.ready [.copy counter.start counter.shown]
  top : counter.top = counter.ready + 1
  body : counter.body = counter.top + 2
  inside : ∀ slot ∈ [counter.shown, inRange], slot < S.program.symbols.length
  moves : ∀ slot ∈ [counter.stop, counter.step], counter.shown ≠ slot
  decides : ∀ slot ∈ [counter.shown, counter.stop, counter.step], inRange ≠ slot

namespace Placed

variable {S : Setting BasicHost} {counter : Counter} {inRange : Slot} {returns : List Address}

theorem shown_lt (placed : Placed S counter inRange) :
    counter.shown < S.program.symbols.length :=
  placed.inside _ List.mem_cons_self

theorem inRange_lt (placed : Placed S counter inRange) : inRange < S.program.symbols.length :=
  placed.inside _ (List.mem_cons_of_mem _ List.mem_cons_self)

/-- At the top, after a number of rounds: what the loop goes by. -/
structure Stands (S : Setting BasicHost) (counter : Counter) (start stop step : Int32) (k : Nat)
    (heap : Array Value) : Prop where
  size : S.program.symbols.length ≤ heap.size
  shown : heap[counter.shown]? = some (.int32 (index start step k))
  stop : heap[counter.stop]? = some (.int32 stop)
  step : heap[counter.step]? = some (.int32 step)

theorem Stands.congr {k : Nat} {heap other : Array Value}
    (stands : Stands S counter start stop step k heap) (size : other.size = heap.size)
    (same : ∀ slot ∈ [counter.shown, counter.stop, counter.step], other[slot]? = heap[slot]?) :
    Stands S counter start stop step k other := by
  simp only [List.forall_mem_cons] at same
  exact ⟨size ▸ stands.size, same.1.trans stands.shown, same.2.1.trans stands.stop,
    same.2.2.1.trans stands.step⟩

theorem Stands.moved (placed : Placed S counter inRange) {k : Nat} {heap : Array Value}
    (size : S.program.symbols.length ≤ heap.size) (stop' : heap[counter.stop]? = some (.int32 stop))
    (step' : heap[counter.step]? = some (.int32 step)) :
    Stands S counter start stop step k
      (heap.setIfInBounds counter.shown (.int32 (index start step k))) := by
  have moves := placed.moves
  simp only [List.forall_mem_cons] at moves
  refine ⟨by rwa [Array.size_setIfInBounds], ?_, ?_, ?_⟩
  · exact Array.getElem?_setIfInBounds_self_of_lt (Nat.lt_of_lt_of_le placed.shown_lt size)
  · rwa [Array.getElem?_setIfInBounds_ne moves.1]
  · rwa [Array.getElem?_setIfInBounds_ne moves.2.1]

theorem Stands.tested (placed : Placed S counter inRange) {k : Nat} {heap : Array Value}
    (stands : Stands S counter start stop step k heap) (value : Value) :
    Stands S counter start stop step k (heap.setIfInBounds inRange value) :=
  stands.congr Array.size_setIfInBounds fun slot listed =>
    Array.getElem?_setIfInBounds_ne (placed.decides slot listed)

/-- There is a round as long as the index is below the end, and each moves the index one step on. -/
theorem turns (placed : Placed S counter inRange) (basic : S.host = BasicHost.host)
    (positive : 0 < step.toInt)
    (bounded : ∀ k : Nat, start.toInt + k * step.toInt < stop.toInt →
      start.toInt + (k + 1) * step.toInt < 2 ^ 31) :
    counter.Turns S.program S.host returns counter.Keeps
      (rounds start.toInt stop.toInt step.toInt) (fun k => .int32 (index start step k))
      fun k b => Stands S counter start stop step k b.heap where
  round k b below stands holds := by
    have decides : (index start step k).toInt < stop.toInt := by
      rw [toInt_index positive bounded (Nat.le_of_lt below)]
      exact (lt_rounds positive k).mp below
    obtain ⟨entry, leads, there, same⟩ := placed.counting.tests_takes basic stands holds.shown
      holds.stop (Nat.lt_of_lt_of_le placed.inRange_lt holds.size)
    rw [if_pos decides, ← placed.body] at there
    have enters : counter.Enters S.program S.host returns b entry := by
      refine ⟨?_, there⟩
      rwa [placed.body, Nat.add_sub_cancel_left]
    have kept : Stands S counter start stop step k entry.heap := same ▸ holds.tested placed _
    refine ⟨entry, enters, kept.shown, fun last comes keeps => ?_⟩
    obtain ⟨n, ran⟩ := comes.leads
    have after := kept.congr ran.heap_size keeps
    obtain ⟨c, back, top, moved⟩ :=
      placed.counting.counts_takes basic comes.at after.shown after.step
    refine ⟨c, back, top, ?_⟩
    rw [moved, index_succ]
    exact .moved placed after.size after.stop after.step
  leaves b stands holds := by
    have decides : ¬(index start step (rounds start.toInt stop.toInt step.toInt)).toInt <
        stop.toInt := by
      rw [toInt_index positive bounded (Nat.le_refl _)]
      exact fun below => Nat.lt_irrefl _ ((lt_rounds positive _).mpr below)
    obtain ⟨after, leads, there, -⟩ := placed.counting.tests_takes basic stands holds.shown
      holds.stop (Nat.lt_of_lt_of_le placed.inRange_lt holds.size)
    rw [if_neg decides] at there
    exact ⟨after, leads, there⟩

theorem exact (placed : Placed S counter inRange) (basic : S.host = BasicHost.host) :
    counter.Exact S.program := by
  intro returns a start stop step size stands starts stops steps positive bounded completes
  rw [← basic] at completes ⊢
  obtain ⟨first, leads, there, same⟩ := Setting.copy_takes placed.opens stands starts
    (Nat.lt_of_lt_of_le placed.shown_lt size)
  rw [← placed.top] at there
  have holds : Stands S counter start stop step 0 first.heap := by
    have moved : Stands S counter start stop step 0
      (a.heap.setIfInBounds counter.shown (.int32 (index start step 0))) :=
      .moved placed size stops steps
    rwa [index_zero, ← same] at moved
  obtain ⟨after, passes⟩ := (placed.turns basic positive bounded).passes leads there holds
    (completes first leads)
  refine ⟨(List.range (rounds start.toInt stop.toInt step.toInt)).map (index start step),
    fun k i found => ?_, fun k => ?_, after, ?_, passes.run⟩
  · rw [List.getElem?_map, Option.map_eq_some_iff] at found
    obtain ⟨_, found, rfl⟩ := found
    obtain ⟨below, rfl⟩ := List.getElem?_eq_some_iff.mp found
    rw [List.length_range] at below
    rw [List.getElem_range, toInt_index positive bounded (Nat.le_of_lt below)]
  · rw [List.length_map, List.length_range]
    exact lt_rounds positive k
  · rwa [List.map_map]

end Placed

/-! ## The code of nodes that count -/

variable {c : Catalog} {g : Graph} {h : HeapLayout} {scripts : List Script} {p : Program}
  {script : Script} {piece : Piece} {n : Node} {d : Definition}

theorem exists_of_shape (scripted : Scripted c g h scripts p)
    (room : p.instructions.length ≤ haltAddress) (listed : script ∈ scripts)
    (part : piece ∈ script.pieces) (apart : ∀ link, some link ∈ n.links → link.node ≠ n.uid)
    (shape : Listing.ForShape c g ⟨allOps (streamsOf scripts), script.emitted, h⟩ n d piece) :
    ∃ counter : Counter,
      counter.Belongs c g ⟨allOps (streamsOf scripts), script.emitted, h⟩ n d piece ∧
      counter.Exact p := by
  obtain ⟨start, stop, step, index, inRange, starts, stops, steps, granted, registers, counted⟩ :=
    shape
  simp only [List.cons_append] at counted
  obtain ⟨loop, rfl, loops, counting, standing, top, body⟩ :=
    counted.exists_loop scripted.distinct granted
  have kept : (Lowering.Register.inRange, inRange) ∈ piece.registers :=
    registers ▸ List.mem_singleton.mpr rfl
  obtain ⟨stopKey, stopGranted, stopOther⟩ := stops.foreign apart
  obtain ⟨stepKey, stepGranted, stepOther⟩ := steps.foreign apart
  let counter : Counter := { loop with
    ready := addressOf (allOps (streamsOf scripts)) (.label piece.label) +
      codeLength (start.code ++ stop.code ++ step.code)
    start := start.slot
    stop := stop.slot
    step := step.slot }
  have placed : Placed (scripted.setting BasicHost.host_forgets room) counter inRange := {
    counting := counting
    opens := standing.right
    top := by
      rw [codeLength_append] at top
      exact top
    body := body
    inside := by
      simp only [List.forall_mem_cons]
      exact ⟨scripted.granted_lt granted, scripted.register_lt listed part kept,
        List.forall_mem_nil _⟩
    moves := by
      simp only [List.forall_mem_cons]
      exact ⟨scripted.output_ne granted ⟨_, stopGranted, stopOther⟩,
        scripted.output_ne granted ⟨_, stepGranted, stepOther⟩, List.forall_mem_nil _⟩
    decides := by
      simp only [List.forall_mem_cons]
      exact ⟨scripted.register_ne listed part kept granted,
        scripted.register_ne listed part kept stopGranted,
        scripted.register_ne listed part kept stepGranted, List.forall_mem_nil _⟩ }
  exact ⟨counter, ⟨loops, start, stop, step, starts, stops, steps, rfl, rfl, rfl, standing.left, rfl⟩,
    placed.exact rfl⟩

end Counter

/-- For loops count exactly. In the program of a graph every For node counts from its start in steps up
to its end, wherever its code is entered with integers and a positive step, as long as its body
completes and leaves index, end and step as they are, and no index within the range is followed by one
that is no integer. -/
theorem Graph.compile_counts {c : Catalog} {strict : Bool} {g : Graph} {result : Compilation}
    (distinct : g.uids.Nodup) (compiled : g.compile c strict = .ok result)
    (room : result.program.instructions.length ≤ haltAddress) :
    ∃ h scripts, Scripted c (g.snapshot c).1 h scripts result.program ∧
      ∀ script ∈ scripts, ∀ piece ∈ script.pieces, ∀ n d,
        (g.snapshot c).1.find? piece.uid = some n → c.find? n.fullName = some d →
        d.kind = .forLoop → ∃ counter : Counter,
          counter.Belongs c (g.snapshot c).1 ⟨allOps (streamsOf scripts), script.emitted, h⟩ n d
            piece ∧
          counter.Exact result.program := by
  obtain ⟨h, scripts, scripted⟩ := Compilation.scripted_of_ofSnapshot compiled
  refine ⟨h, scripts, scripted, fun script listed piece part n d found known kind => ?_⟩
  have shape := scripted.shape_of listed part found known
  rw [Listing.Shape, kind] at shape
  refine Counter.exists_of_shape scripted room listed part (fun link linked => ?_) shape
  exact (snapshot_valid c distinct).apart n.uid link ⟨n, find?_mem found, rfl, linked⟩

namespace Compilation

def counting : Catalog := ⟨[
  (Definition.bare "Event_Start").withFlow [""],
  { Definition.bare Kind.forName with
    inputs := [⟨"start", some int32Type, .int32 0⟩, ⟨"end", some int32Type, .int32 0⟩,
      ⟨"step", some int32Type, .int32 1⟩]
    outputs := [⟨"index", some int32Type, .null⟩] }.withFlow ["Body", "Exit"],
  { Definition.bare Kind.getVariableName with
    inputs := [⟨"variable", some textType, .null⟩]
    outputs := [⟨"value", some objectType, .null⟩] },
  { Definition.bare Kind.setVariableName with
    inputs := [⟨"variable", some textType, .null⟩, ⟨"value", some objectType, .null⟩,
      ⟨"sendChange", some boolType, .bool false⟩] }.withFlow [""],
  Catalog.variableOf int32Type]⟩

def beginning : Node := ⟨"start", "Event_Start", .origin, [], [], [some "loop"]⟩

def upToThree : Node :=
  ⟨"loop", Kind.forName, .origin, [.int32 0, .int32 3, .int32 1], [none, none, none], [none, none]⟩

def tally : Graph := { Graph.empty "tally" with
  nodes := [beginning, upToThree] }

theorem exists_short {c : Catalog} {strict : Bool} {g : Graph}
    (short : (g.compile c strict).toOption.any
      (fun result => result.program.instructions.length ≤ haltAddress) = true) :
    ∃ result, g.compile c strict = .ok result ∧
      result.program.instructions.length ≤ haltAddress := by
  cases compiled : g.compile c strict with
  | error error =>
    rw [compiled] at short
    cases short
  | ok result =>
    rw [compiled] at short
    exact ⟨result, rfl, of_decide_eq_true short⟩

theorem compile_counts_tally : ∃ result, tally.compile counting true = .ok result ∧
    ∃ (counter : Counter) (a after : Activity BasicHost),
      a.heap = (Machine.load result.program 0).heap ∧ a.At counter.ready [] ∧
      counter.Passes result.program BasicHost.host [] 1 [.int32 0, .int32 1, .int32 2] a after := by
  have snapshot : (tally.snapshot counting).1 = tally := by decide +kernel
  have claimed : eventOf? counting tally "_start" = some beginning := by decide +kernel
  have short : (tally.compile counting true).toOption.any
      (fun result => result.program.instructions.length ≤ haltAddress) = true := by decide +kernel
  obtain ⟨result, compiled, room⟩ := exists_short short
  obtain ⟨h, scripts, scripted, counts⟩ := Graph.compile_counts (by decide) compiled room
  rw [snapshot] at scripted counts
  obtain ⟨script, listed, piece, part, uid⟩ := scripted.exists_piece claimed rfl
  have found : tally.find? piece.uid = some upToThree := by
    rw [uid]
    rfl
  obtain ⟨counter, ⟨loops, start, stop, step, starts, stops, steps, hstart, hstop, hstep, -, -⟩,
    exact⟩ := counts script listed piece part _ _ found rfl rfl
  obtain ⟨_, startGranted⟩ := starts.literal rfl
  obtain ⟨_, stopGranted⟩ := stops.literal rfl
  obtain ⟨_, stepGranted⟩ := steps.literal rfl
  let a : Activity BasicHost := ⟨(Machine.load result.program 0).heap, .fresh [] true,
    counter.ready, [], ⟨0, 0⟩⟩
  have bounded : ∀ k : Nat, (0 : Int32).toInt + k * (1 : Int32).toInt < (3 : Int32).toInt →
      (0 : Int32).toInt + (k + 1) * (1 : Int32).toInt < 2 ^ 31 := by
    intro k below
    change (0 : Int) + k * 1 < 3 at below
    change (0 : Int) + (k + 1) * 1 < 2 ^ 31
    omega
  obtain ⟨indices, shown, below, after, passes, -⟩ := exact [] a 0 3 1 (by simp [a, Machine.load])
    rfl (hstart ▸ scripted.load_constant startGranted 0)
    (hstop ▸ scripted.load_constant stopGranted 0) (hstep ▸ scripted.load_constant stepGranted 0)
    (by decide) bounded fun first _ =>
      loops.completes (S := scripted.setting BasicHost.host_forgets room) rfl rfl
        (fun _ _ _ same _ _ => by rw [same]) first
  have three : indices.length = 3 := by
    have last := (below 2).mpr (by decide)
    have beyond := mt (below 3).mp (by decide)
    omega
  obtain ⟨i, j, k, rfl⟩ := List.length_eq_three.mp three
  obtain rfl : i = 0 := Int32.toInt_inj.mp (shown 0 i rfl)
  obtain rfl : j = 1 := Int32.toInt_inj.mp (shown 1 j rfl)
  obtain rfl : k = 2 := Int32.toInt_inj.mp (shown 2 k rfl)
  exact ⟨result, compiled, counter, a, after, rfl, rfl, passes⟩

/-- A count up to a variable that the body lowers. -/
def shrinking : Graph := { Graph.empty "shrinking" with
  nodes := [
    ⟨"end", Kind.variablePrefix ++ int32Type, .origin,
      [.int32 3, .text "end", .bool false, .bool false, .text "none"],
      [none, none, none, none, none], []⟩,
    beginning,
    ⟨"current", Kind.getVariableName, .origin, [.text "end"], [none], []⟩,
    ⟨"loop", Kind.forName, .origin, [.int32 0, .int32 0, .int32 1],
      [none, some ⟨"current", 0⟩, none], [some "lower", none]⟩,
    ⟨"lower", Kind.setVariableName, .origin, [.text "end", .int32 1, .bool false],
      [none, none, none], [none]⟩] }

/-- A count whose second index would be above all integers. -/
def wrapping : Graph := { Graph.empty "wrapping" with
  nodes := [beginning, { upToThree with
    values := [.int32 2147483646, .int32 2147483647, .int32 2] }] }

def shrunk : Program where
  name := "shrinking"
  updateOrder := 0
  entryPoints := [⟨"_start", 0⟩]
  instructions := [.copy 1 3, .call lessThanMethod [3, 0, 4], .jumpUnless 4 7, .copy 2 0, .jump 5,
    .call additionMethod [3, 2, 3], .jump 1, .jump haltAddress]
  symbols := [HeapLayout.internal "end" int32Type (.int32 3),
    HeapLayout.internal "__const_SystemInt32_0" int32Type (.int32 0),
    HeapLayout.internal "__const_SystemInt32_1" int32Type (.int32 1),
    HeapLayout.internal "__intnl_SystemInt32_0" int32Type (.int32 0),
    HeapLayout.internal "__intnl_SystemBoolean_0" boolType (.bool false)]

def wrapped : Program where
  name := "wrapping"
  updateOrder := 0
  entryPoints := [⟨"_start", 0⟩]
  instructions := [.copy 0 3, .call lessThanMethod [3, 1, 4], .jumpUnless 4 6, .jump 4,
    .call additionMethod [3, 2, 3], .jump 1, .jump haltAddress]
  symbols := [HeapLayout.internal "__const_SystemInt32_0" int32Type (.int32 2147483646),
    HeapLayout.internal "__const_SystemInt32_1" int32Type (.int32 2147483647),
    HeapLayout.internal "__const_SystemInt32_2" int32Type (.int32 2),
    HeapLayout.internal "__intnl_SystemInt32_0" int32Type (.int32 0),
    HeapLayout.internal "__intnl_SystemBoolean_0" boolType (.bool false)]

/-- Otherwise a loop does not count as it says. A body that lowers the end to one runs once although the
loop was entered to count up to three; and a loop with a single index below its end goes on with the
least integer. -/
theorem counts_astray :
    (shrinking.compile counting true).toOption.map Compilation.program = some shrunk ∧
    (wrapping.compile counting true).toOption.map Compilation.program = some wrapped ∧
    ((Machine.load shrunk 100).run BasicHost.host (.fresh [] true) "_start").1 = .ok ⟨10, 3⟩ ∧
    ((Machine.load shrunk 100).run BasicHost.host (.fresh [] true) "_start").2.2.callsTo
        lessThanMethod =
      [[.int32 0, .int32 3, .bool false], [.int32 1, .int32 1, .bool true]] ∧
    ((Machine.load wrapped 12).run BasicHost.host (.fresh [] true) "_start").2.2.callsTo
        lessThanMethod =
      [[.int32 2147483646, .int32 2147483647, .bool false],
        [.int32 (-2147483648), .int32 2147483647, .bool true],
        [.int32 (-2147483646), .int32 2147483647, .bool true]] := by
  refine ⟨?_, ?_, ?_, ?_, ?_⟩ <;> decide +kernel

end Compilation

end ScriptGraph
