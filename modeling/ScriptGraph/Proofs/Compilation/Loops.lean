import ScriptGraph.Proofs.Lowering.Total
import ScriptGraph.Proofs.Machine.Rounds
import ScriptGraph.Proofs.Reference.Events

/-!
The code of loops that count. It compares an index with an end, runs the body, adds a step to the index
and compares again; index, end and step are read from their slots each time.
-/

set_option autoImplicit false
set_option relaxedAutoImplicit false

namespace ScriptGraph

open Activity (Leads)
open Assembly (Standing addressOf)
open Lowering (Feeds Listing Piece Supply feedOf)

/-! ## Slots that inputs are read from -/

namespace Lowering

open HeapLayout (Key)

variable {c : Catalog} {g : Graph} {n : Node} {d : Definition}

def Foreign (h : HeapLayout) (uid : Uid) (slot : Slot) : Prop :=
  ∃ key, h.slot? key = some slot ∧ ∀ index, key ≠ .output uid index

theorem Foreign.of_constant {h : HeapLayout} {type : String} {value : Value} {uid : Uid} {slot : Slot}
    (granted : h.slot? (.constant type value) = some slot) : Foreign h uid slot :=
  ⟨_, granted, nofun⟩

theorem Foreign.of_variable {h : HeapLayout} {target uid : Uid} {slot : Slot}
    (granted : h.slot? (.variable target) = some slot) : Foreign h uid slot :=
  ⟨_, granted, nofun⟩

private theorem supply_foreign {depth : Nat} {visiting evaluated : List Uid} {link : Link} {uid : Uid}
    (apart : link.node ≠ uid) {supplied : Supply} {s t : Lowering}
    (given : supply c g depth visiting evaluated link s = .ok (supplied, t)) :
    Foreign t.heap uid supplied.slot := by
  have other : ∀ index, Key.output link.node link.output ≠ .output uid index := by
    rintro index same
    exact apart (Key.output.inj same).1
  cases depth with
  | zero => simp [supply_zero, throw_apply] at given
  | succ depth =>
    simp only [supply_succ, bind_eq_ok] at given
    obtain ⟨⟨n, d⟩, r, -, given⟩ := given
    cases source : sourceOf n d with
    | literal type value =>
      simp only [source, supplyFrom, bind_eq_ok, pure_eq_ok] at given
      obtain ⟨slot, q, hslot, rfl, rfl⟩ := given
      exact .of_constant (constant_obtains hslot).granted
    | «variable» target =>
      simp only [source, supplyFrom, bind_eq_ok, pure_eq_ok] at given
      obtain ⟨slot, q, hslot, rfl, rfl⟩ := given
      exact .of_variable (variableSlot_obtains hslot).granted
    | stored =>
      simp only [source, supplyFrom, bind_eq_ok, pure_eq_ok] at given
      obtain ⟨slot, q, hslot, rfl, rfl⟩ := given
      exact ⟨_, (output_obtains hslot).granted, other⟩
    | computed =>
      simp only [source, supplyFrom] at given
      split at given
      · simp only [bind_eq_ok, pure_eq_ok] at given
        obtain ⟨slot, q, hslot, rfl, rfl⟩ := given
        exact ⟨_, (output_obtains hslot).granted, other⟩
      · split at given
        · simp only [breakCycle, bind_eq_ok, pure_eq_ok] at given
          obtain ⟨_, q, -, slot, u, hslot, rfl, rfl⟩ := given
          exact .of_constant (constant_obtains hslot).granted
        · simp only [compute, bind_eq_ok, pure_eq_ok] at given
          obtain ⟨_, q, -, _, u, -, slot, v, hslot, rfl, rfl⟩ := given
          exact ⟨_, (output_obtains hslot).granted, other⟩

theorem Listing.Supplied.foreign {L : Listing} {index : Nat} {evaluated : List Uid}
    {supplied : Supply} (given : L.Supplied (input (feedOf c g) n d index evaluated) supplied)
    (apart : ∀ link, some link ∈ n.links → link.node ≠ n.uid) :
    Foreign L.heap n.uid supplied.slot := by
  obtain ⟨s, t, given, grows⟩ := given
  have here : Foreign t.heap n.uid supplied.slot := by
    unfold input inputAs at given
    cases found : n.links[index]?.join with
    | some link =>
      simp only [found] at given
      exact supply_foreign (apart link (mem_of_join_eq_some found)) given
    | none =>
      simp only [found, bind_eq_ok, pure_eq_ok] at given
      obtain ⟨slot, r, hslot, rfl, rfl⟩ := given
      exact .of_constant (constant_obtains hslot).granted
  obtain ⟨key, granted, other⟩ := here
  exact ⟨key, grows.kept _ _ granted, other⟩

theorem Listing.Supplied.literal {L : Listing} {index : Nat} {evaluated : List Uid}
    {supplied : Supply} (given : L.Supplied (input (feedOf c g) n d index evaluated) supplied)
    (unlinked : n.links[index]?.join = none) :
    ∃ type, L.heap.slot? (.constant type (literal n d index)) = some supplied.slot := by
  obtain ⟨s, t, given, grows⟩ := given
  simp only [input, inputAs, unlinked, bind_eq_ok, pure_eq_ok] at given
  obtain ⟨slot, r, hslot, rfl, rfl⟩ := given
  exact ⟨_, grows.kept _ _ (constant_obtains hslot).granted⟩

end Lowering

/-! ## Single steps -/

namespace Reference.Setting

variable {σ : Type} {S : Setting σ} {returns : List Address} {start m n : Nat} {a : Activity σ}
  {address later : Address} {heap contents : Array Value} {rest : List Op}

/-- A number of steps lead an activity to an address, at the level of the running event, and leave a
heap. -/
def Takes (S : Setting σ) (returns : List Address) (n : Nat) (a : Activity σ) (address : Address)
    (heap : Array Value) : Prop :=
  ∃ b, Leads S.program S.host n a b ∧ b.At address returns ∧ b.heap = heap

theorem Takes.andThen (first : S.Takes returns m a address heap)
    (second : ∀ b : Activity σ, b.At address returns → b.heap = heap →
      S.Takes returns n b later contents) :
    S.Takes returns (m + n) a later contents := by
  obtain ⟨b, leads, stands, same⟩ := first
  obtain ⟨d, goes, there, holds⟩ := second b stands same
  exact ⟨d, leads.trans goes, there, holds⟩

theorem jump_takes {target : Target} (standing : Standing S.ops start (.jump target :: rest))
    (stands : a.At start returns) : S.Takes returns 1 a (addressOf S.ops target) a.heap :=
  ⟨_, .single (move_eq standing rfl stands), rfl, rfl⟩

theorem copy_takes {source destination : Slot} {value : Value}
    (standing : Standing S.ops start (.copy source destination :: rest))
    (stands : a.At start returns) (holds : a.heap[source]? = some value)
    (inside : destination < a.heap.size) :
    S.Takes returns 1 a (start + 1) (a.heap.setIfInBounds destination value) := by
  have moves := move_eq standing rfl stands
  simp only [Activity.perform, holds, if_pos inside] at moves
  exact ⟨_, .single moves, rfl, rfl⟩

theorem test_takes {condition : Slot} {otherwise : Target} {holds : Bool}
    (standing : Standing S.ops start (.jumpUnless condition otherwise :: rest))
    (stands : a.At start returns) (decides : a.heap[condition]? = some (.bool holds)) :
    S.Takes returns 1 a (if holds then start + 1 else addressOf S.ops otherwise) a.heap := by
  have moves := move_eq standing rfl stands
  simp only [Activity.perform, decides] at moves
  cases holds <;> exact ⟨_, .single moves, rfl, rfl⟩

end Reference.Setting

/-! ## Calls -/

/-- Values are read from slots in order. -/
def Reads (heap : Array Value) (slots : List Slot) (values : List Value) : Prop :=
  List.Forall₂ (fun (slot : Slot) value => heap[slot]? = some value) slots values

namespace Reads

variable {heap : Array Value} {slots : List Slot} {values : List Value}

theorem readAll (reads : Reads heap slots values) : Activity.readAll heap slots = .ok values :=
  Activity.readAll_eq_ok.mpr reads

theorem storeAll (reads : Reads heap slots values) (output : Slot) (result : Value) :
    Activity.storeAll heap (slots ++ [output]) (values ++ [result]) =
      heap.setIfInBounds output result := by
  rw [Activity.storeAll_held reads [output], reads.length_eq, List.drop_left]
  · rfl
  · intro index value inside given
    rwa [List.getElem?_append_left (reads.length_eq ▸ inside)] at given

end Reads

namespace BasicHost

variable {strict : Bool} {old : Value}

theorem execute_lessThan (i j : Int32) : execute strict lessThanMethod [.int32 i, .int32 j, old] =
    .ok [.int32 i, .int32 j, .bool (i.toInt < j.toInt)] := by
  rw [execute, if_pos rfl]
  rfl

theorem execute_addition (i j : Int32) : execute strict additionMethod [.int32 i, .int32 j, old] =
    .ok [.int32 i, .int32 j, .int32 (i + j)] := by
  rw [execute, if_neg (by decide), if_pos rfl]
  rfl

theorem execute_arrayLength (items : List Value) :
    execute strict arrayLengthMethod [.array items, old] =
      .ok [.array items, .int32 (.ofInt items.length)] := by
  rw [execute, if_neg (by decide), if_neg (by decide), if_pos rfl]
  rfl

theorem execute_arrayGet {items : List Value} {i : Int32} {k : Nat} {item : Value}
    (position : i.toInt = k) (found : items[k]? = some item) :
    execute strict arrayGetMethod [.array items, .int32 i, old] =
      .ok [.array items, .int32 i, item] := by
  have reads : itemAt arrayGetMethod items i = .ok item := by
    rw [itemAt, position, if_neg (Int.not_lt.mpr (Int.natCast_nonneg k)), Int.toNat_natCast, found]
  rw [execute, if_neg (by decide), if_neg (by decide), if_neg (by decide), if_pos rfl]
  change (itemAt arrayGetMethod items i >>= _) = _
  rw [reads]
  rfl

end BasicHost

namespace Reference.Setting

variable {S : Setting BasicHost} {returns : List Address} {start : Nat} {a : Activity BasicHost}
  {rest : List Op}

/-- A method that the basic host answers stores its result and nothing else. Only a call on an object
or on the program itself would do something else. -/
theorem answer_takes (basic : S.host = BasicHost.host) {method : String} {inputs : List Slot}
    {output : Slot} {first result : Value} {values : List Value}
    (reads : Reads a.heap inputs (first :: values))
    (standing : Standing S.ops start (.call method (inputs ++ [output]) :: rest))
    (stands : a.At start returns) (inside : output < a.heap.size)
    (inert : first ≠ .this ∧ ∀ id, first ≠ .object id)
    (executes : ∀ strict old, BasicHost.execute strict method (first :: values ++ [old]) =
      .ok (first :: values ++ [result])) :
    S.Takes returns 1 a (start + 1) (a.heap.setIfInBounds output result) := by
  have moves := move_eq standing rfl stands
  have all : Reads a.heap (inputs ++ [output]) (first :: values ++ [a.heap[output]]) :=
    List.rel_append reads (.cons (Array.getElem?_eq_getElem inside) .nil)
  have unblocked : Activity.blocked? S.host a.host (first :: values ++ [a.heap[output]]) = none := by
    rw [Option.eq_none_iff_forall_ne_some]
    intro target blocked
    obtain ⟨id, -, head, -⟩ := Activity.blocked?_eq_some.mp blocked
    exact inert.2 id (Option.some.inj head)
  have foreign : Activity.ownEvent? method (first :: values ++ [a.heap[output]]) = none := by
    rw [List.cons_append]
    unfold Activity.ownEvent?
    split
    · rename_i same
      exact absurd (List.cons.inj same).1 inert.1
    · rfl
  obtain ⟨state, called⟩ : ∃ state, S.host.call a.host method (first :: values ++ [a.heap[output]]) =
      (.ok (first :: values ++ [result]), state) := by
    rw [basic]
    exact ⟨_, Prod.ext (executes a.host.strict _) rfl⟩
  simp only [Activity.perform, Activity.call, all.readAll, unblocked, foreign, called,
    reads.storeAll] at moves
  exact ⟨_, .single moves, rfl, rfl⟩

end Reference.Setting

/-! ## The code of a loop -/

namespace Loop

/-- The code of a loop that counts. At the top an index is compared with an end, and where the body
comes back a step is added to the index. -/
structure Counting (ops : List Op) (loop : Loop) (index stop step inRange : Slot) (each : List Op) :
    Prop where
  tests : ∃ otherwise, addressOf ops otherwise = loop.done ∧
    Standing ops loop.top (.call lessThanMethod [index, stop, inRange] ::
      .jumpUnless inRange otherwise :: each)
  counts : ∃ again, addressOf ops again = loop.top ∧
    Standing ops loop.back [.call additionMethod [index, step, index], .jump again]

namespace Counting

open Reference

variable {S : Setting BasicHost} {loop : Loop} {index stop step inRange : Slot} {each : List Op}
  {returns : List Address} {a : Activity BasicHost} {i j : Int32}

theorem tests_takes (counting : loop.Counting S.ops index stop step inRange each)
    (basic : S.host = BasicHost.host) (stands : a.At loop.top returns)
    (indexed : a.heap[index]? = some (.int32 i)) (stopped : a.heap[stop]? = some (.int32 j))
    (inside : inRange < a.heap.size) :
    S.Takes returns 2 a (if i.toInt < j.toInt then loop.top + 2 else loop.done)
      (a.heap.setIfInBounds inRange (.bool (i.toInt < j.toInt))) := by
  obtain ⟨otherwise, outside, standing⟩ := counting.tests
  have reads : Reads a.heap [index, stop] [.int32 i, .int32 j] :=
    .cons indexed (.cons stopped .nil)
  have compares := Setting.answer_takes basic reads standing stands inside ⟨nofun, nofun⟩
    fun _ _ => BasicHost.execute_lessThan i j
  refine compares.andThen (n := 1) fun b there same => ?_
  have decided : b.heap[inRange]? = some (.bool (i.toInt < j.toInt)) := by
    rw [same, Array.getElem?_setIfInBounds_self_of_lt inside]
  have tests := Setting.test_takes (standing.next rfl) there decided
  rw [same, outside] at tests
  simpa only [decide_eq_true_eq] using tests

theorem counts_takes (counting : loop.Counting S.ops index stop step inRange each)
    (basic : S.host = BasicHost.host) (stands : a.At loop.back returns)
    (indexed : a.heap[index]? = some (.int32 i)) (stepped : a.heap[step]? = some (.int32 j)) :
    S.Takes returns 2 a loop.top (a.heap.setIfInBounds index (.int32 (i + j))) := by
  obtain ⟨again, top, standing⟩ := counting.counts
  have inside := (Array.getElem?_eq_some_iff.mp indexed).1
  have reads : Reads a.heap [index, step] [.int32 i, .int32 j] :=
    .cons indexed (.cons stepped .nil)
  have adds := Setting.answer_takes basic reads standing stands inside ⟨nofun, nofun⟩
    fun _ _ => BasicHost.execute_addition i j
  refine adds.andThen (n := 1) fun b there same => ?_
  rw [← top, ← same]
  exact Setting.jump_takes (standing.next rfl) there

end Counting

end Loop

namespace Lowering.Listing

variable {L : Listing} {n : Node} {exit : Target}

def Ahead (L : Listing) (n : Node) (index : Nat) (exit : Target) (address : Address) : Prop :=
  ∃ op, Standing L.ops address [op] ∧ L.Goes n index exit op

/-- Whether a loop is that of a node. Its body is what the first flow output leads to and comes back
to the loop, behind the loop is what the second one leads to, and it shows its rounds in the first
output. -/
structure Loops (L : Listing) (n : Node) (exit : Target) (loop : Loop) : Prop where
  shown : L.heap.slot? (.output n.uid 0) = some loop.shown
  body : ∃ label, addressOf L.ops (.label label) = loop.back ∧ L.Ahead n 0 (.label label) loop.body
  exit : L.Ahead n 1 exit loop.done

theorem Counted.exists_loop {inner : List Label} {label : Label} {opening each : List Op}
    {index stop step inRange shown : Slot}
    (counted : L.Counted n exit inner (.label label :: opening) index stop step inRange each)
    (distinct : (marks L.ops).Nodup) (output : L.heap.slot? (.output n.uid 0) = some shown) :
    ∃ loop, loop.shown = shown ∧ L.Loops n exit loop ∧
      loop.Counting L.ops index stop step inRange each ∧
      Standing L.ops (addressOf L.ops (.label label)) opening ∧
      loop.top = addressOf L.ops (.label label) + codeLength opening ∧
      loop.body = loop.top + (2 + codeLength each) := by
  obtain ⟨header, increment, done, first, second, -, opens, counts, exits, begins, goes⟩ := counted
  have standing : Standing L.ops (addressOf L.ops (.label label)) (opening ++
      (.label header :: .call lessThanMethod [index, stop, inRange] ::
        .jumpUnless inRange (.label done) :: (each ++ [first]))) := by
    refine Standing.of_infix distinct ?_
    simpa only [List.cons_append, List.append_assoc] using opens
  have marked := standing.right.addressOf_eq distinct
  have tests := standing.right.skip
  have body : Standing L.ops _ [first] := ((tests.next rfl).next rfl).right
  exact ⟨⟨_, _, addressOf L.ops (.label increment), addressOf L.ops (.label done), shown⟩, rfl,
    ⟨output, ⟨increment, rfl, first, body, begins⟩, second, Standing.of_infix distinct exits, goes⟩,
    ⟨⟨.label done, rfl, (tests.left : Standing L.ops _ (_ :: _ :: each))⟩,
      ⟨.label header, marked, Standing.of_infix distinct counts⟩⟩,
    standing.left, rfl, Nat.add_assoc _ 2 _⟩

theorem Loops.completes {σ : Type} {S : Reference.Setting σ} {loop : Loop} {returns : List Address}
    {keeps : Nat → Activity σ → Activity σ → Prop} (loops : L.Loops n exit loop)
    (same : S.ops = L.ops) (empty : n.flows[0]?.join = none)
    (lenient : ∀ k entry last, last.heap = entry.heap → keeps k entry last) (first : Activity σ) :
    loop.Completes S.program S.host returns keeps first := by
  intro values b entry rounds enters
  obtain ⟨label, back, op, standing, goes⟩ := loops.body
  simp only [Goes, empty] at goes
  subst goes
  rw [← same] at standing back
  by_cases arrived : entry.At loop.back returns
  · exact ⟨entry, .here arrived, lenient _ _ _ rfl⟩
  · have moves := Reference.Setting.move_eq standing rfl enters.2
    refine ⟨_, .step arrived moves (.here ?_), lenient _ _ _ rfl⟩
    rw [← back]
    rfl

end Lowering.Listing

/-! ## The slots of a loop -/

namespace Reference.Scripted

open HeapLayout (Key)

variable {c : Catalog} {g : Graph} {h : HeapLayout} {scripts : List Lowering.Script} {p : Program}
  {script : Lowering.Script} {piece : Piece} {entry : Lowering.Register × Slot} {key : Key} {slot : Slot}

theorem granted_lt (scripted : Scripted c g h scripts p) (granted : h.slot? key = some slot) :
    slot < p.symbols.length := by
  rw [scripted.symbols, Array.length_toList]
  exact scripted.sound.bound key slot granted

theorem register_lt (scripted : Scripted c g h scripts p) (listed : script ∈ scripts)
    (part : piece ∈ script.pieces) (kept : entry ∈ piece.registers) :
    entry.2 < p.symbols.length := by
  have starts := ((scripted.within script listed).shaped piece part).1 entry kept
  obtain ⟨symbol, found, -⟩ := Option.map_eq_some_iff.mp starts
  rw [scripted.symbols, Array.length_toList]
  exact (Array.getElem?_eq_some_iff.mp found).1

theorem register_ne (scripted : Scripted c g h scripts p) (listed : script ∈ scripts)
    (part : piece ∈ script.pieces) (kept : entry ∈ piece.registers)
    (granted : h.slot? key = some slot) : entry.2 ≠ slot := by
  rintro rfl
  refine scripted.apart.free _ ?_ key granted
  exact List.mem_flatMap.mpr ⟨script, listed, List.mem_flatMap.mpr
    ⟨piece, part, List.mem_map_of_mem kept⟩⟩

theorem registers_nodup (scripted : Scripted c g h scripts p) (listed : script ∈ scripts)
    (part : piece ∈ script.pieces) : (piece.registers.map Prod.snd).Nodup := by
  have distinct := (List.nodup_flatMap.mp scripted.apart.slots).1 script listed
  exact (List.nodup_flatMap.mp distinct).1 piece part

theorem output_ne (scripted : Scripted c g h scripts p) {uid : Uid} {index : Nat} {output : Slot}
    (granted : h.slot? (.output uid index) = some output) (foreign : Lowering.Foreign h uid slot) :
    output ≠ slot := by
  rintro rfl
  obtain ⟨key, also, other⟩ := foreign
  exact other index (scripted.sound.injective _ _ _ also granted)

theorem shape_of (scripted : Scripted c g h scripts p) (listed : script ∈ scripts)
    (part : piece ∈ script.pieces) {n : Node} {d : Definition} (found : g.find? piece.uid = some n)
    (known : c.find? n.fullName = some d) :
    Listing.Shape c g ⟨Assembly.allOps (streamsOf scripts), script.emitted, h⟩ n d piece := by
  obtain ⟨-, m, e, also, same, shape⟩ := (scripted.within script listed).shaped piece part
  obtain rfl := Option.some.inj (found.symm.trans also)
  obtain rfl := Option.some.inj (known.symm.trans same)
  exact shape

theorem load_constant (scripted : Scripted c g h scripts p) {type : String} {value : Value}
    (granted : h.slot? (.constant type value) = some slot) (budget : Nat) :
    (Machine.load p budget).heap[slot]? = some value := by
  have starts := scripted.sound.starts _ slot value granted rfl
  rw [Machine.load, scripted.symbols, List.getElem?_toArray, List.getElem?_map,
    Array.getElem?_toList]
  exact starts

theorem exists_piece (scripted : Scripted c g h scripts p) {name : String} {event : Node} {uid : Uid}
    (claimed : eventOf? c g name = some event) (leads : event.flows[0]?.join = some uid) :
    ∃ script ∈ scripts, ∃ piece ∈ script.pieces, piece.uid = uid := by
  rw [scripted.eventOf?_eq] at claimed
  obtain ⟨script, listed, same⟩ := List.mem_map.mp (mem_of_lookup_eq_some claimed)
  obtain rfl := (Prod.mk.inj same).2
  have within := scripted.within script listed
  obtain ⟨op, rest, -, goes⟩ := within.starts
  simp only [Listing.Goes, leads] at goes
  obtain ⟨label, noted, -⟩ := goes
  rw [within.emitted] at noted
  obtain ⟨piece, part, key, -⟩ := within.known _ _ noted
  exact ⟨script, listed, piece, part, (Prod.mk.inj key).1⟩

end Reference.Scripted

end ScriptGraph
