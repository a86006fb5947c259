import ScriptGraph.Proofs.Compilation.Closed
import ScriptGraph.Proofs.Reference.Events

/-!
Compiling preserves meaning: what a machine does with the program of a graph is what the reference
semantics says of the snapshot of the graph, as long as no Foreach loop is begun while it is being run.
A loop that is begun again by an event that its body sends loses its place.
-/

set_option autoImplicit false
set_option relaxedAutoImplicit false

namespace ScriptGraph

namespace Reference

open Activity (Leads)
open Assembly (allOps)
open Lowering (Script)

variable {σ : Type} {c : Catalog} {g : Graph}

/-- What a machine makes of an event, given what a run of the event makes of a world. A run that ends
takes a number of steps: a machine with enough of them ends the same way, with a host in a state that
nothing tells apart and the same contents of all places; one with fewer exceeds its budget. If no rounds
are left to the run, no machine with a budget below them ends. -/
def Memory.Mirrors (M : Memory) (p : Program) (host : Host σ) (alike : σ → σ → Prop) (state : σ)
    (heap : Array Value) (name : String) (rounds : Nat) :
    Option (Except RunError Unit × World σ) → Prop
  | none => ∀ budget < rounds, ∃ m after, (⟨p, heap, budget⟩ : Machine).run host state name =
      (.error (.stepBudgetExceeded budget), m, after)
  | some (result, w) => ∃ steps contents after, M.Holds w contents ∧ alike w.host after ∧
      (∀ budget, steps ≤ budget → (⟨p, heap, budget⟩ : Machine).run host state name =
        (result.map fun _ => ⟨steps, w.externs⟩, ⟨p, contents, budget⟩, after)) ∧
      ∀ budget < steps, ∃ m after, (⟨p, heap, budget⟩ : Machine).run host state name =
        (.error (.stepBudgetExceeded budget), m, after)

/-- A program realizes a graph: the variables are its first symbols, it starts with the values that
the graph starts with, and it runs every event as the graph does, on every host, from every contents of
its heap that the cells can have, unless a Foreach loop is begun while it is being run. -/
structure Realizes (c : Catalog) (g : Graph) (p : Program) (M : Memory) : Prop where
  declared : ∀ index n, g.variableNodes[index]? = some n →
    M.stands (.cell (.variable n.uid)) index ∧
      p.symbols[index]? = some (HeapLayout.variableSymbol n)
  initial : ∀ (σ : Type) (state : σ) budget,
    M.Holds (World.initial c g state) (Machine.load p budget).heap
  runs : ∀ (σ : Type) (host : Host σ) (alike : σ → σ → Prop), host.Obeys c → host.Forgets alike →
    ∀ (w : World σ) (state : σ) heap, M.Holds w heap → alike w.host state →
      ∀ name rounds, (run c g host rounds name w).reentered = false →
        M.Mirrors p host alike state heap name rounds (run c g host rounds name w).ended

theorem Setting.mirrors (S : Setting σ) {state : σ} {heap : Array Value} {name : String}
    {rounds : Nat} {start : Address} (entry : S.program.entryPoint? name = some start)
    {outcome : Option (Except RunError Unit × World σ)}
    (reaches : S.Reaches S.outermost (fun _ => []) rounds 0 [] (fun _ address => address = haltAddress)
      ⟨heap, state, start, [], ⟨0, 0⟩⟩ outcome) :
    S.memory.Mirrors S.program S.host S.alike state heap name rounds outcome := by
  have machine : ∀ budget, (⟨S.program, heap, budget⟩ : Machine).run S.host state name =
      let run := Activity.run S.program S.program.instructions.toArray S.host budget budget
        ⟨heap, state, start, [], ⟨0, 0⟩⟩
      (run.1, ⟨S.program, run.2.heap, budget⟩, run.2.host) := by
    intro budget
    simp only [Machine.run, entry]
  cases outcome with
  | none =>
    obtain ⟨n, b, long, leads⟩ := reaches
    intro budget below
    obtain ⟨after, exceeded⟩ := Activity.run_of_long budget leads
      (Nat.lt_of_lt_of_le below long)
    exact ⟨_, _, by rw [machine, exceeded]⟩
  | some ended =>
    obtain ⟨result, v⟩ := ended
    cases result with
    | ok _ =>
      obtain ⟨n, b, address, _, leads, agrees, stands, halted⟩ := reaches
      obtain rfl : address = haltAddress := halted
      have finished : Activity.move S.program S.host b = .finished := by
        rw [Activity.move, stands, Activity.resumed, if_pos rfl]
      have counted : b.report = ⟨n, v.externs⟩ := by
        have steps := leads.steps
        rw [Nat.zero_add] at steps
        rw [← steps, ← agrees.externs]
      refine ⟨n, b.heap, b.host, agrees.heap, agrees.host, fun budget enough => ?_,
        fun budget below => ?_⟩
      · have ends := Activity.run_of_ends budget leads (.finished finished) enough
        rw [machine, ends]
        simp only [counted]
        rfl
      · obtain ⟨after, exceeded⟩ := Activity.run_of_long budget leads below
        exact ⟨_, _, by rw [machine, exceeded]⟩
    | error error =>
      obtain ⟨n, b, d, leads, fails, agrees⟩ := reaches
      refine ⟨n + 1, d.heap, d.host, agrees.heap, agrees.host, fun budget enough => ?_,
        fun budget below => ?_⟩
      · have ends := Activity.run_of_ends budget leads (.failed fails) enough
        rw [machine, ends]
        rfl
      · obtain ⟨after, exceeded⟩ := Activity.run_of_short budget leads fails
          (Nat.le_of_lt_succ below)
        exact ⟨_, _, by rw [machine, exceeded]⟩

namespace Scripted

variable {h : HeapLayout} {scripts : List Script} {p : Program}

theorem realizes (scripted : Scripted c g h scripts p) (extension : c.Extends) (live : g.Live c)
    (founded : g.Founded c) (signed : c.Signed) (room : p.instructions.length ≤ haltAddress) :
    Realizes c g p (memoryOf c g scripted.sound scripted.apart) where
  declared := by
    intro index n found
    obtain ⟨granted, declared⟩ := variable_slot live.distinct scripted.grows found
    exact ⟨.variable granted, scripted.symbols ▸ declared⟩
  initial := by
    intro σ state budget
    have prepared : ∀ script ∈ scripts, ∀ piece ∈ script.pieces, ∀ entry ∈ piece.registers,
        (h.symbols[entry.2]?).map Symbol.default = some entry.1.default := by
      intro script listed piece hpiece
      exact ((scripted.within script listed).shaped piece hpiece).1
    have starts := memoryOf_initial live.distinct scripted.grows scripted.sound scripted.apart
      prepared state
    rwa [← scripted.symbols] at starts
  runs := by
    intro σ host alike obeys forgets w state heap holds same name rounds calm
    have fit : scripted.Fit host alike := ⟨extension, live, founded, signed, obeys, forgets, room⟩
    unfold run at calm ⊢
    cases entry : p.entryPoint? name with
    | none =>
      rw [scripted.eventOf?_none entry]
      refine ⟨0, heap, state, holds, same, fun budget _ => ?_,
        fun budget below => absurd below (Nat.not_lt_zero _)⟩
      simp only [Machine.run, entry]
      rfl
    | some start =>
      obtain ⟨script, listed, rfl, claimed, standing⟩ := scripted.eventOf?_some entry
      rw [claimed] at calm ⊢
      have sends := fit.sends rounds maxEventDepth [] rfl
      let S := scripted.setting forgets room
      refine S.mirrors entry ?_
      refine fit.event_simulates listed sends standing S.outermost { w with externs := 0 } _
        ⟨same, rfl, holds.called w.host 0, fun _ listed => by cases listed⟩ rfl calm

end Scripted

end Reference

namespace Compilation

open Assembly (allOps)
open Lowering (Script)
open Reference (Apart Scripted streamsOf)

theorem scripted_of_ofSnapshot {c : Catalog} {strict : Bool} {snapshot : Graph}
    {diagnostics : List Diagnostic} {result : Compilation}
    (compiled : ofSnapshot c strict snapshot diagnostics = .ok result) :
    ∃ h scripts, Scripted c snapshot h scripts result.program := by
  obtain ⟨streams, lowering, lowered, assembled, -⟩ := ofSnapshot_eq_ok compiled
  obtain ⟨-, distinct, contained, -⟩ := lower_eq_ok lowered
  rw [assemble_of_lower lowered] at assembled
  have program := Except.ok.inj assembled
  obtain ⟨found, r, enters, prepares, -, -, emitted⟩ :=
    Lowering.streams_eq_ok (HeapLayout.ofGraph_sound c snapshot) lowered
  have sound := prepares.sound (HeapLayout.ofGraph_sound c snapshot)
  obtain ⟨scripts, rfl, rfl, grows, hsound, fresh, free, within⟩ :=
    Lowering.mapM_stream_within sound emitted
  have inside : ∀ script ∈ scripts, script.ops <:+: allOps (streamsOf scripts) := by
    intro script listed
    obtain ⟨before, after, hsplit⟩ := List.append_of_mem listed
    refine ⟨allOps (streamsOf before), allOps (streamsOf after), ?_⟩
    rw [hsplit, streamsOf, streamsOf, streamsOf, List.map_append, List.map_cons,
      Assembly.allOps_append, Assembly.allOps_cons, List.append_assoc]
  have stands := fun script listed => within (allOps (streamsOf scripts)) script listed
    (inside script listed)
  refine ⟨lowering.heap, scripts, enters, stands, distinct, fun stream listed => ?_,
    prepares.grows.trans grows, hsound, ⟨fresh.1, free, fun script listed => ?_⟩, ?_, ?_, ?_⟩
  · obtain ⟨target, ends⟩ := (contained stream listed).ends
    exact codeLength_pos ends
  · exact (stands script listed).inner
  · rw [← program]
    rfl
  · rw [← program]
    rfl
  · rw [← program]

end Compilation

/-- Compiling preserves meaning. The program of a graph, whatever its flows, keeps variables and outputs
in places of its heap; it starts with their initial values, and running an event has the outcome of the
reference run on the snapshot: the same result, the same calls, the same values afterwards. The host may
be any that writes to outputs only and does not look at what is in the place of an answer. A Foreach loop
must not be begun while it is being run: the program keeps the position and the length of a loop in slots
that all events share. -/
theorem Graph.compile_realizes {c : Catalog} {strict : Bool} {g : Graph} {result : Compilation}
    (extension : c.Extends) (signed : c.Signed) (distinct : g.uids.Nodup)
    (founded : (g.snapshot c).1.Founded c) (compiled : g.compile c strict = .ok result)
    (room : result.program.instructions.length ≤ haltAddress) :
    ∃ M, Reference.Realizes c (g.snapshot c).1 result.program M := by
  obtain ⟨h, scripts, scripted⟩ := Compilation.scripted_of_ofSnapshot compiled
  exact ⟨_, scripted.realizes extension (snapshot_live c distinct) founded signed room⟩

namespace Compilation

def plus : Definition := { Definition.bare additionMethod with
  inputs := [⟨"first", some int32Type, .int32 0⟩, ⟨"second", some int32Type, .int32 0⟩]
  outputs := [⟨"sum", some int32Type, .null⟩] }

def arithmetic : Catalog := ⟨Catalog.intrinsics ++ [plus]⟩

/-- An event that counts up to three, each time adds the count to a variable and doubles it, and tells
another event. -/
def totals : Graph := { Graph.empty "totals" with
  nodes := [
    ⟨"total", Kind.variablePrefix ++ int32Type, .origin,
      [.int32 0, .text "total", .bool false, .bool false, .text "none"],
      [none, none, none, none, none], []⟩,
    ⟨"start", "Event_Start", .origin, [], [], [some "loop"]⟩,
    ⟨"loop", Kind.forName, .origin, [.int32 0, .int32 3, .int32 1], [none, none, none],
      [some "store", none]⟩,
    ⟨"current", Kind.getVariableName, .origin, [.text "total"], [none], []⟩,
    ⟨"sum", additionMethod, .origin, [.int32 0, .int32 0],
      [some ⟨"loop", 0⟩, some ⟨"current", 0⟩], []⟩,
    ⟨"twice", additionMethod, .origin, [.int32 0, .int32 0],
      [some ⟨"sum", 0⟩, some ⟨"sum", 0⟩], []⟩,
    ⟨"store", Kind.setVariableName, .origin, [.text "total", .int32 0, .bool true],
      [none, some ⟨"twice", 0⟩, none], [none]⟩,
    ⟨"changed", Kind.changeEventName, .origin, [.text "total"], [none], [none]⟩] }

private theorem arithmetic_extends : arithmetic.Extends := Catalog.extends_intrinsics_append [plus]

theorem arithmetic_signed : arithmetic.Signed := by
  intro name d found
  have all : ∀ e ∈ arithmetic.definitions, ∀ entry ∈ controlMethods, e.fullName = entry.1 →
      e.inputs.length = entry.2 := by decide +kernel
  exact all d (Catalog.mem_of_find? found)

private theorem totals_founded : totals.Founded arithmetic := by
  let rank : Uid → Nat := fun uid =>
    if uid = "sum" then 1 else if uid = "twice" then 2 else if uid = "store" then 3 else 0
  have falls : ∀ n ∈ totals.nodes, ∀ link ∈ n.links.filterMap id, rank link.node < rank n.uid := by
    decide
  refine Graph.founded_of_rank arithmetic rank fun n listed link linked => ?_
  exact falls n listed link (List.mem_filterMap.mpr ⟨some link, linked, rfl⟩)

theorem compile_realizes_totals : ∃ result, totals.compile arithmetic true = .ok result ∧
    BasicHost.host.Obeys arithmetic ∧ BasicHost.host.Forgets BasicHost.Alike ∧
    (Reference.run arithmetic (totals.snapshot arithmetic).1 BasicHost.host 10 "_start"
      (.initial arithmetic (totals.snapshot arithmetic).1 (.fresh [] true))).reentered = false ∧
    ∃ M, Reference.Realizes arithmetic (totals.snapshot arithmetic).1 result.program M := by
  have snapshot : (totals.snapshot arithmetic).1 = totals := by decide +kernel
  have founded : (totals.snapshot arithmetic).1.Founded arithmetic := by
    rw [snapshot]
    exact totals_founded
  have calm : (Reference.run arithmetic (totals.snapshot arithmetic).1 BasicHost.host 10 "_start"
      (.initial arithmetic (totals.snapshot arithmetic).1 (.fresh [] true))).reentered = false := by
    rw [snapshot]
    decide +kernel
  have short : (totals.compile arithmetic true).toOption.all
      (fun result => result.program.instructions.length ≤ haltAddress) = true ∧
      (totals.compile arithmetic true).isOk = true := by decide +kernel
  cases compiled : totals.compile arithmetic true with
  | error error =>
    rw [compiled] at short
    cases short.2
  | ok result =>
    rw [compiled] at short
    have room : result.program.instructions.length ≤ haltAddress := of_decide_eq_true short.1
    exact ⟨result, rfl, BasicHost.host_obeys arithmetic, BasicHost.host_forgets, calm,
      Graph.compile_realizes arithmetic_extends arithmetic_signed (by decide) founded compiled room⟩

/-! ## Loops that are begun again -/

def logMethod : String := "UnityEngineDebug.__Log__SystemObject__SystemVoid"

def logging : Catalog := ⟨Catalog.intrinsics ++ [{ Definition.bare logMethod with
  flow := true
  inputs := [⟨"message", some objectType, .null⟩] }]⟩

/-- A visit of two items, begun by a change of a variable, that changes the variable once itself. -/
def ticking : Graph := { Graph.empty "ticking" with
  nodes := [
    ⟨"done", Kind.variablePrefix ++ boolType, .origin,
      [.bool false, .text "done", .bool false, .bool false, .text "none"],
      [none, none, none, none, none], []⟩,
    ⟨"tick", Kind.variablePrefix ++ int32Type, .origin,
      [.int32 0, .text "tick", .bool false, .bool false, .text "none"],
      [none, none, none, none, none], []⟩,
    ⟨"changed", Kind.changeEventName, .origin, [.text "tick"], [none], [some "loop"]⟩,
    ⟨"loop", Kind.foreachName, .origin, [.array [.int32 4, .int32 9]], [none], [some "log", none]⟩,
    ⟨"log", logMethod, .origin, [.null], [some ⟨"loop", 0⟩], [some "branch"]⟩,
    ⟨"known", Kind.getVariableName, .origin, [.text "done"], [none], []⟩,
    ⟨"branch", Kind.branchName, .origin, [.bool false], [some ⟨"known", 0⟩], [none, some "finish"]⟩,
    ⟨"finish", Kind.setVariableName, .origin, [.text "done", .bool true, .bool false],
      [none, none, none], [some "set"]⟩,
    ⟨"set", Kind.setVariableName, .origin, [.text "tick", .int32 1, .bool true],
      [none, none, none], [none]⟩] }

/-- Both visits should log both items, but the outer one takes over the position of the inner one. -/
theorem realizes_astray :
    (ticking.snapshot logging).1 = ticking ∧
    (Reference.run logging ticking BasicHost.host 10 "_onVarChange_tick"
        (.initial logging ticking (.fresh [] false))).ended.map
        (fun ended => (ended.1.toOption, ended.2.host.callsTo logMethod)) =
      some (some (), [[.int32 4], [.int32 4], [.int32 9], [.int32 9]]) ∧
    (ticking.compile logging true).toOption.map (fun result =>
        let run := (Machine.load result.program 100).run BasicHost.host (.fresh [] false)
          "_onVarChange_tick"
        (run.1, run.2.2.callsTo logMethod)) =
      some (.ok ⟨37, 17⟩, [[.int32 4], [.int32 4], [.int32 9]]) := by
  refine ⟨?_, ?_, ?_⟩ <;> decide +kernel

end Compilation

end ScriptGraph
