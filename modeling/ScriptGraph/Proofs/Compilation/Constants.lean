import ScriptGraph.Proofs.Compilation.Refinement
import ScriptGraph.Proofs.Lowering.Writes
import ScriptGraph.Proofs.Machine.Bounded

/-!
Constants stay what they are. A machine stores all arguments of a call when it is over, the inputs too;
but a host hands the inputs back as it got them, so a slot that is among them, and be it more than once,
still holds what it held. Nothing else that a compiled program does touches a constant.
-/

set_option autoImplicit false
set_option relaxedAutoImplicit false

namespace ScriptGraph

variable {σ : Type} {c : Catalog} {host : Host σ} {writable : Slot → Prop} {slot : Slot}

theorem Catalog.Takes.keeps {method : String} {inputs : Nat} (takes : c.Takes method inputs)
    (obeys : host.Obeys c) (signed : c.Signed) : host.Keeps method inputs := by
  rcases takes with listed | ⟨name, d, found, rfl, rfl⟩
  · exact obeys.control (method, inputs) listed
  · exact obeys.keeps signed found

/-- An instruction changes nothing but slots that may be written to, if methods leave their inputs as
they are. -/
def Instruction.Spares (c : Catalog) (writable : Slot → Prop) : Instruction → Prop
  | .copy _ destination => writable destination
  | .call method slots => c.Spares writable method slots
  | _ => True

theorem SparingOps.encoded {ops : List Op} (sparing : SparingOps c writable ops)
    (address : Target → Address) :
    ∀ instruction ∈ Assembly.encoded address ops, instruction.Spares c writable := by
  intro instruction listed
  obtain ⟨op, among, becomes⟩ := List.mem_filterMap.mp listed
  have spares := sparing op among
  cases op with
  | label _ => cases becomes
  | _ =>
    cases becomes
    exact spares

namespace Activity

/-! ## One step -/

variable {p : Program} {a b : Activity σ} {result : Except RunError Unit}

theorem Calls.spares {method : String} {slots : List Slot}
    (calls : Calls p host a method slots result b) (obeys : host.Obeys c) (signed : c.Signed)
    (spares : c.Spares writable method slots) (constant : ¬writable slot) :
    b.heap[slot]? = a.heap[slot]? := by
  cases calls with
  | @answered arguments results state reads _ called =>
    obtain ⟨inputs, others, rfl, takes, written⟩ := spares
    have held := List.forall₂_take inputs.length (readAll_eq_ok.mp reads)
    rw [List.take_left] at held
    have back : storeAll a.heap (inputs ++ others) results =
        storeAll a.heap others (results.drop inputs.length) := by
      refine storeAll_held held others fun index value inside given => ?_
      rw [List.getElem?_take_of_lt inside]
      exact takes.keeps obeys signed _ _ _ _ called index value inside given
    rw [back]
    exact storeAll_other _ _ fun listed => constant (written slot listed)
  | _ => rfl

theorem Performs.spares {instruction : Instruction} (performs : Performs p host a instruction result b)
    (obeys : host.Obeys c) (signed : c.Signed) (spares : instruction.Spares c writable)
    (constant : ¬writable slot) : b.heap[slot]? = a.heap[slot]? := by
  cases performs with
  | copied =>
    refine Array.getElem?_setIfInBounds_ne ?_
    rintro rfl
    exact constant spares
  | called calls => exact calls.spares obeys signed spares constant
  | _ => rfl

end Activity

namespace Machine

/-! ## Runs -/

/-- A machine after runs of events one after the other, each on a host in any state. -/
def ran (m : Machine) (host : Host σ) (runs : List (String × σ)) : Machine :=
  runs.foldl (fun m run => (m.run host run.2 run.1).2.1) m

variable {m : Machine}

theorem run_spares (obeys : host.Obeys c) (signed : c.Signed)
    (spares : ∀ instruction ∈ m.program.instructions, instruction.Spares c writable)
    (constant : ¬writable slot) (state : σ) (entry : String) :
    (m.run host state entry).2.1.program = m.program ∧
      (m.run host state entry).2.1.heap[slot]? = m.heap[slot]? := by
  rcases m.run_cases host state entry with ⟨-, ends⟩ | ⟨start, n, result, b, -, runs, ends⟩
  · rw [ends]
    exact ⟨rfl, rfl⟩
  · rw [ends]
    refine ⟨rfl, runs.keeps (P := fun a => a.heap[slot]? = m.heap[slot]?) ?_ rfl⟩
    intro a outcome b held moves
    obtain ⟨address, returns, instruction, -, found, performs⟩ := Activity.move_performed moves
    exact (performs.spares obeys signed (spares _ (List.mem_of_getElem? found)) constant).trans held

theorem ran_spares (obeys : host.Obeys c) (signed : c.Signed)
    (spares : ∀ instruction ∈ m.program.instructions, instruction.Spares c writable)
    (constant : ¬writable slot) (runs : List (String × σ)) :
    (m.ran host runs).heap[slot]? = m.heap[slot]? := by
  induction runs generalizing m with
  | nil => rfl
  | cons run runs ih =>
    obtain ⟨program, kept⟩ := run_spares obeys signed spares constant run.2 run.1
    refine (ih (m := (m.run host run.2 run.1).2.1) ?_).trans kept
    rw [program]
    exact spares

end Machine

/-! ## Compiled programs -/

theorem Graph.compile_spares {strict : Bool} {g : Graph} {k : Compilation}
    (compiled : g.compile c strict = .ok k) : ∃ streams lowering,
      Compilation.lower c (g.snapshot c).1 (g.snapshot c).2 = .ok (streams, lowering) ∧
      lowering.heap.Sound ∧ k.program.symbols = lowering.heap.symbols.toList ∧
      ∀ instruction ∈ k.program.instructions, instruction.Spares c lowering.heap.Writable := by
  obtain ⟨streams, lowering, lowered, assembled, -⟩ := Compilation.ofSnapshot_eq_ok compiled
  obtain ⟨sound, -, sparing⟩ := Lowering.streams_sparing (h := lowering.heap) c _ _ streams lowering
    (HeapLayout.ofGraph_sound c _) lowered
  rw [Compilation.assemble_of_lower lowered] at assembled
  have program := Except.ok.inj assembled
  refine ⟨streams, lowering, lowered, sound, by rw [← program], ?_⟩
  rw [← program]
  exact (sparing (.refl _)).encoded _

/-- Constants are never overwritten. Let a layout hand out the slot of a constant and then grow into the
one that a program is compiled with. Whatever events of the program are run one after the other on one
machine, each on any host, and whether the runs succeed or fail: the slot is that of a symbol which
starts with the value of the constant, and it still holds this value. -/
theorem Graph.compile_constants {strict : Bool} {g : Graph} {k : Compilation} (signed : c.Signed)
    (compiled : g.compile c strict = .ok k) : ∃ streams lowering,
      Compilation.lower c (g.snapshot c).1 (g.snapshot c).2 = .ok (streams, lowering) ∧
      ∀ (h : HeapLayout) (type : String) (value : Value) (slot : Slot) (later : HeapLayout),
        h.constantSlot type value = (slot, later) → later.Grows lowering.heap →
        (k.program.symbols[slot]?).map Symbol.default = some value ∧
        ∀ (budget : Nat) (runs : List (String × BasicHost)),
          ((Machine.load k.program budget).ran BasicHost.host runs).heap[slot]? = some value := by
  obtain ⟨streams, lowering, lowered, sound, symbols, spares⟩ := compile_spares compiled
  refine ⟨streams, lowering, lowered, fun h type value slot later given grows => ?_⟩
  have grants := HeapLayout.constantSlot_grants h type value
  rw [given] at grants
  have granted := grows.kept _ slot grants.granted
  have starts : (k.program.symbols[slot]?).map Symbol.default = some value := by
    rw [symbols, Array.getElem?_toList]
    exact sound.starts _ slot value granted rfl
  refine ⟨starts, fun budget runs => ?_⟩
  have constant : ¬lowering.heap.Writable slot := fun written => written type value granted
  rw [Machine.ran_spares (m := Machine.load k.program budget) (BasicHost.host_obeys c) signed spares
    constant]
  rw [Machine.load, List.getElem?_toArray, List.getElem?_map]
  exact starts

namespace Compilation

/-- The end of a loop, whatever is run and however often: the first run already exceeds its budget. -/
theorem compile_constants_totals : arithmetic.Signed ∧ ∃ k, totals.compile arithmetic true = .ok k ∧
    ((Machine.load k.program 20).run BasicHost.host (.fresh [] true) "_start").1 =
      .error (.stepBudgetExceeded 20) ∧
    ∃ slot : Slot, (k.program.symbols[slot]?).map Symbol.name = some "__const_SystemInt32_1" ∧
      ∀ (budget : Nat) (runs : List (String × BasicHost)),
        ((Machine.load k.program budget).ran BasicHost.host runs).heap[slot]? = some (.int32 3) := by
  have facts : ((totals.compile arithmetic true).toOption.any fun k =>
        (k.program.symbols[2]?).map Symbol.name == some "__const_SystemInt32_1" &&
        ((Machine.load k.program 20).run BasicHost.host (.fresh [] true) "_start").1 =
          .error (.stepBudgetExceeded 20)) = true ∧
      ((lower arithmetic (totals.snapshot arithmetic).1 (totals.snapshot arithmetic).2).toOption.bind
        fun result => result.2.heap.constants.lookup (int32Type, .int32 3)) = some 2 := by
    decide +kernel
  obtain ⟨runs, found⟩ := facts
  cases compiled : totals.compile arithmetic true with
  | error error =>
    rw [compiled] at runs
    cases runs
  | ok k =>
    rw [compiled] at runs
    obtain ⟨named, exceeds⟩ := (Bool.and_eq_true _ _).mp runs
    obtain ⟨streams, lowering, lowered, kept⟩ := Graph.compile_constants arithmetic_signed compiled
    rw [lowered] at found
    have given : lowering.heap.constantSlot int32Type (.int32 3) = (2, lowering.heap) := by
      rw [HeapLayout.constantSlot]
      simp only [show lowering.heap.constants.lookup (int32Type, .int32 3) = some 2 from found]
    exact ⟨arithmetic_signed, k, rfl, of_decide_eq_true exceeds, 2, eq_of_beq named,
      (kept _ _ _ _ _ given (.refl _)).2⟩

end Compilation

end ScriptGraph
