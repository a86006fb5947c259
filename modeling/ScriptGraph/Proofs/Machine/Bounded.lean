import ScriptGraph.Machine.BasicHost
import ScriptGraph.Proofs.Machine.Confined

/-!
Every run is bounded, whatever the program, the heap, the host and the event: it performs no more
instructions than its budget, those of interrupting events included, nests events no deeper than the
limit, and keeps the size of the heap. A slot or an address that is missing makes it fail; nothing
outside the heap or the code is ever touched.
-/

set_option autoImplicit false
set_option relaxedAutoImplicit false

namespace ScriptGraph

variable {σ : Type}

namespace Activity

/-- How many events wait for the running one to end. -/
def depth (a : Activity σ) : Nat := a.returns.length

def next? (p : Program) (a : Activity σ) : Option Instruction :=
  (resumed a.address a.returns).bind fun place => p.instructions[place.1]?

/-- The next step changes no slot but those that its instruction names. If the heap does not have all
of these, the first missing one is the error and nothing is done. -/
def Guarded (p : Program) (host : Host σ) (a : Activity σ) : Prop :=
  ∀ result b, move p host a = .performed result b → ∃ instruction, a.next? p = some instruction ∧
    (∀ slot, slot ∉ instruction.slots → b.heap[slot]? = a.heap[slot]?) ∧
    ((∀ slot ∈ instruction.slots, slot < a.heap.size) ∨ ∃ slot,
      missing? a.heap instruction.slots = some slot ∧ result = .error (.slotOutOfBounds slot) ∧
        b.heap = a.heap ∧ b.host = a.host)

variable {p : Program} {host : Host σ} {a b : Activity σ} {result : Except RunError Unit}

theorem guarded (p : Program) (host : Host σ) (a : Activity σ) : a.Guarded p host := by
  intro result b moves
  obtain ⟨address, returns, instruction, resumes, found, performs⟩ := move_performed moves
  refine ⟨instruction, ?_, fun slot other => performs.heap_other other, ?_⟩
  · rw [next?, resumes]
    exact found
  · exact performs.missing_cases.imp_left missing?_eq_none.mp

theorem resumed_length {address place : Address} {returns rest : List Address}
    (resumes : resumed address returns = some (place, rest)) : rest.length ≤ returns.length := by
  induction returns generalizing address with
  | nil =>
    rw [resumed] at resumes
    obtain ⟨-, same⟩ := Option.ite_none_left_eq_some.mp resumes
    cases same
    exact Nat.le_refl 0
  | cons next returns ih =>
    rw [resumed] at resumes
    split at resumes
    · exact Nat.le_succ_of_le (ih resumes)
    · cases resumes
      exact Nat.le_refl _

/-- What holds of an activity after any number of steps. -/
structure Bounded (size : Nat) (a : Activity σ) : Prop where
  heap : a.heap.size = size
  depth : a.depth ≤ maxEventDepth
  externs : a.report.externs ≤ a.report.steps

theorem Bounded.move {size : Nat} (bounded : a.Bounded size)
    (moves : move p host a = .performed result b) : b.Bounded size := by
  obtain ⟨address, returns, instruction, resumes, -, performs⟩ := move_performed moves
  refine ⟨performs.heap_size.trans bounded.heap, performs.depth_le ?_, ?_⟩
  · exact Nat.le_trans (resumed_length resumes) bounded.depth
  · rw [performs.steps_eq]
    exact Nat.le_trans performs.externs_le (Nat.succ_le_succ bounded.externs)

end Activity

namespace Machine

open Activity (Leads Runs resumed)

variable {m : Machine} {host : Host σ} {state : σ} {entry : String} {start : Address}

theorem run_of_absent (absent : m.program.entryPoint? entry = none) :
    m.run host state entry = (.error (.unknownEntryPoint entry), m, state) := by
  rw [run, absent]

theorem run_of_entry (found : m.program.entryPoint? entry = some start)
    {result : Except RunError Report} {a : Activity σ}
    (runs : Activity.run m.program m.program.instructions.toArray host m.budget m.budget
      (m.begin state start) = (result, a)) :
    m.run host state entry = (result, { m with heap := a.heap }, a.host) := by
  simp only [run, found]
  rw [begin] at runs
  rw [runs]

theorem run_cases (m : Machine) (host : Host σ) (state : σ) (entry : String) :
    (m.program.entryPoint? entry = none ∧
      m.run host state entry = (.error (.unknownEntryPoint entry), m, state)) ∨
    ∃ start n result b, m.program.entryPoint? entry = some start ∧
      Runs m.program host m.budget m.budget (m.begin state start) n result b ∧
      m.run host state entry = (result, { m with heap := b.heap }, b.host) := by
  cases found : m.program.entryPoint? entry with
  | none => exact Or.inl ⟨rfl, run_of_absent found⟩
  | some start =>
    cases outcome : Activity.run m.program m.program.instructions.toArray host m.budget m.budget
      (m.begin state start) with
    | mk result b =>
      obtain ⟨n, runs⟩ := Activity.runs_of_run outcome
      exact Or.inr ⟨start, n, result, b, rfl, runs, run_of_entry found outcome⟩

theorem begin_bounded (m : Machine) (state : σ) (start : Address) :
    (m.begin state start).Bounded m.heap.size :=
  ⟨rfl, Nat.zero_le _, Nat.le_refl 0⟩

/-- A run of the event at an address stays within its bounds. -/
structure Bounded (m : Machine) (host : Host σ) (state : σ) (entry : String) (start : Address) :
    Prop where
  /-- It ends after a number of instructions that the budget allows. -/
  ends : ∃ n result b, Runs m.program host m.budget m.budget (m.begin state start) n result b ∧
    n ≤ m.budget ∧ m.run host state entry = (result, { m with heap := b.heap }, b.host) ∧
    b.heap.size = m.heap.size ∧ ∀ report, result = .ok report →
      report.externs ≤ report.steps ∧ report.steps = n
  /-- On its way, events are not nested too deep, and no slot is touched that is missing. -/
  within : ∀ n a, Leads m.program host n (m.begin state start) a →
    a.depth ≤ maxEventDepth ∧ a.heap.size = m.heap.size ∧ a.Guarded m.program host
  /-- Where the code ends, so does the run. -/
  astray : ∀ n a address returns, Leads m.program host n (m.begin state start) a → n ≤ m.budget →
    resumed a.address a.returns = some (address, returns) →
    m.program.instructions.length ≤ address →
    m.run host state entry =
      (.error (.addressOutOfBounds address), { m with heap := a.heap }, a.host)

theorem bounded (found : m.program.entryPoint? entry = some start) :
    m.Bounded host state entry start where
  ends := by
    rcases m.run_cases host state entry with ⟨absent, -⟩ | ⟨other, n, result, b, known, runs, ends⟩
    · rw [found] at absent
      cases absent
    · obtain rfl : start = other := Option.some.inj (found.symm.trans known)
      have bounded := runs.keeps (P := Activity.Bounded m.heap.size)
        (fun _ _ _ holds moves => holds.move moves) (m.begin_bounded state start)
      refine ⟨n, result, b, runs, runs.count_le, ends, bounded.heap, ?_⟩
      rintro report rfl
      cases runs with
      | ended leads ends room =>
        cases ends with
        | finished => exact ⟨bounded.externs, leads.steps.trans (Nat.zero_add _)⟩
  within := by
    intro n a leads
    have bounded := leads.keeps (fun _ _ _ holds moves => holds.move moves)
      (m.begin_bounded state start)
    exact ⟨bounded.depth, bounded.heap, Activity.guarded m.program host a⟩
  astray := by
    intro n a address returns leads room resumes outside
    have moves : Activity.move m.program host a = .astray address := by
      simp only [Activity.move, resumes, List.getElem?_eq_none outside]
    exact run_of_entry found (Activity.run_of_ends m.budget leads (.astray moves) room)

/-- Every run is bounded: there is no such event, or it ends within its budget, its depth and its heap. -/
theorem run_bounded (m : Machine) (host : Host σ) (state : σ) (entry : String) :
    (m.program.entryPoint? entry = none ∧
      m.run host state entry = (.error (.unknownEntryPoint entry), m, state)) ∨
    ∃ start, m.program.entryPoint? entry = some start ∧ m.Bounded host state entry start := by
  cases found : m.program.entryPoint? entry with
  | none => exact Or.inl ⟨rfl, run_of_absent found⟩
  | some start => exact Or.inr ⟨start, rfl, bounded found⟩

/-- An event that logs an object, one that does so for ever, and one that sends itself to itself. -/
def chatter : Program where
  name := "chatter"
  updateOrder := 0
  entryPoints := [⟨"_once", 0⟩, ⟨"_endless", 2⟩, ⟨"_nested", 4⟩]
  instructions := [.call "Debug.__Log" [0], .jump haltAddress, .call "Debug.__Log" [0], .jump 2,
    .call sendEventMethod [1, 2], .jump haltAddress]
  symbols := [⟨"target", objectType, .object 7, true, none⟩,
    ⟨"self", behaviourType, .this, false, none⟩, ⟨"event", textType, .text "_nested", false, none⟩]

/-- An event that sends itself to itself is cut short by the limit on nested events. -/
theorem run_bounded_nested :
    (∃ start, chatter.entryPoint? "_nested" = some start ∧
      (load chatter 100).Bounded BasicHost.host (.fresh [] false) "_nested" start) ∧
    ((load chatter 100).run BasicHost.host (.fresh [] false) "_nested").1 =
      .error (.eventDepthExceeded maxEventDepth) := by
  refine ⟨?_, by decide +kernel⟩
  rcases run_bounded (load chatter 100) BasicHost.host (.fresh [] false) "_nested" with
    ⟨absent, -⟩ | found
  · exact absurd absent (by decide)
  · exact found

end Machine

end ScriptGraph
