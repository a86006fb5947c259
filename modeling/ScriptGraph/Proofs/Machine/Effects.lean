import ScriptGraph.Machine
import ScriptGraph.Proofs.Program.Slices
import Mathlib.Data.List.Forall2

/-!
What one instruction does. It touches only the slots that it names, and none of them unless the heap
has all of them; it interrupts the running event at most once, and never beyond the limit.
-/

set_option autoImplicit false
set_option relaxedAutoImplicit false

namespace ScriptGraph.Activity

variable {σ : Type}

/-- The first slot that a heap does not have. -/
def missing? (heap : Array Value) (slots : List Slot) : Option Slot :=
  slots.find? fun slot => heap.size ≤ slot

theorem missing?_eq_none {heap : Array Value} {slots : List Slot} :
    missing? heap slots = none ↔ ∀ slot ∈ slots, slot < heap.size := by
  simp only [missing?, List.find?_eq_none, decide_eq_true_eq, Nat.not_le]

theorem readAll_cases (heap : Array Value) (slots : List Slot) :
    (missing? heap slots = none ∧ ∃ arguments, readAll heap slots = .ok arguments) ∨
      ∃ slot, missing? heap slots = some slot ∧
        readAll heap slots = .error (.slotOutOfBounds slot) := by
  induction slots with
  | nil => exact Or.inl ⟨rfl, [], rfl⟩
  | cons slot slots ih =>
    by_cases within : slot < heap.size
    · have found : missing? heap (slot :: slots) = missing? heap slots :=
        List.find?_cons_of_neg (by simpa using within)
      have reads : readAll heap (slot :: slots) =
          (readAll heap slots).map (heap[slot] :: ·) := by
        rw [readAll, Array.getElem?_eq_getElem within]
      rw [found, reads]
      rcases ih with ⟨none, arguments, ok⟩ | ⟨other, some, error⟩
      · exact Or.inl ⟨none, heap[slot] :: arguments, by rw [ok]; rfl⟩
      · exact Or.inr ⟨other, some, by rw [error]; rfl⟩
    · refine Or.inr ⟨slot, List.find?_cons_of_pos (by simpa using within), ?_⟩
      rw [readAll, Array.getElem?_eq_none (Nat.not_lt.mp within)]

theorem missing?_of_readAll {heap : Array Value} {slots : List Slot} {arguments : List Value}
    (reads : readAll heap slots = .ok arguments) : missing? heap slots = none := by
  rcases readAll_cases heap slots with ⟨none, -⟩ | ⟨slot, -, error⟩
  · exact none
  · rw [error] at reads
    cases reads

theorem readAll_eq_ok {heap : Array Value} {slots : List Slot} {arguments : List Value} :
    readAll heap slots = .ok arguments ↔
      List.Forall₂ (fun (slot : Slot) value => heap[slot]? = some value) slots arguments := by
  induction slots generalizing arguments with
  | nil => rw [readAll, Except.ok.injEq, List.forall₂_nil_left_iff, eq_comm]
  | cons slot slots ih =>
    rw [readAll, List.forall₂_cons_left_iff]
    cases found : heap[slot]? with
    | none =>
      constructor
      · intro reads
        cases reads
      · rintro ⟨value, others, absent, -⟩
        cases absent
    | some value =>
      constructor
      · intro reads
        cases rest : readAll heap slots with
        | error error =>
          rw [rest] at reads
          cases reads
        | ok others =>
          rw [rest] at reads
          cases reads
          exact ⟨value, others, rfl, ih.mp rest, rfl⟩
      · rintro ⟨other, others, same, rest, rfl⟩
        cases same
        simp only [ih.mpr rest]
        rfl

@[simp] theorem storeAll_size (heap : Array Value) (slots : List Slot) (values : List Value) :
    (storeAll heap slots values).size = heap.size := by
  induction slots generalizing heap values with
  | nil => cases values <;> rfl
  | cons slot slots ih =>
    cases values with
    | nil => rfl
    | cons value values => rw [storeAll, ih, Array.size_setIfInBounds]

theorem storeAll_other (heap : Array Value) {slots : List Slot} (values : List Value) {slot : Slot}
    (other : slot ∉ slots) : (storeAll heap slots values)[slot]? = heap[slot]? := by
  induction slots generalizing heap values with
  | nil => cases values <;> rfl
  | cons first slots ih =>
    cases values with
    | nil => rfl
    | cons value values =>
      rw [List.mem_cons, not_or] at other
      rw [storeAll, ih _ _ other.2, Array.getElem?_setIfInBounds_ne (Ne.symm other.1)]

theorem storeAll_held {heap : Array Value} {slots : List Slot} {arguments : List Value}
    (held : List.Forall₂ (fun (slot : Slot) value => heap[slot]? = some value) slots arguments)
    (more : List Slot) {values : List Value} (kept : ∀ (index : Nat) value, index < slots.length →
      values[index]? = some value → arguments[index]? = some value) :
    storeAll heap (slots ++ more) values = storeAll heap more (values.drop slots.length) := by
  induction held generalizing values with
  | nil => rfl
  | @cons slot argument slots arguments found _ ih =>
    cases values with
    | nil => cases more <;> rfl
    | cons value values =>
      obtain rfl : argument = value := Option.some.inj (kept 0 value (Nat.zero_lt_succ _) rfl)
      obtain ⟨inside, same⟩ := Array.getElem?_eq_some_iff.mp found
      have unchanged : heap.setIfInBounds slot argument = heap := by
        rw [Array.setIfInBounds_def, dif_pos inside, ← same, Array.set_getElem_self]
      rw [List.cons_append, storeAll, unchanged, List.length_cons, List.drop_succ_cons]
      exact ih fun index other within given => kept (index + 1) other (Nat.succ_lt_succ within) given

theorem blocked?_eq_some {host : Host σ} {state : σ} {arguments : List Value} {target : Value} :
    blocked? host state arguments = some target ↔ ∃ id, target = .object id ∧
      arguments.head? = some (.object id) ∧ host.blocks state (.object id) = true := by
  unfold blocked?
  split
  · rename_i id rest
    constructor
    · intro blocked
      obtain ⟨blocks, same⟩ := Option.ite_none_right_eq_some.mp blocked
      exact ⟨id, (Option.some.inj same).symm, rfl, blocks⟩
    · rintro ⟨other, rfl, same, blocks⟩
      obtain rfl : id = other := by simpa using same
      exact if_pos blocks
  · rename_i unlike
    constructor
    · intro blocked
      cases blocked
    · rintro ⟨id, rfl, head, -⟩
      obtain ⟨rest, rfl⟩ := List.head?_eq_some_iff.mp head
      exact absurd rfl (unlike id rest)

/-- What a call does, once it has been counted. -/
inductive Calls (p : Program) (host : Host σ) (a : Activity σ) (method : String)
    (slots : List Slot) : Except RunError Unit → Activity σ → Prop where
  | missing {slot : Slot} : missing? a.heap slots = some slot →
      Calls p host a method slots (.error (.slotOutOfBounds slot)) a
  | refused {arguments : List Value} {target : Value} : readAll a.heap slots = .ok arguments →
      blocked? host a.host arguments = some target →
      Calls p host a method slots (.error (.blacklisted method target)) a
  /-- The program has no such event. -/
  | unheard {arguments : List Value} {event : String} : readAll a.heap slots = .ok arguments →
      ownEvent? method arguments = some event → p.entryPoint? event = none →
      Calls p host a method slots (.ok ()) a
  | tooDeep {arguments : List Value} {event : String} {start : Address} :
      readAll a.heap slots = .ok arguments → ownEvent? method arguments = some event →
      p.entryPoint? event = some start → maxEventDepth ≤ a.returns.length →
      Calls p host a method slots (.error (.eventDepthExceeded maxEventDepth)) a
  | started {arguments : List Value} {event : String} {start : Address} :
      readAll a.heap slots = .ok arguments → ownEvent? method arguments = some event →
      p.entryPoint? event = some start → a.returns.length < maxEventDepth →
      Calls p host a method slots (.ok ())
        { a with address := start, returns := a.address :: a.returns }
  | failed {arguments : List Value} {error : RunError} {state : σ} :
      readAll a.heap slots = .ok arguments → blocked? host a.host arguments = none →
      host.call a.host method arguments = (.error error, state) →
      Calls p host a method slots (.error error) { a with host := state }
  | answered {arguments results : List Value} {state : σ} :
      readAll a.heap slots = .ok arguments → blocked? host a.host arguments = none →
      host.call a.host method arguments = (.ok results, state) →
      Calls p host a method slots (.ok ())
        { a with host := state, heap := storeAll a.heap slots results }

theorem call_calls (p : Program) (host : Host σ) (a : Activity σ) (method : String)
    (slots : List Slot) :
    Calls p host a method slots (call p host a method slots).1 (call p host a method slots).2 := by
  unfold call
  rcases readAll_cases a.heap slots with ⟨-, arguments, reads⟩ | ⟨slot, found, reads⟩
  · rw [reads]
    simp only
    split
    · rename_i target _ blocked
      exact .refused reads blocked
    · rename_i event _ sends
      split
      · rename_i absent
        exact .unheard reads sends absent
      · rename_i start enters
        split
        · rename_i deep
          exact .tooDeep reads sends enters (Nat.lt_succ_iff.mp deep)
        · rename_i room
          exact .started reads sends enters (Nat.lt_of_succ_le (Nat.not_lt.mp room))
    · rename_i free _
      split
      · rename_i error state called
        exact .failed reads free called
      · rename_i results state called
        exact .answered reads free called
  · rw [reads]
    exact .missing found

/-- What an instruction does; the address is already that of the next one. -/
inductive Performs (p : Program) (host : Host σ) (a : Activity σ) :
    Instruction → Except RunError Unit → Activity σ → Prop where
  | missing {instruction : Instruction} {slot : Slot} :
      missing? a.heap instruction.slots = some slot →
      Performs p host a instruction (.error (.slotOutOfBounds slot)) a
  | copied {source destination : Slot} {value : Value} :
      missing? a.heap [source, destination] = none → a.heap[source]? = some value →
      Performs p host a (.copy source destination) (.ok ())
        { a with heap := a.heap.setIfInBounds destination value }
  | jumped {target : Address} :
      Performs p host a (.jump target) (.ok ()) { a with address := target }
  | passed {condition : Slot} {target : Address} : a.heap[condition]? = some (.bool true) →
      Performs p host a (.jumpUnless condition target) (.ok ()) a
  | skipped {condition : Slot} {target : Address} : a.heap[condition]? = some (.bool false) →
      Performs p host a (.jumpUnless condition target) (.ok ()) { a with address := target }
  | unclear {condition : Slot} {target : Address} {found : Value} :
      a.heap[condition]? = some found →
      Performs p host a (.jumpUnless condition target) (.error (.nonBooleanCondition found)) a
  | called {method : String} {slots : List Slot} {result : Except RunError Unit}
      {b : Activity σ} :
      Calls p host { a with report := { a.report with externs := a.report.externs + 1 } } method
        slots result b →
      Performs p host a (.call method slots) result b

theorem perform_performs (p : Program) (host : Host σ) (a : Activity σ)
    (instruction : Instruction) :
    Performs p host a instruction (perform p host a instruction).1
      (perform p host a instruction).2 := by
  cases instruction with
  | copy source destination =>
    rw [perform]
    by_cases readable : source < a.heap.size
    · simp only [Array.getElem?_eq_getElem readable]
      by_cases writable : destination < a.heap.size
      · rw [if_pos writable]
        exact .copied (missing?_eq_none.mpr (by simp [readable, writable]))
          (Array.getElem?_eq_getElem readable)
      · rw [if_neg writable]
        refine .missing ?_
        have before : decide (a.heap.size ≤ source) = false := by simpa using readable
        have here : decide (a.heap.size ≤ destination) = true := by simpa using writable
        simp only [missing?, Instruction.slots, List.find?_cons, before, here]
    · simp only [Array.getElem?_eq_none (Nat.not_lt.mp readable)]
      exact .missing (List.find?_cons_of_pos (by simpa using readable))
  | jump target => exact .jumped
  | jumpUnless condition target =>
    rw [perform]
    split
    · rename_i absent
      refine .missing (List.find?_cons_of_pos ?_)
      simpa using absent
    · rename_i holds
      exact .passed holds
    · rename_i holds
      exact .skipped holds
    · rename_i holds
      exact .unclear holds
  | call method slots => exact .called (call_calls p host _ method slots)

section Facts

variable {p : Program} {host : Host σ} {a b : Activity σ} {method : String} {slots : List Slot}
  {instruction : Instruction} {result : Except RunError Unit}

theorem Calls.heap_size (calls : Calls p host a method slots result b) :
    b.heap.size = a.heap.size := by
  cases calls with
  | answered => exact storeAll_size _ _ _
  | _ => rfl

theorem Calls.report_eq (calls : Calls p host a method slots result b) : b.report = a.report := by
  cases calls <;> rfl

theorem Calls.depth_le (calls : Calls p host a method slots result b)
    (bounded : a.returns.length ≤ maxEventDepth) : b.returns.length ≤ maxEventDepth := by
  cases calls with
  | started _ _ _ room => exact room
  | _ => exact bounded

theorem Calls.heap_other (calls : Calls p host a method slots result b) {slot : Slot}
    (other : slot ∉ slots) : b.heap[slot]? = a.heap[slot]? := by
  cases calls with
  | answered => exact storeAll_other _ _ other
  | _ => rfl

namespace Performs

theorem heap_size (performs : Performs p host a instruction result b) :
    b.heap.size = a.heap.size := by
  cases performs with
  | copied => exact Array.size_setIfInBounds
  | called calls => exact calls.heap_size
  | _ => rfl

theorem steps_eq (performs : Performs p host a instruction result b) :
    b.report.steps = a.report.steps := by
  cases performs with
  | called calls => rw [calls.report_eq]
  | _ => rfl

theorem externs_le (performs : Performs p host a instruction result b) :
    b.report.externs ≤ a.report.externs + 1 := by
  cases performs with
  | called calls => exact Nat.le_of_eq (congrArg Report.externs calls.report_eq)
  | _ => exact Nat.le_succ _

theorem depth_le (performs : Performs p host a instruction result b)
    (bounded : a.returns.length ≤ maxEventDepth) : b.returns.length ≤ maxEventDepth := by
  cases performs with
  | called calls => exact calls.depth_le bounded
  | _ => exact bounded

theorem heap_other (performs : Performs p host a instruction result b) {slot : Slot}
    (other : slot ∉ instruction.slots) : b.heap[slot]? = a.heap[slot]? := by
  cases performs with
  | copied =>
    rw [Instruction.slots, List.mem_cons, List.mem_singleton, not_or] at other
    exact Array.getElem?_setIfInBounds_ne (Ne.symm other.2)
  | called calls => exact calls.heap_other other
  | _ => rfl

/-- Either the heap has all slots that an instruction names, or the first missing one is reported and
nothing is done. -/
theorem missing_cases (performs : Performs p host a instruction result b) :
    missing? a.heap instruction.slots = none ∨ ∃ slot,
      missing? a.heap instruction.slots = some slot ∧ result = .error (.slotOutOfBounds slot) ∧
        b.heap = a.heap ∧ b.host = a.host := by
  have single : ∀ {condition : Slot} {value : Value}, a.heap[condition]? = some value →
      missing? a.heap [condition] = none := by
    intro condition value holds
    have within := (Array.getElem?_eq_some_iff.mp holds).1
    exact missing?_eq_none.mpr (by simpa using within)
  cases performs with
  | missing found => exact Or.inr ⟨_, found, rfl, rfl, rfl⟩
  | copied present => exact Or.inl present
  | jumped => exact Or.inl rfl
  | passed holds => exact Or.inl (single holds)
  | skipped holds => exact Or.inl (single holds)
  | unclear holds => exact Or.inl (single holds)
  | called calls =>
    cases calls with
    | missing found => exact Or.inr ⟨_, found, rfl, rfl, rfl⟩
    | refused reads => exact Or.inl (missing?_of_readAll reads)
    | unheard reads => exact Or.inl (missing?_of_readAll reads)
    | tooDeep reads => exact Or.inl (missing?_of_readAll reads)
    | started reads => exact Or.inl (missing?_of_readAll reads)
    | failed reads => exact Or.inl (missing?_of_readAll reads)
    | answered reads => exact Or.inl (missing?_of_readAll reads)

end Performs

end Facts

end ScriptGraph.Activity
