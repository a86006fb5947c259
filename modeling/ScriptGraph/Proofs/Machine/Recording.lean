import ScriptGraph.Machine.BasicHost
import ScriptGraph.Proofs.Machine.Bounded

/-!
The calls of a run. A host that notes the calls it gets behaves like the one it stands for, so the
calls of a run are what such a host has noted at its end. A larger budget changes nothing about a run
that ends within the smaller one, and otherwise goes on from where the smaller one was spent.
-/

set_option autoImplicit false
set_option relaxedAutoImplicit false

namespace ScriptGraph

variable {σ : Type}

/-- A host that notes its calls in order. -/
def Host.recording (host : Host σ) : Host (σ × List Call) where
  call state method arguments :=
    let (result, after) := host.call state.1 method arguments
    (result, (after, state.2 ++ [⟨method, arguments⟩]))
  blocks state target := host.blocks state.1 target

theorem Host.recording_call (host : Host σ) (state : σ) (calls : List Call) (method : String)
    (arguments : List Value) : host.recording.call (state, calls) method arguments =
      ((host.call state method arguments).1,
        ((host.call state method arguments).2, calls ++ [⟨method, arguments⟩])) := rfl

namespace Activity

def noting (calls : List Call) (a : Activity σ) : Activity (σ × List Call) :=
  { a with host := (a.host, calls) }

def Move.map {τ : Type} (f : Activity σ → Activity τ) : Move σ → Move τ
  | .finished => .finished
  | .astray address => .astray address
  | .performed result after => .performed result (f after)

variable {p : Program} {host : Host σ} {budget : Nat}

theorem call_recording (p : Program) (host : Host σ) (a : Activity σ) (calls : List Call)
    (method : String) (slots : List Slot) : ∃ more,
      call p host.recording (a.noting calls) method slots =
        ((call p host a method slots).1, (call p host a method slots).2.noting (calls ++ more)) := by
  have blocks : ∀ arguments, blocked? host.recording (a.host, calls) arguments =
      blocked? host a.host arguments := fun _ => rfl
  simp only [call, noting]
  cases readAll a.heap slots with
  | error error => exact ⟨[], by rw [List.append_nil]⟩
  | ok arguments =>
    simp only [blocks]
    cases blocked? host a.host arguments with
    | some target => exact ⟨[], by rw [List.append_nil]⟩
    | none =>
      cases ownEvent? method arguments with
      | some event =>
        refine ⟨[], ?_⟩
        rw [List.append_nil]
        simp only
        cases p.entryPoint? event with
        | none => rfl
        | some start =>
          by_cases deep : maxEventDepth < a.returns.length + 1
          · simp only [if_pos deep]
            exact if_pos deep
          · simp only [if_neg deep]
            exact if_neg deep
      | none =>
        refine ⟨[⟨method, arguments⟩], ?_⟩
        simp only [Host.recording_call]
        generalize host.call a.host method arguments = answer
        obtain ⟨outcome, state⟩ := answer
        cases outcome <;> rfl

theorem perform_recording (p : Program) (host : Host σ) (a : Activity σ) (calls : List Call)
    (instruction : Instruction) : ∃ more,
      perform p host.recording (a.noting calls) instruction =
        ((perform p host a instruction).1,
          (perform p host a instruction).2.noting (calls ++ more)) := by
  cases instruction with
  | call method slots =>
    exact call_recording p host { a with
      report := { a.report with externs := a.report.externs + 1 } } calls method slots
  | copy source destination =>
    refine ⟨[], ?_⟩
    rw [List.append_nil]
    simp only [perform, noting]
    cases a.heap[source]? with
    | none => rfl
    | some value =>
      by_cases within : destination < a.heap.size
      · simp only [if_pos within]
        exact if_pos within
      · simp only [if_neg within]
        exact if_neg within
  | jump target => exact ⟨[], by rw [List.append_nil]; rfl⟩
  | jumpUnless condition target =>
    refine ⟨[], ?_⟩
    rw [List.append_nil]
    simp only [perform, noting]
    split <;> rfl

theorem move_recording (p : Program) (host : Host σ) (a : Activity σ) (calls : List Call) :
    ∃ more, move p host.recording (a.noting calls) =
      (move p host a).map (noting (calls ++ more)) := by
  have same : resumed (a.noting calls).address (a.noting calls).returns =
      resumed a.address a.returns := rfl
  unfold move
  rw [same]
  cases resumed a.address a.returns with
  | none => exact ⟨[], rfl⟩
  | some place =>
    obtain ⟨address, returns⟩ := place
    simp only
    cases p.instructions[address]? with
    | none => exact ⟨[], rfl⟩
    | some instruction =>
      obtain ⟨more, performs⟩ := perform_recording p host { a with
        address := address + 1
        returns := returns
        report := { a.report with steps := a.report.steps + 1 } } calls instruction
      refine ⟨more, ?_⟩
      simp only [noting] at performs ⊢
      rw [performs]
      rfl

theorem run_recording (p : Program) (host : Host σ) (budget left : Nat) (a : Activity σ)
    (calls : List Call) : ∃ more,
      run p p.instructions.toArray host.recording budget left (a.noting calls) =
        ((run p p.instructions.toArray host budget left a).1,
          (run p p.instructions.toArray host budget left a).2.noting (calls ++ more)) := by
  induction left generalizing a calls with
  | zero =>
    obtain ⟨more, moves⟩ := move_recording p host a calls
    refine ⟨[], ?_⟩
    rw [run_eq, run_eq, moves, List.append_nil]
    cases move p host a <;> rfl
  | succ left ih =>
    obtain ⟨more, moves⟩ := move_recording p host a calls
    rw [run_eq, run_eq, moves]
    cases move p host a with
    | finished => exact ⟨[], by rw [List.append_nil]; rfl⟩
    | astray address => exact ⟨[], by rw [List.append_nil]; rfl⟩
    | performed result b =>
      cases result with
      | error error => exact ⟨more, rfl⟩
      | ok _ =>
        obtain ⟨later, rest⟩ := ih b (calls ++ more)
        refine ⟨more ++ later, ?_⟩
        rw [← List.append_assoc]
        exact rest

end Activity

namespace Machine

variable {m : Machine} {host : Host σ} {state : σ} {entry : String} {budget : Nat}

/-- The calls that a run makes to the host, in order. -/
def calls (m : Machine) (host : Host σ) (state : σ) (entry : String) : List Call :=
  (m.run host.recording (state, []) entry).2.2.2

theorem run_recording (m : Machine) (host : Host σ) (state : σ) (entry : String) :
    m.run host.recording (state, []) entry =
      ((m.run host state entry).1, (m.run host state entry).2.1,
        (m.run host state entry).2.2, m.calls host state entry) := by
  rw [calls]
  cases found : m.program.entryPoint? entry with
  | none => rw [run_of_absent found, run_of_absent found]
  | some start =>
    obtain ⟨more, runs⟩ := Activity.run_recording m.program host m.budget m.budget
      (m.begin state start) []
    have plain : m.run host state entry = _ := run_of_entry found rfl
    have recorded : m.run host.recording (state, []) entry = _ := run_of_entry found runs
    rw [plain, recorded]
    rfl

theorem run_of_whole (larger : m.budget ≤ budget)
    (whole : ∀ limit, (m.run host state entry).1 ≠ .error (.stepBudgetExceeded limit)) :
    { m with budget }.run host state entry = ((m.run host state entry).1,
      { (m.run host state entry).2.1 with budget }, (m.run host state entry).2.2) := by
  rcases m.run_cases host state entry with ⟨absent, ends⟩ | ⟨start, n, result, b, found, runs, ends⟩
  · rw [ends]
    exact run_of_absent absent
  · rw [ends] at whole ⊢
    cases runs with
    | spent => exact absurd rfl (whole m.budget)
    | ended leads ends room =>
      exact run_of_entry (m := { m with budget }) found
        (Activity.run_of_ends budget leads ends (Nat.le_trans room larger))

/-- With a larger budget, a run makes the calls that it makes with the smaller one, and then perhaps
others. -/
theorem calls_of_larger (larger : m.budget ≤ budget) :
    m.calls host state entry <+: { m with budget }.calls host state entry := by
  unfold calls
  rcases m.run_cases host.recording (state, []) entry with
    ⟨absent, ends⟩ | ⟨start, n, result, b, found, runs, ends⟩
  · refine ⟨[], ?_⟩
    rw [List.append_nil, ends, run_of_absent (m := { m with budget }) absent]
  · rw [ends]
    cases runs with
    | ended leads ends room =>
      refine ⟨[], ?_⟩
      rw [List.append_nil, run_of_entry (m := { m with budget }) found
        (Activity.run_of_ends budget leads ends (Nat.le_trans room larger))]
    | spent leads moves =>
      -- The longer run comes by where the shorter one stops, and takes no note back after that.
      obtain ⟨more, rest⟩ := Activity.run_recording m.program host budget (budget - m.budget)
        { b with host := b.host.1 } b.host.2
      rw [run_of_entry (m := { m with budget }) found
        ((Activity.run_of_leads leads larger).trans rest)]
      exact List.prefix_append _ _

/-- Budgets are monotone. A run that ends for any other reason than its budget has the same result and
report, heap, host and calls with any larger budget; in any case, its calls are the first ones of the
run with the larger budget. -/
theorem run_larger (m : Machine) (host : Host σ) (state : σ) (entry : String)
    (larger : m.budget ≤ budget) :
    ((∀ limit, (m.run host state entry).1 ≠ .error (.stepBudgetExceeded limit)) →
      { m with budget }.run host state entry = ((m.run host state entry).1,
          { (m.run host state entry).2.1 with budget }, (m.run host state entry).2.2) ∧
        { m with budget }.calls host state entry = m.calls host state entry) ∧
    m.calls host state entry <+: { m with budget }.calls host state entry := by
  refine ⟨fun whole => ⟨run_of_whole larger whole, ?_⟩, calls_of_larger larger⟩
  have recorded := run_recording m host state entry
  have recorded_whole : ∀ limit,
      (m.run host.recording (state, []) entry).1 ≠ .error (.stepBudgetExceeded limit) := by
    rw [recorded]
    exact whole
  rw [calls, run_of_whole larger recorded_whole, recorded]

/-- An event that ends within the smaller budget, and one that ends within none. -/
theorem run_larger_chatter :
    let m := load chatter 3
    let state := BasicHost.fresh [] false
    ({ m with budget := 7 }.run BasicHost.host state "_once" =
        ((m.run BasicHost.host state "_once").1,
          { (m.run BasicHost.host state "_once").2.1 with budget := 7 },
          (m.run BasicHost.host state "_once").2.2) ∧
      { m with budget := 7 }.calls BasicHost.host state "_once" =
        m.calls BasicHost.host state "_once") ∧
    m.calls BasicHost.host state "_endless" <+:
      { m with budget := 7 }.calls BasicHost.host state "_endless" ∧
    (m.calls BasicHost.host state "_endless").length = 2 ∧
    ({ m with budget := 7 }.calls BasicHost.host state "_endless").length = 4 := by
  intro m state
  have ends : (m.run BasicHost.host state "_once").1 = .ok ⟨2, 1⟩ := by decide +kernel
  have larger : m.budget ≤ 7 := by decide
  refine ⟨(run_larger m BasicHost.host state "_once" larger).1 fun limit => ?_,
    (run_larger m BasicHost.host state "_endless" larger).2, by decide +kernel, by decide +kernel⟩
  rw [ends]
  exact fun same => by cases same

end Machine

end ScriptGraph
