import ScriptGraph.Proofs.Machine.Effects

/-!
Runs as sequences of steps. A run takes one step after the other until the event has ended, a step
fails or the budget is spent; what happens before does not depend on the budget.
-/

set_option autoImplicit false
set_option relaxedAutoImplicit false

namespace ScriptGraph.Activity

variable {σ : Type}

/-- What the next step of an activity is. -/
inductive Move (σ : Type) where
  /-- No event is left to run. -/
  | finished
  /-- The address is outside the code. -/
  | astray (address : Address)
  | performed (result : Except RunError Unit) (after : Activity σ)

/-- The next step of an activity. -/
def move (p : Program) (host : Host σ) (a : Activity σ) : Move σ :=
  match resumed a.address a.returns with
  | none => .finished
  | some (address, returns) =>
    match p.instructions[address]? with
    | none => .astray address
    | some instruction =>
      let report := { a.report with steps := a.report.steps + 1 }
      let next := perform p host { a with address := address + 1, returns, report } instruction
      .performed next.1 next.2

/-- A number of steps lead from one activity to another. -/
inductive Leads (p : Program) (host : Host σ) : Nat → Activity σ → Activity σ → Prop where
  | refl (a : Activity σ) : Leads p host 0 a a
  | step {n : Nat} {a b c : Activity σ} : move p host a = .performed (.ok ()) b →
      Leads p host n b c → Leads p host (n + 1) a c

namespace Leads

variable {p : Program} {host : Host σ} {a b c : Activity σ} {m n : Nat}

theorem single (moves : move p host a = .performed (.ok ()) b) : Leads p host 1 a b :=
  .step moves (.refl b)

theorem trans (first : Leads p host m a b) (second : Leads p host n b c) :
    Leads p host (m + n) a c := by
  induction first with
  | refl _ => rwa [Nat.zero_add]
  | step moves _ ih =>
    rw [Nat.add_right_comm]
    exact .step moves (ih second)

end Leads

/-- How an activity ends for good. -/
inductive Ends (p : Program) (host : Host σ) : Activity σ → Except RunError Report → Activity σ →
    Nat → Prop where
  | finished {a : Activity σ} : move p host a = .finished → Ends p host a (.ok a.report) a 0
  | astray {a : Activity σ} {address : Address} : move p host a = .astray address →
      Ends p host a (.error (.addressOutOfBounds address)) a 0
  | failed {a b : Activity σ} {error : RunError} :
      move p host a = .performed (.error error) b → Ends p host a (.error error) b 1

variable {p : Program} {host : Host σ} {budget left : Nat} {a b : Activity σ}

/-- A step goes on where the running event or one that it interrupts stands, counts itself, and performs
the instruction there. -/
theorem move_performed {result : Except RunError Unit}
    (moves : move p host a = .performed result b) :
    ∃ address returns instruction, resumed a.address a.returns = some (address, returns) ∧
      p.instructions[address]? = some instruction ∧
      Performs p host { a with
        address := address + 1
        returns := returns
        report := { a.report with steps := a.report.steps + 1 } } instruction result b := by
  unfold move at moves
  split at moves
  · cases moves
  · rename_i address returns resumes
    split at moves
    · cases moves
    · rename_i instruction found
      cases moves
      exact ⟨address, returns, instruction, resumes, found, perform_performs p host _ instruction⟩

theorem run_eq (p : Program) (host : Host σ) (budget left : Nat) (a : Activity σ) :
    run p p.instructions.toArray host budget left a =
      match move p host a with
      | .finished => (.ok a.report, a)
      | .astray address => (.error (.addressOutOfBounds address), a)
      | .performed result b =>
        match left with
        | 0 => (.error (.stepBudgetExceeded budget), a)
        | left + 1 =>
          match result with
          | .error error => (.error error, b)
          | .ok () => run p p.instructions.toArray host budget left b := by
  rw [run.eq_def, move]
  simp only [List.getElem?_toArray]
  cases resumed a.address a.returns with
  | none => rfl
  | some place =>
    obtain ⟨address, returns⟩ := place
    simp only
    cases p.instructions[address]? with
    | none => rfl
    | some instruction =>
      cases left with
      | zero => rfl
      | succ left =>
        simp only
        generalize perform p host _ instruction = next
        obtain ⟨result | result, after⟩ := next <;> rfl

theorem run_of_leads {n : Nat} (leads : Leads p host n a b) (room : n ≤ left) :
    run p p.instructions.toArray host budget left a =
      run p p.instructions.toArray host budget (left - n) b := by
  induction leads generalizing left with
  | refl _ => rfl
  | @step n a b c moves rest ih =>
    obtain ⟨less, rfl⟩ : ∃ less, left = less + 1 := ⟨left - 1, by omega⟩
    rw [run_eq, moves]
    simp only
    rw [ih (by omega), Nat.add_sub_add_right]

theorem run_of_ends (budget : Nat) {result : Except RunError Report} {n more : Nat} {c : Activity σ}
    (leads : Leads p host n a b) (ends : Ends p host b result c more) (room : n + more ≤ left) :
    run p p.instructions.toArray host budget left a = (result, c) := by
  rw [run_of_leads leads (by omega), run_eq]
  cases ends with
  | finished moves => rw [moves]
  | astray moves => rw [moves]
  | failed moves =>
    obtain ⟨less, hless⟩ : ∃ less, left - n = less + 1 := ⟨left - n - 1, by omega⟩
    rw [moves, hless]

theorem run_of_long (budget : Nat) {n : Nat} (leads : Leads p host n a b) (long : left < n) :
    ∃ after, run p p.instructions.toArray host budget left a =
      (.error (.stepBudgetExceeded budget), after) := by
  induction leads generalizing left with
  | refl _ => exact absurd long (Nat.not_lt_zero left)
  | @step n a b c moves rest ih =>
    rw [run_eq, moves]
    cases left with
    | zero => exact ⟨a, rfl⟩
    | succ left => exact ih (Nat.lt_of_succ_lt_succ long)

theorem run_of_short (budget : Nat) {n : Nat} {result : Except RunError Unit} {c : Activity σ}
    (leads : Leads p host n a b) (moves : move p host b = .performed result c) (short : left ≤ n) :
    ∃ after, run p p.instructions.toArray host budget left a =
      (.error (.stepBudgetExceeded budget), after) := by
  rcases Nat.lt_or_eq_of_le short with long | rfl
  · exact run_of_long budget leads long
  · refine ⟨b, ?_⟩
    rw [run_of_leads leads (Nat.le_refl left), Nat.sub_self, run_eq, moves]

theorem Leads.steps {n : Nat} (leads : Leads p host n a b) :
    b.report.steps = a.report.steps + n := by
  induction leads with
  | refl _ => rfl
  | @step n a b c moves _ ih =>
    obtain ⟨address, returns, instruction, -, -, performs⟩ := move_performed moves
    rw [ih, performs.steps_eq, Nat.add_assoc, Nat.add_comm 1 n]

/-- How a run ends, and after how many instructions: as its steps do, or because what is left of the
budget is spent before the next one. -/
inductive Runs (p : Program) (host : Host σ) (budget left : Nat) (a : Activity σ) :
    Nat → Except RunError Report → Activity σ → Prop where
  | ended {n more : Nat} {result : Except RunError Report} {b c : Activity σ} :
      Leads p host n a b → Ends p host b result c more → n + more ≤ left →
      Runs p host budget left a (n + more) result c
  | spent {result : Except RunError Unit} {b c : Activity σ} :
      Leads p host left a b → move p host b = .performed result c →
      Runs p host budget left a left (.error (.stepBudgetExceeded budget)) b

theorem runs_of_run {left : Nat} {a : Activity σ} {result : Except RunError Report} {c : Activity σ}
    (runs : run p p.instructions.toArray host budget left a = (result, c)) :
    ∃ n, Runs p host budget left a n result c := by
  rw [run_eq] at runs
  cases moves : move p host a with
  | finished =>
    simp only [moves] at runs
    cases runs
    exact ⟨_, .ended (.refl _) (.finished moves) (Nat.zero_le left)⟩
  | astray address =>
    simp only [moves] at runs
    cases runs
    exact ⟨_, .ended (.refl _) (.astray moves) (Nat.zero_le left)⟩
  | performed outcome b =>
    simp only [moves] at runs
    cases left with
    | zero =>
      cases runs
      exact ⟨_, .spent (.refl _) moves⟩
    | succ left =>
      cases outcome with
      | error error =>
        cases runs
        exact ⟨_, .ended (.refl _) (.failed moves) (Nat.le_add_left 1 left)⟩
      | ok _ =>
        obtain ⟨n, rest⟩ := runs_of_run runs
        cases rest with
        | ended leads ends room => exact ⟨_, .ended (.step moves leads) ends (by omega)⟩
        | spent leads more => exact ⟨_, .spent (.step moves leads) more⟩

theorem Runs.count_le {n : Nat} {result : Except RunError Report}
    (runs : Runs p host budget left a n result b) : n ≤ left := by
  cases runs with
  | ended _ _ room => exact room
  | spent => exact Nat.le_refl left

theorem Leads.keeps {P : Activity σ → Prop} (kept : ∀ a result b, P a →
    move p host a = .performed result b → P b) {n : Nat} (leads : Leads p host n a b)
    (holds : P a) : P b := by
  induction leads with
  | refl _ => exact holds
  | step moves _ ih => exact ih (kept _ _ _ holds moves)

theorem Runs.keeps {P : Activity σ → Prop} (kept : ∀ a result b, P a →
    move p host a = .performed result b → P b) {n : Nat} {result : Except RunError Report}
    (runs : Runs p host budget left a n result b) (holds : P a) : P b := by
  cases runs with
  | ended leads ends _ =>
    have there := leads.keeps kept holds
    cases ends with
    | finished => exact there
    | astray => exact there
    | failed moves => exact kept _ _ _ there moves
  | spent leads _ => exact leads.keeps kept holds

end ScriptGraph.Activity
