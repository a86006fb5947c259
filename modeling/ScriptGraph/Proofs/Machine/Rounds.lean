import ScriptGraph.Proofs.Reference.Simulation

/-!
Rounds of loops. A loop decides at its top whether there is another round; a round runs the body, from
where it begins to where it comes back, and goes on at the top. What every round preserves holds of all
of them, and how many there are is known if it is known at the top.
-/

set_option autoImplicit false
set_option relaxedAutoImplicit false

namespace ScriptGraph

/-- Where a loop decides on another round, where its body begins and where it comes back to, where the
loop goes on afterwards, and the slot that shows the body what a round is for. -/
structure Loop where
  top : Address
  body : Address
  back : Address
  done : Address
  shown : Slot

namespace Activity

variable {σ : Type}

/-- A run comes to an address for the first time, at the level of the running event. -/
inductive Comes (p : Program) (host : Host σ) (place : Address) (returns : List Address) :
    Activity σ → Activity σ → Prop where
  | here {a : Activity σ} : a.At place returns → Comes p host place returns a a
  | step {a b c : Activity σ} : ¬a.At place returns → move p host a = .performed (.ok ()) b →
      Comes p host place returns b c → Comes p host place returns a c

variable {p : Program} {host : Host σ} {place : Address} {returns : List Address}
  {a b c : Activity σ}

theorem Comes.at (comes : Comes p host place returns a b) : b.At place returns := by
  induction comes with
  | here stands => exact stands
  | step _ _ _ ih => exact ih

theorem Comes.leads (comes : Comes p host place returns a b) : ∃ n, Leads p host n a b := by
  induction comes with
  | here => exact ⟨0, .refl _⟩
  | step _ moves _ ih =>
    obtain ⟨n, leads⟩ := ih
    exact ⟨n + 1, .step moves leads⟩

theorem Leads.heap_size {n : Nat} (leads : Leads p host n a b) : b.heap.size = a.heap.size := by
  induction leads with
  | refl _ => rfl
  | step moves _ ih =>
    obtain ⟨_, _, _, -, -, performs⟩ := move_performed moves
    exact ih.trans performs.heap_size

end Activity

namespace Loop

open Activity (Leads Comes)

variable {σ : Type}

section Rounds

variable (loop : Loop) (p : Program) (host : Host σ) (returns : List Address)

/-- From the top of the loop its code leads straight to the body. -/
def Enters (a entry : Activity σ) : Prop :=
  Leads p host (loop.body - loop.top) a entry ∧ entry.At loop.body returns

/-- Rounds one after the other, from the top and back to the top, and what the body was shown in each of
them. -/
inductive Rounds : List Value → Activity σ → Activity σ → Prop where
  | none {a : Activity σ} : a.At loop.top returns → Rounds [] a a
  | next {values : List Value} {value : Value} {a b entry last c : Activity σ} :
      Rounds values a b → loop.Enters p host returns b entry →
      entry.heap[loop.shown]? = some value → Comes p host loop.back returns entry last →
      Leads p host 2 last c → c.At loop.top returns → Rounds (values ++ [value]) a c

/-- A run passes through the loop: some steps lead to its top, there is one round for each of the
values, and then the loop leads straight to where it goes on. -/
def Passes (opening : Nat) (values : List Value) (a after : Activity σ) : Prop :=
  ∃ first last, Leads p host opening a first ∧ loop.Rounds p host returns values first last ∧
    Leads p host 2 last after ∧ after.At loop.done returns

/-- Whenever the body is entered in rounds from an activity on, it comes back, and something holds of
the activities where it began and ended, given the number of rounds before. -/
def Completes (keeps : Nat → Activity σ → Activity σ → Prop) (first : Activity σ) : Prop :=
  ∀ values b entry, loop.Rounds p host returns values first b → loop.Enters p host returns b entry →
    ∃ last, Comes p host loop.back returns entry last ∧ keeps values.length entry last

end Rounds

variable {loop : Loop} {p : Program} {host : Host σ} {returns : List Address} {values : List Value}
  {a b first after : Activity σ}

theorem Rounds.at (rounds : loop.Rounds p host returns values a b) : b.At loop.top returns := by
  cases rounds with
  | none stands => exact stands
  | next _ _ _ _ _ stands => exact stands

theorem Rounds.leads (rounds : loop.Rounds p host returns values a b) : ∃ n, Leads p host n a b := by
  induction rounds with
  | none => exact ⟨0, .refl _⟩
  | next _ enters _ comes back _ ih =>
    obtain ⟨m, before⟩ := ih
    obtain ⟨n, body⟩ := comes.leads
    exact ⟨_, before.trans (enters.1.trans (body.trans back))⟩

theorem Passes.run {opening : Nat} (passes : loop.Passes p host returns opening values a after) :
    ∃ steps, ∀ budget left, steps ≤ left →
      Activity.run p p.instructions.toArray host budget left a =
        Activity.run p p.instructions.toArray host budget (left - steps) after := by
  obtain ⟨first, last, opens, rounds, leaves, -⟩ := passes
  obtain ⟨n, leads⟩ := rounds.leads
  exact ⟨_, fun budget left room =>
    Activity.run_of_leads (opens.trans (leads.trans leaves)) room⟩

/-- What holds at the top after some rounds, for each number of them: there is another round as long as
there are fewer than a count, and the body is shown what the round is for. -/
structure Turns (loop : Loop) (p : Program) (host : Host σ) (returns : List Address)
    (keeps : Nat → Activity σ → Activity σ → Prop) (count : Nat) (value : Nat → Value)
    (inv : Nat → Activity σ → Prop) : Prop where
  round : ∀ k b, k < count → b.At loop.top returns → inv k b →
    ∃ entry, loop.Enters p host returns b entry ∧ entry.heap[loop.shown]? = some (value k) ∧
      ∀ last, Comes p host loop.back returns entry last → keeps k entry last →
        ∃ c, Leads p host 2 last c ∧ c.At loop.top returns ∧ inv (k + 1) c
  leaves : ∀ b, b.At loop.top returns → inv count b →
    ∃ after, Leads p host 2 b after ∧ after.At loop.done returns

variable {keeps : Nat → Activity σ → Activity σ → Prop} {count opening : Nat} {value : Nat → Value}
  {inv : Nat → Activity σ → Prop}

theorem Turns.rounds (turns : loop.Turns p host returns keeps count value inv)
    (stands : first.At loop.top returns) (holds : inv 0 first)
    (completes : loop.Completes p host returns keeps first) {k : Nat} (within : k ≤ count) :
    ∃ b, loop.Rounds p host returns ((List.range k).map value) first b ∧ inv k b := by
  induction k with
  | zero => exact ⟨first, .none stands, holds⟩
  | succ k ih =>
    obtain ⟨b, rounds, holds⟩ := ih (Nat.le_of_succ_le within)
    obtain ⟨entry, enters, shows, goes⟩ := turns.round k b within rounds.at holds
    obtain ⟨last, comes, kept⟩ := completes _ b entry rounds enters
    rw [List.length_map, List.length_range] at kept
    obtain ⟨c, back, top, next⟩ := goes last comes kept
    refine ⟨c, ?_, next⟩
    rw [List.range_succ, List.map_append, List.map_singleton]
    exact .next rounds enters shows comes back top

theorem Turns.passes (turns : loop.Turns p host returns keeps count value inv)
    (opens : Leads p host opening a first) (stands : first.At loop.top returns)
    (holds : inv 0 first) (completes : loop.Completes p host returns keeps first) :
    ∃ after, loop.Passes p host returns opening ((List.range count).map value) a after := by
  obtain ⟨last, rounds, holds⟩ := turns.rounds stands holds completes (Nat.le_refl count)
  obtain ⟨after, leaves, done⟩ := turns.leaves last rounds.at holds
  exact ⟨after, first, last, opens, rounds, leaves, done⟩

end Loop

end ScriptGraph
