import ScriptGraph.Machine
import ScriptGraph.Proofs.Code.Standing
import ScriptGraph.Proofs.Program.Slices

/-!
A machine for code with symbolic targets. It stands before operations that are still to come, passes
labels at no cost, goes on behind its label at a jump, and ends its event at the end of one. Assembled
code does the same at addresses, step for step.
-/

set_option autoImplicit false
set_option relaxedAutoImplicit false

namespace ScriptGraph

open Assembly (allOps entries addressOf encoded instruction? Standing)

/-- Where symbolic code goes on: before operations, or nowhere since its event has ended. -/
abbrev Direct.Place := Option (List Op)

/-- A running event of symbolic code, and where the events it interrupts continue. -/
structure Direct (σ : Type) where
  heap : Array Value
  host : σ
  place : Direct.Place
  returns : List Direct.Place
  report : Report

namespace Direct

variable {σ : Type}

/-- Where a run goes on: behind an ended event the one it interrupts continues. -/
def resumed : Place → List Place → Option (List Op × List Place)
  | some ops, returns => some (ops, returns)
  | none, [] => none
  | none, next :: rest => resumed next rest

/-- Behind the label of a target, or nowhere if it ends the event. -/
def behind (code : List Op) : Target → Place
  | .halt => none
  | .label label => some (code.dropWhile fun op => op ≠ .label label).tail

/-- The first stream with a name, together with the streams after it. -/
def opening? : List Stream → String → Option (List Op)
  | [], _ => none
  | stream :: rest, name =>
    if stream.name = name then some (allOps (stream :: rest)) else opening? rest name

def call (streams : List Stream) (host : Host σ) (a : Direct σ) (method : String)
    (slots : List Slot) : Except RunError Unit × Direct σ :=
  match Activity.readAll a.heap slots with
  | .error error => (.error error, a)
  | .ok arguments =>
    match Activity.blocked? host a.host arguments, Activity.ownEvent? method arguments with
    | some target, _ => (.error (.blacklisted method target), a)
    | none, some event =>
      match opening? streams event with
      | none => (.ok (), a)
      | some start =>
        if maxEventDepth < a.returns.length + 1 then
          (.error (.eventDepthExceeded maxEventDepth), a)
        else (.ok (), { a with place := some start, returns := a.place :: a.returns })
    | none, none =>
      match host.call a.host method arguments with
      | (.error error, state) => (.error error, { a with host := state })
      | (.ok results, state) =>
        (.ok (), { a with host := state, heap := Activity.storeAll a.heap slots results })

def perform (streams : List Stream) (host : Host σ) (a : Direct σ) :
    Op → Except RunError Unit × Direct σ
  | .copy source destination =>
    match a.heap[source]? with
    | none => (.error (.slotOutOfBounds source), a)
    | some value =>
      if destination < a.heap.size then
        (.ok (), { a with heap := a.heap.setIfInBounds destination value })
      else (.error (.slotOutOfBounds destination), a)
  | .jump target => (.ok (), { a with place := behind (allOps streams) target })
  | .jumpUnless condition target =>
    match a.heap[condition]? with
    | none => (.error (.slotOutOfBounds condition), a)
    | some (.bool true) => (.ok (), a)
    | some (.bool false) => (.ok (), { a with place := behind (allOps streams) target })
    | some found => (.error (.nonBooleanCondition found), a)
  | .call method slots =>
    call streams host { a with report := { a.report with externs := a.report.externs + 1 } }
      method slots
  | .label _ => (.ok (), a)

/-- What the next step of an event is. -/
inductive Move (σ : Type) where
  /-- No event is left to run. -/
  | finished
  /-- There is no operation any more. -/
  | exhausted
  | performed (result : Except RunError Unit) (after : Direct σ)

/-- The next step: the first operation that is no label. -/
def move (streams : List Stream) (host : Host σ) (a : Direct σ) : Move σ :=
  match resumed a.place a.returns with
  | none => .finished
  | some (ops, returns) =>
    match ops.dropWhile Op.isLabel with
    | [] => .exhausted
    | op :: rest =>
      let report := { a.report with steps := a.report.steps + 1 }
      let next := perform streams host { a with place := some rest, returns, report } op
      .performed next.1 next.2

/-- Runs to the end with a number of steps left of the budget. -/
def run (streams : List Stream) (host : Host σ) (budget : Nat) :
    Nat → Direct σ → Except RunError Report × Direct σ
  | left, a =>
    match move streams host a with
    | .finished => (.ok a.report, a)
    | .exhausted => (.error (.addressOutOfBounds (codeLength (allOps streams))), a)
    | .performed result b =>
      match left with
      | 0 => (.error (.stepBudgetExceeded budget), a)
      | left + 1 =>
        match result with
        | .error error => (.error error, b)
        | .ok () => run streams host budget left b

/-- Runs the event with a name to its end, with the heap and the host as it leaves them. -/
def runEvent (streams : List Stream) (heap : Array Value) (budget : Nat) (host : Host σ) (state : σ)
    (entry : String) : Except RunError Report × Array Value × σ :=
  match opening? streams entry with
  | none => (.error (.unknownEntryPoint entry), heap, state)
  | some start =>
    let (result, a) := run streams host budget budget ⟨heap, state, some start, [], ⟨0, 0⟩⟩
    (result, a.heap, a.host)

/-! ## Addresses of places -/

/-- The address of a place in code. -/
def addressAt (code : List Op) : Place → Address
  | none => haltAddress
  | some rest => codeLength code - codeLength rest

/-- A place is one of the code if nothing is still to come that is not at its end. -/
def Within (code : List Op) (place : Place) : Prop := ∀ rest ∈ place, rest <:+ code

variable {code rest ops : List Op} {place : Place} {returns : List Place}

theorem within_none : Within code none := fun _ listed => by cases listed

theorem within_some : Within code (some rest) ↔ rest <:+ code := by
  simp [Within]

theorem standing_addressAt (inside : rest <:+ code) :
    Standing code (addressAt code (some rest)) rest := by
  obtain ⟨before, rfl⟩ := inside
  refine ⟨before, [], by rw [List.append_nil], ?_⟩
  rw [addressAt, codeLength_append, Nat.add_sub_cancel]

theorem addressAt_ne_halt (small : codeLength code < haltAddress) (rest : List Op) :
    addressAt code (some rest) ≠ haltAddress :=
  Nat.ne_of_lt (Nat.lt_of_le_of_lt (Nat.sub_le _ _) small)

theorem resumed_addressAt (small : codeLength code < haltAddress) (place : Place)
    (returns : List Place) :
    Activity.resumed (addressAt code place) (returns.map (addressAt code)) =
      (resumed place returns).map fun next =>
        (addressAt code (some next.1), next.2.map (addressAt code)) := by
  induction returns generalizing place with
  | nil =>
    cases place with
    | none => rfl
    | some rest =>
      rw [List.map_nil, Activity.resumed, if_neg (addressAt_ne_halt small rest)]
      rfl
  | cons next returns ih =>
    cases place with
    | none =>
      rw [List.map_cons, addressAt, Activity.resumed, if_pos rfl, ih, resumed]
    | some rest =>
      rw [List.map_cons, Activity.resumed, if_neg (addressAt_ne_halt small rest)]
      rfl

theorem resumed_within (inside : Within code place) (waiting : ∀ p ∈ returns, Within code p)
    {others : List Place} (resumes : resumed place returns = some (ops, others)) :
    ops <:+ code ∧ ∀ p ∈ others, Within code p := by
  induction returns generalizing place with
  | nil =>
    cases place with
    | none => cases resumes
    | some rest =>
      cases resumes
      exact ⟨within_some.mp inside, waiting⟩
  | cons next returns ih =>
    cases place with
    | none =>
      exact ih (waiting next List.mem_cons_self)
        (fun p listed => waiting p (List.mem_cons_of_mem next listed)) resumes
    | some rest =>
      cases resumes
      exact ⟨within_some.mp inside, waiting⟩

theorem behind_within (code : List Op) (target : Target) : Within code (behind code target) := by
  cases target with
  | halt => exact within_none
  | label label =>
    exact within_some.mpr ((List.tail_suffix _).trans (List.dropWhile_suffix _))

private theorem dropWhile_label {label : Label} (marked : .label label ∈ code) :
    code.dropWhile (fun op => op ≠ .label label) =
      .label label :: (code.dropWhile fun op => op ≠ .label label).tail := by
  induction code with
  | nil => cases marked
  | cons op code ih =>
    by_cases here : op = .label label
    · rw [List.dropWhile_cons_of_neg (by simpa using here), here, List.tail_cons]
    · rw [List.dropWhile_cons_of_pos (by simpa using here)]
      exact ih ((List.mem_cons.mp marked).resolve_left (Ne.symm here))

theorem addressOf_eq {target : Target}
    (placed : target = .halt ∨ ∃ label ∈ marks code, target = .label label) :
    addressOf code target = addressAt code (behind code target) := by
  rcases placed with rfl | ⟨label, marked, rfl⟩
  · rfl
  · obtain ⟨before, after, split⟩ := Assembly.mem_marks.mp marked
    have listed : .label label ∈ code := split ▸ List.mem_append_right before List.mem_cons_self
    have length := calc codeLength code
      _ = codeLength (code.takeWhile (fun op => op ≠ .label label) ++
            code.dropWhile fun op => op ≠ .label label) := by
          rw [List.takeWhile_append_dropWhile]
      _ = codeLength (code.takeWhile fun op => op ≠ .label label) +
            codeLength (code.dropWhile fun op => op ≠ .label label).tail := by
          rw [codeLength_append, dropWhile_label listed, codeLength_label, List.tail_cons]
    rw [behind, addressAt, length, Nat.add_sub_cancel]
    rfl

theorem opening?_within {streams : List Stream} {name : String} {start : List Op}
    (opens : opening? streams name = some start) : start <:+ allOps streams := by
  induction streams with
  | nil => cases opens
  | cons stream streams ih =>
    rw [opening?] at opens
    split at opens
    · cases opens
      exact List.suffix_refl _
    · rw [Assembly.allOps_cons]
      exact (ih opens).trans (List.suffix_append _ _)

theorem codeLength_le_of_suffix (inside : rest <:+ code) : codeLength rest ≤ codeLength code :=
  inside.sublist.countP_le

theorem entries_find? (address : Nat) (streams : List Stream) (name : String) :
    ((entries address streams).find? fun entry => entry.name == name).map EntryPoint.address =
      (opening? streams name).map fun start =>
        address + addressAt (allOps streams) (some start) := by
  induction streams generalizing address with
  | nil => rfl
  | cons stream streams ih =>
    rw [entries, opening?, List.find?_cons]
    by_cases same : stream.name = name
    · rw [if_pos same, same, beq_self_eq_true]
      simp [addressAt]
    · have other : (stream.name == name) = false := beq_eq_false_iff_ne.mpr same
      rw [if_neg same, other, ih]
      refine Option.map_congr fun start opens => ?_
      have inside := codeLength_le_of_suffix (opening?_within opens)
      rw [Assembly.allOps_cons, addressAt, addressAt, codeLength_append]
      omega

end Direct

end ScriptGraph
