import ScriptGraph.Machine.BasicHost
import ScriptGraph.Proofs.Machine.Bounded

/-!
The blacklist is never bypassed. Whatever is done with a machine, its host notes no call on an object
of its blacklist; a run that comes to such a call ends there, with the heap as it was.
-/

set_option autoImplicit false
set_option relaxedAutoImplicit false

namespace ScriptGraph

variable {σ : Type}

/-- What may be done with a machine. -/
inductive Machine.Use where
  | run (entry : String)
  | write (name : String) (value : Value)

namespace Machine

/-- A machine and its host after one use. -/
def use (m : Machine) (host : Host σ) (state : σ) : Use → Machine × σ
  | .run entry => (m.run host state entry).2
  | .write name value => ((m.set? name value).getD m, state)

/-- A machine and its host after uses in order. -/
def used (m : Machine) (host : Host σ) (state : σ) (uses : List Use) : Machine × σ :=
  uses.foldl (fun now next => now.1.use host now.2 next) (m, state)

end Machine

namespace Activity

/-- The method that the next step calls, with the arguments it is called with. -/
def requests? (p : Program) (a : Activity σ) : Option (String × List Value) :=
  match a.next? p with
  | some (.call method slots) => (readAll a.heap slots).toOption.map fun arguments =>
      (method, arguments)
  | _ => none

variable {p : Program} {host : Host σ} {a b : Activity σ} {method : String}
  {arguments : List Value} {target : Value}

theorem requests?_eq_some : a.requests? p = some (method, arguments) ↔
    ∃ address returns slots, resumed a.address a.returns = some (address, returns) ∧
      p.instructions[address]? = some (.call method slots) ∧
      readAll a.heap slots = .ok arguments := by
  constructor
  · intro requested
    unfold requests? at requested
    split at requested
    · rename_i name slots next
      obtain ⟨⟨address, returns⟩, resumes, found⟩ := Option.bind_eq_some_iff.mp next
      cases reads : readAll a.heap slots with
      | error error =>
        rw [reads] at requested
        cases requested
      | ok values =>
        rw [reads] at requested
        cases requested
        exact ⟨address, returns, slots, resumes, found, reads⟩
    · cases requested
  · rintro ⟨address, returns, slots, resumes, found, reads⟩
    have next : a.next? p = some (.call method slots) := by
      rw [next?, resumes]
      exact found
    simp only [requests?, next, reads]
    rfl

theorem move_of_blocked (requested : a.requests? p = some (method, arguments))
    (blocked : blocked? host a.host arguments = some target) :
    ∃ b, move p host a = .performed (.error (.blacklisted method target)) b ∧
      b.heap = a.heap ∧ b.host = a.host := by
  obtain ⟨address, returns, slots, resumes, found, reads⟩ := requests?_eq_some.mp requested
  refine ⟨{ a with
    address := address + 1
    returns := returns
    report := ⟨a.report.steps + 1, a.report.externs + 1⟩ }, ?_, rfl, rfl⟩
  simp only [move, resumes, found, perform, call, reads, blocked]

end Activity

namespace BasicHost

open Activity (Calls Performs Leads blocked? blocked?_eq_some move)

/-! ## What the host says itself -/

/-- The errors of a host that knows nothing of its blacklist. -/
def Blames (method : String) (error : RunError) : Prop :=
  (∃ reason, error = .callFailed method reason) ∨ error = .unknownMethod method

variable {method : String} {arguments : List Value} {error : RunError}

private theorem blames_of_bind {α β : Type} {first : Except RunError α}
    {next : α → Except RunError β} (given : first >>= next = .error error)
    (blames : ∀ error, first = .error error → Blames method error)
    (later : ∀ a, next a = .error error → Blames method error) : Blames method error := by
  cases first with
  | error other =>
    obtain rfl : other = error := Except.error.inj given
    exact blames other rfl
  | ok a => exact later a given

private theorem integer_blames {index : Nat}
    (fails : integer method arguments index = .error error) : Blames method error := by
  unfold integer at fails
  split at fails
  · cases fails
  · exact Or.inl ⟨_, (Except.error.inj fails).symm⟩

private theorem items_blames (fails : items method arguments = .error error) :
    Blames method error := by
  unfold items at fails
  split at fails
  · cases fails
  · exact Or.inl ⟨_, (Except.error.inj fails).symm⟩

private theorem output_blames {index : Nat} {value : Value}
    (fails : output method arguments index value = .error error) : Blames method error := by
  unfold output at fails
  split at fails
  · cases fails
  · exact Or.inl ⟨_, (Except.error.inj fails).symm⟩

private theorem itemAt_blames {values : List Value} {index : Int32}
    (fails : itemAt method values index = .error error) : Blames method error := by
  unfold itemAt at fails
  split at fails
  · cases fails
  · exact Or.inl ⟨_, (Except.error.inj fails).symm⟩

theorem execute_blames {strict : Bool} (fails : execute strict method arguments = .error error) :
    Blames method error := by
  unfold execute at fails
  split at fails
  · exact blames_of_bind fails (fun _ => integer_blames) fun _ fails =>
      blames_of_bind fails (fun _ => integer_blames) fun _ => output_blames
  · split at fails
    · exact blames_of_bind fails (fun _ => integer_blames) fun _ fails =>
        blames_of_bind fails (fun _ => integer_blames) fun _ => output_blames
    · split at fails
      · exact blames_of_bind fails (fun _ => items_blames) fun _ => output_blames
      · split at fails
        · exact blames_of_bind fails (fun _ => integer_blames) fun _ fails =>
            blames_of_bind fails (fun _ => items_blames) fun _ fails =>
              blames_of_bind fails (fun _ => itemAt_blames) fun _ => output_blames
        · split at fails
          · exact output_blames fails
          · split at fails
            · exact Or.inr (Except.error.inj fails).symm
            · cases fails

/-! ## What the host notes -/

/-- A host has a blacklist and has noted no call on an object of it. -/
structure Spares (blacklist : List Value) (state : BasicHost) : Prop where
  own : state.blacklist = blacklist
  noted : ∀ call ∈ state.calls, ∀ id, call.arguments.head? = some (.object id) →
    Value.object id ∉ blacklist

variable {blacklist : List Value} {p : Program} {a b : Activity BasicHost}

theorem Spares.call {state after : BasicHost} {outcome : Except RunError (List Value)}
    (spares : state.Spares blacklist) (free : blocked? host state arguments = none)
    (called : host.call state method arguments = (outcome, after)) : after.Spares blacklist := by
  obtain rfl : _ = after := congrArg Prod.snd called
  refine ⟨spares.own, fun call noted id head listed => ?_⟩
  rcases Array.mem_push.mp noted with before | rfl
  · exact spares.noted call before id head listed
  · have blocks : host.blocks state (.object id) = true := by
      change state.blacklist.contains (.object id) = true
      rw [spares.own]
      exact List.contains_iff_mem.mpr listed
    have blocked := blocked?_eq_some.mpr ⟨id, rfl, head, blocks⟩
    rw [free] at blocked
    cases blocked

theorem Spares.move {result : Except RunError Unit} (spares : a.host.Spares blacklist)
    (moves : move p host a = .performed result b) : b.host.Spares blacklist := by
  obtain ⟨address, returns, instruction, -, -, performs⟩ := Activity.move_performed moves
  cases performs with
  | called calls =>
    cases calls with
    | failed _ free called => exact spares.call free called
    | answered _ free called => exact spares.call free called
    | _ => exact spares
  | _ => exact spares

theorem Spares.run {m : Machine} {state : BasicHost} (spares : state.Spares blacklist)
    (entry : String) : (m.run host state entry).2.2.Spares blacklist := by
  rcases m.run_cases host state entry with ⟨-, ends⟩ | ⟨start, n, result, b, -, runs, ends⟩
  · rw [ends]
    exact spares
  · rw [ends]
    exact runs.keeps (P := fun a => a.host.Spares blacklist)
      (fun _ _ _ spares moves => spares.move moves) spares

theorem Spares.used {m : Machine} {state : BasicHost} (spares : state.Spares blacklist)
    (uses : List Machine.Use) : (m.used host state uses).2.Spares blacklist := by
  induction uses generalizing m state with
  | nil => exact spares
  | cons use uses ih =>
    cases use with
    | run entry => exact ih (spares.run entry)
    | write name value => exact ih spares

/-! ## What becomes of a blocked call -/

/-- A run comes, within its budget, to a call of a method on an object of a blacklist. -/
def Meets (m : Machine) (state : BasicHost) (entry : String) (blacklist : List Value)
    (method : String) (target : Value) (a : Activity BasicHost) : Prop :=
  ∃ start n arguments id, m.program.entryPoint? entry = some start ∧
    Leads m.program host n (m.begin state start) a ∧ n < m.budget ∧
    a.requests? m.program = some (method, arguments) ∧
    arguments.head? = some (.object id) ∧ target = .object id ∧ target ∈ blacklist

variable {m : Machine} {state : BasicHost} {entry : String} {target : Value}

theorem Meets.refused (spares : state.Spares blacklist)
    (meets : Meets m state entry blacklist method target a) :
    m.run host state entry =
      (.error (.blacklisted method target), { m with heap := a.heap }, a.host) := by
  obtain ⟨start, n, arguments, id, found, leads, room, requested, head, rfl, listed⟩ := meets
  have there := leads.keeps (P := fun a => a.host.Spares blacklist)
    (fun _ _ _ spares moves => spares.move moves) spares
  have blocks : host.blocks a.host (.object id) = true := by
    change a.host.blacklist.contains (.object id) = true
    rw [there.own]
    exact List.contains_iff_mem.mpr listed
  obtain ⟨b, moves, heap, same⟩ := Activity.move_of_blocked requested
    (blocked?_eq_some.mpr ⟨id, rfl, head, blocks⟩)
  rw [Machine.run_of_entry found (Activity.run_of_ends m.budget leads (.failed moves) room),
    heap, same]

theorem exists_meets (spares : state.Spares blacklist)
    (fails : (m.run host state entry).1 = .error (.blacklisted method target)) :
    ∃ a, Meets m state entry blacklist method target a := by
  rcases m.run_cases host state entry with ⟨-, ends⟩ | ⟨start, n, result, b, found, runs, ends⟩
  · rw [ends] at fails
    cases fails
  · rw [ends] at fails
    obtain rfl : result = .error (.blacklisted method target) := fails
    cases runs with
    | @ended n _ _ a _ leads ends room =>
      cases ends with
      | failed moves =>
        have there := leads.keeps (P := fun a => a.host.Spares blacklist)
          (fun _ _ _ spares moves => spares.move moves) spares
        obtain ⟨address, returns, instruction, resumes, instructs, performs⟩ :=
          Activity.move_performed moves
        cases performs with
        | called calls =>
          cases calls with
          | refused reads blocked =>
            obtain ⟨id, rfl, head, blocks⟩ := blocked?_eq_some.mp blocked
            have listed : Value.object id ∈ blacklist := by
              rw [← there.own]
              exact List.contains_iff_mem.mp blocks
            exact ⟨a, start, n, _, id, found, leads, room,
              Activity.requests?_eq_some.mpr ⟨address, returns, _, resumes, instructs, reads⟩,
              head, rfl, listed⟩
          | failed _ _ called =>
            rcases execute_blames (congrArg Prod.fst called) with ⟨reason, other⟩ | other
            · cases other
            · cases other

/-- The blacklist is never bypassed. After any uses of a machine, the host has noted no call on an
object of its blacklist. Whatever is run next ends because of the blacklist if and only if it comes to
a call on such an object, and then the heap stays as it was before that call. -/
theorem calls_allowed (m : Machine) (blacklist : List Value) (strict : Bool)
    (uses : List Machine.Use) :
    let now := m.used host (fresh blacklist strict) uses
    (∀ call ∈ now.2.calls, ∀ id, call.arguments.head? = some (.object id) →
      Value.object id ∉ blacklist) ∧
    ∀ entry method target,
      ((now.1.run host now.2 entry).1 = .error (.blacklisted method target) →
        ∃ a, Meets now.1 now.2 entry blacklist method target a) ∧
      ∀ a, Meets now.1 now.2 entry blacklist method target a →
        now.1.run host now.2 entry =
          (.error (.blacklisted method target), { now.1 with heap := a.heap }, a.host) := by
  intro now
  have none : (fresh blacklist strict).Spares blacklist :=
    ⟨rfl, fun call noted => absurd noted (Array.not_mem_empty call)⟩
  have spares : now.2.Spares blacklist := none.used uses
  exact ⟨spares.noted, fun entry method target =>
    ⟨exists_meets spares, fun a meets => meets.refused spares⟩⟩

/-- An object that is logged, and one of the blacklist that takes its place. -/
theorem calls_allowed_replaced :
    let now := (Machine.load Machine.chatter 100).used host (fresh [.object 9] false)
      [.run "_once", .write "target" (.object 9)]
    (∀ call ∈ now.2.calls, ∀ id, call.arguments.head? = some (.object id) →
      Value.object id ∉ [Value.object 9]) ∧
    now.2.calls = #[⟨"Debug.__Log", [.object 7]⟩] ∧
    now.1.run host now.2 "_once" =
      (.error (.blacklisted "Debug.__Log" (.object 9)), now.1, now.2) := by
  intro now
  obtain ⟨allowed, refused⟩ := calls_allowed (Machine.load Machine.chatter 100) [.object 9] false
    [.run "_once", .write "target" (.object 9)]
  refine ⟨allowed, by decide +kernel, ?_⟩
  exact (refused "_once" "Debug.__Log" (.object 9)).2 (now.1.begin now.2 0)
    ⟨0, 0, [.object 9], 9, by decide +kernel, .refl _, by decide +kernel, by decide +kernel, rfl, rfl,
      by decide⟩

end BasicHost

end ScriptGraph
