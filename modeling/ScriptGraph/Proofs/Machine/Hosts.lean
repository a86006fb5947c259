import ScriptGraph.Machine.BasicHost
import ScriptGraph.Proofs.Lookup
import Mathlib.Data.List.Basic

/-!
Hosts that write to the outputs of a method only, and to which it does not matter what is in the place
of a value that control flow asks for. The basic host is one of them, whatever the catalog.
-/

set_option autoImplicit false
set_option relaxedAutoImplicit false

namespace ScriptGraph

/-- A host leaves the inputs of a method as they are. -/
def Host.Keeps {σ : Type} (host : Host σ) (method : String) (inputs : Nat) : Prop :=
  ∀ state arguments results after, host.call state method arguments = (.ok results, after) →
    ∀ index value, index < inputs → results[index]? = some value → arguments[index]? = some value

/-- The methods that control flow is built from, and how many inputs each takes. -/
def controlMethods : List (String × Nat) :=
  [(isValidMethod, 1), (lessThanMethod, 2), (additionMethod, 2), (arrayLengthMethod, 1),
    (arrayGetMethod, 2), (sendEventMethod, 2)]

/-- A definition named like a method of control flow takes as many inputs as the method. -/
def Catalog.Signed (c : Catalog) : Prop :=
  ∀ name d, c.find? name = some d → ∀ entry ∈ controlMethods, d.fullName = entry.1 →
    d.inputs.length = entry.2

/-- A host writes to outputs only, whether a method of control flow is called or another one that a
catalog defines. -/
structure Host.Obeys {σ : Type} (host : Host σ) (c : Catalog) : Prop where
  control : ∀ entry ∈ controlMethods, host.Keeps entry.1 entry.2
  defined : ∀ name d, c.find? name = some d → d.fullName ∉ controlMethods.map Prod.fst →
    host.Keeps d.fullName d.inputs.length

theorem Host.Obeys.keeps {σ : Type} {host : Host σ} {c : Catalog} (obeys : host.Obeys c)
    (signed : c.Signed) {name : String} {d : Definition} (found : c.find? name = some d) :
    host.Keeps d.fullName d.inputs.length := by
  by_cases controls : d.fullName ∈ controlMethods.map Prod.fst
  · obtain ⟨entry, listed, same⟩ := List.mem_map.mp controls
    rw [signed name d found entry listed same.symm, ← same]
    exact obeys.control entry listed
  · exact obeys.defined name d found controls

def askedMethods : List (String × Nat) :=
  [(isValidMethod, 1), (lessThanMethod, 2), (additionMethod, 2), (arrayLengthMethod, 1)]

theorem askedMethods_subset : askedMethods ⊆ controlMethods := by
  simp [askedMethods, controlMethods]

/-- A call fails like an answer, or gives it at a position of its results. -/
def Answers (position : Nat) (answer : Except RunError Value)
    (result : Except RunError (List Value)) : Prop :=
  match answer with
  | .error error => result = .error error
  | .ok value => ∃ results, result = .ok results ∧ results[position]? = some value

/-- A host does the same in states that are alike. A method that control flow asks for a value gives it,
or fails, whatever is in the place for it. -/
structure Host.Forgets {σ : Type} (host : Host σ) (alike : σ → σ → Prop) : Prop where
  blocks : ∀ {s t}, alike s t → host.blocks s = host.blocks t
  calls : ∀ {s t}, alike s t → ∀ method arguments,
    (host.call s method arguments).1 = (host.call t method arguments).1 ∧
      alike (host.call s method arguments).2 (host.call t method arguments).2
  answers : ∀ {s t}, alike s t → ∀ entry ∈ askedMethods, ∀ inputs, inputs.length = entry.2 →
    ∃ answer, ∀ first second,
      Answers entry.2 answer (host.call s entry.1 (inputs ++ [first])).1 ∧
      Answers entry.2 answer (host.call t entry.1 (inputs ++ [second])).1 ∧
      alike (host.call s entry.1 (inputs ++ [first])).2 (host.call t entry.1 (inputs ++ [second])).2

/-- What matters of a call: of one that asks for a value, not what was in the place for it. -/
def Call.essence (call : Call) : Call :=
  match askedMethods.lookup call.method with
  | some inputs => { call with arguments := call.arguments.take inputs }
  | none => call

namespace BasicHost

/-- States with records of the same calls, as far as they matter. -/
structure Alike (s t : BasicHost) : Prop where
  calls : s.calls.map Call.essence = t.calls.map Call.essence
  blacklist : s.blacklist = t.blacklist
  strict : s.strict = t.strict

private theorem output_keeps {method : String} {arguments results : List Value} {position : Nat}
    {value : Value} (given : output method arguments position value = .ok results)
    {index : Nat} (before : index < position) : results[index]? = arguments[index]? := by
  unfold output at given
  split at given
  · obtain rfl := Except.ok.inj given
    exact List.getElem?_set_ne (Nat.ne_of_gt before)
  · cases given

private theorem succeeds_of_bind {α β : Type} {first : Except RunError α}
    {next : α → Except RunError β} {result : β} (given : first >>= next = .ok result) :
    ∃ a, next a = .ok result := by
  cases first with
  | error error => cases given
  | ok a => exact ⟨a, given⟩

private theorem execute_control {strict : Bool} {entry : String × Nat}
    (listed : entry ∈ controlMethods) {arguments results : List Value}
    (given : execute strict entry.1 arguments = .ok results) {index : Nat}
    (before : index < entry.2) : results[index]? = arguments[index]? := by
  simp only [controlMethods, List.mem_cons, List.not_mem_nil, or_false] at listed
  rcases listed with rfl | rfl | rfl | rfl | rfl | rfl
  · rw [execute, if_neg (by decide), if_neg (by decide), if_neg (by decide), if_neg (by decide),
      if_pos rfl] at given
    exact output_keeps given before
  · rw [execute, if_pos rfl] at given
    obtain ⟨first, given⟩ := succeeds_of_bind given
    obtain ⟨second, given⟩ := succeeds_of_bind given
    exact output_keeps given before
  · rw [execute, if_neg (by decide), if_pos rfl] at given
    obtain ⟨first, given⟩ := succeeds_of_bind given
    obtain ⟨second, given⟩ := succeeds_of_bind given
    exact output_keeps given before
  · rw [execute, if_neg (by decide), if_neg (by decide), if_pos rfl] at given
    obtain ⟨items, given⟩ := succeeds_of_bind given
    exact output_keeps given before
  · rw [execute, if_neg (by decide), if_neg (by decide), if_neg (by decide), if_pos rfl] at given
    obtain ⟨index, given⟩ := succeeds_of_bind given
    obtain ⟨items, given⟩ := succeeds_of_bind given
    obtain ⟨item, given⟩ := succeeds_of_bind given
    exact output_keeps given before
  · rw [execute, if_neg (by decide), if_neg (by decide), if_neg (by decide), if_neg (by decide),
      if_neg (by decide)] at given
    split at given
    · cases given
    · rw [Except.ok.inj given]

private theorem execute_other {strict : Bool} {method : String}
    (other : method ∉ controlMethods.map Prod.fst) {arguments results : List Value}
    (given : execute strict method arguments = .ok results) : results = arguments := by
  simp only [controlMethods, List.map_cons, List.map_nil, List.mem_cons, List.not_mem_nil, or_false,
    not_or] at other
  obtain ⟨hvalid, hless, hadd, hlength, hget, -⟩ := other
  rw [execute, if_neg hless, if_neg hadd, if_neg hlength, if_neg hget, if_neg hvalid] at given
  split at given
  · cases given
  · exact (Except.ok.inj given).symm

theorem host_obeys (c : Catalog) : host.Obeys c where
  control := by
    intro entry listed state arguments results after called index value inside found
    rw [← execute_control listed (congrArg Prod.fst called) inside]
    exact found
  defined := by
    intro name d _ other state arguments results after called index value _ found
    obtain rfl := execute_other other (congrArg Prod.fst called)
    exact found

private theorem output_integers (method : String) (result : Int32 → Int32 → Value)
    (first second last : Value) :
    Answers 2 (do
      let x ← integer method [first, second] 0
      let y ← integer method [first, second] 1
      return result x y) (do
      let x ← integer method [first, second, last] 0
      let y ← integer method [first, second, last] 1
      output method [first, second, last] 2 (result x y)) := by
  change Answers 2 (do
    let x ← integer method [first, second, last] 0
    let y ← integer method [first, second, last] 1
    return result x y) _
  cases integer method [first, second, last] 0 with
  | error => rfl
  | ok x =>
    cases integer method [first, second, last] 1 with
    | error => rfl
    | ok y => exact ⟨_, rfl, rfl⟩

private theorem execute_asked {entry : String × Nat} (listed : entry ∈ askedMethods)
    {inputs : List Value} (length : inputs.length = entry.2) :
    ∃ answer, ∀ strict last, Answers entry.2 answer (execute strict entry.1 (inputs ++ [last])) := by
  simp only [askedMethods, List.mem_cons, List.not_mem_nil, or_false] at listed
  rcases listed with rfl | rfl | rfl | rfl
  · obtain ⟨object, rfl⟩ := List.length_eq_one_iff.mp length
    exact ⟨.ok (.bool (object ≠ .null)), fun strict last => ⟨_, rfl, rfl⟩⟩
  · obtain ⟨first, second, rfl⟩ := List.length_eq_two.mp length
    exact ⟨_, fun strict => output_integers lessThanMethod (fun x y => .bool (x.toInt < y.toInt))
      first second⟩
  · obtain ⟨first, second, rfl⟩ := List.length_eq_two.mp length
    exact ⟨_, fun strict => output_integers additionMethod (fun x y => .int32 (x + y)) first second⟩
  · obtain ⟨array, rfl⟩ := List.length_eq_one_iff.mp length
    refine ⟨do
      let items ← items arrayLengthMethod [array]
      return .int32 (.ofInt items.length), fun strict last => ?_⟩
    cases array with
    | array items => exact ⟨_, rfl, rfl⟩
    | _ => rfl

theorem host_forgets : host.Forgets Alike where
  blocks := by
    intro s t alike
    funext target
    simp only [host, alike.blacklist]
  calls := by
    intro s t alike method arguments
    refine ⟨by simp only [host, alike.strict], ?_, alike.blacklist, alike.strict⟩
    simp only [host, Array.map_push, alike.calls]
  answers := by
    intro s t alike entry listed inputs length
    obtain ⟨answer, answers⟩ := execute_asked listed length
    refine ⟨answer, fun first second => ⟨answers _ _, answers _ _, ?_, alike.blacklist,
      alike.strict⟩⟩
    have essence : ∀ last, (Call.mk entry.1 (inputs ++ [last])).essence = ⟨entry.1, inputs⟩ := by
      intro last
      have found : askedMethods.lookup entry.1 = some entry.2 :=
        lookup_eq_some_of_mem (by decide) listed
      rw [Call.essence, found, ← length]
      simp only [List.take_left]
    simp only [host, Array.map_push, alike.calls, essence]

end BasicHost

end ScriptGraph
