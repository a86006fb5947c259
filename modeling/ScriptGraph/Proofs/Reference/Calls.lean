import ScriptGraph.Proofs.Reference.Simulation

/-!
Calls. The call of a method does what the run does that calls it, be it for an event that the program
sends to itself, for results that go to cells, or for a value that a node asks for.
-/

set_option autoImplicit false
set_option relaxedAutoImplicit false

namespace ScriptGraph.Reference.Setting

open Activity (At move resumed)
open Assembly (Standing addressOf)
open Lowering (Register)

variable {σ α : Type} {S : Setting σ} {scope : S.Scope} {given : List (Slot × Value)}
  {ends : α → List (Slot × Value)} {rounds least : Nat} {returns : List Address} {start : Nat}

/-! ## Events -/

/-- The events that a program sends to itself run as they should while it interrupts events. -/
structure Sends (S : Setting σ) (rounds : Nat) (send : String → Run σ Unit)
    (returns : List Address) : Prop where
  unknown : ∀ name, S.program.entryPoint? name = none → send name = Pure.pure ()
  deep : ∀ name start, S.program.entryPoint? name = some start →
    maxEventDepth < returns.length + 1 → send name = failed (.eventDepthExceeded maxEventDepth)
  runs : ∀ name start, S.program.entryPoint? name = some start →
    ¬maxEventDepth < returns.length + 1 → ∀ next : Nat,
      S.Simulates rounds 0 (next :: returns) start (send name) fun _ address =>
        address = haltAddress

theorem Reaches.ended {next : Nat} {a : Activity σ}
    {outcome : Option (Except RunError α × World σ)}
    (reaches : S.Reaches scope ends rounds least (next :: returns)
      (fun _ address => address = haltAddress) a outcome) :
    S.Reaches scope ends rounds least returns (fun _ address => address = next) a outcome := by
  match outcome, reaches with
  | none, reaches => exact reaches
  | some (.ok x, w), ⟨n, b, address, enough, leads, agrees, stands, halted⟩ =>
    obtain rfl : address = haltAddress := halted
    rw [At, resumed, if_pos rfl] at stands
    exact ⟨n, b, next, enough, leads, agrees, stands, rfl⟩
  | some (.error error, w), reaches => exact reaches

private theorem kept_inputs {state after : σ} {method : String} {given more results : List Value}
    (keeps : S.host.Keeps method given.length)
    (called : S.host.call state method (given ++ more) = (.ok results, after)) (index : Nat)
    (value : Value) (inside : index < given.length) (result : results[index]? = some value) :
    given[index]? = some value := by
  have kept := keeps _ _ _ _ called index value inside result
  rwa [List.getElem?_append_left inside] at kept

private theorem sent_reaches {send : String → Run σ Unit} (sends : S.Sends rounds send returns)
    {w : World σ} {a b : Activity σ} {event : String} (agrees : S.Agrees scope [] w b)
    (hreturns : b.returns = returns) (calm : (send event scope.running w).reentered = false)
    (moves : move S.program S.host a =
      match S.program.entryPoint? event with
      | none => .performed (.ok ()) b
      | some entry =>
        if maxEventDepth < b.returns.length + 1 then
          .performed (.error (.eventDepthExceeded maxEventDepth)) b
        else .performed (.ok ()) { b with address := entry, returns := b.address :: b.returns }) :
    S.Reaches scope (fun _ => []) rounds 1 returns (fun _ address => address = b.address) a
      (send event scope.running w).ended := by
  cases hentry : S.program.entryPoint? event with
  | none =>
    rw [sends.unknown event hentry]
    simp only [hentry] at moves
    have stands : b.At b.address returns := congrArg (resumed b.address) hreturns
    exact ⟨1, b, b.address, Nat.le_refl 1, .single moves, agrees, stands, rfl⟩
  | some entry =>
    rw [hreturns] at moves
    by_cases deep : maxEventDepth < returns.length + 1
    · rw [sends.deep event entry hentry deep]
      simp only [hentry, if_pos deep] at moves
      exact ⟨0, a, b, .refl a, moves, agrees⟩
    · simp only [hentry, if_neg deep] at moves
      have nested := sends.runs event entry hentry deep b.address scope
      refine Reaches.weaken (Reaches.ended (Reaches.after_steps (.single moves)
        (nested w _ ?_ rfl calm))) (Nat.le_add_left rounds 1) (Nat.le_refl 1) fun _ _ => id
      exact ⟨agrees.host, agrees.externs, agrees.heap, agrees.held⟩

/-! ## Moves -/

/-- An activity behind a call, which has been counted, with the state that the host is left in. -/
def behindCall (a : Activity σ) (start : Nat) (returns : List Address) (state : σ) : Activity σ :=
  ⟨a.heap, state, start + 1, returns, ⟨a.report.steps + 1, a.report.externs + 1⟩⟩

theorem Agrees.behindCall {w : World σ} {a : Activity σ} (agrees : S.Agrees scope given w a)
    {state after : σ} (alike : S.alike state after) (start : Nat) (returns : List Address) :
    S.Agrees scope given ⟨w.cells, state, w.externs + 1⟩ (behindCall a start returns after) :=
  ⟨alike, congrArg (· + 1) agrees.externs, agrees.heap.called state (w.externs + 1), agrees.held⟩

/-- What the machine does at a call, by what the world says of its arguments. -/
theorem move_call {method : String} {slots : List Slot} {rest : List Op} {a : Activity σ}
    (standing : Standing S.ops start (.call method slots :: rest)) (stands : a.At start returns)
    {arguments : List Value} (read : Activity.readAll a.heap slots = .ok arguments) {state : σ}
    (alike : S.alike state a.host) :
    move S.program S.host a =
      match Activity.blocked? S.host state arguments, Activity.ownEvent? method arguments with
      | some target, _ =>
        .performed (.error (.blacklisted method target)) (behindCall a start returns a.host)
      | none, some event =>
        match S.program.entryPoint? event with
        | none => .performed (.ok ()) (behindCall a start returns a.host)
        | some entry =>
          if maxEventDepth < returns.length + 1 then
            .performed (.error (.eventDepthExceeded maxEventDepth))
              (behindCall a start returns a.host)
          else
            .performed (.ok ()) { behindCall a start returns a.host with
              address := entry
              returns := (start + 1) :: returns }
      | none, none =>
        match S.host.call a.host method arguments with
        | (.error error, after) => .performed (.error error) (behindCall a start returns after)
        | (.ok results, after) =>
          .performed (.ok ()) { behindCall a start returns after with
            heap := Activity.storeAll a.heap slots results } := by
  have blocks : Activity.blocked? S.host a.host arguments =
      Activity.blocked? S.host state arguments := by
    unfold Activity.blocked?
    rw [S.forgets.blocks alike]
  rw [move_eq standing rfl stands]
  simp only [Activity.perform, Activity.call, read, blocks, behindCall]
  cases Activity.blocked? S.host state arguments with
  | some target => rfl
  | none =>
    cases Activity.ownEvent? method arguments with
    | some event =>
      simp only
      cases S.program.entryPoint? event with
      | none => rfl
      | some entry =>
        simp only
        split <;> rfl
    | none =>
      simp only
      rcases S.host.call a.host method arguments with ⟨_ | _, _⟩ <;> rfl

/-! ## Calls with outputs -/

private theorem shown_of_shows {places : List Place} {slots : List Slot}
    (shows : List.Forall₂ (S.Shows scope given) places slots) {w : World σ} {a : Activity σ}
    (agrees : S.Agrees scope given w a) :
    List.Forall₂ (fun place (slot : Nat) => a.heap[slot]? = some (w.get place)) places slots :=
  shows.imp fun _ _ shows => shows w a agrees

private theorem stands_of_mem {M : Memory} {places : List Place} {slots : List Slot}
    (stand : List.Forall₂ M.stands places slots) {slot : Slot} (listed : slot ∈ slots) :
    ∃ place, M.stands place slot := by
  induction stand with
  | nil => cases listed
  | cons stands _ ih =>
    rcases List.mem_cons.mp listed with rfl | listed
    · exact ⟨_, stands⟩
    · exact ih listed

private theorem Agrees.storeAll {w : World σ} {a : Activity σ} (agrees : S.Agrees scope [] w a)
    {places : List Place} {slots : List Slot} (stand : List.Forall₂ S.memory.stands places slots)
    (writable : ∀ place ∈ places, place.isWritable) (values : List Value) :
    S.Agrees scope [] (w.setAll places values)
      { a with heap := Activity.storeAll a.heap slots values } := by
  refine ⟨?_, ?_, agrees.heap.setAll stand writable values, fun entry listed => ?_⟩
  · rw [World.setAll_host]
    exact agrees.host
  · rw [World.setAll_externs]
    exact agrees.externs
  · have other : entry.1 ∉ slots := by
      intro shared
      obtain ⟨place, stands⟩ := stands_of_mem stand shared
      exact scope.apart listed place stands
    exact (Activity.storeAll_other a.heap values other).trans (agrees.held entry listed)

private theorem invoke_sent {send : String → Run σ Unit} {method event : String}
    {inputs outputs : List Place} {running : List Site} {w : World σ}
    (free : Activity.blocked? S.host w.host ((inputs ++ outputs).map w.get) = none)
    (own : Activity.ownEvent? method ((inputs ++ outputs).map w.get) = some event) :
    invoke S.host send method inputs outputs running w =
      send event running { w with externs := w.externs + 1 } := by
  have executed : execute S.host send method ((inputs ++ outputs).map w.get) running w =
      (send event >>= fun _ => pure []) running { w with externs := w.externs + 1 } := by
    simp only [execute, free, own]
  have unfolded : invoke S.host send method inputs outputs running w =
      (execute S.host send method ((inputs ++ outputs).map w.get) >>= fun results =>
        store outputs (results.drop inputs.length)) running w := rfl
  rw [unfolded, Run.bind_congr_apply executed, bind_assoc]
  simp only [pure_bind, List.drop_nil, store_nil, bind_pure_unit]

theorem invoke_carries (slots targets : List Slot) {send : String → Run σ Unit}
    (sends : S.Sends rounds send returns) {method : String} {inputs outputs : List Place}
    {rest : List Op}
    (standing : Standing S.ops start (.call method (slots ++ targets) :: rest))
    (hinputs : List.Forall₂ (S.Shows scope []) inputs slots)
    (houtputs : List.Forall₂ S.memory.stands outputs targets)
    (writable : ∀ place ∈ outputs, place.isWritable) (keeps : S.host.Keeps method inputs.length) :
    S.Carries scope [] (fun _ => []) rounds 1 returns start
      (invoke S.host send method inputs outputs) (fun _ address => address = start + 1) := by
  intro w a agrees stands calm
  have shown := shown_of_shows hinputs agrees
  have read := readAll_of_shown (List.rel_append shown
    (shown_of_shows (houtputs.imp fun _ _ => Shows.of_stands) agrees))
  have moves := move_call standing stands read agrees.host
  have begun := agrees.behindCall agrees.host start returns
  have unfolded : invoke S.host send method inputs outputs scope.running w =
      (execute S.host send method ((inputs ++ outputs).map w.get) >>= fun results =>
        store outputs (results.drop inputs.length)) scope.running w := rfl
  cases blocks : Activity.blocked? S.host w.host ((inputs ++ outputs).map w.get) with
  | some target =>
    simp only [blocks] at moves
    rw [unfolded, Run.bind_apply]
    simp only [execute, blocks]
    exact ⟨0, a, _, .refl a, moves, begun⟩
  | none =>
    cases own : Activity.ownEvent? method ((inputs ++ outputs).map w.get) with
    | some event =>
      simp only [blocks, own] at moves
      rw [invoke_sent blocks own] at calm ⊢
      exact sent_reaches sends begun rfl calm moves
    | none =>
      simp only [blocks, own] at moves
      obtain ⟨same, alike⟩ := S.forgets.calls agrees.host method ((inputs ++ outputs).map w.get)
      rw [unfolded, Run.bind_apply]
      simp only [execute, blocks, own]
      rcases hcall : S.host.call a.host method ((inputs ++ outputs).map w.get) with
        ⟨error | results, after⟩
      · simp only [hcall] at moves same alike
        simp only [same]
        exact ⟨0, a, _, .refl a, moves, agrees.behindCall alike start returns⟩
      · simp only [hcall] at moves same alike
        simp only [same]
        rw [List.map_append] at hcall
        have kept := kept_inputs (by rwa [List.length_map]) hcall
        rw [List.length_map] at kept
        rw [storeAll_of_shown shown targets kept] at moves
        exact ⟨1, _, _, Nat.le_refl 1, .single moves,
          (agrees.behindCall alike start returns).storeAll houtputs writable _, rfl, rfl⟩

theorem invoke_simulates (slots targets : List Slot) {send : String → Run σ Unit}
    (sends : S.Sends rounds send returns) {method : String} {inputs outputs : List Place}
    {rest : List Op}
    (standing : Standing S.ops start (.call method (slots ++ targets) :: rest))
    (hinputs : List.Forall₂ S.memory.stands inputs slots)
    (houtputs : List.Forall₂ S.memory.stands outputs targets)
    (writable : ∀ place ∈ outputs, place.isWritable) (keeps : S.host.Keeps method inputs.length) :
    S.Simulates rounds 1 returns start (invoke S.host send method inputs outputs)
      (fun _ address => address = start + 1) :=
  fun _ => invoke_carries slots targets sends standing
    (hinputs.imp fun _ _ => Shows.of_stands) houtputs writable keeps

/-! ## Questions -/

section Questions

variable (control : ∀ entry ∈ controlMethods, S.host.Keeps entry.1 entry.2)

private theorem refused_of_asked {method : String} {given : List Value}
    (asked : (method, given.length) ∈ askedMethods) (state : σ) (first second : Value) :
    Activity.blocked? S.host state (given ++ [first]) =
      Activity.blocked? S.host state (given ++ [second]) ∧
    ∀ arguments, Activity.ownEvent? method arguments = none := by
  have known : method ≠ sendEventMethod ∧ given ≠ [] := by
    constructor
    · rintro rfl
      have apart : sendEventMethod ∉ askedMethods.map Prod.fst := by decide
      exact apart (List.mem_map_of_mem asked)
    · rintro rfl
      have inputs : 0 ∉ askedMethods.map Prod.snd := by decide
      exact inputs (List.mem_map_of_mem asked)
  constructor
  · obtain ⟨target, more, rfl⟩ := List.exists_cons_of_ne_nil known.2
    cases target <;> rfl
  · intro arguments
    unfold Activity.ownEvent?
    split
    · exact if_neg known.1
    · rfl

include control

private theorem storeAll_answer {heap : Array Value} {inputs : List Place} {slots : List Slot}
    {w : World σ} {method : String} {target : Slot} {old value : Value} {state after : σ}
    {results : List Value}
    (shown : List.Forall₂ (fun place (slot : Nat) => heap[slot]? = some (w.get place)) inputs slots)
    (asked : (method, inputs.length) ∈ askedMethods)
    (called : S.host.call state method (inputs.map w.get ++ [old]) = (.ok results, after))
    (found : results[inputs.length]? = some value) :
    Activity.storeAll heap (slots ++ [target]) results = heap.setIfInBounds target value := by
  have length : (inputs.map w.get).length = inputs.length := List.length_map ..
  have keeps := control _ (askedMethods_subset asked)
  have kept := kept_inputs (length.symm ▸ keeps) called
  rw [length] at kept
  have inside := (List.getElem?_eq_some_iff.mp found).1
  rw [storeAll_of_shown shown [target] kept, List.drop_eq_getElem_cons inside,
    (List.getElem?_eq_some_iff.mp found).2]
  rfl

theorem ask_carries (slots : List Slot) (send : String → Run σ Unit) {method : String}
    {inputs : List Place} {target : Nat} {kept : List (Slot × Value)} {rest : List Op}
    (type : String) (standing : Standing S.ops start (.call method (slots ++ [target]) :: rest))
    (asked : (method, inputs.length) ∈ askedMethods)
    (hinputs : List.Forall₂ (S.Shows scope given) inputs slots) (spare : S.Spare scope target)
    (less : kept ⊆ given) (apart : ∀ entry ∈ kept, entry.1 ≠ target) :
    S.Carries scope given (fun answer => (target, answer) :: kept) rounds 1 returns start
      (ask S.host send method type inputs) (fun _ address => address = start + 1) := by
  intro w a agrees stands _
  let blank := Value.defaultFor (some type)
  obtain ⟨site, name, owned⟩ := spare.keeps
  have shown := shown_of_shows hinputs agrees
  -- The world knows nothing of what is in the slot of the answer before the call.
  obtain ⟨old, hold⟩ : ∃ old, a.heap[target]? = some old :=
    ⟨_, Array.getElem?_eq_getElem (agrees.heap.room _ _ _ owned)⟩
  have read := readAll_of_shown (w := w) (List.rel_append shown
    (List.Forall₂.cons (R := fun place (slot : Nat) => a.heap[slot]? = some (w.get place))
      (a := .literal old) hold .nil))
  rw [List.map_append, List.map_singleton, World.get] at read
  have moves := move_call standing stands read agrees.host
  have quiet : S.Agrees scope [] w a := agrees.less (List.subset_append_right given scope.kept)
  have length : (inputs.map w.get).length = inputs.length := List.length_map ..
  obtain ⟨blocked, own⟩ := refused_of_asked (S := S) (length.symm ▸ asked) w.host old blank
  obtain ⟨answer, answers⟩ := S.forgets.answers agrees.host _ asked _ length
  obtain ⟨said, heard, alike⟩ := answers blank old
  have unfolded : ask S.host send method type inputs scope.running w =
      (execute S.host send method (inputs.map w.get ++ [blank]) >>= fun results =>
        pure (results[inputs.length]?.getD blank)) scope.running w := rfl
  rw [unfolded, Run.bind_apply]
  cases blocks : Activity.blocked? S.host w.host (inputs.map w.get ++ [blank]) with
  | some refused =>
    simp only [blocked, blocks] at moves
    simp only [execute, blocks]
    exact ⟨0, a, _, .refl a, moves, quiet.behindCall quiet.host start returns⟩
  | none =>
    simp only [blocked, blocks, own] at moves
    simp only [execute, blocks, own]
    rcases hcall : S.host.call a.host method (inputs.map w.get ++ [old]) with ⟨result, after⟩
    rw [hcall] at moves heard alike
    cases answer with
    | error error =>
      have fails : (S.host.call w.host method (inputs.map w.get ++ [blank])).1 = .error error := said
      obtain rfl : result = .error error := heard
      simp only [fails]
      exact ⟨0, a, _, .refl a, moves, quiet.behindCall alike start returns⟩
    | ok value =>
      obtain ⟨results, gives, found⟩ := said
      obtain ⟨results', rfl, found'⟩ := heard
      simp only [storeAll_answer control shown asked hcall found'] at moves
      simp only [gives, found, Option.getD_some]
      have before : S.Agrees scope kept w a :=
        agrees.less (List.append_subset.mpr ⟨List.subset_append_of_subset_left _ less,
          List.subset_append_right _ _⟩)
      exact ⟨1, _, _, Nat.le_refl 1, .single moves, before.hold spare apart rfl rfl alike
        (congrArg (· + 1) agrees.externs), rfl, rfl⟩

theorem judge_carries (slots : List Slot) (send : String → Run σ Unit) {method : String}
    {inputs : List Place} {target : Nat} {otherwise : Target} {rest : List Op}
    (standing : Standing S.ops start
      (.call method (slots ++ [target]) :: .jumpUnless target otherwise :: rest))
    (asked : (method, inputs.length) ∈ askedMethods)
    (hinputs : List.Forall₂ (S.Shows scope []) inputs slots) (spare : S.Spare scope target) :
    S.Carries scope [] (fun _ => []) rounds 1 returns start (judge S.host send method inputs)
      (fun holds address => address = if holds then start + 2 else addressOf S.ops otherwise) := by
  refine ((ask_carries control slots send boolType standing asked hinputs spare (List.nil_subset _)
    (fun _ listed => by cases listed)).bind 1 ?_ (Nat.le_add_left ..)).weaken
      (Nat.le_refl rounds) (Nat.le_add_left ..)
  rintro answer _ rfl
  exact test_carries (standing.next rfl) (Shows.of_held (List.mem_cons_self ..))

theorem judge_simulates (slots : List Slot) (send : String → Run σ Unit) {method : String}
    {inputs : List Place} {site : Site} {name : Register} {target : Nat} {otherwise : Target}
    {rest : List Op}
    (standing : Standing S.ops start
      (.call method (slots ++ [target]) :: .jumpUnless target otherwise :: rest))
    (asked : (method, inputs.length) ∈ askedMethods)
    (hinputs : List.Forall₂ S.memory.stands inputs slots)
    (owned : S.memory.keeps site name target) (other : name ∉ [Register.position, .length]) :
    S.Simulates rounds 1 returns start (judge S.host send method inputs)
      (fun holds address => address = if holds then start + 2 else addressOf S.ops otherwise) :=
  fun _ => judge_carries control slots send standing asked
    (hinputs.imp fun _ _ => Shows.of_stands) (Spare.of_answer owned other)

end Questions

end ScriptGraph.Reference.Setting
