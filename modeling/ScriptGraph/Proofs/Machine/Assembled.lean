import ScriptGraph.Proofs.Machine.Direct
import ScriptGraph.Proofs.Machine.Steps

/-!
Assembled code runs as symbolic code does. The address of a place is the number of instructions before
it, and a step at an address is the step at the place, with the same heap, host and report.
-/

set_option autoImplicit false
set_option relaxedAutoImplicit false

namespace ScriptGraph

open Assembly (allOps entries addressOf encoded instruction? Standing)

namespace Direct

variable {σ : Type} {code rest ops : List Op}

def placed (code : List Op) (a : Direct σ) : Activity σ :=
  ⟨a.heap, a.host, addressAt code a.place, a.returns.map (addressAt code), a.report⟩

/-- An event that stands in code, as do all those that it interrupts. -/
structure Inside (code : List Op) (a : Direct σ) : Prop where
  place : Within code a.place
  returns : ∀ p ∈ a.returns, Within code p

variable {streams : List Stream} {host : Host σ} {a : Direct σ} {program : Program}

def Opens (streams : List Stream) (program : Program) : Prop :=
  ∀ name, program.entryPoint? name =
    (opening? streams name).map fun start => addressAt (allOps streams) (some start)

theorem call_placed (opens : Opens streams program) (a : Direct σ) (method : String)
    (slots : List Slot) :
    Activity.call program host (a.placed (allOps streams)) method slots =
      (call streams host a method slots).map id (placed (allOps streams)) := by
  unfold Activity.call call
  rw [show (a.placed (allOps streams)).heap = a.heap from rfl]
  cases Activity.readAll a.heap slots with
  | error error => rfl
  | ok arguments =>
    dsimp only
    rw [show (a.placed (allOps streams)).host = a.host from rfl]
    cases Activity.blocked? host a.host arguments with
    | some target => rfl
    | none =>
      cases Activity.ownEvent? method arguments with
      | none =>
        dsimp only
        cases host.call a.host method arguments with
        | mk result state => cases result <;> rfl
      | some event =>
        dsimp only
        rw [opens event]
        cases opening? streams event with
        | none => rfl
        | some start =>
          have length : (a.placed (allOps streams)).returns.length = a.returns.length :=
            List.length_map _
          rw [Option.map_some]
          dsimp only
          rw [length]
          split <;> rfl

theorem perform_placed (host : Host σ) (opens : Opens streams program) (a : Direct σ) {op : Op}
    {instruction : Instruction}
    (becomes : instruction? (addressOf (allOps streams)) op = some instruction)
    (targeted : ∀ target ∈ op.target?,
      target = .halt ∨ ∃ label ∈ marks (allOps streams), target = .label label) :
    Activity.perform program host (a.placed (allOps streams)) instruction =
      (perform streams host a op).map id (placed (allOps streams)) := by
  cases op with
  | label label => cases becomes
  | call method slots =>
    cases becomes
    exact call_placed opens { a with
      report := { a.report with externs := a.report.externs + 1 } } method slots
  | copy source destination =>
    cases becomes
    unfold Activity.perform perform
    dsimp only
    rw [show (a.placed (allOps streams)).heap = a.heap from rfl]
    cases a.heap[source]? with
    | none => rfl
    | some value =>
      dsimp only
      split <;> rfl
  | jump target =>
    cases becomes
    simp only [Activity.perform, perform, addressOf_eq (targeted target rfl)]
    rfl
  | jumpUnless condition target =>
    cases becomes
    simp only [Activity.perform, perform, placed, addressOf_eq (targeted target rfl)]
    cases a.heap[condition]? with
    | none => rfl
    | some value =>
      cases value with
      | bool holds => cases holds <;> rfl
      | _ => rfl

theorem call_inside (inside : a.Inside (allOps streams)) (method : String) (slots : List Slot) :
    (call streams host a method slots).2.Inside (allOps streams) := by
  unfold call
  split
  · exact inside
  · split
    · exact inside
    · split
      · exact inside
      · rename_i start opens
        split
        · exact inside
        · exact ⟨within_some.mpr (opening?_within opens),
            List.forall_mem_cons.mpr ⟨inside.place, inside.returns⟩⟩
    · split
      · exact ⟨inside.place, inside.returns⟩
      · exact ⟨inside.place, inside.returns⟩

theorem perform_inside (host : Host σ) (inside : a.Inside (allOps streams)) (op : Op) :
    (perform streams host a op).2.Inside (allOps streams) := by
  have jumped := fun target => behind_within (allOps streams) target
  cases op with
  | label label => exact inside
  | call method slots =>
    have counted : Inside (allOps streams)
        { a with report := { a.report with externs := a.report.externs + 1 } } :=
      ⟨inside.place, inside.returns⟩
    exact call_inside counted method slots
  | copy source destination =>
    unfold perform
    dsimp only
    split
    · exact inside
    · split
      · exact ⟨inside.place, inside.returns⟩
      · exact inside
  | jump target => exact ⟨jumped target, inside.returns⟩
  | jumpUnless condition target =>
    unfold perform
    dsimp only
    split
    · exact inside
    · exact inside
    · exact ⟨jumped target, inside.returns⟩
    · exact inside

/-! ## Runs -/

private theorem standing_dropWhile {address : Address} (standing : Standing code address ops) :
    Standing code address (ops.dropWhile Op.isLabel) := by
  induction ops with
  | nil => exact standing
  | cons op ops ih =>
    cases op with
    | label label => exact ih standing.skip
    | _ => exact standing

private theorem codeLength_dropWhile (ops : List Op) :
    codeLength (ops.dropWhile Op.isLabel) = codeLength ops := by
  induction ops with
  | nil => rfl
  | cons op ops ih =>
    cases op with
    | label label => exact ih
    | _ => rfl

theorem fetch_nil (code : List Op) (finished : ops.dropWhile Op.isLabel = []) :
    addressAt code (some ops) = codeLength code ∧
      (encoded (addressOf code) code)[addressAt code (some ops)]? = none := by
  have empty : codeLength ops = 0 := by
    rw [← codeLength_dropWhile, finished, codeLength_nil]
  have last : addressAt code (some ops) = codeLength code := by
    rw [addressAt, empty, Nat.sub_zero]
  refine ⟨last, List.getElem?_eq_none (Nat.le_of_eq ?_)⟩
  rw [last, Assembly.length_encoded]

/-- The next operation stands as an instruction where a run goes on, which is before the place behind the
operation. -/
theorem fetch_cons (inside : ops <:+ code) {op : Op} (next : ops.dropWhile Op.isLabel = op :: rest) :
    rest <:+ code ∧ op ∈ code ∧ addressAt code (some ops) + 1 = addressAt code (some rest) ∧
      ∃ instruction, instruction? (addressOf code) op = some instruction ∧
        (encoded (addressOf code) code)[addressAt code (some ops)]? = some instruction := by
  have emitted : op.isLabel = false := by
    have stops := List.head?_dropWhile_not Op.isLabel ops
    rw [next] at stops
    exact stops
  have ending : op :: rest <:+ code := next ▸ (List.dropWhile_suffix _).trans inside
  have length : codeLength ops = codeLength rest + 1 := by
    rw [← codeLength_dropWhile, next, codeLength_cons rest emitted]
  have bound := codeLength_le_of_suffix inside
  have standing := standing_dropWhile (standing_addressAt inside)
  rw [next] at standing
  have there : ∃ instruction, instruction? (addressOf code) op = some instruction := by
    cases op with
    | label label => cases emitted
    | _ => exact ⟨_, rfl⟩
  obtain ⟨instruction, becomes⟩ := there
  refine ⟨(List.suffix_cons op rest).trans ending, ending.subset List.mem_cons_self, ?_, instruction,
    becomes, standing.getElem? becomes⟩
  have behind : codeLength code - codeLength ops + 1 = codeLength code - codeLength rest := by omega
  exact behind

def Move.placed (code : List Op) : Move σ → Activity.Move σ
  | .finished => .finished
  | .exhausted => .astray (codeLength code)
  | .performed result after => .performed result (after.placed code)

section Assembled

variable (small : codeLength (allOps streams) < haltAddress)
  (targeted : ∀ target ∈ targets (allOps streams),
    target = .halt ∨ ∃ label ∈ marks (allOps streams), target = .label label)
  (opens : Opens streams program)
  (assembled : program.instructions = encoded (addressOf (allOps streams)) (allOps streams))

include small targeted opens assembled

theorem move_placed (host : Host σ) (inside : a.Inside (allOps streams)) :
    Activity.move program host (a.placed (allOps streams)) =
        (move streams host a).placed (allOps streams) ∧
      ∀ result after, move streams host a = .performed result after →
        after.Inside (allOps streams) := by
  have resumes := resumed_addressAt small a.place a.returns
  unfold Activity.move move
  rw [show (a.placed (allOps streams)).address = addressAt (allOps streams) a.place from rfl,
    show (a.placed (allOps streams)).returns = a.returns.map (addressAt (allOps streams)) from rfl,
    resumes, assembled]
  cases resumes : resumed a.place a.returns with
  | none => exact ⟨rfl, fun _ _ moves => by cases moves⟩
  | some next =>
    obtain ⟨ops, returns⟩ := next
    obtain ⟨ending, waiting⟩ := resumed_within inside.place inside.returns resumes
    rw [Option.map_some]
    dsimp only
    cases fetch : ops.dropWhile Op.isLabel with
    | nil =>
      obtain ⟨last, gone⟩ := fetch_nil (allOps streams) fetch
      rw [gone, last]
      exact ⟨rfl, fun _ _ moves => by cases moves⟩
    | cons op rest =>
      obtain ⟨onward, listed, behind, instruction, becomes, there⟩ := fetch_cons ending fetch
      rw [there, behind]
      let fetched : Direct σ := { a with
        place := some rest
        returns := returns
        report := { a.report with steps := a.report.steps + 1 } }
      have same := perform_placed host opens fetched becomes fun target jumps =>
        targeted target (List.mem_filterMap.mpr ⟨op, listed, jumps⟩)
      have stays := perform_inside host (a := fetched)
        ⟨within_some.mpr onward, waiting⟩ op
      constructor
      · exact congrArg (fun next => Activity.Move.performed next.1 next.2) same
      · intro result after moves
        cases moves
        exact stays

theorem run_placed (host : Host σ) {a : Direct σ} (budget left : Nat) (inside : a.Inside (allOps streams)) :
    Activity.run program program.instructions.toArray host budget left (a.placed (allOps streams)) =
      (run streams host budget left a).map id (placed (allOps streams)) := by
  obtain ⟨moves, stays⟩ := move_placed small targeted opens assembled host inside
  rw [Activity.run_eq, moves, run]
  cases moved : move streams host a with
  | finished => rfl
  | exhausted => rfl
  | performed result after =>
    cases left with
    | zero => rfl
    | succ left =>
      cases result with
      | error error => rfl
      | ok _ => exact run_placed host budget left (stays _ after moved)

end Assembled

end Direct

namespace Assembly

/-! ## Labels that are placed nowhere -/

def missing? (labels : List Label) : Target → Option Label
  | .halt => none
  | .label label => if label ∈ labels then none else some label

/-- The first label that is jumped to and placed nowhere. -/
def unplaced? (ops : List Op) : Option Label := (targets ops).findSome? (missing? (marks ops))

variable {ops rest : List Op} {label : Label}

theorem placed_of_missing? {target : Target} (found : missing? (marks ops) target = none) :
    target = .halt ∨ ∃ label ∈ marks ops, target = .label label := by
  cases target with
  | halt => exact Or.inl rfl
  | label label =>
    by_cases marked : label ∈ marks ops
    · exact Or.inr ⟨label, marked, rfl⟩
    · rw [missing?, if_neg marked] at found
      cases found

theorem resolve_of_missing {target : Target} (lost : missing? (marks ops) target = some label) :
    resolve (placements 0 ops) target = .error (.unresolvedLabel label) := by
  cases target with
  | halt => cases lost
  | label other =>
    rw [missing?] at lost
    split at lost
    · cases lost
    · rename_i absent
      cases lost
      have none : (placements 0 ops).reverse.lookup label = none := by
        rw [List.lookup_eq_none_iff]
        intro entry listed
        have marked : entry.1 ∈ marks ops := by
          rw [← placements_labels 0 ops]
          exact List.mem_map_of_mem (List.mem_reverse.mp listed)
        rw [bne_iff_ne]
        rintro rfl
        exact absent marked
      rw [resolve, none]

private theorem resolve_first (distinct : (marks ops).Nodup) {target : Target}
    {others : List Target}
    (first : (target :: others).findSome? (missing? (marks ops)) = some label) :
    resolve (placements 0 ops) target = .error (.unresolvedLabel label) ∨
      (∃ address, resolve (placements 0 ops) target = .ok address) ∧
        others.findSome? (missing? (marks ops)) = some label := by
  rw [List.findSome?_cons] at first
  cases found : missing? (marks ops) target with
  | some other =>
    rw [found] at first
    cases first
    exact Or.inl (resolve_of_missing found)
  | none =>
    rw [found] at first
    exact Or.inr ⟨⟨_, resolve_eq distinct (placed_of_missing? found)⟩, first⟩

theorem encode_of_unplaced (distinct : (marks ops).Nodup)
    (first : (targets rest).findSome? (missing? (marks ops)) = some label) :
    encode (placements 0 ops) rest = .error (.unresolvedLabel label) := by
  induction rest with
  | nil => cases first
  | cons op rest ih =>
    cases op with
    | label place => exact ih first
    | copy source destination =>
      rw [encode, ih first]
      rfl
    | call method slots =>
      rw [encode, ih first]
      rfl
    | jump target =>
      rcases resolve_first distinct first with lost | ⟨⟨address, found⟩, others⟩
      · simp only [encode, lost]
      · simp only [encode, found, ih others]
        rfl
    | jumpUnless condition target =>
      rcases resolve_first distinct first with lost | ⟨⟨address, found⟩, others⟩
      · simp only [encode, lost]
      · simp only [encode, found, ih others]
        rfl

/-- Streams whose labels are placed once at most are refused for the first label that is jumped to and
placed nowhere. If there is none, they become a program that runs every event as they do themselves. -/
theorem assemble_refines {streams : List Stream} (distinct : (marks (allOps streams)).Nodup)
    (small : codeLength (allOps streams) < haltAddress) (name : String) (updateOrder : Int32)
    (symbols : List Symbol) :
    match unplaced? (allOps streams) with
    | some label => assemble name updateOrder streams symbols = .error (.unresolvedLabel label)
    | none => ∃ program, assemble name updateOrder streams symbols = .ok program ∧
        ∀ {σ : Type} (host : Host σ) (state : σ) (heap : Array Value) (budget : Nat)
          (entry : String),
          Machine.run ⟨program, heap, budget⟩ host state entry =
            let (result, heap, state) := Direct.runEvent streams heap budget host state entry
            (result, ⟨program, heap, budget⟩, state) := by
  cases unplaced : unplaced? (allOps streams) with
  | some label =>
    dsimp only
    rw [assemble, encode_of_unplaced distinct unplaced]
  | none =>
    have targeted : ∀ target ∈ targets (allOps streams),
        target = .halt ∨ ∃ label ∈ marks (allOps streams), target = .label label :=
      fun target listed => placed_of_missing? (List.findSome?_eq_none_iff.mp unplaced target listed)
    refine ⟨_, assemble_eq distinct targeted name updateOrder symbols, ?_⟩
    intro σ host state heap budget entry
    generalize assembled : (⟨name, updateOrder, entries 0 streams,
      encoded (addressOf (allOps streams)) (allOps streams), symbols⟩ : Program) = program
    have opens : Direct.Opens streams program := by
      intro event
      have found := Direct.entries_find? 0 streams event
      simp only [Nat.zero_add] at found
      rw [← assembled]
      exact found
    unfold Machine.run Direct.runEvent
    dsimp only
    rw [opens entry]
    cases opening : Direct.opening? streams entry with
    | none => rfl
    | some start =>
      have inside : Direct.Inside (allOps streams)
          (⟨heap, state, some start, [], ⟨0, 0⟩⟩ : Direct σ) :=
        ⟨Direct.within_some.mpr (Direct.opening?_within opening), by simp⟩
      have same := Direct.run_placed small targeted opens (by rw [← assembled]) host
        budget budget inside
      simp only [Direct.placed, List.map_nil] at same
      simp only [Option.map_some, same]
      rfl

/-- An event that jumps ahead, back and into the code of another one, past labels next to each other and
one with nothing behind it. -/
def crossing : List Stream :=
  [⟨"first", [.label 0, .label 1, .jumpUnless 0 (.label 2), .copy 1 0, .jump (.label 1), .label 2,
      .jump (.label 3)]⟩,
    ⟨"empty", []⟩,
    ⟨"second", [.call sendEventMethod [2, 3], .label 3, .copy 1 0, .jump .halt, .label 4]⟩]

theorem assemble_refines_crossing : (marks (allOps crossing)).Nodup ∧
    codeLength (allOps crossing) < haltAddress ∧
    ∃ program, assemble "crossing" 0 crossing [] = .ok program ∧
      ∀ {σ : Type} (host : Host σ) (state : σ) (heap : Array Value) (budget : Nat) (entry : String),
        Machine.run ⟨program, heap, budget⟩ host state entry =
          let (result, heap, state) := Direct.runEvent crossing heap budget host state entry
          (result, ⟨program, heap, budget⟩, state) :=
  ⟨by decide, by decide, @assemble_refines crossing (by decide) (by decide) "crossing" 0 []⟩

/-- Of two labels that are placed nowhere, the one that is jumped to first is named. -/
example : assemble "lost" 0 [⟨"event", [.label 0, .jump (.label 7), .jump (.label 6)]⟩] [] =
    .error (.unresolvedLabel 7) := by
  rfl

end Assembly

end ScriptGraph
