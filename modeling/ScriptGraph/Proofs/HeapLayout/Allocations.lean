import ScriptGraph.Proofs.HeapLayout.Variables
import Mathlib.Data.List.Basic
import Mathlib.Data.Nat.Init

/-!
Demands in any order. Slots are demanded for variables, outputs, constants and for nothing, and demands
may be refused; the answers to two of them are one slot exactly when both are for one key. What carries
this over a list of demands is that a slot, once it has been handed out, has the owner it was handed out
for and no other.
-/

set_option autoImplicit false
set_option relaxedAutoImplicit false

namespace ScriptGraph.HeapLayout

/-- What can be demanded of a layout. -/
inductive Demand where
  | variable (n : Node)
  | output (uid : Uid) (index : Nat)
  | namedOutput (uid : Uid) (index : Nat) (name : String)
  | constant (type : String) (value : Value)
  | scratch (type : String)

/-- The key that a slot is demanded for; the name of an output makes no difference. -/
def Demand.key? : Demand → Option Key
  | .variable n => some (.variable n.uid)
  | .output uid index => some (.output uid index)
  | .namedOutput uid index _ => some (.output uid index)
  | .constant type value => some (.constant type value)
  | .scratch _ => none

/-- The slot for a demand and the layout with it. -/
def grant (h : HeapLayout) : Demand → Except CompileError (Slot × HeapLayout)
  | .variable n => .ok (h.variableSlot n)
  | .output uid index => h.outputSlot uid index
  | .namedOutput uid index name => h.namedOutputSlot uid index name
  | .constant type value => .ok (h.constantSlot type value)
  | .scratch type => .ok (h.scratchSlot type)

/-- The answer to a demand and the layout after it, the same if the demand is refused. -/
def serve (h : HeapLayout) (demand : Demand) : Except CompileError Slot × HeapLayout :=
  match h.grant demand with
  | .ok (slot, later) => (.ok slot, later)
  | .error error => (.error error, h)

/-- The layout after the first demands of a list. -/
def after (h : HeapLayout) (demands : List Demand) (count : Nat) : HeapLayout :=
  (demands.take count).foldl (fun h demand => (h.serve demand).2) h

/-- The demand at an index of a list and the answer that it gets when its turn comes. -/
def Answers (h : HeapLayout) (demands : List Demand) (index : Nat) (demand : Demand)
    (answer : Except CompileError Slot) : Prop :=
  demands[index]? = some demand ∧ ((h.after demands index).serve demand).1 = answer

/-! ## One demand -/

/-- How a demand is served: it is refused for want of the output, what has been handed out is found, or a
slot is added. -/
inductive Serves (h : HeapLayout) (demand : Demand) : Except CompileError Slot → HeapLayout → Prop
  | refused {uid : Uid} {index : Nat} {error : CompileError}
    (asked : demand.key? = some (.output uid index)) (absent : h.outputType uid index = .error error) :
    Serves h demand (.error error) h
  | known {key : Key} {slot : Slot} (asked : demand.key? = some key)
    (found : h.slot? key = some slot) : Serves h demand (.ok slot) h
  | added {symbol : Symbol} {later : HeapLayout} (adds : Adds h symbol demand.key? later)
    (starts : ∀ key value, demand.key? = some key → h.start? key = some value →
      symbol.default = value) : Serves h demand (.ok h.size) later

section Step

variable {h later : HeapLayout} {demand : Demand} {answer : Except CompileError Slot}
  {owner : Option Key} {slot : Slot}

private theorem start?_output_eq {uid : Uid} {index : Nat} {type : String}
    (typed : h.outputType uid index = .ok type) {key : Key} {value : Value}
    (asked : some (Key.output uid index) = some key) (starts : h.start? key = some value) :
    Value.defaultFor (some type) = value := by
  cases asked
  rw [start?, typed] at starts
  exact Option.some.inj starts

theorem serve_serves (h : HeapLayout) (demand : Demand) :
    Serves h demand (h.serve demand).1 (h.serve demand).2 := by
  cases demand with
  | «variable» n =>
    cases found : h.variableSlots.lookup n.uid with
    | some slot =>
      have given : h.variableSlot n = (slot, h) := by simp only [variableSlot, found]
      rw [serve, grant, given]
      exact .known rfl found
    | none =>
      have given : (h.variableSlot n).1 = h.size := by simp only [variableSlot, found, push]
      change Serves h _ (.ok (h.variableSlot n).1) (h.variableSlot n).2
      rw [given]
      refine .added (variableSlot_adds found) fun key value asked starts => ?_
      cases asked
      cases starts
  | output uid index =>
    rw [serve, grant, outputSlot]
    cases typed : h.outputType uid index with
    | error error => exact .refused rfl typed
    | ok type =>
      cases found : h.outputs.lookup (uid, index) with
      | some slot => exact .known rfl found
      | none =>
        exact .added (addOutput_adds (h.nextName _).2 uid index _ type found).of_nextName
          fun key value => start?_output_eq typed
  | namedOutput uid index name =>
    rw [serve, grant, namedOutputSlot]
    cases typed : h.outputType uid index with
    | error error => exact .refused rfl typed
    | ok type =>
      cases found : h.outputs.lookup (uid, index) with
      | some slot => exact .known rfl found
      | none =>
        exact .added (addOutput_adds h uid index _ type found) fun key value => start?_output_eq typed
  | constant type value =>
    rw [serve, grant, constantSlot]
    cases found : h.constants.lookup (type, value) with
    | some slot => exact .known rfl found
    | none =>
      refine .added (addConstant_adds h type value found) fun key start asked starts => ?_
      cases asked
      exact Option.some.inj starts
  | scratch type =>
    obtain ⟨symbol, adds, -, -⟩ := scratchSlot_adds h type
    refine .added adds fun key value asked starts => ?_
    cases asked

/-- A slot that has been handed out, and the key that it is for; a scratch slot is for none. -/
structure Owned (h : HeapLayout) (owner : Option Key) (slot : Slot) : Prop where
  inside : slot < h.size
  owner_iff : ∀ key, h.slot? key = some slot ↔ owner = some key

namespace Serves

theorem types (serves : Serves h demand answer later) : later.outputTypes = h.outputTypes := by
  cases serves with
  | refused _ _ => rfl
  | known _ _ => rfl
  | added adds _ => exact adds.types

theorem sound (serves : Serves h demand answer later) (sound : Sound h) : Sound later := by
  cases serves with
  | refused _ _ => exact sound
  | known _ _ => exact sound
  | added adds starts => exact adds.sound sound starts

theorem unchanged {error : CompileError} (serves : Serves h demand (.error error) later) :
    later = h := by
  cases serves with
  | refused _ _ => rfl

theorem symbols (serves : Serves h demand answer later) (inside : slot < h.size) :
    slot < later.size ∧ later.symbols[slot]? = h.symbols[slot]? := by
  cases serves with
  | refused _ _ => exact ⟨inside, rfl⟩
  | known _ _ => exact ⟨inside, rfl⟩
  | added adds _ =>
    refine ⟨adds.size_eq ▸ Nat.lt_succ_of_lt inside, ?_⟩
    rw [adds.symbols, Array.getElem?_push_lt inside, Array.getElem?_eq_getElem inside]

theorem owned (serves : Serves h demand answer later) (owned : Owned h owner slot) :
    Owned later owner slot := by
  cases serves with
  | refused _ _ => exact owned
  | known _ _ => exact owned
  | added adds _ =>
    refine ⟨adds.size_eq ▸ Nat.lt_succ_of_lt owned.inside, fun key => ?_⟩
    rw [adds.slots, ← owned.owner_iff]
    split
    · rename_i asked
      have other : h.size ≠ slot := Nat.ne_of_gt owned.inside
      simp only [Option.some.injEq, other, adds.fresh key asked, reduceCtorEq]
    · rfl

theorem handed (serves : Serves h demand (.ok slot) later) (sound : Sound h) :
    Owned later demand.key? slot := by
  cases serves with
  | known asked found =>
    refine ⟨sound.bound _ _ found, fun key => ?_⟩
    rw [asked, Option.some.injEq]
    exact ⟨sound.injective _ _ _ found, fun same => same ▸ found⟩
  | added adds _ =>
    refine ⟨adds.size_eq ▸ Nat.lt_succ_self _, fun key => ?_⟩
    rw [adds.slots]
    split
    · rename_i asked
      simp only [asked]
    · rename_i other
      refine ⟨fun found => absurd (sound.bound key _ found) (Nat.lt_irrefl _), fun asked => ?_⟩
      exact absurd asked other

theorem scratch (serves : Serves h demand (.ok slot) later) (keyless : demand.key? = none) :
    h.size ≤ slot := by
  cases serves with
  | known asked _ => cases keyless.symm.trans asked
  | added _ _ => exact Nat.le_refl _

theorem again {key : Key} {other : Slot} (serves : Serves h demand (.ok slot) later)
    (asked : demand.key? = some key) (found : h.slot? key = some other) : slot = other := by
  cases serves with
  | known asked' found' =>
    cases asked.symm.trans asked'
    exact Option.some.inj (found'.symm.trans found)
  | added adds _ =>
    rw [adds.fresh key asked] at found
    cases found

end Serves

theorem serve_eq_error_iff {error : CompileError} : (h.serve demand).1 = .error error ↔
    ∃ uid index, demand.key? = some (.output uid index) ∧ h.outputType uid index = .error error := by
  constructor
  · intro refused
    generalize served : (h.serve demand).2 = later
    have serves := serve_serves h demand
    rw [refused, served] at serves
    cases serves with
    | refused asked absent => exact ⟨_, _, asked, absent⟩
  · rintro ⟨uid, index, asked, absent⟩
    cases demand with
    | output _ _ =>
      cases asked
      simp only [serve, grant, outputSlot, absent]
    | namedOutput _ _ _ =>
      cases asked
      simp only [serve, grant, namedOutputSlot, absent]
    | «variable» _ => cases asked
    | constant _ _ => cases asked
    | scratch _ => cases asked

end Step

/-! ## Lists of demands -/

section Run

variable {h : HeapLayout} {demands : List Demand}

theorem after_succ {index : Nat} {demand : Demand} (listed : demands[index]? = some demand) :
    h.after demands (index + 1) = ((h.after demands index).serve demand).2 := by
  rw [after, List.take_add_one, listed, Option.toList_some, List.foldl_concat]
  rfl

theorem after_keeps {P : HeapLayout → Prop}
    (step : ∀ h demand, P h → P (h.serve demand).2) {first last : Nat} (order : first ≤ last)
    (start : P (h.after demands first)) : P (h.after demands last) := by
  induction last, order using Nat.le_induction with
  | base => exact start
  | succ index _ ih =>
    cases listed : demands[index]? with
    | none =>
      rw [after, List.take_add_one, listed, Option.toList_none, List.append_nil]
      exact ih
    | some demand =>
      rw [after_succ listed]
      exact step _ demand ih

theorem after_sound (sound : Sound h) (count : Nat) : Sound (h.after demands count) :=
  after_keeps (fun h demand => (serve_serves h demand).sound) (Nat.zero_le count) sound

theorem after_outputType (count : Nat) (uid : Uid) (index : Nat) :
    (h.after demands count).outputType uid index = h.outputType uid index := by
  have types : (h.after demands count).outputTypes = h.outputTypes :=
    after_keeps (P := fun later => later.outputTypes = h.outputTypes)
      (fun h demand => ((serve_serves h demand).types.trans ·)) (Nat.zero_le count) rfl
  rw [outputType, outputType, types]

theorem after_symbols {first last : Nat} {slot : Slot} (order : first ≤ last)
    (inside : slot < (h.after demands first).size) :
    slot < (h.after demands last).size ∧
      (h.after demands last).symbols[slot]? = (h.after demands first).symbols[slot]? :=
  after_keeps (P := fun later => slot < later.size ∧
      later.symbols[slot]? = (h.after demands first).symbols[slot]?)
    (fun h demand ⟨inside, same⟩ =>
      let ⟨inside, kept⟩ := (serve_serves h demand).symbols inside
      ⟨inside, kept.trans same⟩) order ⟨inside, rfl⟩

variable {i j : Nat} {r s : Demand} {a b : Slot}

theorem Answers.serves {answer : Except CompileError Slot} (answers : h.Answers demands i r answer) :
    Serves (h.after demands i) r answer (h.after demands (i + 1)) := by
  obtain ⟨listed, rfl⟩ := answers
  rw [after_succ listed]
  exact serve_serves _ r

theorem Answers.owned (answers : h.Answers demands i r (.ok a)) (sound : Sound h) (later : i < j) :
    Owned (h.after demands j) r.key? a :=
  after_keeps (fun h demand => (serve_serves h demand).owned) later
    (answers.serves.handed (after_sound sound i))

theorem Answers.same_iff (first : h.Answers demands i r (.ok a)) (second : h.Answers demands j s (.ok b))
    (sound : Sound h) (order : i < j) : a = b ↔ ∃ key, r.key? = some key ∧ s.key? = some key := by
  have owned := first.owned sound order
  constructor
  · rintro rfl
    cases asked : s.key? with
    | none => exact absurd owned.inside (Nat.not_lt_of_le (second.serves.scratch asked))
    | some key =>
      have owner := first.owned sound (Nat.lt_succ_of_lt order)
      have other := second.serves.handed (after_sound sound j)
      exact ⟨key, (owner.owner_iff key).mp ((other.owner_iff key).mpr asked), rfl⟩
  · rintro ⟨key, asked, again⟩
    exact (second.serves.again again ((owned.owner_iff key).mpr asked)).symm

end Run

/-- Whatever is demanded in whatever order from the layout of a graph: two answers are one slot exactly
when they answer one demand or two demands for one key, which no demand for a scratch slot is; the slots
that exist stay, and so do their symbols; and what is refused is just the outputs that do not exist, and
changes nothing. -/
theorem ofGraph_answers (c : Catalog) (g : Graph) (demands : List Demand) :
    (∀ i j r s a b, (ofGraph c g).Answers demands i r (.ok a) →
      (ofGraph c g).Answers demands j s (.ok b) →
      (a = b ↔ i = j ∨ ∃ key, r.key? = some key ∧ s.key? = some key)) ∧
    (∀ i r a, (ofGraph c g).Answers demands i r (.ok a) →
      a < ((ofGraph c g).after demands (i + 1)).size) ∧
    (∀ i j slot, i ≤ j → slot < ((ofGraph c g).after demands i).size →
      slot < ((ofGraph c g).after demands j).size ∧
      ((ofGraph c g).after demands j).symbols[slot]? =
        ((ofGraph c g).after demands i).symbols[slot]?) ∧
    (∀ i r error, demands[i]? = some r → ((ofGraph c g).Answers demands i r (.error error) ↔
      ∃ uid index, r.key? = some (.output uid index) ∧
        (ofGraph c g).outputType uid index = .error error)) ∧
    ∀ i r error, (ofGraph c g).Answers demands i r (.error error) →
      (ofGraph c g).after demands (i + 1) = (ofGraph c g).after demands i := by
  have sound := ofGraph_sound c g
  refine ⟨fun i j r s a b first second => ?_, fun i r a answers => ?_, fun i j slot => after_symbols,
    fun i r error listed => ?_, fun i r error answers => answers.serves.unchanged⟩
  · rcases Nat.lt_trichotomy i j with before | rfl | after
    · rw [first.same_iff second sound before, or_iff_right (Nat.ne_of_lt before)]
    · have same : a = b := by
        obtain ⟨listed, answer⟩ := first
        obtain ⟨again, other⟩ := second
        cases listed.symm.trans again
        exact Except.ok.inj (answer.symm.trans other)
      exact iff_of_true same (.inl rfl)
    · rw [eq_comm, second.same_iff first sound after, or_iff_right (Nat.ne_of_gt after)]
      simp only [and_comm]
  · exact (answers.owned sound (Nat.lt_succ_self i)).inside
  · rw [Answers, and_iff_right listed, serve_eq_error_iff]
    simp only [after_outputType]

def sampling : Catalog :=
  ⟨[⟨"Sample", "Sample", none, [], [⟨"value", some singleType, .null⟩], false, [], []⟩]⟩

def sampled : Graph := { Graph.empty "sampled" with
  nodes := [
    ⟨"level", Kind.variablePrefix ++ singleType, .origin,
      [.null, .text "level", .bool false, .bool false, .text "none"], [none, none, none, none, none], []⟩,
    ⟨"sample", "Sample", .origin, [], [], []⟩] }

/-- Demands of all kinds: for an output under two names and for one that is missing, for two zeros, for
what is no number, and for variables. -/
def mixed : List Demand := [
  .namedOutput "sample" 0 "level", .constant singleType (.single ⟨0⟩), .scratch singleType,
  .output "sample" 1, .output "sample" 0, .constant singleType (.single ⟨0x80000000⟩),
  .constant singleType (.single ⟨0x7fc00001⟩), .variable ⟨"level", "", .origin, [], [], []⟩,
  .constant singleType (.single ⟨0x7fc00001⟩), .variable ⟨"other", "", .origin, [], [], []⟩]

/-- The answers to the demands, and the two demands for one output among them. -/
theorem ofGraph_answers_mixed :
    ((List.range mixed.length).filterMap fun i =>
        mixed[i]?.map fun r => (((ofGraph sampling sampled).after mixed i).serve r).1.toOption) =
      [some 1, some 2, some 3, none, some 1, some 4, some 5, some 0, some 5, some 6] ∧
    (ofGraph sampling sampled).Answers mixed 0 (.namedOutput "sample" 0 "level") (.ok 1) ∧
    (ofGraph sampling sampled).Answers mixed 4 (.output "sample" 0) (.ok 1) ∧
    ((1 : Slot) = 1 ↔ 0 = 4 ∨ ∃ key, (Demand.namedOutput "sample" 0 "level").key? = some key ∧
      (Demand.output "sample" 0).key? = some key) := by
  have first : (ofGraph sampling sampled).Answers mixed 0 (.namedOutput "sample" 0 "level") (.ok 1) :=
    ⟨rfl, by decide +kernel⟩
  have second : (ofGraph sampling sampled).Answers mixed 4 (.output "sample" 0) (.ok 1) :=
    ⟨rfl, by decide +kernel⟩
  exact ⟨by decide +kernel, first, second,
    (ofGraph_answers sampling sampled mixed).1 0 4 _ _ 1 1 first second⟩

end ScriptGraph.HeapLayout
