import ScriptGraph.HeapLayout
import ScriptGraph.Proofs.Lookup

/-!
Requests for slots. A layout only ever grows: a slot once granted for a variable, an output or a
constant stays granted, no two of them share a slot, and each starts with the value it stands for.
-/

set_option autoImplicit false
set_option relaxedAutoImplicit false

namespace ScriptGraph.HeapLayout

/-- What a slot is granted for; scratch slots are granted for nothing. -/
inductive Key where
  | variable (uid : Uid)
  | output (uid : Uid) (index : Nat)
  | constant (type : String) (value : Value)
deriving DecidableEq

/-- The slot granted for a key. -/
def slot? (h : HeapLayout) : Key → Option Slot
  | .variable uid => h.variableSlots.lookup uid
  | .output uid index => h.outputs.lookup (uid, index)
  | .constant type value => h.constants.lookup (type, value)

/-- The value that the slot of an output or of a constant starts with. -/
def start? (h : HeapLayout) : Key → Option Value
  | .variable _ => none
  | .output uid index =>
    match h.outputType uid index with
    | .ok type => some (.defaultFor (some type))
    | .error _ => none
  | .constant _ value => some value

/-- A layout after further requests, none of them for a variable. -/
structure Grows (h later : HeapLayout) : Prop where
  types : later.outputTypes = h.outputTypes
  variableSlots : later.variableSlots = h.variableSlots
  kept : ∀ key slot, h.slot? key = some slot → later.slot? key = some slot
  fresh : ∀ (key : Key) (slot : Nat), later.slot? key = some slot →
    h.slot? key = some slot ∨ h.size ≤ slot
  symbols : ∃ more, later.symbols.toList = h.symbols.toList ++ more

/-- Every granted slot exists, belongs to one key only and starts with the value of its key. -/
structure Sound (h : HeapLayout) : Prop where
  bound : ∀ (key : Key) (slot : Nat), h.slot? key = some slot → slot < h.size
  injective : ∀ key other slot, h.slot? key = some slot → h.slot? other = some slot → key = other
  starts : ∀ key slot value, h.slot? key = some slot → h.start? key = some value →
    (h.symbols[slot]?).map Symbol.default = some value

namespace Grows

theorem refl (h : HeapLayout) : Grows h h :=
  ⟨rfl, rfl, fun _ _ granted => granted, fun _ _ granted => Or.inl granted, [], by simp⟩

theorem size_le {h later : HeapLayout} (grows : Grows h later) : h.size ≤ later.size := by
  obtain ⟨more, hmore⟩ := grows.symbols
  have hlength := congrArg List.length hmore
  simp only [Array.length_toList, List.length_append] at hlength
  simp only [HeapLayout.size]
  omega

theorem trans {h middle later : HeapLayout} (first : Grows h middle) (second : Grows middle later) :
    Grows h later := by
  obtain ⟨more, hmore⟩ := first.symbols
  obtain ⟨others, hothers⟩ := second.symbols
  refine ⟨second.types.trans first.types, second.variableSlots.trans first.variableSlots, ?_, ?_,
    more ++ others, by rw [hothers, hmore, List.append_assoc]⟩
  · intro key slot granted
    exact second.kept key slot (first.kept key slot granted)
  · intro key slot granted
    rcases second.fresh key slot granted with granted | above
    · exact first.fresh key slot granted
    · exact Or.inr (Nat.le_trans first.size_le above)

end Grows

/-! ## Adding a slot -/

/-- A layout with one slot more: a symbol at its end, granted for at most one key. -/
structure Adds (h : HeapLayout) (symbol : Symbol) (granted : Option Key) (later : HeapLayout) :
    Prop where
  types : later.outputTypes = h.outputTypes
  symbols : later.symbols = h.symbols.push symbol
  fresh : ∀ key, granted = some key → h.slot? key = none
  slots : ∀ key, later.slot? key = if granted = some key then some h.size else h.slot? key

namespace Adds

variable {h later : HeapLayout} {symbol : Symbol} {granted : Option Key}

theorem size_eq (adds : Adds h symbol granted later) : later.size = h.size + 1 := by
  simp only [HeapLayout.size, adds.symbols, Array.size_push]

theorem kept (adds : Adds h symbol granted later) {key : Key} {slot : Slot}
    (found : h.slot? key = some slot) : later.slot? key = some slot := by
  rw [adds.slots]
  split
  · rename_i hkey
    rw [adds.fresh key hkey] at found
    exact absurd found (by simp)
  · exact found

theorem grows (adds : Adds h symbol granted later)
    (unchanged : later.variableSlots = h.variableSlots) : Grows h later := by
  refine ⟨adds.types, unchanged, fun _ _ found => adds.kept found, ?_, [symbol], ?_⟩
  · intro key slot found
    rw [adds.slots] at found
    split at found
    · exact Or.inr (Nat.le_of_eq (Option.some.inj found))
    · exact Or.inl found
  · rw [adds.symbols, Array.toList_push]

theorem start?_eq (adds : Adds h symbol granted later) (key : Key) :
    later.start? key = h.start? key := by
  cases key with
  | «variable» _ => rfl
  | output uid index => simp only [start?, outputType, adds.types]
  | constant _ _ => rfl

theorem sound (adds : Adds h symbol granted later) (sound : Sound h)
    (starts : ∀ key value, granted = some key → h.start? key = some value →
      symbol.default = value) : Sound later := by
  refine ⟨?_, ?_, ?_⟩
  · intro key slot found
    rw [adds.slots] at found
    rw [adds.size_eq]
    split at found
    · obtain rfl := Option.some.inj found
      exact Nat.lt_succ_self _
    · exact Nat.lt_succ_of_lt (sound.bound key slot found)
  · intro key other slot found foundOther
    rw [adds.slots] at found foundOther
    split at found <;> split at foundOther
    · rename_i hkey hother
      exact Option.some.inj (hkey.symm.trans hother)
    · obtain rfl := Option.some.inj found
      exact absurd (sound.bound other _ foundOther) (Nat.lt_irrefl _)
    · obtain rfl := Option.some.inj foundOther
      exact absurd (sound.bound key _ found) (Nat.lt_irrefl _)
    · exact sound.injective key other slot found foundOther
  · intro key slot value found hvalue
    rw [adds.start?_eq] at hvalue
    rw [adds.slots] at found
    split at found
    · rename_i hkey
      simp only [Option.some.injEq] at found
      rw [adds.symbols, ← found, HeapLayout.size, Array.getElem?_push_size, Option.map_some,
        starts key value hkey hvalue]
    · have hlt := sound.bound key slot found
      have hstart := sound.starts key slot value found hvalue
      simp only [HeapLayout.size] at hlt
      rw [adds.symbols, Array.getElem?_push_lt hlt]
      rw [Array.getElem?_eq_getElem hlt] at hstart
      exact hstart

end Adds

/-! ## The requests -/

theorem nextName_slot? (h : HeapLayout) (stem : String) (key : Key) :
    (h.nextName stem).2.slot? key = h.slot? key := by
  cases key <;> rfl

theorem Adds.of_nextName {h later : HeapLayout} {symbol : Symbol} {granted : Option Key}
    {stem : String} (adds : Adds (h.nextName stem).2 symbol granted later) :
    Adds h symbol granted later := by
  refine ⟨adds.types, adds.symbols, ?_, ?_⟩
  · intro key hkey
    rw [← nextName_slot? h stem]
    exact adds.fresh key hkey
  · intro key
    rw [adds.slots, nextName_slot?]
    rfl

theorem addOutput_adds (h : HeapLayout) (uid : Uid) (index : Nat) (name type : String)
    (fresh : h.slot? (.output uid index) = none) :
    Adds h (internal name type (.defaultFor (some type))) (some (.output uid index))
      (h.addOutput uid index name type).2 := by
  refine ⟨rfl, rfl, ?_, ?_⟩
  · intro key hkey
    cases hkey
    exact fresh
  · intro key
    cases key with
    | «variable» _ => rfl
    | output other place =>
      have hgoal : (Key.output uid index = Key.output other place) =
          ((other, place) = (uid, index)) := by
        simp only [Key.output.injEq, Prod.mk.injEq, eq_comm]
      simp only [addOutput, push, slot?, Option.some.injEq, hgoal]
      exact lookup_cons_eq (uid, index) (other, place) h.size h.outputs
    | constant _ _ => rfl

/-- What a request for a slot of a key gives. -/
structure Grants (h : HeapLayout) (key : Key) (slot : Slot) (later : HeapLayout) : Prop where
  granted : later.slot? key = some slot
  grows : Grows h later
  sound : Sound h → Sound later

private theorem grants_of_adds {h later : HeapLayout} {symbol : Symbol} {key : Key}
    (adds : Adds h symbol (some key) later) (unchanged : later.variableSlots = h.variableSlots)
    (starts : ∀ value, h.start? key = some value → symbol.default = value) :
    Grants h key h.size later := by
  refine ⟨by rw [adds.slots, if_pos rfl], adds.grows unchanged, fun sound => ?_⟩
  refine adds.sound sound fun other value hother hvalue => ?_
  cases hother
  exact starts value hvalue

private theorem grants_of_found {h : HeapLayout} {key : Key} {slot : Slot}
    (found : h.slot? key = some slot) : Grants h key slot h :=
  ⟨found, Grows.refl h, id⟩

private theorem start?_output {h : HeapLayout} {uid : Uid} {index : Nat} {type : String}
    (typed : h.outputType uid index = .ok type) :
    h.start? (.output uid index) = some (.defaultFor (some type)) := by
  simp only [start?, typed]

theorem outputSlot_grants {h later : HeapLayout} {uid : Uid} {index : Nat} {slot : Slot}
    (given : h.outputSlot uid index = .ok (slot, later)) :
    Grants h (.output uid index) slot later := by
  unfold outputSlot at given
  cases typed : h.outputType uid index with
  | error error => simp [typed] at given
  | ok type =>
    simp only [typed] at given
    cases found : h.outputs.lookup (uid, index) with
    | some old =>
      simp only [found, Except.ok.injEq, Prod.mk.injEq] at given
      obtain ⟨rfl, rfl⟩ := given
      exact grants_of_found found
    | none =>
      simp only [found, Except.ok.injEq] at given
      obtain ⟨rfl, rfl⟩ := Prod.mk.inj given
      have adds := addOutput_adds (h.nextName (intermediateStem ++ type)).2 uid index
        (h.nextName (intermediateStem ++ type)).1 type found
      refine grants_of_adds adds.of_nextName rfl ?_
      intro value hvalue
      rw [start?_output typed] at hvalue
      exact Option.some.inj hvalue

theorem namedOutputSlot_grants {h later : HeapLayout} {uid : Uid} {index : Nat} {name : String}
    {slot : Slot} (given : h.namedOutputSlot uid index name = .ok (slot, later)) :
    Grants h (.output uid index) slot later := by
  unfold namedOutputSlot at given
  cases typed : h.outputType uid index with
  | error error => simp [typed] at given
  | ok type =>
    simp only [typed] at given
    cases found : h.outputs.lookup (uid, index) with
    | some old =>
      simp only [found, Except.ok.injEq, Prod.mk.injEq] at given
      obtain ⟨rfl, rfl⟩ := given
      exact grants_of_found found
    | none =>
      simp only [found, Except.ok.injEq] at given
      obtain ⟨rfl, rfl⟩ := Prod.mk.inj given
      refine grants_of_adds (addOutput_adds h uid index _ type found) rfl ?_
      intro value hvalue
      rw [start?_output typed] at hvalue
      exact Option.some.inj hvalue

theorem addConstant_adds (h : HeapLayout) (type : String) (value : Value)
    (fresh : h.slot? (.constant type value) = none) :
    Adds h (internal (h.nextName (constantStem ++ type)).1 type value)
      (some (.constant type value))
      { (h.nextName (constantStem ++ type)).2 with
        symbols := h.symbols.push (internal (h.nextName (constantStem ++ type)).1 type value)
        constants := ((type, value), h.size) :: h.constants } := by
  refine ⟨rfl, rfl, ?_, ?_⟩
  · intro key hkey
    cases hkey
    exact fresh
  · intro key
    cases key with
    | «variable» _ => rfl
    | output _ _ => rfl
    | constant other item =>
      have hgoal : (Key.constant type value = Key.constant other item) =
          ((other, item) = (type, value)) := by
        simp only [Key.constant.injEq, Prod.mk.injEq, eq_comm]
      simp only [slot?, Option.some.injEq, hgoal]
      exact lookup_cons_eq (type, value) (other, item) h.size h.constants

theorem constantSlot_grants (h : HeapLayout) (type : String) (value : Value) :
    Grants h (.constant type value) (h.constantSlot type value).1
      (h.constantSlot type value).2 := by
  unfold constantSlot
  cases found : h.constants.lookup (type, value) with
  | some slot => exact grants_of_found found
  | none =>
    exact grants_of_adds (addConstant_adds h type value found) rfl
      fun start hstart => Option.some.inj hstart

theorem scratchSlot_adds (h : HeapLayout) (type : String) :
    ∃ symbol, Adds h symbol none (h.scratchSlot type).2 ∧ (h.scratchSlot type).1 = h.size ∧
      symbol.default = .defaultFor (some type) := by
  refine ⟨internal (h.nextName (intermediateStem ++ type)).1 type (.defaultFor (some type)),
    ⟨rfl, rfl, by simp, ?_⟩, rfl, rfl⟩
  intro key
  rw [if_neg (by simp)]
  cases key <;> rfl

end ScriptGraph.HeapLayout
