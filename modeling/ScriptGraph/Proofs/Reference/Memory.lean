import ScriptGraph.Proofs.Lowering.Pieces
import ScriptGraph.Proofs.Machine.Steps

/-!
Places in memory. Every place of the world stands in a slot of the heap, and what is written to the
one is written to the other. What nodes keep for themselves has slots of its own.
-/

set_option autoImplicit false
set_option relaxedAutoImplicit false

namespace ScriptGraph.Reference

open Activity (readAll storeAll)
open Lowering (Register)

def Place.isWritable : Place → Bool
  | .literal _ => false
  | .cell _ => true

variable {σ : Type}

namespace World

theorem get_set (w : World σ) {place : Place} (writable : place.isWritable) (value : Value)
    (other : Place) :
    (w.set place value).get other = if other = place then value else w.get other := by
  cases place with
  | literal _ => cases writable
  | cell cell => cases other <;> simp [set, get]

@[simp] theorem set_host (w : World σ) (place : Place) (value : Value) :
    (w.set place value).host = w.host := by
  cases place <;> rfl

@[simp] theorem set_externs (w : World σ) (place : Place) (value : Value) :
    (w.set place value).externs = w.externs := by
  cases place <;> rfl

@[simp] theorem setAll_host (w : World σ) (places : List Place) (values : List Value) :
    (w.setAll places values).host = w.host := by
  induction places generalizing w values with
  | nil => rfl
  | cons place places ih => cases values <;> simp [setAll, ih]

@[simp] theorem setAll_externs (w : World σ) (places : List Place) (values : List Value) :
    (w.setAll places values).externs = w.externs := by
  induction places generalizing w values with
  | nil => rfl
  | cons place places ih => cases values <;> simp [setAll, ih]

end World

/-- The slots where places stand, no two places in one and a place that may be written to in one only,
and those that are left to nodes, each of them to one register of one node. -/
structure Memory where
  stands : Place → Slot → Prop
  keeps : Site → Register → Slot → Prop
  injective : ∀ {place other slot}, stands place slot → stands other slot → place = other
  functional : ∀ {place slot other}, place.isWritable → stands place slot → stands place other →
    slot = other
  apart : ∀ {site name place slot}, keeps site name slot → ¬stands place slot
  single : ∀ {site other name also slot}, keeps site name slot → keeps other also slot →
    site = other ∧ name = also

namespace Memory

/-- Whether every slot holds what its place does, and there are slots for the registers. -/
structure Holds (M : Memory) (w : World σ) (heap : Array Value) : Prop where
  places : ∀ place (slot : Nat), M.stands place slot → heap[slot]? = some (w.get place)
  room : ∀ site name (slot : Nat), M.keeps site name slot → slot < heap.size

namespace Holds

variable {M : Memory} {w : World σ} {heap : Array Value}

theorem set (holds : M.Holds w heap) {place : Place} {slot : Nat} (stands : M.stands place slot)
    (writable : place.isWritable) (value : Value) :
    M.Holds (w.set place value) (heap.setIfInBounds slot value) := by
  refine ⟨fun other target found => ?_, fun site name target kept => ?_⟩
  · rw [w.get_set writable]
    by_cases same : other = place
    · subst same
      obtain rfl := M.functional writable stands found
      have inside := (Array.getElem?_eq_some_iff.mp (holds.places other slot stands)).1
      rw [if_pos rfl, Array.getElem?_setIfInBounds_self_of_lt inside]
    · have apart : slot ≠ target := by
        rintro rfl
        exact same (M.injective found stands)
      rw [if_neg same, Array.getElem?_setIfInBounds_ne apart]
      exact holds.places other target found
  · rw [Array.size_setIfInBounds]
    exact holds.room site name target kept

theorem setAll (holds : M.Holds w heap) {places : List Place} {slots : List Slot}
    (stand : List.Forall₂ M.stands places slots) (writable : ∀ place ∈ places, place.isWritable)
    (values : List Value) : M.Holds (w.setAll places values) (storeAll heap slots values) := by
  induction stand generalizing w heap values with
  | nil => cases values <;> exact holds
  | cons stands _ ih =>
    rw [List.forall_mem_cons] at writable
    cases values with
    | nil => exact holds
    | cons value values => exact ih (holds.set stands writable.1 value) writable.2 values

theorem keep (holds : M.Holds w heap) {site : Site} {name : Register} {slot : Nat}
    (kept : M.keeps site name slot) (value : Value) : M.Holds w (heap.setIfInBounds slot value) := by
  refine ⟨fun place target found => ?_, fun site name target kept => ?_⟩
  · have apart : slot ≠ target := by
      rintro rfl
      exact M.apart kept found
    rw [Array.getElem?_setIfInBounds_ne apart]
    exact holds.places place target found
  · rw [Array.size_setIfInBounds]
    exact holds.room site name target kept

theorem called (holds : M.Holds w heap) (state : σ) (externs : Nat) :
    M.Holds ⟨w.cells, state, externs⟩ heap :=
  ⟨fun place slot found => by cases place <;> exact holds.places _ slot found, holds.room⟩

end Holds

end Memory

/-! ## Slots that show places -/

section Shown

variable {w : World σ} {heap : Array Value} {places : List Place} {slots : List Slot}
  (shown : List.Forall₂ (fun place (slot : Nat) => heap[slot]? = some (w.get place)) places slots)

include shown

theorem readAll_of_shown : readAll heap slots = .ok (places.map w.get) := by
  induction shown with
  | nil => rfl
  | cons found _ ih =>
    rw [readAll, found, ih]
    rfl

theorem storeAll_of_shown (more : List Slot) {values : List Value}
    (kept : ∀ index value, index < places.length → values[index]? = some value →
      (places.map w.get)[index]? = some value) :
    storeAll heap (slots ++ more) values = storeAll heap more (values.drop places.length) := by
  rw [shown.length_eq] at kept ⊢
  exact Activity.storeAll_held (Activity.readAll_eq_ok.mp (readAll_of_shown shown)) more kept

end Shown

end ScriptGraph.Reference
