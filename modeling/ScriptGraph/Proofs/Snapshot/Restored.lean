import ScriptGraph.Proofs.Lookup
import ScriptGraph.Snapshot

/-!
Restoring a node. What it is connected to afterwards exists, nothing is connected that was not before,
and literals that fit their types are kept.
-/

set_option autoImplicit false
set_option relaxedAutoImplicit false

namespace ScriptGraph

theorem mem_of_mem_fitted {α : Type} {length : Nat} {entries : List (Option α)} {entry : α}
    (listed : some entry ∈ fitted length entries) : some entry ∈ entries := by
  rcases List.mem_append.mp listed with listed | listed
  · exact List.mem_of_mem_take listed
  · exact absurd (List.eq_of_mem_replicate listed) (by simp)

private theorem mem_of_fillFirst? {α : Type} {entry other : α} {entries filled : List (Option α)}
    (fills : fillFirst? entry entries = some filled) (listed : some other ∈ filled) :
    other = entry ∨ some other ∈ entries := by
  induction entries generalizing filled with
  | nil => simp [fillFirst?] at fills
  | cons first entries ih =>
    cases first with
    | none =>
      obtain rfl := Option.some.inj fills
      rcases List.mem_cons.mp listed with same | listed
      · exact Or.inl (Option.some.inj same)
      · exact Or.inr (List.mem_cons_of_mem _ listed)
    | some kept =>
      obtain ⟨rest, hrest, rfl⟩ := Option.map_eq_some_iff.mp fills
      rcases List.mem_cons.mp listed with same | listed
      · exact Or.inr (same ▸ List.mem_cons_self)
      · exact (ih hrest listed).imp_right (List.mem_cons_of_mem _)

private theorem mem_of_mem_fillAbsent {α : Type} {other : α} {more : List α}
    {entries : List (Option α)} (listed : some other ∈ (fillAbsent entries more).1) :
    some other ∈ entries ∨ other ∈ more := by
  induction more generalizing entries with
  | nil => exact Or.inl listed
  | cons entry more ih =>
    rw [fillAbsent] at listed
    cases fills : fillFirst? entry entries with
    | none =>
      simp only [fills] at listed
      exact (ih listed).imp_right (List.mem_cons_of_mem _)
    | some filled =>
      simp only [fills] at listed
      rcases ih listed with listed | listed
      · rcases mem_of_fillFirst? fills listed with rfl | listed
        · exact Or.inr List.mem_cons_self
        · exact Or.inl listed
      · exact Or.inr (List.mem_cons_of_mem _ listed)

namespace Node

theorem mem_of_mem_laidOut {d : Definition} {flows : List (Option Uid)} {target : Uid}
    (listed : some target ∈ (laidOut d flows).1) : some target ∈ flows := by
  unfold laidOut at listed
  split at listed
  · exact (List.mem_filter.mp (mem_of_mem_fitted listed)).1
  · rcases mem_of_mem_fillAbsent (mem_of_mem_fitted listed) with listed | listed
    · exact List.mem_of_mem_take listed
    · obtain ⟨flow, hflow, hsame⟩ := List.mem_filterMap.mp listed
      obtain rfl : flow = some target := hsame
      exact List.mem_of_mem_drop hflow

theorem mendLink_eq_some {terminals : List (Uid × Terminal)} {uid : Uid} {old link : Link}
    (mends : mendLink terminals uid old = some link) :
    ∃ terminal, terminals.lookup link.node = some terminal ∧ link.output < terminal.outputs := by
  unfold mendLink at mends
  cases found : terminals.lookup old.node with
  | none => simp [found] at mends
  | some terminal =>
    simp only [found] at mends
    split at mends
    · cases mends
    · split at mends
      · rename_i inside
        cases mends
        exact ⟨terminal, found, inside⟩
      · split at mends
        · rename_i nonempty
          cases mends
          exact ⟨terminal, found, nonempty⟩
        · cases mends

theorem mendFlow_eq_some {terminals : List (Uid × Terminal)} {uid old target : Uid}
    (mends : mendFlow terminals uid old = some target) :
    ∃ terminal, terminals.lookup target = some terminal ∧ terminal.flowInput := by
  unfold mendFlow at mends
  split at mends
  · rename_i live
    cases mends
    exact (Option.any_eq_true _ _).mp live.2
  · cases mends

variable {terminals : List (Uid × Terminal)} {d : Definition} {n : Node}

@[simp] theorem restored_uid : (n.restored terminals d).uid = n.uid := rfl
@[simp] theorem restored_fullName : (n.restored terminals d).fullName = n.fullName := rfl
@[simp] theorem restored_kind : (n.restored terminals d).kind = n.kind := rfl
@[simp] theorem restored_access? : (n.restored terminals d).access? = n.access? := rfl
@[simp] theorem restored_isVariable : (n.restored terminals d).isVariable = n.isVariable := rfl

theorem restored_links {link : Link} (listed : some link ∈ (n.restored terminals d).links) :
    ∃ terminal, terminals.lookup link.node = some terminal ∧ link.output < terminal.outputs := by
  obtain ⟨entry, -, mends⟩ := List.mem_map.mp (mem_of_mem_fitted listed)
  obtain ⟨old, -, mends⟩ := Option.bind_eq_some_iff.mp mends
  exact mendLink_eq_some mends

theorem restored_apart {link : Link} (listed : some link ∈ (n.restored terminals d).links) :
    link.node ≠ n.uid := by
  obtain ⟨entry, -, mends⟩ := List.mem_map.mp (mem_of_mem_fitted listed)
  obtain ⟨old, -, mends⟩ := Option.bind_eq_some_iff.mp mends
  unfold mendLink at mends
  split at mends
  · cases mends
  · split at mends
    · cases mends
    · rename_i apart
      split at mends
      · cases mends
        exact apart
      · split at mends
        · cases mends
          exact apart
        · cases mends

theorem restored_flows {target : Uid} (listed : some target ∈ (n.restored terminals d).flows) :
    ∃ terminal, terminals.lookup target = some terminal ∧ terminal.flowInput := by
  have hlisted := mem_of_mem_laidOut (mem_of_mem_laidOut listed)
  obtain ⟨entry, -, mends⟩ := List.mem_map.mp hlisted
  obtain ⟨old, -, mends⟩ := Option.bind_eq_some_iff.mp mends
  exact mendFlow_eq_some mends

theorem restored_onward {target : Uid} (listed : some target ∈ (n.restored terminals d).flows) :
    target ≠ n.uid := by
  have hlisted := mem_of_mem_laidOut (mem_of_mem_laidOut listed)
  obtain ⟨_, -, mends⟩ := List.mem_map.mp hlisted
  obtain ⟨old, -, kept⟩ := Option.bind_eq_some_iff.mp mends
  unfold mendFlow at kept
  split at kept
  · rename_i onward
    cases kept
    exact onward.1
  · cases kept

theorem mem_flows_restored {target : Uid} (listed : some target ∈ (n.restored terminals d).flows) :
    some target ∈ n.flows := by
  have hlisted := mem_of_mem_laidOut (mem_of_mem_laidOut listed)
  obtain ⟨_, there, mends⟩ := List.mem_map.mp hlisted
  obtain ⟨old, rfl, kept⟩ := Option.bind_eq_some_iff.mp mends
  unfold mendFlow at kept
  split at kept
  · cases kept
    exact there
  · cases kept

theorem mem_links_restored {link : Link} (listed : some link ∈ (n.restored terminals d).links) :
    ∃ old, some old ∈ n.links ∧ old.node = link.node := by
  obtain ⟨entry, there, mends⟩ := List.mem_map.mp (mem_of_mem_fitted listed)
  obtain ⟨old, rfl, leads⟩ := Option.bind_eq_some_iff.mp mends
  refine ⟨old, mem_of_mem_fitted there, ?_⟩
  unfold mendLink at leads
  split at leads
  · cases leads
  · split at leads
    · cases leads
    · split at leads
      · cases leads
        rfl
      · split at leads <;> cases leads
        rfl

theorem restored_congr {terminals' : List (Uid × Terminal)}
    (links : ∀ link, some link ∈ n.links →
      terminals'.lookup link.node = terminals.lookup link.node)
    (flows : ∀ target, some target ∈ n.flows → terminals'.lookup target = terminals.lookup target) :
    n.restored terminals' d = n.restored terminals d := by
  have same : mended terminals' d n = mended terminals d n := by
    rw [mended, mended]
    congr 1
    · refine List.map_congr_left fun entry listed => ?_
      cases entry with
      | none => rfl
      | some link =>
        simp only [Option.bind_some, mendLink, links link (mem_of_mem_fitted listed)]
    · refine List.map_congr_left fun entry listed => ?_
      cases entry with
      | none => rfl
      | some target => simp only [Option.bind_some, mendFlow, flows target listed]
  simp only [restored, same]

private theorem getElem?_settled_from (first index : Nat) (values : List Value) :
    (settled d first values)[index]? = values[index]?.map fun value =>
      if value.fits (d.inputType (first + index)) then value
      else .defaultFor (d.inputType (first + index)) := by
  induction values generalizing first index with
  | nil => rfl
  | cons other values ih =>
    cases index with
    | zero => rfl
    | succ index =>
      rw [settled, List.getElem?_cons_succ, List.getElem?_cons_succ, ih, Nat.add_assoc,
        Nat.add_comm 1]

theorem getElem?_settled (d : Definition) (index : Nat) (values : List Value) :
    (settled d 0 values)[index]? = values[index]?.map fun value =>
      if value.fits (d.inputType index) then value else .defaultFor (d.inputType index) := by
  rw [getElem?_settled_from, Nat.zero_add]

def completed (d : Definition) (n : Node) : List Value :=
  n.values ++ d.initialValues.drop n.values.length

theorem getElem?_completed (d : Definition) (n : Node) (index : Nat) :
    (completed d n)[index]? = n.values[index]?.or d.initialValues[index]? := by
  rw [completed, List.getElem?_append, List.getElem?_drop]
  split
  · rename_i inside
    rw [List.getElem?_eq_getElem inside, Option.some_or]
  · rename_i beyond
    have least := Nat.le_of_not_lt beyond
    rw [List.getElem?_eq_none least, Option.none_or, Nat.add_sub_cancel' least]

theorem values_restored : (n.restored terminals d).values = settled d 0 (completed d n) := rfl

theorem restored_values {index : Nat} {value : Value} (found : n.values[index]? = some value)
    (fits : value.fits (d.inputType index)) :
    (n.restored terminals d).values[index]? = some value := by
  rw [values_restored, getElem?_settled, getElem?_completed, found, Option.some_or, Option.map_some,
    if_pos fits]

theorem text_fits (text : String) : (Value.text text).fits (some textType) := by
  simp [Value.fits, Value.typeName?]

theorem text?_eq_some {value : Value} {text : String}
    (found : value.text? = some text) : value = .text text := by
  cases value <;> simp_all [Value.text?]

private theorem bind_text?_restored {index : Nat} {text : String}
    (found : n.values[index]?.bind Value.text? = some text)
    (typed : d.inputType index = some textType) :
    (n.restored terminals d).values[index]?.bind Value.text? = some text := by
  obtain ⟨value, hvalue, htext⟩ := Option.bind_eq_some_iff.mp found
  obtain rfl := text?_eq_some htext
  rw [restored_values hvalue (typed ▸ text_fits text)]
  rfl

theorem target?_restored {uid : Uid} (bound : n.target? = some uid)
    (typed : d.inputType 0 = some textType) : (n.restored terminals d).target? = some uid := by
  rw [target?] at bound ⊢
  rw [restored_access?]
  split at bound
  · rename_i access
    rw [if_pos access]
    obtain ⟨found, nonempty⟩ := Option.filter_eq_some_iff.mp bound
    exact Option.filter_eq_some_iff.mpr ⟨bind_text?_restored found typed, nonempty⟩
  · cases bound

theorem variableName?_restored {name : String} (named : n.variableName? = some name)
    (typed : d.inputType nameInput = some textType) :
    (n.restored terminals d).variableName? = some name := by
  rw [variableName?] at named ⊢
  rw [restored_isVariable]
  split at named
  · rename_i declares
    rw [if_pos declares]
    exact bind_text?_restored named typed
  · cases named

end Node

end ScriptGraph
