import ScriptGraph.Proofs.HeapLayout.Requests

/-!
The layout that compiling starts from: exactly the named variables of the graph have slots, in the
order in which they are listed.
-/

set_option autoImplicit false
set_option relaxedAutoImplicit false

namespace ScriptGraph.HeapLayout

theorem variableSlot_adds {h : HeapLayout} {n : Node}
    (fresh : h.variableSlots.lookup n.uid = none) :
    Adds h (variableSymbol n) (some (.variable n.uid)) (h.variableSlot n).2 := by
  simp only [variableSlot, fresh]
  refine ⟨rfl, rfl, ?_, ?_⟩
  · intro key hkey
    cases hkey
    exact fresh
  · intro key
    cases key with
    | «variable» other =>
      have hgoal : (Key.variable n.uid = Key.variable other) = (other = n.uid) := by
        simp only [Key.variable.injEq, eq_comm]
      simp only [push, slot?, Option.some.injEq, hgoal]
      exact lookup_cons_eq n.uid other h.size h.variableSlots
    | output _ _ => rfl
    | constant _ _ => rfl

private theorem variableSlot_found {h : HeapLayout} {n : Node} {slot : Slot}
    (found : h.variableSlots.lookup n.uid = some slot) : h.variableSlot n = (slot, h) := by
  simp only [variableSlot, found]

private theorem variableSlot_sound {h : HeapLayout} (n : Node) (sound : Sound h) :
    Sound (h.variableSlot n).2 := by
  cases found : h.variableSlots.lookup n.uid with
  | some slot =>
    rw [variableSlot_found found]
    exact sound
  | none =>
    refine (variableSlot_adds found).sound sound fun key value hkey hvalue => ?_
    cases hkey
    simp [start?] at hvalue

private theorem variableSlot_types (h : HeapLayout) (n : Node) :
    (h.variableSlot n).2.outputTypes = h.outputTypes := by
  cases found : h.variableSlots.lookup n.uid with
  | some slot => rw [variableSlot_found found]
  | none => exact (variableSlot_adds found).types

private theorem variableSlot_kept (h : HeapLayout) (n : Node) {key : Key} {slot : Slot}
    (found : h.slot? key = some slot) : (h.variableSlot n).2.slot? key = some slot := by
  cases fresh : h.variableSlots.lookup n.uid with
  | some other =>
    rw [variableSlot_found fresh]
    exact found
  | none => exact (variableSlot_adds fresh).kept found

private theorem variableSlot_isSome (h : HeapLayout) (n : Node) :
    ((h.variableSlot n).2.slot? (.variable n.uid)).isSome := by
  cases found : h.variableSlots.lookup n.uid with
  | some slot =>
    rw [variableSlot_found found]
    simp only [slot?, found, Option.isSome_some]
  | none => rw [(variableSlot_adds found).slots, if_pos rfl, Option.isSome_some]

private def withVariables (h : HeapLayout) (nodes : List Node) : HeapLayout :=
  nodes.foldl (fun h n => (h.variableSlot n).2) h

private theorem withVariables_cons (h : HeapLayout) (n : Node) (nodes : List Node) :
    withVariables h (n :: nodes) = withVariables (h.variableSlot n).2 nodes := rfl

private theorem withVariables_sound {h : HeapLayout} (nodes : List Node) (sound : Sound h) :
    Sound (withVariables h nodes) := by
  induction nodes generalizing h with
  | nil => exact sound
  | cons n nodes ih => exact ih (variableSlot_sound n sound)

private theorem withVariables_types (h : HeapLayout) (nodes : List Node) :
    (withVariables h nodes).outputTypes = h.outputTypes := by
  induction nodes generalizing h with
  | nil => rfl
  | cons n nodes ih => rw [withVariables_cons, ih, variableSlot_types]

private theorem withVariables_kept {h : HeapLayout} (nodes : List Node) {key : Key} {slot : Slot}
    (found : h.slot? key = some slot) : (withVariables h nodes).slot? key = some slot := by
  induction nodes generalizing h with
  | nil => exact found
  | cons n nodes ih => exact ih (variableSlot_kept h n found)

private theorem withVariables_isSome (h : HeapLayout) {nodes : List Node} {n : Node}
    (listed : n ∈ nodes) : ((withVariables h nodes).slot? (.variable n.uid)).isSome := by
  induction nodes generalizing h with
  | nil => simp at listed
  | cons first nodes ih =>
    rcases List.mem_cons.mp listed with rfl | listed
    · obtain ⟨slot, found⟩ := Option.isSome_iff_exists.mp (variableSlot_isSome h n)
      rw [withVariables_cons, withVariables_kept nodes found, Option.isSome_some]
    · exact ih _ listed

private theorem withVariables_new {h : HeapLayout} (nodes : List Node)
    (distinct : (nodes.map Node.uid).Nodup)
    (fresh : ∀ n ∈ nodes, h.variableSlots.lookup n.uid = none) :
    (withVariables h nodes).symbols.toList = h.symbols.toList ++ nodes.map variableSymbol ∧
      ∀ key slot, (withVariables h nodes).slot? key = some slot →
        h.slot? key = some slot ∨
          ∃ index n, nodes[index]? = some n ∧ key = .variable n.uid ∧ slot = h.size + index := by
  induction nodes generalizing h with
  | nil => exact ⟨by simp [withVariables], fun key slot found => Or.inl found⟩
  | cons n nodes ih =>
    have adds := variableSlot_adds (fresh n List.mem_cons_self)
    have hdistinct := List.nodup_cons.mp distinct
    have hfresh : ∀ m ∈ nodes, (h.variableSlot n).2.variableSlots.lookup m.uid = none := by
      intro m hm
      have hslots := adds.slots (.variable m.uid)
      have hne : n.uid ≠ m.uid := by
        intro hsame
        exact hdistinct.1 (List.mem_map.mpr ⟨m, hm, hsame.symm⟩)
      rw [if_neg (by simpa using hne)] at hslots
      exact hslots.trans (fresh m (List.mem_cons_of_mem n hm))
    obtain ⟨hsymbols, hkeys⟩ := ih hdistinct.2 hfresh
    refine ⟨?_, ?_⟩
    · rw [withVariables_cons, hsymbols, adds.symbols]
      simp
    · intro key slot found
      rcases hkeys key slot found with found | ⟨index, m, hm, rfl, rfl⟩
      · rw [adds.slots] at found
        split at found
        · rename_i hkey
          obtain rfl := Option.some.inj found
          exact Or.inr ⟨0, n, rfl, (Option.some.inj hkey).symm, rfl⟩
        · exact Or.inl found
      · refine Or.inr ⟨index + 1, m, hm, rfl, ?_⟩
        rw [adds.size_eq]
        exact Nat.add_right_comm _ _ _

private theorem ofGraph_eq (c : Catalog) (g : Graph) :
    ofGraph c g = withVariables ⟨#[], outputTypesOf c g, [], [], [], []⟩ g.variableNodes := rfl

private theorem slot?_initial (types : List (Uid × List String)) (key : Key) :
    HeapLayout.slot? ⟨#[], types, [], [], [], []⟩ key = none := by
  cases key <;> rfl

theorem ofGraph_sound (c : Catalog) (g : Graph) : Sound (ofGraph c g) := by
  rw [ofGraph_eq]
  apply withVariables_sound
  refine ⟨?_, ?_, ?_⟩ <;> intro key <;> simp [slot?_initial]

@[simp] theorem ofGraph_outputTypes (c : Catalog) (g : Graph) :
    (ofGraph c g).outputTypes = outputTypesOf c g := by
  rw [ofGraph_eq, withVariables_types]

theorem ofGraph_variable_isSome (c : Catalog) {g : Graph} {n : Node}
    (listed : n ∈ g.variableNodes) : ((ofGraph c g).findVariable? n.uid).isSome :=
  withVariables_isSome _ listed

theorem ofGraph_slots (c : Catalog) {g : Graph}
    (distinct : (g.variableNodes.map Node.uid).Nodup) :
    (ofGraph c g).symbols.toList = g.variableNodes.map variableSymbol ∧
      ∀ key slot, (ofGraph c g).slot? key = some slot →
        ∃ n, g.variableNodes[slot]? = some n ∧ key = .variable n.uid := by
  rw [ofGraph_eq]
  obtain ⟨hsymbols, hkeys⟩ := withVariables_new (h := ⟨#[], outputTypesOf c g, [], [], [], []⟩)
    g.variableNodes distinct (fun _ _ => rfl)
  refine ⟨by simpa using hsymbols, ?_⟩
  intro key slot found
  rcases hkeys key slot found with found | ⟨index, n, hn, rfl, rfl⟩
  · rw [slot?_initial] at found
    exact absurd found (by simp)
  · refine ⟨n, ?_, rfl⟩
    rw [HeapLayout.size, List.size_toArray, List.length_nil, Nat.zero_add]
    exact hn

end ScriptGraph.HeapLayout
