/-!
Looking up keys in lists of entries, of which the first with a key counts.
-/

set_option autoImplicit false
set_option relaxedAutoImplicit false

namespace ScriptGraph

variable {α β : Type} [BEq α] [LawfulBEq α]

theorem lookup_cons_eq [DecidableEq α] (key other : α)
    (value : β) (entries : List (α × β)) :
    ((key, value) :: entries).lookup other =
      if other = key then some value else entries.lookup other := by
  rw [List.lookup_cons]
  by_cases hsame : other = key
  · simp [hsame]
  · have hne : (other == key) = false := by simpa using hsame
    simp [hsame, hne]

theorem lookup_map_prodMap {γ δ : Type} [BEq γ] [LawfulBEq γ] {rename : α → γ}
    (injective : Function.Injective rename) (change : β → δ) (key : α) (entries : List (α × β)) :
    (entries.map (Prod.map rename change)).lookup (rename key) =
      (entries.lookup key).map change := by
  induction entries with
  | nil => rfl
  | cons entry entries ih =>
    obtain ⟨other, value⟩ := entry
    rw [List.map_cons, Prod.map_apply, List.lookup_cons, List.lookup_cons, ih]
    by_cases hsame : key = other
    · simp [hsame]
    · have hne : rename key ≠ rename other := fun heq => hsame (injective heq)
      rw [beq_eq_false_iff_ne.mpr hsame, beq_eq_false_iff_ne.mpr hne]

theorem mem_of_lookup_eq_some {key : α} {value : β}
    {entries : List (α × β)} (found : entries.lookup key = some value) :
    (key, value) ∈ entries := by
  obtain ⟨before, after, rfl, -⟩ := List.lookup_eq_some_iff.mp found
  exact List.mem_append_right _ List.mem_cons_self

theorem lookup_eq_some_of_mem {key : α} {value : β} {entries : List (α × β)}
    (distinct : (entries.map Prod.fst).Nodup) (listed : (key, value) ∈ entries) :
    entries.lookup key = some value := by
  obtain ⟨before, after, rfl⟩ := List.append_of_mem listed
  rw [List.map_append, List.map_cons] at distinct
  refine List.lookup_eq_some_iff.mpr ⟨before, after, rfl, fun entry hentry => ?_⟩
  rw [bne_iff_ne]
  rintro rfl
  exact (List.nodup_append.mp distinct).2.2 _ (List.mem_map_of_mem hentry) _ List.mem_cons_self rfl

theorem lookup_filter (keeps : α → Bool) (key : α) (entries : List (α × β)) :
    (entries.filter fun entry => keeps entry.1).lookup key =
      if keeps key then entries.lookup key else none := by
  induction entries with
  | nil => simp
  | cons entry entries ih =>
    obtain ⟨other, value⟩ := entry
    rw [List.filter_cons]
    by_cases here : key = other
    · subst here
      cases kept : keeps key <;> simp [kept, ih]
    · have different : (key == other) = false := beq_eq_false_iff_ne.mpr here
      split <;> simp [List.lookup_cons, different, ih]

end ScriptGraph
