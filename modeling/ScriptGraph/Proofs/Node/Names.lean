import ScriptGraph.Proofs.Catalog.Methods
import ScriptGraph.Proofs.Node.Candidates

/-!
Reserved names. Counting a name up leaves its first two characters alone or makes one of them a digit,
so that the search for a name that is not taken ends at a reserved name only if it starts there, or at
a single underscore that is taken.
-/

set_option autoImplicit false
set_option relaxedAutoImplicit false

namespace ScriptGraph

/-- A name that starts with two underscores. -/
def Text.Reserved (name : List Char) : Prop := ∃ rest, name = '_' :: '_' :: rest

open Text (Reserved)

theorem isInternalName_iff {name : String} : isInternalName name ↔ Reserved name.toList := by
  rw [isInternalName, Text.startsWith_iff]
  exact exists_congr fun rest => eq_comm

private theorem exists_digitChar (number : Nat) : ∃ c rest,
    (Text.digits 10 number).map Text.digitChar = c :: rest ∧ c ≠ '_' := by
  have plain := (Text.digits_plain number).1
  obtain ⟨digit, more, same⟩ := List.exists_cons_of_ne_nil plain.some
  have digitChar : ∀ digit < 10, Text.digitChar digit ≠ '_' := by decide
  rw [same]
  exact ⟨_, _, rfl, digitChar digit (plain.small digit (same ▸ List.mem_cons_self))⟩

theorem reserved_nextName_iff {name : List Char} :
    Reserved (nextName name) ↔ Reserved name ∨ name = ['_'] := by
  have underscore : Text.digitValue? '_' = none := by decide
  unfold nextName
  match name with
  | [] => simp [Reserved]
  | [c] =>
    cases value : Text.digitValue? c with
    | none => simp [Reserved, value]
    | some digit =>
      obtain ⟨d, rest, written, other⟩ := exists_digitChar (digit + 1)
      have plain : c ≠ '_' := by
        rintro rfl
        cases value.symm.trans underscore
      simp [Reserved, value, written, other, plain]
  | [c, d] =>
    cases value : Text.digitValue? d with
    | none => simp [Reserved, value]
    | some digit =>
      obtain ⟨e, rest, written, other⟩ := exists_digitChar (digit + 1)
      have plain : d ≠ '_' := by
        rintro rfl
        cases value.symm.trans underscore
      simp [Reserved, value, written, other, plain]
  | c :: d :: e :: rest =>
    -- Only what comes after the first two characters changes.
    cases ((c :: d :: e :: rest).getLast?.bind Text.digitValue?) <;> simp [Reserved]

theorem nextName_ne_underscore (name : List Char) : nextName name ≠ ['_'] := by
  intro same
  have above := nameRank_lt_nextName name
  have rank : nameRank ['_'] = 10 := by decide
  rw [same, rank] at above
  have short : name = [] := by
    rw [← List.length_eq_zero_iff]
    unfold nameRank at above
    omega
  rw [short] at same
  revert same
  decide

private theorem isInternalName_freeName {taken : List String} {steps : Nat} {name : String} :
    isInternalName (freeName taken steps name) ↔
      isInternalName name ∨ name = "_" ∧ "_" ∈ taken ∧ 0 < steps := by
  induction steps generalizing name with
  | zero => simp [freeName]
  | succ steps ih =>
    rw [freeName]
    split
    · rename_i used
      have listed := List.contains_iff_mem.mp used
      have other : String.ofList (nextName name.toList) ≠ "_" := fun same =>
        nextName_ne_underscore name.toList (by rw [← String.toList_ofList (l := nextName _), same]; rfl)
      have lone : name.toList = ['_'] ↔ name = "_" := by
        rw [← String.toList_inj]
        rfl
      rw [ih, isInternalName_iff, String.toList_ofList, reserved_nextName_iff, isInternalName_iff, lone]
      constructor
      · rintro ((reserved | rfl) | ⟨same, -⟩)
        · exact .inl reserved
        · exact .inr ⟨rfl, listed, Nat.succ_pos steps⟩
        · exact absurd same other
      · rintro (reserved | ⟨same, -⟩)
        · exact .inl (.inl reserved)
        · exact .inl (.inr same)
    · rename_i free
      refine ⟨.inl, Or.rec id ?_⟩
      rintro ⟨rfl, listed, -⟩
      exact absurd (List.contains_iff_mem.mpr listed) free

/-- The name that is chosen is reserved exactly if the one asked for is, or is a single underscore and
taken. -/
theorem isInternalName_unusedNameLike {taken : List String} {name : String} :
    isInternalName (unusedNameLike taken name) ↔
      isInternalName name ∨ name = "_" ∧ "_" ∈ taken := by
  rw [unusedNameLike, isInternalName_freeName]
  refine or_congr_right (and_congr_right fun _ => ⟨And.left, fun listed => ⟨listed, ?_⟩⟩)
  exact List.length_pos_of_mem listed

example : unusedNameLike ["_", "speed"] "_" = "__1" ∧ unusedNameLike ["_", "speed"] "speed" = "speed_1" := by
  decide

end ScriptGraph
