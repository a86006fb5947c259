import ScriptGraph.Text.Segment
import ScriptGraph.Proofs.Text.Encoding
import Mathlib.Data.List.Infix
import Mathlib.Tactic.SplitIfs

/-!
The order of texts. Texts that start alike stand together: whatever comes between a text and a longer
one starts with it too. Comparing texts by their characters and comparing them by their bytes come to
the same.
-/

set_option autoImplicit false
set_option relaxedAutoImplicit false

namespace ScriptGraph.Text

theorem precedes_iff (first second : List Char) : precedes first second = true ↔ first < second := by
  induction first generalizing second with
  | nil => cases second <;> simp [precedes]
  | cons c first ih =>
    cases second with
    | nil => simp [precedes]
    | cons d second =>
      rw [precedes, List.cons_lt_cons_iff, ← ih second]
      by_cases less : c.toNat < d.toNat
      · simp [less, show c < d from less]
      · by_cases more : d.toNat < c.toNat
        · have other : c ≠ d := fun same => Nat.lt_irrefl _ (same ▸ more)
          simp [less, more, other, show ¬ c < d from less]
        · obtain rfl : c = d := Char.toNat_inj.mp
            (Nat.le_antisymm (Nat.le_of_not_lt more) (Nat.le_of_not_lt less))
          simp

variable {start text other : List Char}

theorem not_lt_of_prefix (starts : start <+: text) : ¬text < start := by
  induction start generalizing text with
  | nil => exact List.not_lt_nil text
  | cons c start ih =>
    obtain ⟨rest, rfl⟩ := starts
    rw [List.cons_append, List.cons_lt_cons_iff]
    rintro (less | ⟨-, less⟩)
    · exact absurd less (Nat.lt_irrefl _)
    · exact ih (List.prefix_append start rest) less

theorem prefix_of_between (after : ¬text < start) (before : text < other) (starts : start <+: other) :
    start <+: text := by
  induction start generalizing text other with
  | nil => exact List.nil_prefix
  | cons c start ih =>
    obtain ⟨rest, rfl⟩ := starts
    cases text with
    | nil => exact absurd (List.nil_lt_cons c start) after
    | cons d text =>
      rw [List.cons_append, List.cons_lt_cons_iff] at before
      rw [List.cons_lt_cons_iff] at after
      rcases before with less | ⟨rfl, before⟩
      · exact absurd (.inl less) after
      · have after : ¬text < start := fun less => after (.inr ⟨rfl, less⟩)
        exact List.cons_prefix_cons.mpr ⟨rfl, ih after before (List.prefix_append start rest)⟩

/-! ## Bytes -/

private theorem utf8EncodeChar_append_lt {c d : Char} (less : c < d) (rest more : List UInt8) :
    String.utf8EncodeChar c ++ rest < String.utf8EncodeChar d ++ more := by
  have below : c.val.toNat < d.val.toNat := less
  have valid : d.val.toNat < 0x110000 := by
    have valid := d.valid
    unfold UInt32.isValidChar Nat.isValidChar at valid
    omega
  simp only [String.utf8EncodeChar]
  generalize c.val.toNat = v at below
  generalize d.val.toNat = w at below valid
  -- The digits in base 64, each of them by dividing once more.
  have second : ∀ n, n / 4096 = n / 64 / 64 := fun n => (Nat.div_div_eq_div_mul n 64 64).symm
  have third : ∀ n, n / 262144 = n / 64 / 64 / 64 := by omega
  simp only [second, third]
  -- A character with fewer bytes has the lesser first byte; with equally many the digits decide.
  split_ifs <;> try omega
  all_goals
    simp only [List.cons_append, List.nil_append, List.cons_lt_cons_iff, UInt8.lt_iff_toNat_lt,
      ← UInt8.toNat_inj, UInt8.toNat_ofNat']
    simp (disch := omega) only [Nat.mod_eq_of_lt]
    omega

private theorem bytes_lt_of_lt {first second : List Char} (less : first < second) :
    bytes first < bytes second := by
  induction first generalizing second with
  | nil =>
    cases second with
    | nil => exact absurd less (List.lt_irrefl _)
    | cons d second =>
      rw [bytes_nil, bytes_cons]
      obtain ⟨b, more, encoded⟩ := List.exists_cons_of_ne_nil (String.utf8EncodeChar_ne_nil (c := d))
      rw [encoded]
      exact List.nil_lt_cons _ _
  | cons c first ih =>
    cases second with
    | nil => exact absurd less (List.not_lt_nil _)
    | cons d second =>
      rw [bytes_cons, bytes_cons]
      rcases List.cons_lt_cons_iff.mp less with before | ⟨rfl, before⟩
      · exact utf8EncodeChar_append_lt before _ _
      · exact List.append_left_lt (ih before)

theorem bytes_lt_iff {first second : List Char} : bytes first < bytes second ↔ first < second := by
  refine ⟨fun less => ?_, bytes_lt_of_lt⟩
  rcases Std.lt_trichotomy first second with before | same | after
  · exact before
  · exact absurd (same ▸ less) (List.lt_irrefl _)
  · exact absurd (List.lt_trans less (bytes_lt_of_lt after)) (List.lt_irrefl _)

end ScriptGraph.Text
