import ScriptGraph.Graph.Document
import ScriptGraph.Proofs.Bytes.RoundTrip
import ScriptGraph.Proofs.Json.Numbers

/-!
Links in documents. A link is read as it was written if its node has a uid without a bar and its output
a number that fits the machine.
-/

set_option autoImplicit false
set_option relaxedAutoImplicit false

namespace ScriptGraph

namespace Text

theorem cutAt?_bar {start : List Char} (clear : '|' ∉ start) (rest : List Char) :
    cutAt? ['|'] (start ++ '|' :: rest) = some (start, rest) := by
  induction start with
  | nil => rfl
  | cons c start ih =>
    rw [List.mem_cons, not_or] at clear
    rw [List.cons_append, cutAt?, afterPrefix?, if_neg clear.1, ih clear.2]
    rfl

theorem not_mem_before_bar (text : List Char) : '|' ∉ before ['|'] text := by
  induction text with
  | nil => exact List.not_mem_nil
  | cons c text ih =>
    rw [before] at ih ⊢
    rw [cutAt?, afterPrefix?]
    by_cases bar : '|' = c
    · rw [if_pos bar]
      exact List.not_mem_nil
    · rw [if_neg bar]
      dsimp only
      cases cut : cutAt? ['|'] text with
      | none =>
        rw [cut] at ih
        exact fun listed => (List.mem_cons.mp listed).elim bar ih
      | some parts =>
        rw [cut] at ih
        exact fun listed => (List.mem_cons.mp listed).elim bar ih

private theorem decimalAfter?_append (value : Nat) (text : List Char) (c : Char) :
    decimalAfter? value (text ++ [c]) =
      (decimalAfter? value text).bind fun value => (digitValue? c).map (10 * value + ·) := by
  induction text generalizing value with
  | nil =>
    change (digitValue? c).bind (fun digit => some (10 * value + digit)) = _
    cases digitValue? c <;> rfl
  | cons d text ih =>
    rw [List.cons_append, decimalAfter?, decimalAfter?]
    cases digitValue? d with
    | none => rfl
    | some digit => exact ih _

private theorem decimalAfter?_digits (number : Nat) :
    decimalAfter? 0 ((digits 10 number).map digitChar) = some number := by
  induction number using Nat.strongRecOn with
  | ind number ih =>
    by_cases large : 10 ≤ number
    · have last : number % 10 < 10 := Nat.mod_lt _ (by decide)
      rw [digits_of_le (by decide) large, List.map_append, List.map_singleton, decimalAfter?_append,
        ih _ (Nat.div_lt_self (by omega) (by decide)), Option.bind_some,
        digitValue?_digitChar last, Option.map_some, Nat.div_add_mod]
    · have small := Nat.lt_of_not_le large
      rw [digits_of_lt small, List.map_singleton, decimalAfter?, digitValue?_digitChar small,
        Option.bind_some, Nat.mul_zero, Nat.zero_add]
      rfl

theorem decimalValue?_digits (number : Nat) :
    decimalValue? ((digits 10 number).map digitChar) = some number := by
  obtain ⟨digit, more, same⟩ := List.exists_cons_of_ne_nil (digits_plain number).1.some
  have value := decimalAfter?_digits number
  rw [same, List.map_cons] at value ⊢
  exact value

end Text

namespace Link

theorem outputNumber?_digits {output : Nat} (fits : output < UInt64.size) :
    outputNumber? (Text.trimmed ((Text.digits 10 output).map Text.digitChar)) = some output := by
  have plain := (Text.digits_plain output).1
  have each : ∀ digit < 10, Text.isBlank (Text.digitChar digit) = false ∧
      Text.digitChar digit ≠ '+' := by decide
  have visible : ∀ c ∈ (Text.digits 10 output).map Text.digitChar, Text.isBlank c = false := by
    intro c listed
    obtain ⟨digit, there, rfl⟩ := List.mem_map.mp listed
    exact (each digit (plain.small digit there)).1
  have value := Text.decimalValue?_digits output
  obtain ⟨digit, more, same⟩ := List.exists_cons_of_ne_nil plain.some
  have unsigned := (each digit (plain.small digit (same ▸ List.mem_cons_self))).2
  rw [Text.trimmed_eq_self visible]
  rw [same, List.map_cons] at value ⊢
  unfold outputNumber?
  split
  · rename_i rest heads
    exact absurd (List.cons.inj heads).1 unsigned
  · dsimp only
    rw [value, Option.filter_some, if_pos (decide_eq_true fits)]

theorem ofText?_text {l : Link} (named : l.node ≠ "") (clear : '|' ∉ l.node.toList)
    (fits : l.output < UInt64.size) : ofText? l.text = some l := by
  have characters : l.text.toList =
      l.node.toList ++ '|' :: (Text.digits 10 l.output).map Text.digitChar := by
    rw [text, Text.decimal, String.toList_append, String.toList_append, String.toList_ofList,
      List.append_assoc]
    simp only [String.toList_ofList, List.cons_append, List.nil_append]
  have some : l.text.isEmpty = false := by
    rw [← Bool.not_eq_true, String.isEmpty_iff]
    intro empty
    rw [empty] at characters
    exact List.append_ne_nil_of_right_ne_nil _ (List.cons_ne_nil _ _) characters.symm
  obtain ⟨c, start, opening⟩ := List.exists_cons_of_ne_nil fun empty : l.node.toList = [] =>
    named (String.toList_eq_nil_iff.mp empty)
  unfold ofText?
  rw [some, characters, Text.cutAt?_bar clear, if_neg Bool.false_ne_true, opening]
  dsimp only
  rw [outputNumber?_digits fits, ← opening, String.ofList_toList]
  rfl

theorem outputNumber?_fits {text : List Char} {output : Nat}
    (read : outputNumber? text = some output) : output < UInt64.size :=
  of_decide_eq_true (Option.filter_eq_some_iff.mp read).2

theorem ofText?_text_of_ofText? {written : String} {l : Link} (read : ofText? written = some l) :
    ofText? l.text = some l := by
  have clear := Text.not_mem_before_bar written.toList
  rw [Text.before] at clear
  unfold ofText? at read
  split at read
  · cases read
  · rename_i some
    split at read
    · cases read
    · rename_i node output named cut
      rw [cut] at clear
      cases Option.some.inj read
      have fits : (outputNumber? (Text.trimmed output)).getD 0 < UInt64.size := by
        cases number : outputNumber? (Text.trimmed output) with
        | none => decide
        | some output => exact outputNumber?_fits number
      refine ofText?_text (fun empty => ?_) (String.toList_ofList ▸ clear) fits
      exact named (String.ofList_eq_empty_iff.mp empty)
    · rename_i cut
      rw [cut] at clear
      cases Option.some.inj read
      exact ofText?_text (fun empty => some (String.isEmpty_iff.mpr empty)) clear
        (by decide : 0 < UInt64.size)

end Link

end ScriptGraph
