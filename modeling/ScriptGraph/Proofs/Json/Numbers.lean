import ScriptGraph.Json.Printer
import ScriptGraph.Json.Reader
import ScriptGraph.Proofs.Text.Encoding

/-!
Numbers in documents. Every number that is written has digits in all the places where the grammar asks
for some, and no zero before other digits, so that it is read as the numeral that it spells, up to the
mark that follows it.
-/

set_option autoImplicit false
set_option relaxedAutoImplicit false

namespace ScriptGraph

namespace Text

/-! ## Digits -/

theorem digits_of_lt {base number : Nat} (small : number < base) : digits base number = [number] := by
  rw [digits, digitsBefore, if_neg fun large => Nat.not_le_of_lt small large.2]

theorem digits_ten : digits 10 10 = [1, 0] := by
  rw [digits, digitsBefore, if_pos (by decide), digitsBefore, if_neg (by decide)]

theorem digitValue?_digitChar {digit : Nat} (small : digit < 10) :
    digitValue? (digitChar digit) = some digit := by
  revert digit
  decide

theorem digitsBefore_eq (base : Nat) (rest : List Nat) (number : Nat) :
    digitsBefore base rest number = digits base number ++ rest := by
  suffices ∀ number rest more, digitsBefore base (rest ++ more) number =
      digitsBefore base rest number ++ more by
    have := this number [] rest
    rwa [List.nil_append] at this
  intro number
  induction number using Nat.strongRecOn with
  | ind number ih =>
    intro rest more
    conv_rhs => rw [digitsBefore]
    rw [digitsBefore]
    split
    · rename_i large
      rw [← List.cons_append]
      exact ih _ (Nat.div_lt_self (Nat.lt_of_lt_of_le (by omega) large.2) large.1) _ _
    · rfl

theorem digits_of_le {base number : Nat} (base_large : 1 < base) (large : base ≤ number) :
    digits base number = digits base (number / base) ++ [number % base] := by
  rw [digits, digitsBefore, if_pos ⟨base_large, large⟩, digitsBefore_eq]

/-- Digits as they may be written: there are some, and no zero stands before others. -/
structure Plain (written : List Nat) : Prop where
  some : written ≠ []
  small : ∀ digit ∈ written, digit < 10
  first : ∀ rest, written = 0 :: rest → rest = []

theorem digits_plain (number : Nat) :
    Plain (digits 10 number) ∧ (0 < number → ∀ rest, digits 10 number ≠ 0 :: rest) := by
  induction number using Nat.strongRecOn with
  | ind number ih =>
    by_cases large : 10 ≤ number
    · obtain ⟨plain, first⟩ := ih (number / 10) (Nat.div_lt_self (by omega) (by decide))
      have positive := first (Nat.div_pos large (by decide))
      rw [digits_of_le (by decide) large]
      obtain ⟨digit, more, same⟩ := List.exists_cons_of_ne_nil plain.some
      rw [same] at positive ⊢
      have other : digit ≠ 0 := fun zero => positive more (zero ▸ rfl)
      refine ⟨⟨by simp, fun d listed => ?_, fun rest zero => ?_⟩, fun _ rest zero => ?_⟩
      · rcases List.mem_append.mp listed with listed | listed
        · exact plain.small d (same ▸ listed)
        · rw [List.mem_singleton.mp listed]
          exact Nat.mod_lt _ (by decide)
      · exact absurd (List.cons.inj zero).1 other
      · exact absurd (List.cons.inj zero).1 other
    · rw [digits_of_lt (Nat.lt_of_not_le large)]
      refine ⟨⟨by simp, fun d listed => ?_, fun rest zero => ?_⟩, fun positive rest zero => ?_⟩
      · rw [List.mem_singleton.mp listed]
        omega
      · exact (List.cons.inj zero).2.symm
      · have same := (List.cons.inj zero).1
        omega

end Text

namespace Json

open Text (bytes)

/-! ## Numerals -/

def fractionText : Option (List Nat) → List Char
  | none => []
  | some digits => '.' :: digits.map Text.digitChar

def powerText : Option (Bool × List Nat) → List Char
  | none => []
  | some (negative, digits) =>
    'e' :: (if negative then '-' else '+') :: digits.map Text.digitChar

def Numeral.unsigned (n : Numeral) : List Char :=
  n.whole.map Text.digitChar ++ (fractionText n.fraction ++ powerText n.power)

def Numeral.spelled (n : Numeral) : List Char :=
  if n.negative then '-' :: n.unsigned else n.unsigned

/-- A numeral that the grammar allows. -/
structure Numeral.Proper (n : Numeral) : Prop where
  whole : Text.Plain n.whole
  fraction : ∀ digits, n.fraction = some digits → digits ≠ [] ∧ ∀ digit ∈ digits, digit < 10
  power : ∀ negative digits, n.power = some (negative, digits) →
    digits ≠ [] ∧ ∀ digit ∈ digits, digit < 10

/-- What may follow a part of a document that is printed: a comma, a closing mark or a new line. -/
def Closes (rest : Bytes) : Prop :=
  ∀ b tail, rest = b :: tail → b = 44 ∨ b = 93 ∨ b = 125 ∨ b = 10

theorem closes_nil : Closes [] := fun _ _ same => by cases same

private def Stops (rest : Bytes) : Prop := ∀ b tail, rest = b :: tail → digitByte? b = none

private theorem Closes.stops {rest : Bytes} (closes : Closes rest) : Stops rest := by
  intro b tail same
  rcases closes b tail same with rfl | rfl | rfl | rfl <;> rfl

private theorem bytes_digitChar {digit : Nat} (small : digit < 10) (rest : List Char) :
    ∃ b, bytes (Text.digitChar digit :: rest) = b :: bytes rest ∧ digitByte? b = some digit ∧
      48 ≤ b.toNat ∧ b.toNat ≤ 57 := by
  have written : ∀ digit < 10,
      String.utf8EncodeChar (Text.digitChar digit) = [(48 + digit).toUInt8] := by decide
  refine ⟨(48 + digit).toUInt8, ?_, ?_⟩
  · rw [Text.bytes_cons, written digit small]
    rfl
  · revert digit
    decide

private theorem readDigits_bytes {digits : List Nat} (small : ∀ digit ∈ digits, digit < 10)
    {rest : Bytes} (stops : Stops rest) :
    readDigits (bytes (digits.map Text.digitChar) ++ rest) = (digits, rest) := by
  induction digits with
  | nil =>
    rw [List.map_nil, Text.bytes_nil, List.nil_append]
    cases rest with
    | nil => rfl
    | cons b rest => rw [readDigits, stops b rest rfl]
  | cons digit digits ih =>
    obtain ⟨b, written, value, -⟩ :=
      bytes_digitChar (small digit List.mem_cons_self) (digits.map Text.digitChar)
    rw [List.map_cons, written, List.cons_append, readDigits, value,
      ih fun other listed => small other (List.mem_cons_of_mem _ listed)]

private theorem readPower_bytes {power : Option (Bool × List Nat)}
    (proper : ∀ negative digits, power = some (negative, digits) →
      digits ≠ [] ∧ ∀ digit ∈ digits, digit < 10) {rest : Bytes} (closes : Closes rest) :
    readPower (bytes (powerText power) ++ rest) = some (power, rest) := by
  match power with
  | none =>
    change readPower rest = _
    cases rest with
    | nil => rfl
    | cons b rest =>
      have other : ¬(b = 101 ∨ b = 69) := by
        rcases closes b rest rfl with rfl | rfl | rfl | rfl <;> decide
      simp only [readPower, other, if_false]
  | some (negative, digits) =>
    obtain ⟨some, small⟩ := proper negative digits rfl
    have read := readDigits_bytes small closes.stops
    obtain ⟨digit, more, rfl⟩ := List.exists_cons_of_ne_nil some
    cases negative with
    | true =>
      change readPower (101 :: 45 :: (bytes ((digit :: more).map Text.digitChar) ++ rest)) = _
      simp only [readPower, true_or, if_true, read]
    | false =>
      change readPower (101 :: 43 :: (bytes ((digit :: more).map Text.digitChar) ++ rest)) = _
      simp only [readPower, true_or, if_true, read]

private theorem readFraction_bytes {fraction : Option (List Nat)}
    (proper : ∀ digits, fraction = some digits → digits ≠ [] ∧ ∀ digit ∈ digits, digit < 10)
    {rest : Bytes} (stops : Stops rest) (point : ∀ tail, rest ≠ 46 :: tail) :
    readFraction (bytes (fractionText fraction) ++ rest) = some (fraction, rest) := by
  match fraction with
  | none =>
    change readFraction rest = _
    rw [readFraction]
    exact fun tail same => point tail same
  | some digits =>
    obtain ⟨some, small⟩ := proper digits rfl
    have read := readDigits_bytes small stops
    obtain ⟨digit, more, rfl⟩ := List.exists_cons_of_ne_nil some
    change readFraction (46 :: (bytes ((digit :: more).map Text.digitChar) ++ rest)) = _
    simp only [readFraction, read]

private theorem powerText_starts (power : Option (Bool × List Nat)) {rest : Bytes}
    (closes : Closes rest) : Stops (bytes (powerText power) ++ rest) ∧
      ∀ tail, bytes (powerText power) ++ rest ≠ 46 :: tail := by
  match power with
  | none =>
    refine ⟨closes.stops, fun tail same => ?_⟩
    rcases closes 46 tail same with same | same | same | same <;> cases same
  | some (negative, digits) =>
    refine ⟨fun b tail same => ?_, fun tail same => ?_⟩
    · rw [← (List.cons.inj same).1]
      rfl
    · cases (List.cons.inj same).1

private theorem fractionText_starts (fraction : Option (List Nat)) {rest : Bytes}
    (stops : Stops rest) : Stops (bytes (fractionText fraction) ++ rest) := by
  match fraction with
  | none => exact stops
  | some digits =>
    intro b tail same
    rw [← (List.cons.inj same).1]
    rfl

theorem readNumeral_unsigned {n : Numeral} (proper : n.Proper) {rest : Bytes}
    (closes : Closes rest) :
    readNumeral n.negative (bytes n.unsigned ++ rest) = some (n.toJson, rest) := by
  obtain ⟨stops, point⟩ := powerText_starts n.power closes
  have power := readPower_bytes proper.power closes
  have fraction := readFraction_bytes proper.fraction stops point
  have whole := readDigits_bytes proper.whole.small (fractionText_starts n.fraction stops)
  rw [Numeral.unsigned, Text.bytes_append, Text.bytes_append, List.append_assoc, List.append_assoc,
    readNumeral, whole]
  dsimp only
  split
  · rename_i none
    exact absurd none proper.whole.some
  · rename_i zero
    cases proper.whole.first _ zero
  · rw [fraction, Option.bind_eq_bind, Option.bind_some]
    dsimp only
    rw [power]
    rfl

theorem readValue_spelled {n : Numeral} (proper : n.Proper) (fuel depth : Nat) {rest : Bytes}
    (closes : Closes rest) :
    readValue (fuel + 1) depth (bytes n.spelled ++ rest) = some (n.toJson, rest) := by
  have read := readNumeral_unsigned proper closes
  unfold Numeral.spelled
  cases sign : n.negative with
  | true =>
    rw [sign] at read
    change readValue (fuel + 1) depth (45 :: (bytes n.unsigned ++ rest)) = _
    rw [readValue]
    exact read
  | false =>
    rw [sign] at read
    obtain ⟨digit, more, same⟩ := List.exists_cons_of_ne_nil proper.whole.some
    have small := proper.whole.small digit (same ▸ List.mem_cons_self)
    obtain ⟨b, written, -, least, most⟩ := bytes_digitChar small
      (more.map Text.digitChar ++ (fractionText n.fraction ++ powerText n.power))
    have starts : bytes n.unsigned = b :: bytes
        (more.map Text.digitChar ++ (fractionText n.fraction ++ powerText n.power)) := by
      rw [Numeral.unsigned, same]
      exact written
    simp only [Bool.false_eq_true, if_false]
    rw [starts] at read ⊢
    rw [List.cons_append] at read ⊢
    rw [readValue]
    split <;> first | exact read | omega

end Json

/-! ## What is written -/

namespace Scientific

private theorem ratio_positive {base : Nat} (positive : 0 < base) (exponent : Int) :
    0 < (ratio base exponent).1 ∧ 0 < (ratio base exponent).2 := by
  cases exponent with
  | ofNat e => exact ⟨Nat.pow_pos positive, Nat.one_pos⟩
  | negSucc e => exact ⟨Nat.one_pos, Nat.pow_pos positive⟩

private theorem onGrid?_positive {tie : Tie} {m : Nat} {q step : Int} {leastOfBinade : Bool}
    {digits : Nat} (positive : 0 < m) (found : onGrid? tie m q leastOfBinade step = some digits) :
    0 < digits := by
  have two : 0 < (ratio 2 q).1 := (ratio_positive (by decide) q).1
  have ten : 0 < (ratio 10 step).2 := (ratio_positive (by decide) step).2
  have low : 0 < (4 * m - if leastOfBinade then 1 else 2) * (ratio 2 q).1 * (ratio 10 step).2 := by
    refine Nat.mul_pos (Nat.mul_pos ?_ two) ten
    split <;> omega
  have outside : ∀ {least greatest : Nat}, 0 < least →
      (if m % 2 = 0 then decide (least ≤ 0 ∧ 0 ≤ greatest)
        else decide (least < 0 ∧ 0 < greatest)) = true → False := by
    intro least greatest above inside
    split at inside <;> have bounds := of_decide_eq_true inside <;> omega
  refine Nat.pos_of_ne_zero fun zero => ?_
  subst zero
  unfold onGrid? at found
  dsimp only at found
  split at found
  · cases found
  · rename_i inside _
    rw [Option.some.inj found, Nat.zero_mul] at inside
    exact outside low inside
  · cases found
  · rename_i inside _
    split at found
    · rw [Option.some.inj found, Nat.zero_mul] at inside
      exact outside low inside
    · split at found
      · cases found
      · split at found
        · cases found
        · have same := Option.some.inj found
          split at same
          · rw [same, Nat.zero_mul] at inside
            exact outside low inside
          · cases same

private theorem trimZeros_positive {steps digits : Nat} {exponent : Int} (positive : 0 < digits) :
    0 < (trimZeros steps digits exponent).digits := by
  induction steps generalizing digits exponent with
  | zero => exact positive
  | succ steps ih =>
    rw [trimZeros]
    split
    · exact ih (by omega)
    · exact positive

theorem shortest_positive (tie : Tie) (most : Nat) {m : Nat} (q : Int) (leastOfBinade : Bool)
    (positive : 0 < m) : 0 < (shortest tie most m q leastOfBinade).digits := by
  unfold shortest
  dsimp only
  split
  · rename_i digits exponent found
    obtain ⟨n, -, grid⟩ := List.exists_of_findSome?_eq_some found
    obtain ⟨other, nearest, same⟩ := Option.map_eq_some_iff.mp grid
    cases same
    exact trimZeros_positive (onGrid?_positive positive nearest)
  · exact positive

end Scientific

namespace Json

private def Spells (written : List Char) : Prop :=
  ∃ n : Numeral, n.Proper ∧ n.negative = false ∧ written = n.unsigned

private theorem plain_of_first {digit : Nat} {digits : List Nat} (other : digit ≠ 0)
    (small : ∀ d ∈ digit :: digits, d < 10) : Text.Plain (digit :: digits) :=
  ⟨List.cons_ne_nil _ _, small, fun _ same => absurd (List.cons.inj same).1 other⟩

private theorem pointed_spells {layout : NumberLayout} (zero : layout.pointZero = true)
    {digit : Nat} {digits : List Nat} (other : digit ≠ 0) (small : ∀ d ∈ digit :: digits, d < 10)
    (exponent : Int) : Spells (layout.pointed ((digit :: digits).map Text.digitChar) exponent) := by
  have zeros : ∀ count, ∀ d ∈ List.replicate count 0, d < 10 := by
    intro count d listed
    rw [List.eq_of_mem_replicate listed]
    decide
  unfold NumberLayout.pointed
  rw [zero, List.length_map]
  dsimp only
  split
  · refine ⟨⟨false, digit :: (digits ++ List.replicate exponent.toNat 0), some [0], none⟩,
      ⟨plain_of_first other ?_, ?_, fun _ _ => nofun⟩, rfl, ?_⟩
    · rw [← List.cons_append]
      exact fun d listed => (List.mem_append.mp listed).elim (small d) (zeros _ d)
    · rintro _ ⟨⟩
      decide
    · rw [Numeral.unsigned, ← List.cons_append, List.map_append, List.map_replicate]
      rfl
  · rename_i negative
    split
    · rename_i positive
      obtain ⟨before, same⟩ : ∃ before, ((digit :: digits).length + exponent).toNat = before + 1 :=
        ⟨_, (Nat.succ_pred_eq_of_pos (by omega)).symm⟩
      have shorter : before < digits.length := by
        rw [List.length_cons] at same
        omega
      rw [same, ← List.map_take, ← List.map_drop, List.take_succ_cons, List.drop_succ_cons]
      refine ⟨⟨false, digit :: digits.take before, some (digits.drop before), none⟩,
        ⟨plain_of_first other ?_, ?_, fun _ _ => nofun⟩, rfl, ?_⟩
      · exact fun d listed => small d (List.cons_subset_cons _ (List.take_subset _ _) listed)
      · rintro _ ⟨⟩
        refine ⟨fun none => ?_, fun d listed => small d ?_⟩
        · have := congrArg List.length none
          rw [List.length_drop] at this
          simp only [List.length_nil] at this
          omega
        · exact List.mem_cons_of_mem _ (List.drop_subset _ _ listed)
      · rw [Numeral.unsigned, powerText, List.append_nil]
        rfl
    · refine ⟨⟨false, [0], some (List.replicate
          (-((digit :: digits).length + exponent)).toNat 0 ++ (digit :: digits)), none⟩,
        ⟨⟨List.cons_ne_nil _ _, zeros 1, fun _ same => (List.cons.inj same).2.symm⟩, ?_,
          fun _ _ => nofun⟩, rfl, ?_⟩
      · rintro _ ⟨⟩
        refine ⟨by simp, fun d listed => ?_⟩
        exact (List.mem_append.mp listed).elim (zeros _ d) (small d)
      · rw [Numeral.unsigned, powerText, List.append_nil, fractionText, List.map_append,
          List.map_replicate]
        rfl

private theorem powered_spells {digit : Nat} {digits : List Nat} (other : digit ≠ 0)
    (small : ∀ d ∈ digit :: digits, d < 10) (leading : Int) :
    Spells (NumberLayout.powered ((digit :: digits).map Text.digitChar) leading) := by
  obtain ⟨power, -⟩ := Text.digits_plain leading.natAbs
  have first : Text.Plain [digit] := plain_of_first other fun d listed =>
    small d (List.mem_singleton.mp listed ▸ List.mem_cons_self)
  have sign : ∀ digits : List Char, 'e' :: (if leading < 0 then '-' else '+') :: digits =
      'e' :: (if decide (leading < 0) = true then '-' else '+') :: digits := by
    intro digits
    simp only [decide_eq_true_eq]
  cases digits with
  | nil =>
    refine ⟨⟨false, [digit], none, some (decide (leading < 0), Text.digits 10 leading.natAbs)⟩,
      ⟨first, fun _ => nofun, ?_⟩, rfl, ?_⟩
    · rintro _ _ ⟨⟩
      exact ⟨power.some, power.small⟩
    · exact congrArg (Text.digitChar digit :: ·) (sign _)
  | cons next digits =>
    refine ⟨⟨false, [digit], some (next :: digits),
        some (decide (leading < 0), Text.digits 10 leading.natAbs)⟩, ⟨first, ?_, ?_⟩, rfl, ?_⟩
    · rintro _ ⟨⟩
      exact ⟨List.cons_ne_nil _ _, fun d listed => small d (List.mem_cons_of_mem _ listed)⟩
    · rintro _ _ ⟨⟩
      exact ⟨power.some, power.small⟩
    · exact congrArg (fun rest => Text.digitChar digit :: '.' ::
        ((next :: digits).map Text.digitChar ++ rest)) (sign _)

def Numeral.ofInteger : Int → Numeral
  | .ofNat number => ⟨false, Text.digits 10 number, none, none⟩
  | .negSucc number => ⟨true, Text.digits 10 (number + 1), none, none⟩

theorem Numeral.ofInteger_proper (value : Int) : (ofInteger value).Proper := by
  cases value with
  | ofNat number => exact ⟨(Text.digits_plain number).1, fun _ => nofun, fun _ _ => nofun⟩
  | negSucc number => exact ⟨(Text.digits_plain (number + 1)).1, fun _ => nofun, fun _ _ => nofun⟩

theorem signedDecimal_spelled (value : Int) :
    (Text.signedDecimal value).toList = (Numeral.ofInteger value).spelled := by
  cases value with
  | ofNat number =>
    rw [Text.signedDecimal, Text.decimal, String.toList_ofList]
    exact (List.append_nil _).symm
  | negSucc number =>
    rw [Text.signedDecimal, Text.decimal, String.toList_append, String.toList_ofList,
      String.toList_ofList]
    exact congrArg ('-' :: ·) (List.append_nil _).symm

private def denoted (total : Nat) (digits : List Nat) : Nat :=
  digits.foldl (fun total digit => 10 * total + digit) total

private theorem le_denoted (total : Nat) (digits : List Nat) : total ≤ denoted total digits := by
  induction digits generalizing total with
  | nil => exact Nat.le_refl total
  | cons digit digits ih => exact Nat.le_trans (by omega) (ih (10 * total + digit))

private theorem accumulate_eq {total : Nat} {digits : List Nat}
    (fits : denoted total digits < UInt64.size) :
    accumulate total digits = (denoted total digits, []) := by
  induction digits generalizing total with
  | nil => rfl
  | cons digit digits ih =>
    have first : 10 * total + digit < UInt64.size :=
      Nat.lt_of_le_of_lt (le_denoted (10 * total + digit) digits) fits
    rw [accumulate, if_pos first]
    exact ih fits

private theorem denoted_digits (number : Nat) : denoted 0 (Text.digits 10 number) = number := by
  induction number using Nat.strongRecOn with
  | ind number ih =>
    by_cases large : 10 ≤ number
    · have before := ih (number / 10) (Nat.div_lt_self (by omega) (by decide))
      rw [denoted] at before
      rw [Text.digits_of_le (by decide) large, denoted, List.foldl_append, before, List.foldl_cons,
        List.foldl_nil]
      exact Nat.div_add_mod number 10
    · rw [Text.digits_of_lt (Nat.lt_of_not_le large), denoted, List.foldl_cons, List.foldl_nil]
      omega

def InRange (value : Int) : Prop := Int64.minValue.toInt ≤ value ∧ value < UInt64.size

theorem Numeral.toJson_ofInteger {value : Int} (fits : InRange value) :
    (ofInteger value).toJson = .integer value := by
  obtain ⟨least, most⟩ := fits
  cases value with
  | ofNat number =>
    have reads : accumulate 0 (Text.digits 10 number) = (number, []) := by
      rw [accumulate_eq (by rw [denoted_digits]; exact Int.ofNat_lt.mp most), denoted_digits]
    rw [ofInteger, toJson, reads]
    rfl
  | negSucc number =>
    have enough : number + 1 ≤ 2 ^ 63 := by
      have bound : Int64.minValue.toInt = -(2 ^ 63 : Nat) := by decide
      rw [bound] at least
      omega
    have reads : accumulate 0 (Text.digits 10 (number + 1)) = (number + 1, []) := by
      have small : number + 1 < UInt64.size := Nat.lt_of_le_of_lt enough (by decide)
      rw [accumulate_eq (by rw [denoted_digits]; exact small), denoted_digits]
    have kept : 0 < number + 1 ∧ Int64.minValue.toInt ≤ -((number + 1 : Nat) : Int) :=
      ⟨Nat.succ_pos number, least⟩
    rw [ofInteger, toJson, reads]
    simp only [List.isEmpty_nil, if_true, Bool.not_true, Bool.false_eq_true, if_false, if_pos kept]
    rfl

private theorem text_spelled {layout : NumberLayout} (zero : layout.pointZero = true)
    {range : Int × Int} (ranged : layout.positional = some range) (most : Nat) (negative : Bool)
    (m : Nat) (q : Int) (leastOfBinade : Bool) : ∃ n : Numeral, n.Proper ∧
      (layout.text most (.finite negative m q leastOfBinade)).toList = n.spelled := by
  have signed : ∀ written : String, Spells written.toList → ∃ n : Numeral, n.Proper ∧
      ((if negative then "-" else "") ++ written).toList = n.spelled := by
    rintro written ⟨⟨_, whole, fraction, power⟩, proper, rfl, same⟩
    refine ⟨⟨negative, whole, fraction, power⟩, ⟨proper.whole, proper.fraction, proper.power⟩, ?_⟩
    rw [String.toList_append, same]
    cases negative <;> rfl
  unfold NumberLayout.text
  rw [zero]
  dsimp only
  split
  · refine signed "0.0" ⟨⟨false, [0], some [0], none⟩, ⟨⟨by decide, by decide, ?_⟩, ?_, ?_⟩, rfl, by rfl⟩
    · exact fun _ same => (List.cons.inj same).2.symm
    · rintro _ ⟨⟩
      decide
    · exact fun _ _ => nofun
  · rename_i positive
    refine signed _ ?_
    rw [String.toList_ofList]
    obtain ⟨plain, first⟩ := Text.digits_plain
      (Scientific.shortest layout.tie most m q leastOfBinade).digits
    have first := first (Scientific.shortest_positive _ _ _ _ (Nat.pos_of_ne_zero positive))
    obtain ⟨digit, digits, same⟩ := List.exists_cons_of_ne_nil plain.some
    have other : digit ≠ 0 := fun zero => first digits (zero ▸ same)
    have small := same ▸ plain.small
    unfold NumberLayout.decimalText
    rw [ranged, same]
    dsimp only
    split
    · exact pointed_spells zero other small _
    · exact powered_spells other small _

theorem single_spelled {x : Single} (finite : x.isFinite = true) :
    ∃ n : Numeral, n.Proper ∧ x.documentText.toList = n.spelled := by
  unfold Single.isFinite at finite
  unfold Single.documentText
  split at finite
  · rename_i decoded
    rw [decoded]
    exact text_spelled rfl rfl _ _ _ _ _
  · cases finite

theorem double_spelled {x : Double} (finite : x.isFinite = true) :
    ∃ n : Numeral, n.Proper ∧ x.documentText.toList = n.spelled := by
  unfold Double.isFinite at finite
  unfold Double.documentText
  split at finite
  · rename_i decoded
    rw [decoded]
    exact text_spelled rfl rfl _ _ _ _ _
  · cases finite

end Json

end ScriptGraph
