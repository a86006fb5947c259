import ScriptGraph.Floating.Basic

/-!
The fewest decimal digits that still read back as a given floating point number. All numbers that
round to `m * 2 ^ q` form an interval around it, its ends included when `m` is even; the decimal
sought is the nearest to the number on the coarsest decimal grid that meets the interval.
-/

set_option autoImplicit false
set_option relaxedAutoImplicit false

namespace ScriptGraph

/-- Which of two equally near decimals is taken. -/
inductive Tie where
  | up
  | even
deriving DecidableEq

structure Scientific where
  digits : Nat
  exponent : Int
deriving DecidableEq

namespace Scientific

/-- A power whose exponent may be negative, as a numerator and a denominator. -/
def ratio (base : Nat) : Int → Nat × Nat
  | .ofNat e => (Nat.pow base e, 1)
  | .negSucc e => (1, Nat.pow base (e + 1))

/-- Whether `10 ^ exponent` is at most `m * 2 ^ q`. -/
def reaches (m : Nat) (q exponent : Int) : Bool :=
  let two := ratio 2 q
  let ten := ratio 10 exponent
  ten.1 * two.2 ≤ m * two.1 * ten.2

/-- The largest exponent of ten at most `steps` above a start that still reaches. -/
def climb (m : Nat) (q : Int) : Nat → Int → Int
  | 0, exponent => exponent
  | steps + 1, exponent =>
    if reaches m q (exponent + 1) then climb m q steps (exponent + 1) else exponent

/-- The decimal exponent of the leading digit of `m * 2 ^ q`. -/
def leadingExponent (m : Nat) (q : Int) : Int :=
  climb m q 4 (Int.fdiv ((m.log2 + q) * 1233) 4096 - 2)

/-- The decimal nearest to `m * 2 ^ q` on the grid of multiples of `10 ^ step`, if it reads back. -/
def onGrid? (tie : Tie) (m : Nat) (q : Int) (leastOfBinade : Bool) (step : Int) : Option Nat :=
  let two := ratio 2 q
  let ten := ratio 10 step
  let unit := 4 * two.2 * ten.1
  let value := 4 * m * two.1 * ten.2
  let low := (4 * m - if leastOfBinade then 1 else 2) * two.1 * ten.2
  let high := (4 * m + 2) * two.1 * ten.2
  let inside (x : Nat) : Bool :=
    if m % 2 = 0 then low ≤ x ∧ x ≤ high else low < x ∧ x < high
  let k := value / unit
  match inside (k * unit), inside ((k + 1) * unit) with
  | false, false => none
  | true, false => some k
  | false, true => some (k + 1)
  | true, true =>
    let below := value - k * unit
    let above := (k + 1) * unit - value
    if below < above then some k
    else if above < below then some (k + 1)
    else match tie with
      | .up => some (k + 1)
      | .even => some (if k % 2 = 0 then k else k + 1)

def trimZeros : Nat → Nat → Int → Scientific
  | 0, digits, exponent => ⟨digits, exponent⟩
  | steps + 1, digits, exponent =>
    if digits % 10 = 0 then trimZeros steps (digits / 10) (exponent + 1) else ⟨digits, exponent⟩

/-- The shortest decimal with at most `most` digits that reads back as `m * 2 ^ q`, `m` positive. -/
def shortest (tie : Tie) (most m : Nat) (q : Int) (leastOfBinade : Bool) : Scientific :=
  let leading := leadingExponent m q
  let found := (List.range most).findSome? fun (n : Nat) =>
    (onGrid? tie m q leastOfBinade (leading - n)).map fun digits => (digits, leading - (n : Int))
  match found with
  | some (digits, exponent) => trimZeros (most + 1) digits exponent
  | none => ⟨m, q⟩

end Scientific

end ScriptGraph
