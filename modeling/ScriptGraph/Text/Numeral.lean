/-!
Numerals in base ten and base sixteen.
-/

set_option autoImplicit false
set_option relaxedAutoImplicit false

namespace ScriptGraph.Text

def digitChar (digit : Nat) : Char :=
  if digit < 10 then Char.ofNat (48 + digit) else Char.ofNat (87 + digit)

/-- The digits of a number in a base above one, the most significant first, put before `rest`. -/
def digitsBefore (base : Nat) (rest : List Nat) (number : Nat) : List Nat :=
  if 1 < base ∧ base ≤ number then
    digitsBefore base (number % base :: rest) (number / base)
  else number :: rest
termination_by number
decreasing_by exact Nat.div_lt_self (by omega) (by omega)

/-- The digits of a number in a base above one, the most significant first. -/
def digits (base number : Nat) : List Nat :=
  digitsBefore base [] number

def decimal (number : Nat) : String :=
  String.ofList ((digits 10 number).map digitChar)

/-- A number in base ten with a minus sign if it is negative. -/
def signedDecimal : Int → String
  | .ofNat number => decimal number
  | .negSucc number => "-" ++ decimal (number + 1)

def hexadecimal (number : Nat) : String :=
  String.ofList ((digits 16 number).map digitChar)

/-- A text filled up with zeros on its left to a width. -/
def zeroFilled (width : Nat) (text : String) : String :=
  String.ofList (List.replicate (width - text.length) '0') ++ text

def digitValue? (c : Char) : Option Nat :=
  if '0' ≤ c ∧ c ≤ '9' then some (c.toNat - 48) else none

/-- The number that decimal digits denote after digits of the given value. -/
def decimalAfter? : Nat → List Char → Option Nat
  | value, [] => some value
  | value, c :: rest => (digitValue? c).bind fun digit => decimalAfter? (10 * value + digit) rest

/-- The number a text of decimal digits denotes; the empty text denotes none. -/
def decimalValue? : List Char → Option Nat
  | [] => none
  | c :: rest => decimalAfter? 0 (c :: rest)

end ScriptGraph.Text
