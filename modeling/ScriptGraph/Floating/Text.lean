import ScriptGraph.Floating.Shortest
import ScriptGraph.Text.Numeral

/-!
The written forms of floating point numbers, each given by a record of the choices it makes.
-/

set_option autoImplicit false
set_option relaxedAutoImplicit false

namespace ScriptGraph

structure NumberLayout where
  /-- Which of two equally near decimals is written. -/
  tie : Tie
  /-- The leading exponents written without a power of ten; all of them if absent. -/
  positional : Option (Int × Int)
  /-- Whether an integer is followed by `.0`. -/
  pointZero : Bool
  infinity : String
  nan : String

namespace NumberLayout

open ScriptGraph.Text

def plain : NumberLayout := ⟨.up, none, false, "inf", "NaN"⟩

/-- Documents, single precision: a power of ten below `1e-6` and from `1e13` on. -/
def singleDocument : NumberLayout := ⟨.even, some (-6, 12), true, "null", "null"⟩

/-- Documents, double precision: a power of ten below `1e-5` and from `1e16` on. -/
def doubleDocument : NumberLayout := ⟨.even, some (-5, 15), true, "null", "null"⟩

/-- The digits with a point and zeros put where the exponent asks for them. -/
def pointed (layout : NumberLayout) (digits : List Char) (exponent : Int) : List Char :=
  let whole := (digits.length : Int) + exponent
  if 0 ≤ exponent then
    digits ++ List.replicate exponent.toNat '0' ++ (if layout.pointZero then ['.', '0'] else [])
  else if 0 < whole then digits.take whole.toNat ++ '.' :: digits.drop whole.toNat
  else '0' :: '.' :: List.replicate (-whole).toNat '0' ++ digits

/-- The digits with a point after the first and a signed power of ten. -/
def powered (digits : List Char) (leading : Int) : List Char :=
  let mantissa := match digits with
    | first :: next :: rest => first :: '.' :: next :: rest
    | digits => digits
  let sign := if leading < 0 then '-' else '+'
  mantissa ++ 'e' :: sign :: (Text.digits 10 leading.natAbs).map digitChar

def decimalText (layout : NumberLayout) (x : Scientific) : List Char :=
  let digits := (Text.digits 10 x.digits).map digitChar
  let leading := (digits.length : Int) + x.exponent - 1
  match layout.positional with
  | some (least, greatest) =>
    if least ≤ leading ∧ leading ≤ greatest then layout.pointed digits x.exponent
    else powered digits leading
  | none => layout.pointed digits x.exponent

/-- The text of a number, given the most digits its format ever needs. -/
def text (layout : NumberLayout) (most : Nat) : Decoded → String
  | .nan => layout.nan
  | .infinite negative =>
    if negative ∧ layout.positional.isNone then "-" ++ layout.infinity else layout.infinity
  | .finite negative m q leastOfBinade =>
    let sign := if negative then "-" else ""
    if m = 0 then sign ++ (if layout.pointZero then "0.0" else "0")
    else
      sign ++ String.ofList (layout.decimalText (.shortest layout.tie most m q leastOfBinade))

end NumberLayout

def Single.text (x : Single) : String := NumberLayout.plain.text 9 x.decoded

def Double.text (x : Double) : String := NumberLayout.plain.text 17 x.decoded

/-- The form of a single precision number in a document; a number that is not finite is null. -/
def Single.documentText (x : Single) : String := NumberLayout.singleDocument.text 9 x.decoded

/-- The form of a double precision number in a document; a number that is not finite is null. -/
def Double.documentText (x : Double) : String := NumberLayout.doubleDocument.text 17 x.decoded

end ScriptGraph
