/-!
Floating point numbers kept as their bit patterns. Two numbers are equal when their bits are,
so the zeros of different sign differ and a NaN equals itself.
-/

set_option autoImplicit false
set_option relaxedAutoImplicit false

namespace ScriptGraph

/-- A single precision number, by its 32 bits. -/
structure Single where
  bits : UInt32
deriving DecidableEq, Inhabited

/-- A double precision number, by its 64 bits. -/
structure Double where
  bits : UInt64
deriving DecidableEq, Inhabited

def twoTo (exponent : Nat) : Nat := Nat.pow 2 exponent

/-- The widths of the fields of an interchange format. -/
structure FloatFormat where
  fractionBits : Nat
  exponentBits : Nat
deriving DecidableEq

def FloatFormat.single : FloatFormat := ⟨23, 8⟩

def FloatFormat.double : FloatFormat := ⟨52, 11⟩

/-- What a bit pattern denotes; a finite number is `significand * 2 ^ exponent`. -/
inductive Decoded where
  | nan
  | infinite (negative : Bool)
  | finite (negative : Bool) (significand : Nat) (exponent : Int) (leastOfBinade : Bool)
deriving DecidableEq

namespace FloatFormat

def leastExponent (format : FloatFormat) : Int :=
  2 - twoTo (format.exponentBits - 1) - format.fractionBits

def decode (format : FloatFormat) (bits : Nat) : Decoded :=
  let fraction := bits % twoTo format.fractionBits
  let exponent := bits / twoTo format.fractionBits % twoTo format.exponentBits
  let negative := bits / twoTo (format.fractionBits + format.exponentBits) % 2 == 1
  if exponent = twoTo format.exponentBits - 1 then
    if fraction = 0 then .infinite negative else .nan
  else if exponent = 0 then .finite negative fraction format.leastExponent false
  else
    .finite negative (twoTo format.fractionBits + fraction) (format.leastExponent + exponent - 1)
      (fraction = 0 ∧ 1 < exponent)

def infinity (format : FloatFormat) : Nat :=
  (twoTo format.exponentBits - 1) * twoTo format.fractionBits

/-- The multiple of a unit nearest to a number, counted in units; of two the even one. -/
def roundedTo (unit number : Nat) : Nat :=
  let whole := number / unit
  let twice := 2 * (number % unit)
  if unit < twice ∨ twice = unit ∧ whole % 2 = 1 then whole + 1 else whole

/-- The bit pattern of the number nearest to `significand * 2 ^ exponent`, infinity if that is too
large. A carry out of the rounded significand moves on into the exponent by itself. -/
def nearest (format : FloatFormat) (significand : Nat) (exponent : Int) : Nat :=
  if significand = 0 then 0
  else
    let least := max format.leastExponent (exponent + significand.log2 - format.fractionBits)
    let units :=
      if least ≤ exponent then significand * twoTo (exponent - least).toNat
      else roundedTo (twoTo (least - exponent).toNat) significand
    min ((least - format.leastExponent).toNat * twoTo format.fractionBits + units) format.infinity

def encode (format : FloatFormat) : Decoded → Nat
  | .nan => format.infinity + twoTo (format.fractionBits - 1)
  | .infinite negative => sign negative + format.infinity
  | .finite negative significand exponent _ => sign negative + format.nearest significand exponent
where
  sign (negative : Bool) : Nat :=
    if negative then twoTo (format.fractionBits + format.exponentBits) else 0

end FloatFormat

namespace Single

def decoded (x : Single) : Decoded :=
  FloatFormat.single.decode x.bits.toNat

def zero : Single := ⟨0⟩

def quietNaN : Single := ⟨0x7FC00000⟩

def isNaN (x : Single) : Bool :=
  match x.decoded with
  | .nan => true
  | _ => false

def isFinite (x : Single) : Bool :=
  match x.decoded with
  | .finite .. => true
  | _ => false

private def number (x : Single) : Float32 := Float32.ofBits x.bits

def add (x y : Single) : Single := ⟨(x.number + y.number).toBits⟩

def sub (x y : Single) : Single := ⟨(x.number - y.number).toBits⟩

def half (x : Single) : Single := ⟨(x.number / Float32.ofBits 0x40000000).toBits⟩

/-- Whether the first number is strictly below the second; never so with a NaN. -/
def below (x y : Single) : Bool := x.number < y.number

/-- The lesser of two numbers, of equal ones the second; a NaN gives way to a number. -/
def lesser (x y : Single) : Single :=
  if y.isNaN || x.below y then x else y

/-- The greater of two numbers, of equal ones the second; a NaN gives way to a number. -/
def greater (x y : Single) : Single :=
  if y.isNaN || y.below x then x else y

instance : Add Single := ⟨add⟩
instance : Sub Single := ⟨sub⟩

/-- The nearest single precision number to an integer of at most 64 bits. -/
def ofInt : Int → Single
  | .ofNat n => ⟨n.toUInt64.toFloat32.toBits⟩
  | .negSucc n => ⟨(-(n + 1).toUInt64.toFloat32).toBits⟩

def widen (x : Single) : Double := ⟨(FloatFormat.double.encode x.decoded).toUInt64⟩

end Single

namespace Double

def decoded (x : Double) : Decoded :=
  FloatFormat.double.decode x.bits.toNat

def zero : Double := ⟨0⟩

def quietNaN : Double := ⟨0x7FF8000000000000⟩

def isFinite (x : Double) : Bool :=
  match x.decoded with
  | .finite .. => true
  | _ => false

private def number (x : Double) : Float := Float.ofBits x.bits

/-- The nearest double precision number to an integer of at most 64 bits. -/
def ofInt : Int → Double
  | .ofNat n => ⟨n.toUInt64.toFloat.toBits⟩
  | .negSucc n => ⟨(-(n + 1).toUInt64.toFloat).toBits⟩

def narrow (x : Double) : Single := ⟨(FloatFormat.single.encode x.decoded).toUInt32⟩

private def power (exponent : Nat) : Float := Float.ofScientific 1 false exponent

private def descend : Nat → Float → Nat → Float
  | 0, x, _ => x
  | steps + 1, x, exponent =>
    if exponent ≤ 308 then x / power exponent
    else if x == 0 then x
    else descend steps (x / power 308) (exponent - 308)

/-- A 64-bit significand times a power of ten: the significand is rounded first, then the one
product or quotient with each power of ten. None if the number is too large for the format. -/
def scaled? (negative : Bool) (significand : Nat) (exponent : Int) : Option Double :=
  let x := significand.toUInt64.toFloat
  let signed (x : Float) : Double := ⟨(if negative then -x else x).toBits⟩
  match exponent with
  | .ofNat e =>
    if e ≤ 308 then
      let product := x * power e
      if product.isInf then none else some (signed product)
    else if x == 0 then some (signed x)
    else none
  | .negSucc e => some (signed (descend (e / 308 + 2) x (e + 1)))

end Double

end ScriptGraph
