/-!
Bytes as texts of sixty-four characters. Three bytes become four characters; a last group that is
short is filled up with equals signs. Each row of bytes has one text, and only that text is read.
-/

set_option autoImplicit false
set_option relaxedAutoImplicit false

namespace ScriptGraph.Base64

def alphabet : List Char :=
  "ABCDEFGHIJKLMNOPQRSTUVWXYZabcdefghijklmnopqrstuvwxyz0123456789+/".toList

def padding : Char := '='

def digit (value : Nat) : Char := alphabet.getD value padding

def value? (c : Char) : Option Nat := alphabet.findIdx? fun d => d == c

def encode : List UInt8 → List Char
  | [] => []
  | [a] => [digit (a.toNat / 4), digit (a.toNat % 4 * 16), padding, padding]
  | [a, b] =>
    [digit (a.toNat / 4), digit (a.toNat % 4 * 16 + b.toNat / 16), digit (b.toNat % 16 * 4), padding]
  | a :: b :: c :: rest =>
    digit (a.toNat / 4) :: digit (a.toNat % 4 * 16 + b.toNat / 16) ::
      digit (b.toNat % 16 * 4 + c.toNat / 64) :: digit (c.toNat % 64) :: encode rest

/-- The byte of two digits at the end of a text, whose remaining bits must be zero. -/
def lastOne? (a b : Nat) : Option (List UInt8) :=
  if b % 16 = 0 then some [(a * 4 + b / 16).toUInt8] else none

/-- The bytes of three digits at the end of a text, whose remaining bits must be zero. -/
def lastTwo? (a b c : Nat) : Option (List UInt8) :=
  if c % 4 = 0 then some [(a * 4 + b / 16).toUInt8, (b % 16 * 16 + c / 4).toUInt8] else none

def group (a b c d : Nat) : List UInt8 :=
  [(a * 4 + b / 16).toUInt8, (b % 16 * 16 + c / 4).toUInt8, (c % 4 * 64 + d).toUInt8]

def decode? : List Char → Option (List UInt8)
  | [] => some []
  | [a, b, '=', '='] => do lastOne? (← value? a) (← value? b)
  | [a, b, c, '='] => do lastTwo? (← value? a) (← value? b) (← value? c)
  | a :: b :: c :: d :: rest => do
    return group (← value? a) (← value? b) (← value? c) (← value? d) ++ (← decode? rest)
  | _ => none

end ScriptGraph.Base64
