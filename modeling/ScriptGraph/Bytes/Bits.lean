/-!
Reading single bits from a row of bytes, the lowest bit of each byte first.
-/

set_option autoImplicit false
set_option relaxedAutoImplicit false

namespace ScriptGraph

/-- A place between two bits. -/
structure Bits where
  bytes : List UInt8
  /-- How many bits of the first byte are read already. -/
  used : Nat

namespace Bits

/-- Reads from the front of some bits; fails where they end too soon. -/
abbrev Reader (α : Type) := StateT Bits Option α

def ofBytes (bytes : List UInt8) : Bits := ⟨bytes, 0⟩

def bit : Reader Bool
  | ⟨[], _⟩ => none
  | ⟨byte :: rest, used⟩ =>
    some (byte.toNat.testBit used, if used < 7 then ⟨byte :: rest, used + 1⟩ else ⟨rest, 0⟩)

/-- A number of so many bits, the lowest bit first. -/
def number : Nat → Reader Nat
  | 0 => return 0
  | count + 1 => do
    let lowest ← bit
    return lowest.toNat + 2 * (← number count)

def align : Reader Unit
  | ⟨bytes, used⟩ => some ((), ⟨if used = 0 then bytes else bytes.drop 1, 0⟩)

def take (count : Nat) : Reader (List UInt8)
  | ⟨bytes, used⟩ =>
    if count ≤ bytes.length then some (bytes.take count, ⟨bytes.drop count, used⟩) else none

end Bits

end ScriptGraph
