import ScriptGraph.Bytes.Bits

/-!
Prefix codes given by the lengths of their code words. Words of one length are consecutive
numbers in the order of their symbols, and shorter words come before longer ones.
-/

set_option autoImplicit false
set_option relaxedAutoImplicit false

namespace ScriptGraph

structure PrefixCode where
  /-- The number of words of each length from one on. -/
  counts : List Nat
  /-- The symbols in the order of their words. -/
  symbols : Array Nat

namespace PrefixCode

/-- The greatest length of a word. -/
def maxLength : Nat := 15

def wordLengths : List Nat := (List.range maxLength).map (· + 1)

def symbolsOf (lengths : List Nat) (length : Nat) : List Nat :=
  lengths.zipIdx.filterMap fun entry => if entry.1 = length then some entry.2 else none

/-- The code whose words have the given lengths, in the order of their symbols; length zero means
that a symbol has no word. -/
def ofLengths (lengths : List Nat) : PrefixCode where
  counts := wordLengths.map lengths.count
  symbols := (wordLengths.flatMap (symbolsOf lengths)).toArray

/-- The share of all long words that begin with a word of the code, in units of one long word. -/
def weight (counts : List Nat) : Nat :=
  counts.foldl (fun total count => 2 * total + count) 0

/-- Whether every long enough row of bits begins with exactly one word. -/
def isComplete (code : PrefixCode) : Bool :=
  weight code.counts == Nat.pow 2 maxLength

/-- Reads a word, having read `word` of a length at which the first word is `first`, the symbol of
which stands at `index`. -/
def readFrom (symbols : Array Nat) : Nat → Nat → Nat → List Nat → Bits.Reader Nat
  | _, _, _, [] => failure
  | word, first, index, count :: rest => do
    let word := 2 * word + (← Bits.bit).toNat
    let first := 2 * first
    if word < first + count then
      match symbols[index + (word - first)]? with
      | some symbol => return symbol
      | none => failure
    else readFrom symbols word (first + count) (index + count) rest

def read (code : PrefixCode) : Bits.Reader Nat :=
  readFrom code.symbols 0 0 0 code.counts

end PrefixCode

end ScriptGraph
