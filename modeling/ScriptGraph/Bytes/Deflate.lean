import ScriptGraph.Bytes.PrefixCode

/-!
Compressed bytes. They are a sequence of blocks, each of them bytes as they are or symbols of two
prefix codes: bytes, the end of the block, and repetitions of bytes written before. What comes
after the last block is ignored. Writing uses blocks of bytes as they are only.
-/

set_option autoImplicit false
set_option relaxedAutoImplicit false

namespace ScriptGraph.Deflate

open Bits

/-! ## Reading -/

/-- The lengths of repetitions by symbol: the least length, and how many bits add to it. -/
def lengthTable : List (Nat × Nat) := [
  (3, 0), (4, 0), (5, 0), (6, 0), (7, 0), (8, 0), (9, 0), (10, 0), (11, 1), (13, 1), (15, 1),
  (17, 1), (19, 2), (23, 2), (27, 2), (31, 2), (35, 3), (43, 3), (51, 3), (59, 3), (67, 4), (83, 4),
  (99, 4), (115, 4), (131, 5), (163, 5), (195, 5), (227, 5), (258, 0)]

/-- The distances of repetitions by symbol: the least distance, and how many bits add to it. -/
def distanceTable : List (Nat × Nat) := [
  (1, 0), (2, 0), (3, 0), (4, 0), (5, 1), (7, 1), (9, 2), (13, 2), (17, 3), (25, 3), (33, 4),
  (49, 4), (65, 5), (97, 5), (129, 6), (193, 6), (257, 7), (385, 7), (513, 8), (769, 8), (1025, 9),
  (1537, 9), (2049, 10), (3073, 10), (4097, 11), (6145, 11), (8193, 12), (12289, 12), (16385, 13),
  (24577, 13)]

/-- A symbol of a table with the bits that add to it. -/
def extended (table : List (Nat × Nat)) (symbol : Nat) : Reader Nat :=
  match table[symbol]? with
  | some (least, bits) => do return least + (← number bits)
  | none => failure

/-- Repeats bytes from a distance back, one after the other. Before the first byte there are
zeros. -/
def repeated (distance : Nat) : Nat → Array UInt8 → Array UInt8
  | 0, out => out
  | count + 1, out =>
    let byte := if distance ≤ out.size then out.getD (out.size - distance) 0 else 0
    repeated distance count (out.push byte)

/-- The symbol that ends a block. -/
def endSymbol : Nat := 256

/-- Reads symbols up to the end of the block, at most as many as given. -/
def readSymbols (literals distances : PrefixCode) : Nat → Array UInt8 → Reader (Array UInt8)
  | 0, _ => failure
  | left + 1, out => do
    let symbol ← literals.read
    if symbol < endSymbol then readSymbols literals distances left (out.push symbol.toUInt8)
    else if symbol = endSymbol then return out
    else
      let length ← extended lengthTable (symbol - endSymbol - 1)
      let distance ← extended distanceTable (← distances.read)
      readSymbols literals distances left (repeated distance length out)

/-- The codes that need not be written down. -/
def fixedLiterals : PrefixCode := .ofLengths
  (List.replicate 144 8 ++ List.replicate 112 9 ++ List.replicate 24 7 ++ List.replicate 8 8)

def fixedDistances : PrefixCode := .ofLengths (List.replicate 32 5)

/-- The order in which the lengths of the code for lengths are written down. -/
def lengthOrder : List Nat := [16, 17, 18, 0, 8, 7, 9, 6, 10, 5, 11, 4, 12, 3, 13, 2, 14, 1, 15]

/-- Reads the code that the lengths of the other codes are written in. -/
def readLengthCode (count : Nat) : Reader PrefixCode := do
  let lengths ← (List.replicate count 3).mapM number
  let code := PrefixCode.ofLengths ((List.range lengthOrder.length).map fun symbol =>
    ((lengthOrder.zip lengths).lookup symbol).getD 0)
  if code.isComplete then return code else failure

/-- Lengths that a symbol of the code for lengths stands for, after the lengths read before, the
latest of them first. -/
def readRun (done : List Nat) : Nat → Reader (List Nat)
  | 16 =>
    match done with
    | [] => failure
    | last :: _ => do return List.replicate (3 + (← number 2)) last
  | 17 => do return List.replicate (3 + (← number 3)) 0
  | 18 => do return List.replicate (11 + (← number 7)) 0
  | length => return [length]

/-- Reads so many lengths; the latest of those read before comes first. -/
def readLengths (code : PrefixCode) (count : Nat) : Nat → List Nat → Reader (List Nat)
  | 0, _ => failure
  | left + 1, done => do
    if done.length = count then return done.reverse
    let run ← readRun done (← code.read)
    if done.length + run.length ≤ count then readLengths code count left (run ++ done)
    else failure

/-- A code that is complete, or has one word at most, and that of one bit. -/
def checkedCode (lengths : List Nat) : Reader PrefixCode :=
  let code := PrefixCode.ofLengths lengths
  if code.isComplete || (code.symbols.size ≤ 1 && lengths.all (· ≤ 1)) then return code else failure

def readCodes : Reader (PrefixCode × PrefixCode) := do
  let literals := 257 + (← number 5)
  let distances := 1 + (← number 5)
  let lengths := 4 + (← number 4)
  if 286 < literals ∨ 30 < distances then failure
  let code ← readLengthCode lengths
  let all ← readLengths code (literals + distances) (literals + distances + 1) []
  return (← checkedCode (all.take literals), ← checkedCode (all.drop literals))

/-- Reads a block of bytes as they are: their number stands before them, and its complement. -/
def readStored (out : Array UInt8) : Reader (Array UInt8) := do
  align
  let length ← number 16
  let complement ← number 16
  if length + complement = 0xFFFF then return out ++ (← take length)
  else failure

/-- Reads the contents of a block; there are no more symbols than bits. -/
def readBlock (size : Nat) (out : Array UInt8) : Reader (Array UInt8) := do
  match ← number 2 with
  | 0 => readStored out
  | 1 => readSymbols fixedLiterals fixedDistances size out
  | 2 =>
    let (literals, distances) ← readCodes
    readSymbols literals distances size out
  | _ => failure

def readBlocks (size : Nat) : Nat → Array UInt8 → Reader (Array UInt8)
  | 0, _ => failure
  | left + 1, out => do
    let isLast ← bit
    let out ← readBlock size out
    if isLast then return out else readBlocks size left out

/-- The bytes that were compressed; none if they are damaged or cut off. -/
def inflate? (bytes : List UInt8) : Option (List UInt8) :=
  let size := 8 * bytes.length + 1
  ((readBlocks size size #[]).run (ofBytes bytes)).map fun result => result.1.toList

/-! ## Writing -/

/-- The most bytes of one block. -/
def blockSize : Nat := 0xFFFF

def twoBytes (number : Nat) : List UInt8 := [number.toUInt8, (number / 256).toUInt8]

def block (isLast : Bool) (bytes : List UInt8) : List UInt8 :=
  (if isLast then 1 else 0) :: twoBytes bytes.length ++ twoBytes (0xFFFF - bytes.length) ++ bytes

/-- Writes bytes as blocks. -/
def deflate (bytes : List UInt8) : List UInt8 :=
  if bytes.length ≤ blockSize then block true bytes
  else block false (bytes.take blockSize) ++ deflate (bytes.drop blockSize)
termination_by bytes.length
decreasing_by simp_all [blockSize]; omega

end ScriptGraph.Deflate
