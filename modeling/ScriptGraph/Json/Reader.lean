import ScriptGraph.Json.Basic

/-!
Reading documents from bytes. The grammar is strict: nothing after the document, no comma before
a closing bracket, no zero before other digits. Ranges are another matter: a part that is well
formed but denotes nothing is read as unreadable, so that it only matters to those who look at it.
-/

set_option autoImplicit false
set_option relaxedAutoImplicit false

namespace ScriptGraph.Json

abbrev Bytes := List UInt8

def maxDepth : Nat := 127

def isBlankByte (b : UInt8) : Bool :=
  b == 32 || b == 10 || b == 13 || b == 9

def skipBlanks (bytes : Bytes) : Bytes :=
  bytes.dropWhile isBlankByte

def digitByte? (b : UInt8) : Option Nat :=
  if 48 ≤ b ∧ b ≤ 57 then some (b.toNat - 48) else none

def hexByte? (b : UInt8) : Option Nat :=
  if 48 ≤ b ∧ b ≤ 57 then some (b.toNat - 48)
  else if 97 ≤ b ∧ b ≤ 102 then some (b.toNat - 87)
  else if 65 ≤ b ∧ b ≤ 70 then some (b.toNat - 55)
  else none

def hexadecimal? (a b c d : UInt8) : Option Nat := do
  return 4096 * (← hexByte? a) + 256 * (← hexByte? b) + 16 * (← hexByte? c) + (← hexByte? d)

def escaped? (b : UInt8) : Option UInt8 :=
  match b.toNat with
  | 34 => some 34
  | 92 => some 92
  | 47 => some 47
  | 98 => some 8
  | 102 => some 12
  | 110 => some 10
  | 114 => some 13
  | 116 => some 9
  | _ => none

/-- A text under construction: its bytes from the last to the first, the first half of a
surrogate pair that awaits its second half, and whether all so far is readable. -/
structure Spelling where
  bytes : Bytes
  half : Option Nat
  readable : Bool

namespace Spelling

def start : Spelling := ⟨[], none, true⟩

/-- A byte ends the wait for the second half of a pair. -/
def push (s : Spelling) (b : UInt8) : Spelling :=
  ⟨b :: s.bytes, none, s.readable && s.half.isNone⟩

def pushPoint (s : Spelling) (point : Nat) : Spelling :=
  { s with bytes := (String.utf8EncodeChar (Char.ofNat point)).reverse ++ s.bytes, half := none }

/-- Takes a code unit of sixteen bits. -/
def pushUnit (s : Spelling) (unit : Nat) : Spelling :=
  let trailing := 0xDC00 ≤ unit ∧ unit ≤ 0xDFFF
  match s.half with
  | some half =>
    if trailing then s.pushPoint (0x10000 + (half - 0xD800) * 1024 + (unit - 0xDC00))
    else { s with half := none, readable := false }
  | none =>
    if trailing then { s with readable := false }
    else if 0xD800 ≤ unit ∧ unit ≤ 0xDBFF then { s with half := some unit }
    else s.pushPoint unit

def finish (s : Spelling) : Option String :=
  if s.readable && s.half.isNone then String.fromUTF8? s.bytes.reverse.toByteArray else none

end Spelling

def readSpelling : Spelling → Bytes → Option (Option String × Bytes)
  | _, [] => none
  | s, 34 :: rest => some (s.finish, rest)
  | s, 92 :: 117 :: a :: b :: c :: d :: rest => do
    readSpelling (s.pushUnit (← hexadecimal? a b c d)) rest
  | s, 92 :: e :: rest => do readSpelling (s.push (← escaped? e)) rest
  | s, b :: rest => if b < 32 ∨ b = 92 then none else readSpelling (s.push b) rest

/-- The digits at the start of the bytes, and the bytes after them. -/
def readDigits : Bytes → List Nat × Bytes
  | [] => ([], [])
  | b :: rest =>
    match digitByte? b with
    | some digit =>
      let next := readDigits rest
      (digit :: next.1, next.2)
    | none => ([], b :: rest)

/-- Appends digits to a number as long as it fits 64 bits; gives the digits left over. -/
def accumulate : Nat → List Nat → Nat × List Nat
  | total, [] => (total, [])
  | total, digit :: rest =>
    if 10 * total + digit < UInt64.size then accumulate (10 * total + digit) rest
    else (total, digit :: rest)

/-- A number as it is written. -/
structure Numeral where
  negative : Bool
  whole : List Nat
  fraction : Option (List Nat)
  /-- Whether the power of ten is negative, and its digits. -/
  power : Option (Bool × List Nat)

namespace Numeral

/-- The power of ten of a numeral; none if it does not fit 32 bits. -/
def exponent? (n : Numeral) : Option Int :=
  match n.power with
  | none => some 0
  | some (negative, digits) =>
    let size : Nat := digits.foldl (fun total digit => 10 * total + digit) 0
    if size ≤ Int32.maxValue.toInt then some (if negative then -(size : Int) else size) else none

/-- The document a numeral denotes. A numeral without fraction and power is an integer if it fits
64 bits; minus zero is not an integer. Digits beyond 64 bits only count as powers of ten. -/
def toJson (n : Numeral) : Json :=
  let (whole, extra) := accumulate 0 n.whole
  match n.fraction, n.power with
  | none, none =>
    if extra.isEmpty then
      if !n.negative then .integer whole
      else if 0 < whole ∧ Int64.minValue.toInt ≤ -whole then .integer (-(whole : Int))
      else rounded whole 0
    else rounded whole extra.length
  | fraction, _ =>
    let digits := fraction.getD []
    let (significand, ignored) := accumulate whole digits
    let places : Int := (extra.length : Int) - ((digits.length - ignored.length : Nat) : Int)
    match n.exponent? with
    | some exponent => rounded significand (places + exponent)
    | none =>
      if significand ≠ 0 ∧ n.power.any (fun p => !p.1) then .unreadable else rounded 0 0
where
  rounded (significand : Nat) (exponent : Int) : Json :=
    match Double.scaled? n.negative significand exponent with
    | some x => .double x
    | none => .unreadable

end Numeral

def readPower : Bytes → Option (Option (Bool × List Nat) × Bytes)
  | [] => some (none, [])
  | b :: rest =>
    if b = 101 ∨ b = 69 then
      let (negative, rest) := match rest with
        | 43 :: rest => (false, rest)
        | 45 :: rest => (true, rest)
        | rest => (false, rest)
      match readDigits rest with
      | ([], _) => none
      | (digits, rest) => some (some (negative, digits), rest)
    else some (none, b :: rest)

def readFraction : Bytes → Option (Option (List Nat) × Bytes)
  | 46 :: rest =>
    match readDigits rest with
    | ([], _) => none
    | (digits, rest) => some (some digits, rest)
  | bytes => some (none, bytes)

def readNumeral (negative : Bool) (bytes : Bytes) : Option (Json × Bytes) := do
  let (whole, rest) := readDigits bytes
  match whole with
  | [] => none
  | 0 :: _ :: _ => none
  | whole =>
    let (fraction, rest) ← readFraction rest
    let (power, rest) ← readPower rest
    return (Numeral.toJson ⟨negative, whole, fraction, power⟩, rest)

def expect : Bytes → Bytes → Option Bytes
  | [], bytes => some bytes
  | _ :: _, [] => none
  | a :: word, b :: bytes => if a = b then expect word bytes else none

mutual

/-- Reads one document that stands inside `depth` containers. -/
def readValue : Nat → Nat → Bytes → Option (Json × Bytes)
  | 0, _, _ => none
  | _ + 1, _, [] => none
  | fuel + 1, depth, b :: rest =>
    match b.toNat with
    | 110 => (expect [117, 108, 108] rest).map (Json.null, ·)
    | 116 => (expect [114, 117, 101] rest).map (Json.bool true, ·)
    | 102 => (expect [97, 108, 115, 101] rest).map (Json.bool false, ·)
    | 34 => do
      let (spelling, rest) ← readSpelling .start rest
      return ((spelling.map Json.text).getD .unreadable, rest)
    | 45 => readNumeral true rest
    | 91 => do
      let (items, rest) ← match skipBlanks rest with
        | 93 :: rest => some ([], rest)
        | rest => readItems fuel (depth + 1) rest
      return (if depth < maxDepth then .array items else .unreadable, rest)
    | 123 => do
      let (entries, rest) ← match skipBlanks rest with
        | 125 :: rest => some (some [], rest)
        | rest => readEntries fuel (depth + 1) rest
      return (if depth < maxDepth then (entries.map Json.object).getD .unreadable else .unreadable,
        rest)
    | _ => readNumeral false (b :: rest)

def readItems : Nat → Nat → Bytes → Option (List Json × Bytes)
  | 0, _, _ => none
  | fuel + 1, depth, bytes => do
    let (item, rest) ← readValue fuel depth (skipBlanks bytes)
    match skipBlanks rest with
    | 93 :: rest => return ([item], rest)
    | 44 :: rest => do
      let (items, rest) ← readItems fuel depth rest
      return (item :: items, rest)
    | _ => none

/-- Reads the entries of an object up to its closing brace; none of them if a key is unreadable. -/
def readEntries : Nat → Nat → Bytes → Option (Option (List (String × Json)) × Bytes)
  | 0, _, _ => none
  | fuel + 1, depth, bytes =>
    match skipBlanks bytes with
    | 34 :: rest => do
      let (key, rest) ← readSpelling .start rest
      match skipBlanks rest with
      | 58 :: rest => do
        let (value, rest) ← readValue fuel depth (skipBlanks rest)
        let entry := key.map (·, value)
        match skipBlanks rest with
        | 125 :: rest => return (entry.map ([·]), rest)
        | 44 :: rest => do
          let (entries, rest) ← readEntries fuel depth rest
          return (do return (← entry) :: (← entries), rest)
        | _ => none
      | _ => none
    | _ => none

end

def ofBytes? (bytes : Bytes) : Option Json :=
  match readValue (2 * bytes.length + 2) 0 (skipBlanks bytes) with
  | some (value, rest) => if (skipBlanks rest).isEmpty then some value else none
  | none => none

def ofText? (text : String) : Option Json :=
  ofBytes? text.toUTF8.toList

end ScriptGraph.Json
