import ScriptGraph.Program

/-!
The binary form of programs. Numbers take one byte up to 250; after a marker byte they take two,
four or eight bytes, the least significant first. Signed numbers are folded onto the natural ones,
alternating from zero. Texts and lists are preceded by their length, alternatives by their number.
Floating point numbers take all their bytes.
-/

set_option autoImplicit false
set_option relaxedAutoImplicit false

namespace ScriptGraph

namespace Artifact

abbrev Bytes := List UInt8

/-! ## Writing -/

/-- The lowest `count` bytes of a number, the least significant first. -/
def littleEndian : Nat → Nat → Bytes
  | 0, _ => []
  | count + 1, number => number.toUInt8 :: littleEndian count (number / 256)

def natural (number : Nat) : Bytes :=
  if number ≤ 250 then [number.toUInt8]
  else if number < UInt16.size then 251 :: littleEndian 2 number
  else if number < UInt32.size then 252 :: littleEndian 4 number
  else 253 :: littleEndian 8 number

/-- Folds the integers onto the natural numbers: 0, -1, 1, -2, 2 and so on. -/
def folded : Int → Nat
  | .ofNat number => 2 * number
  | .negSucc number => 2 * number + 1

def truth (value : Bool) : Bytes := [if value then 1 else 0]

def text (value : String) : Bytes :=
  natural value.utf8ByteSize ++ value.toUTF8.toList

def list {α : Type} (write : α → Bytes) (items : List α) : Bytes :=
  natural items.length ++ items.flatMap write

def option {α : Type} (write : α → Bytes) : Option α → Bytes
  | none => [0]
  | some value => 1 :: write value

mutual

def value : Value → Bytes
  | .null => [0]
  | .bool b => 1 :: truth b
  | .int32 n => 2 :: natural (folded n.toInt)
  | .int64 n => 3 :: natural (folded n.toInt)
  | .single x => 4 :: littleEndian 4 x.bits.toNat
  | .double x => 5 :: littleEndian 8 x.bits.toNat
  | .text s => 6 :: text s
  | .this => [7]
  | .object id => 8 :: natural id.toNat
  | .array items => 9 :: (natural items.length ++ values items)

def values : List Value → Bytes
  | [] => []
  | item :: items => value item ++ values items

end

def instruction : Instruction → Bytes
  | .copy source destination => 0 :: (natural source ++ natural destination)
  | .call method slots => 1 :: (text method ++ list natural slots)
  | .jump target => 2 :: natural target
  | .jumpUnless condition target => 3 :: (natural condition ++ natural target)

def entryPoint (e : EntryPoint) : Bytes := text e.name ++ natural e.address

def syncMode : SyncMode → Bytes
  | .none => [0]
  | .linear => [1]
  | .smooth => [2]

def symbol (s : Symbol) : Bytes :=
  text s.name ++ text s.type ++ value s.default ++ truth s.exported ++ option syncMode s.sync

/-! ## Reading -/

/-- Reads something from the front of the bytes, or fails. -/
abbrev Reader (α : Type) := StateT Bytes Option α

namespace Reader

def byte : Reader UInt8 := fun bytes =>
  match bytes with
  | [] => none
  | b :: rest => some (b, rest)

/-- A number of `count` bytes, the least significant first. -/
def littleEndian : Nat → Reader Nat
  | 0 => pure 0
  | count + 1 => do
    let low ← byte
    let high ← littleEndian count
    return low.toNat + 256 * high

/-- A number of at most `width` bytes in the variable form; wider forms are refused. -/
def natural (width : Nat) : Reader Nat := do
  let first ← byte
  match first.toNat with
  | 251 => littleEndian 2
  | 252 => if 4 ≤ width then littleEndian 4 else failure
  | 253 => if 8 ≤ width then littleEndian 8 else failure
  | 254 => failure
  | 255 => failure
  | small => return small

def unfolded (number : Nat) : Int :=
  if number % 2 = 0 then (number / 2 : Nat) else .negSucc (number / 2)

def truth : Reader Bool := do
  match (← byte).toNat with
  | 0 => return false
  | 1 => return true
  | _ => failure

def take (count : Nat) : Reader Bytes := fun bytes =>
  if count ≤ bytes.length then some (bytes.take count, bytes.drop count) else none

def text : Reader String := do
  let bytes ← take (← natural 8)
  match String.fromUTF8? bytes.toByteArray with
  | some value => return value
  | none => failure

def times {α : Type} (read : Reader α) : Nat → Reader (List α)
  | 0 => pure []
  | count + 1 => do
    let item ← read
    let items ← times read count
    return item :: items

def list {α : Type} (read : Reader α) : Reader (List α) := do
  times read (← natural 8)

def option {α : Type} (read : Reader α) : Reader (Option α) := do
  match (← byte).toNat with
  | 0 => return none
  | 1 => return some (← read)
  | _ => failure

/-- A value whose arrays are nested less deep than `depth`. -/
def value : Nat → Reader Value
  | 0 => failure
  | depth + 1 => do
    match ← natural 4 with
    | 0 => return .null
    | 1 => return .bool (← truth)
    | 2 => return .int32 (.ofInt (unfolded (← natural 4)))
    | 3 => return .int64 (.ofInt (unfolded (← natural 8)))
    | 4 => return .single ⟨(← littleEndian 4).toUInt32⟩
    | 5 => return .double ⟨(← littleEndian 8).toUInt64⟩
    | 6 => return .text (← text)
    | 7 => return .this
    | 8 => return .object (← natural 8).toUInt64
    | 9 => return .array (← list (value depth))
    | _ => failure

/-- A value; each nested array takes a byte at least, which bounds the depth. -/
def anyValue : Reader Value := fun bytes => value (bytes.length + 1) bytes

def instruction : Reader Instruction := do
  match ← natural 4 with
  | 0 => return .copy (← natural 4) (← natural 4)
  | 1 => return .call (← text) (← list (natural 4))
  | 2 => return .jump (← natural 4)
  | 3 => return .jumpUnless (← natural 4) (← natural 4)
  | _ => failure

def entryPoint : Reader EntryPoint := do
  return ⟨← text, ← natural 4⟩

def syncMode : Reader SyncMode := do
  match ← natural 4 with
  | 0 => return .none
  | 1 => return .linear
  | 2 => return .smooth
  | _ => failure

def symbol : Reader Symbol := do
  return ⟨← text, ← text, ← anyValue, ← truth, ← option syncMode⟩

def program : Reader Program := do
  return ⟨← text, .ofInt (unfolded (← natural 4)), ← list entryPoint, ← list instruction,
    ← list symbol⟩

end Reader

end Artifact

namespace Program

/-- The bytes of a program. -/
def toBytes (p : Program) : List UInt8 :=
  Artifact.text p.name ++ Artifact.natural (Artifact.folded p.updateOrder.toInt) ++
    Artifact.list Artifact.entryPoint p.entryPoints ++
    Artifact.list Artifact.instruction p.instructions ++
    Artifact.list Artifact.symbol p.symbols

/-- The program at the start of the bytes; what comes after it is ignored. -/
def ofBytes? (bytes : List UInt8) : Option Program :=
  (Artifact.Reader.program bytes).map Prod.fst

end Program

end ScriptGraph
