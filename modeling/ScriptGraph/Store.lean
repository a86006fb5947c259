import ScriptGraph.Asset
import ScriptGraph.Program.Artifact
import ScriptGraph.Settings

/-!
Stores: files by name, which hold assets, settings and programs. A store has no folders inside, and
no path leads out of it. A file is replaced as a whole or not at all.
-/

set_option autoImplicit false
set_option relaxedAutoImplicit false

namespace ScriptGraph

/-- The files of a store in ascending order of their names. -/
structure Store where
  files : List (String × List UInt8)

inductive StoreError where
  /-- There is no such file, there cannot be one, or it holds no text where a text is wanted. -/
  | unavailable
  /-- The text is no such document. -/
  | malformed
  /-- The bytes are no program. -/
  | undecodable
deriving DecidableEq, Repr

namespace Store

def empty : Store := ⟨[]⟩

def names (s : Store) : List String := s.files.map Prod.fst

def maxNameLength : Nat := 255

/-- Whether a file can have a name, in which there is no slash. -/
def isFileName (name : String) : Bool :=
  name ≠ "" && name ≠ "." && name ≠ ".." && name.utf8ByteSize ≤ maxNameLength &&
    !name.toList.contains '\x00'

def steps : List Char → List (List Char)
  | [] => [[]]
  | '/' :: rest => [] :: steps rest
  | c :: rest =>
    match steps rest with
    | [] => [[c]]
    | step :: more => (c :: step) :: more

/-- The last step, if all the others stay in the same place. -/
def lastStep? : List (List Char) → Option (List Char)
  | [] => none
  | [step] => some step
  | step :: rest => if step = [] ∨ step = ['.'] then lastStep? rest else none

/-- The name of the file that a path leads to, if a file can be there. A path that begins with a
slash does not begin at the store. -/
def fileName? (path : String) : Option String :=
  if Text.startsWith "/" path then none
  else ((lastStep? (steps path.toList)).map String.ofList).filter isFileName

/-- Puts a file into its place among files in ascending order of names. -/
def put (name : String) (bytes : List UInt8) : List (String × List UInt8) → List (String × List UInt8)
  | [] => [(name, bytes)]
  | (other, content) :: rest =>
    if name = other then (name, bytes) :: rest
    else if Text.precedes name.toList other.toList then (name, bytes) :: (other, content) :: rest
    else (other, content) :: put name bytes rest

def write (s : Store) (path : String) (bytes : List UInt8) : Except StoreError Store :=
  match fileName? path with
  | some name => .ok ⟨put name bytes s.files⟩
  | none => .error .unavailable

def read (s : Store) (path : String) : Except StoreError (List UInt8) :=
  match (fileName? path).bind fun name => s.files.lookup name with
  | some bytes => .ok bytes
  | none => .error .unavailable

def writeText (s : Store) (path text : String) : Except StoreError Store :=
  s.write path text.toUTF8.toList

def readText (s : Store) (path : String) : Except StoreError String := do
  match String.fromUTF8? (← s.read path).toByteArray with
  | some text => return text
  | none => throw .unavailable

def readDocument {α : Type} (s : Store) (path : String) (read : String → Option α) :
    Except StoreError α := do
  match read (← s.readText path) with
  | some result => return result
  | none => throw .malformed

/-! ## Assets, settings and programs -/

def assetFile (id : String) : String := id ++ ".json"

def saveAsset (s : Store) (id : String) (asset : Asset) : Except StoreError Store :=
  s.writeText (assetFile id) asset.toText

def loadAsset (s : Store) (id : String) : Except StoreError Asset :=
  s.readDocument (assetFile id) Asset.ofText?

def loadSettings (s : Store) (path : String) : Except StoreError Settings :=
  s.readDocument path Settings.ofText?

def saveProgram (s : Store) (path : String) (program : Program) : Except StoreError Store :=
  s.write path program.toBytes

def loadProgram (s : Store) (path : String) : Except StoreError Program := do
  match Program.ofBytes? (← s.read path) with
  | some program => return program
  | none => throw .undecodable

end Store

end ScriptGraph
