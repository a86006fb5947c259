import ScriptGraph.Json.Basic
import ScriptGraph.Node

/-!
Layout records: what an editor keeps beside a graph. Records are documents of any form; only
their type and uid are ever looked at, and they stay in the order in which they were saved.
-/

set_option autoImplicit false
set_option relaxedAutoImplicit false

namespace ScriptGraph

structure Layout where
  records : List Json
deriving DecidableEq

namespace Layout

def empty : Layout := ⟨[]⟩

def size (l : Layout) : Nat := l.records.length

def commentType : String := "UdonComment"

/-- The types of which there is at most one record. -/
def singleTypes : List String := ["Minimap", "VariablesWindow"]

def type? (record : Json) : Option String := (record.get? "type").bind Json.text?

def uid? (record : Json) : Option String := (record.get? "uid").bind Json.text?

/-- Whether a new record takes the place of an old one: both have one type of which there is only
one record, or else the new record has a uid and the old one has the same. -/
def replaces (record old : Json) : Bool :=
  if (type? record).any singleTypes.contains then type? old == type? record
  else (uid? record).isSome && uid? old == uid? record

def find? (l : Layout) (uid : String) : Option Json :=
  l.records.find? fun record => uid? record == some uid

/-- Puts a record in place of the first one that it replaces, or after all others. -/
def put (record : Json) : List Json → List Json
  | [] => [record]
  | old :: rest => if replaces record old then record :: rest else old :: put record rest

def save (l : Layout) (record : Json) : Layout := ⟨put record l.records⟩

def remove (l : Layout) (uid : String) : Layout :=
  ⟨l.records.filter fun record => uid? record != some uid⟩

/-- A coordinate in a record; what is not finite is left out. -/
def coordinate (x : Single) : Json :=
  if x.isFinite then .double x.widen else .null

def comment (uid : Uid) (text : String) (position : Position) : Json :=
  .object [("layout", .object [("x", coordinate position.x), ("y", coordinate position.y)]),
    ("title", .text text), ("type", .text commentType), ("uid", .text uid)]

def addComment (l : Layout) (uid : Uid) (text : String) (position : Position) : Layout :=
  l.save (comment uid text position)

end Layout

end ScriptGraph
