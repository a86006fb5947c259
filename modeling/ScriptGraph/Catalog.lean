import ScriptGraph.Definition

/-!
Catalogs of definitions, kept in ascending order of their full names. Since all names with a
common prefix stand together in that order, looking up a prefix is taking one stretch of it.
-/

set_option autoImplicit false
set_option relaxedAutoImplicit false

namespace ScriptGraph

/-- The known definitions, in ascending order of their full names. -/
structure Catalog where
  definitions : List Definition

inductive CatalogError where
  | malformed
  | duplicate (fullName : String)
deriving DecidableEq

def CatalogError.message : CatalogError → String
  | .malformed => "Failed to parse node definitions"
  | .duplicate name => "Node definition '" ++ name ++ "' is registered twice"

namespace Catalog

def empty : Catalog := ⟨[]⟩

def size (c : Catalog) : Nat := c.definitions.length

/-- The definition with a full name. -/
def find? (c : Catalog) (fullName : String) : Option Definition :=
  c.definitions.find? fun d => d.fullName == fullName

def insertSorted (d : Definition) : List Definition → List Definition
  | [] => [d]
  | e :: rest =>
    if Text.precedes d.fullName.toList e.fullName.toList then d :: e :: rest
    else e :: insertSorted d rest

def register (c : Catalog) (d : Definition) : Except CatalogError Catalog :=
  if (c.find? d.fullName).isSome then .error (.duplicate d.fullName)
  else .ok ⟨insertSorted d c.definitions⟩

/-- Adds definitions one after the other up to the first that is refused; those before it stay. -/
def extend (c : Catalog) : List Definition → Catalog × Option CatalogError
  | [] => (c, none)
  | d :: rest =>
    match c.register d with
    | .ok c => c.extend rest
    | .error error => (c, some error)

/-- All definitions whose full name starts with a text, in ascending order. -/
def withPrefix (c : Catalog) (start : String) : List Definition :=
  (c.definitions.dropWhile fun d => Text.precedes d.fullName.toList start.toList).takeWhile
    fun d => Text.startsWith start d.fullName

/-- The definitions offered in place of one with the given name, in ascending order. -/
def overloads (c : Catalog) (fullName : String) : List Definition :=
  match baseName? fullName with
  | some base => (c.withPrefix base).filter fun d => !d.hasPointers
  | none => []

end Catalog

end ScriptGraph
