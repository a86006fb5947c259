import ScriptGraph.Floating.Basic
import ScriptGraph.Text.Segment

/-!
Documents as trees. An object keeps its entries as they were written; its canonical form has
each key once, with the last value given for it, in ascending order of code points.
-/

set_option autoImplicit false
set_option relaxedAutoImplicit false

namespace ScriptGraph

inductive Json where
  | null
  | bool (value : Bool)
  | integer (value : Int)
  | single (value : Single)
  | double (value : Double)
  | text (value : String)
  | array (items : List Json)
  | object (entries : List (String × Json))
  /-- A well formed part that denotes nothing: a number out of range, a text with half a
  surrogate pair, or a container nested too deep. -/
  | unreadable
deriving Inhabited

namespace Json

mutual

def same : Json → Json → Bool
  | .null, .null => true
  | .bool a, .bool b => a == b
  | .integer a, .integer b => a == b
  | .single a, .single b => a == b
  | .double a, .double b => a == b
  | .text a, .text b => a == b
  | .array a, .array b => sameItems a b
  | .object a, .object b => sameEntries a b
  | .unreadable, .unreadable => true
  | _, _ => false

def sameItems : List Json → List Json → Bool
  | [], [] => true
  | a :: as, b :: bs => same a b && sameItems as bs
  | _, _ => false

def sameEntries : List (String × Json) → List (String × Json) → Bool
  | [], [] => true
  | (j, a) :: as, (k, b) :: bs => j == k && same a b && sameEntries as bs
  | _, _ => false

end

mutual

theorem same_iff : ∀ a b : Json, same a b = true ↔ a = b
  | .null, b => by cases b <;> simp [same]
  | .bool _, b => by cases b <;> simp [same]
  | .integer _, b => by cases b <;> simp [same]
  | .single _, b => by cases b <;> simp [same]
  | .double _, b => by cases b <;> simp [same]
  | .text _, b => by cases b <;> simp [same]
  | .array _, b => by cases b <;> simp [same, sameItems_iff]
  | .object _, b => by cases b <;> simp [same, sameEntries_iff]
  | .unreadable, b => by cases b <;> simp [same]

theorem sameItems_iff : ∀ as bs : List Json, sameItems as bs = true ↔ as = bs
  | [], bs => by cases bs <;> simp [sameItems]
  | a :: as, bs => by cases bs <;> simp [sameItems, same_iff a, sameItems_iff as]

theorem sameEntries_iff : ∀ as bs : List (String × Json), sameEntries as bs = true ↔ as = bs
  | [], bs => by cases bs <;> simp [sameEntries]
  | (j, a) :: as, bs => by
    cases bs <;> simp [sameEntries, same_iff a, sameEntries_iff as, Prod.ext_iff]

end

instance : DecidableEq Json := fun a b => decidable_of_iff _ (same_iff a b)

/-- The value of a key in an object: that of its first entry. -/
def get? (key : String) : Json → Option Json
  | .object entries => entries.lookup key
  | _ => none

def text? : Json → Option String
  | .text value => some value
  | _ => none

/-- Puts an entry into entries in ascending order of keys, in place of one with the same key. -/
def insertEntry (key : String) (value : Json) : List (String × Json) → List (String × Json)
  | [] => [(key, value)]
  | (k, v) :: rest =>
    if key = k then (key, value) :: rest
    else if Text.precedes key.toList k.toList then (key, value) :: (k, v) :: rest
    else (k, v) :: insertEntry key value rest

mutual

/-- The canonical form of a document all of whose parts are readable. -/
def canonical? : Json → Option Json
  | .array items => (canonicalItems? items).map .array
  | .object entries => (canonicalEntries? [] entries).map .object
  | .unreadable => none
  | leaf => some leaf

def canonicalItems? : List Json → Option (List Json)
  | [] => some []
  | item :: items => do return (← canonical? item) :: (← canonicalItems? items)

/-- Puts the canonical forms of further entries into entries in ascending order. -/
def canonicalEntries? : List (String × Json) → List (String × Json) → Option (List (String × Json))
  | done, [] => some done
  | done, (key, value) :: rest => do
    canonicalEntries? (insertEntry key (← canonical? value) done) rest

end

end Json

end ScriptGraph
