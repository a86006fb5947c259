/-!
Prefixes of texts, their order, the cutting of a text at a separator, and the trimming of the blanks at
its two ends.
-/

set_option autoImplicit false
set_option relaxedAutoImplicit false

namespace ScriptGraph.Text

/-- The rest of a text after a prefix, if it starts with that prefix. -/
def afterPrefix? : List Char → List Char → Option (List Char)
  | [], text => some text
  | _ :: _, [] => none
  | c :: start, d :: text => if c = d then afterPrefix? start text else none

def startsWith (start text : String) : Bool :=
  (afterPrefix? start.toList text.toList).isSome

/-- The rest of a text after a prefix, if it starts with that prefix. -/
def stripStart? (start text : String) : Option String :=
  (afterPrefix? start.toList text.toList).map String.ofList

/-- Whether the first text comes strictly before the second, by code points from the left. -/
def precedes : List Char → List Char → Bool
  | [], [] => false
  | [], _ :: _ => true
  | _ :: _, [] => false
  | c :: first, d :: second =>
    if c.toNat < d.toNat then true else if d.toNat < c.toNat then false else precedes first second

/-- The parts of a text before and after the first occurrence of a separator. -/
def cutAt? (separator : List Char) : List Char → Option (List Char × List Char)
  | [] => if separator.isEmpty then some ([], []) else none
  | c :: rest =>
    match afterPrefix? separator (c :: rest) with
    | some after => some ([], after)
    | none => (cutAt? separator rest).map fun parts => (c :: parts.1, parts.2)

/-- The part of a text before the first occurrence of a separator, or all of it. -/
def before (separator : List Char) (text : List Char) : List Char :=
  ((cutAt? separator text).map Prod.fst).getD text

/-- Whether a character has the property White_Space. -/
def isBlank (c : Char) : Bool :=
  let point := c.toNat
  (0x9 ≤ point && point ≤ 0xD) || point == 0x20 || point == 0x85 || point == 0xA0 ||
    point == 0x1680 || (0x2000 ≤ point && point ≤ 0x200A) || point == 0x2028 ||
    point == 0x2029 || point == 0x202F || point == 0x205F || point == 0x3000

def trimmed (text : List Char) : List Char :=
  ((text.dropWhile isBlank).reverse.dropWhile isBlank).reverse

end ScriptGraph.Text
