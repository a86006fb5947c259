import ScriptGraph.Json.Basic
import ScriptGraph.Floating.Text

/-!
Writing documents, on one line without blanks or indented by two blanks for each level.
-/

set_option autoImplicit false
set_option relaxedAutoImplicit false

namespace ScriptGraph.Json

/-- The form of a character inside a text: control characters, quotes and backslashes escaped. -/
def escapedChar (c : Char) : List Char :=
  match c with
  | '"' => ['\\', '"']
  | '\\' => ['\\', '\\']
  | '\n' => ['\\', 'n']
  | '\r' => ['\\', 'r']
  | '\t' => ['\\', 't']
  | c =>
    if c.toNat = 8 then ['\\', 'b']
    else if c.toNat = 12 then ['\\', 'f']
    else if c.toNat < 32 then
      '\\' :: 'u' :: (Text.zeroFilled 4 (Text.hexadecimal c.toNat)).toList
    else [c]

def escapedText (text : String) : String :=
  "\"" ++ String.ofList (text.toList.flatMap escapedChar) ++ "\""

def leafText : Json → String
  | .bool true => "true"
  | .bool false => "false"
  | .integer value => Text.signedDecimal value
  | .single value => value.documentText
  | .double value => value.documentText
  | .text value => escapedText value
  | _ => "null"

mutual

def compact : Json → String
  | .array items => "[" ++ compactItems items ++ "]"
  | .object entries => "\x7b" ++ compactEntries entries ++ "\x7d"
  | leaf => leafText leaf

def compactItems : List Json → String
  | [] => ""
  | [item] => compact item
  | item :: next :: items => compact item ++ "," ++ compactItems (next :: items)

def compactEntries : List (String × Json) → String
  | [] => ""
  | [(key, value)] => escapedText key ++ ":" ++ compact value
  | (key, value) :: next :: entries =>
    escapedText key ++ ":" ++ compact value ++ "," ++ compactEntries (next :: entries)

end

def newLine (level : Nat) : String :=
  "\n" ++ String.ofList (List.replicate (2 * level) ' ')

mutual

/-- A document over several lines, its first line already indented to the level. -/
def indentedAt (level : Nat) : Json → String
  | .array [] => "[]"
  | .array (item :: items) =>
    "[" ++ indentedItems (level + 1) (item :: items) ++ newLine level ++ "]"
  | .object [] => "\x7b\x7d"
  | .object (entry :: entries) =>
    "\x7b" ++ indentedEntries (level + 1) (entry :: entries) ++ newLine level ++ "\x7d"
  | leaf => leafText leaf

def indentedItems (level : Nat) : List Json → String
  | [] => ""
  | [item] => newLine level ++ indentedAt level item
  | item :: next :: items =>
    newLine level ++ indentedAt level item ++ "," ++ indentedItems level (next :: items)

def indentedEntries (level : Nat) : List (String × Json) → String
  | [] => ""
  | [(key, value)] => newLine level ++ escapedText key ++ ": " ++ indentedAt level value
  | (key, value) :: next :: entries =>
    newLine level ++ escapedText key ++ ": " ++ indentedAt level value ++ "," ++
      indentedEntries level (next :: entries)

end

def indented (document : Json) : String :=
  indentedAt 0 document

end ScriptGraph.Json
