import ScriptGraph.Program

/-!
The assembly listing of a program.
-/

set_option autoImplicit false
set_option relaxedAutoImplicit false

namespace ScriptGraph.Program

def slotName (p : Program) (slot : Slot) : String :=
  match p.symbols[slot]? with
  | some symbol => symbol.name
  | none => "<slot " ++ Text.decimal slot ++ ">"

def addressText (target : Address) : String :=
  if target = haltAddress then "HALT"
  else "0x" ++ Text.zeroFilled 8 (String.ofList ((Text.digits 16 target).map fun digit =>
    (Text.digitChar digit).toUpper))

def push (p : Program) (slot : Slot) : String :=
  "PUSH, " ++ p.slotName slot ++ "; "

def instructionText (p : Program) : Instruction → String
  | .copy source destination => p.push source ++ p.push destination ++ "COPY"
  | .call method slots => String.join (slots.map p.push) ++ "EXTERN, \"" ++ method ++ "\""
  | .jump target => "JUMP, " ++ addressText target
  | .jumpUnless condition target => p.push condition ++ "JUMP_IF_FALSE, " ++ addressText target

def entryLines (p : Program) (address : Address) : List String :=
  (p.entryPoints.filter fun entry => entry.address == address).flatMap fun entry =>
    ["    .export " ++ entry.name, "    " ++ entry.name ++ ":"]

def symbolLine (s : Symbol) : String :=
  "    " ++ s.name ++ ": %" ++ s.type ++ ", " ++ s.default.display

def syncLine? (s : Symbol) : Option String :=
  s.sync.map fun mode => "    .sync " ++ s.name ++ ", " ++ mode.name

def codeLines (p : Program) : List String :=
  p.instructions.zipIdx.flatMap fun (instruction, address) =>
    p.entryLines address ++
      ["        " ++ Text.zeroFilled 4 (Text.decimal address) ++ ": " ++ p.instructionText instruction]

def lines (p : Program) : List String :=
  [".data_start"] ++ p.exportedSymbols.map (fun s => "    .export " ++ s.name) ++
    p.symbols.filterMap syncLine? ++ p.symbols.map symbolLine ++ [".data_end", ".code_start"] ++
    (if p.updateOrder = 0 then []
      else ["    .update_order " ++ Text.signedDecimal p.updateOrder.toInt]) ++
    p.codeLines ++ [".code_end"]

/-- The listing, each line ended. -/
def listing (p : Program) : String :=
  String.join (p.lines.map (· ++ "\n"))

end ScriptGraph.Program
