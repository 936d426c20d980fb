import NodeSchema.Json.Read
import NodeSchema.TypeScript.Module
import NodeSchema.Ir.Encode

set_option autoImplicit false

/-! The command line: reads one schema document (JSON) from standard input and writes the
generated TypeScript (`generate`), a status line (`check`) or the assembled nodes as JSON
(`ir`) to standard output. Options given as flags replace the keys of the document's options
block. A fault is written to standard error, and the exit code is then one. -/

namespace NodeSchema.Cli

def usage : String :=
  "usage: nodeschema (generate | check | ir) [--tag-name NAME] [--optional STYLE] " ++
    "[--maps STYLE] [--constructor STYLE] < schema.json"

def optionEdits : List String → Except String (List (String × Json))
  | [] => .ok []
  | flag :: value :: rest => do
    let edit ← match flag with
      | "--tag-name" => pure ("tagName", Json.string value)
      | "--optional" => pure ("optional", Json.string value)
      | "--maps" => pure ("maps", Json.string value)
      | "--constructor" => pure ("constructor", Json.string value)
      | _ => throw usage
    return edit :: (← optionEdits rest)
  | _ => .error usage

/-- What a command writes for a document, or the fault to report. -/
def run (command : String) (doc : Json) : Except String String := do
  let schema ← (Schema.load doc).mapError SchemaError.message
  match command with
  | "generate" => (TypeScript.generate schema).mapError GenerationError.message
  | "check" => do
    let _ ← (Ir.build schema).mapError GenerationError.message
    pure "ok\n"
  | "ir" => do
    let ir ← (Ir.build schema).mapError GenerationError.message
    pure (Json.render ir.toJson ++ "\n")
  | _ => throw usage

end NodeSchema.Cli

open NodeSchema in
def main (args : List String) : IO UInt32 := do
  let stdin ← IO.getStdin
  let text ← stdin.readToEnd
  let outcome : Except String String := do
    let (command, flags) ← match args with
      | command :: flags => pure (command, flags)
      | [] => throw Cli.usage
    let edits ← Cli.optionEdits flags
    let doc ← (Json.read text).mapError Json.ReadError.message
    Cli.run command (overrideOptions doc edits)
  match outcome with
  | .ok output =>
    IO.print output
    return 0
  | .error message =>
    IO.eprintln ("error: " ++ message)
    return 1
