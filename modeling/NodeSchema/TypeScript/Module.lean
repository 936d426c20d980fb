import NodeSchema.TypeScript.Imports
import NodeSchema.TypeScript.Leaf
import NodeSchema.TypeScript.Union
import NodeSchema.Schema.Load

set_option autoImplicit false

/-! A whole generated TypeScript module. Sections follow in a fixed order: the header comment,
the imports, the base interfaces, then per leaf its interface, helper class and constructor,
then per union its sum type and namespace, each group in declaration order. Sections are
separated by one blank line and the text ends with a line feed. Constructor names are handed
out in leaf order, escaped past reserved words and every name taken so far, starting with all
declared names. -/

namespace NodeSchema.TypeScript

def header : List String :=
  ["DO NOT EDIT", "",
    "This file was generated by verger from a node schema. Change the schema",
    "and regenerate instead."]

/-- Appends a section: after a line feed when text precedes it, and ending with one. -/
def pushSection (out part : String) : String :=
  let out := if out.isEmpty then part else out ++ "\n" ++ part
  if part.endsWith "\n" then out else out ++ "\n"

/-- Appends the code of each leaf, handing out constructor names. -/
def emitLeaves (ir : Ir) : List LeafNode → String → List String → Except GenerationError String
  | [], out, _ => .ok out
  | leaf :: rest, out, taken => do
    let ctor := freshName taken (constructorName leaf.name)
    let code ← renderLeaf ir leaf ctor
    emitLeaves ir rest (pushSection out code) (taken ++ [ctor])

def emit (ir : Ir) : Except GenerationError String := do
  let out := pushSection "" (comment header)
  let imports := renderImports ir
  let out := if imports.isEmpty then out else pushSection out imports
  let out := ir.bases.foldl (fun out b => pushSection out (interface ir.options b.toRecord none)) out
  let out ← emitLeaves ir ir.leaves out ir.nodes.keys
  ir.unions.foldlM (fun out u => do return pushSection out (← renderUnion ir u)) out

/-- Assembles a loaded schema and generates its module. -/
def generate (s : Schema) : Except GenerationError String := do
  emit (← Ir.build s)

end NodeSchema.TypeScript
