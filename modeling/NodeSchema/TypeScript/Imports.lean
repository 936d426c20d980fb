import NodeSchema.TypeScript.Text
import NodeSchema.Ir.Basic

set_option autoImplicit false

/-! Import statements: one per source, naming the external symbols that some base or leaf
field refers to, sources and symbols in the order the externs were declared. When optional
fields are wrapped and some field is optional, `Maybe` is imported from its library, joining
an existing import of that source if there is one. -/

namespace NodeSchema.TypeScript

def maybeSource : String := "purify-ts/Maybe"

/-- Adds a symbol to the group of a source: the group is created last if new, and a symbol
already in it is not repeated. -/
def addImport (groups : List (String × List String)) (source symbol : String) :
    List (String × List String) :=
  match groups.lookup source with
  | none => groups ++ [(source, [symbol])]
  | some symbols =>
    if symbols.contains symbol then groups
    else groups.map fun (s, syms) => if s = source then (s, syms ++ [symbol]) else (s, syms)

/-- The symbols assembled nodes import, grouped by source. -/
def importGroups (ir : Ir) : List (String × List String) :=
  let fields := (ir.bases.map (·.fields.values) ++ ir.leaves.map (·.fields.values)).flatten
  let referenced (symbol : String) := fields.any (·.references symbol)
  let groups := (ir.externals.filter (referenced ·.symbol)).foldl
    (fun groups e => addImport groups e.source e.symbol) []
  let wantsMaybe := ir.options.optional == .monadicWrapper && fields.any (·.container == .optional)
  if wantsMaybe then addImport groups maybeSource "Maybe" else groups

def importLine (group : String × List String) : String :=
  "import " ++ lbrace ++ " " ++ ", ".intercalate group.2 ++ " " ++ rbrace ++ " from " ++
    stringLiteral group.1 ++ ";"

/-- The import statements of assembled nodes, one per line; empty when nothing is imported. -/
def renderImports (ir : Ir) : String :=
  lines ((importGroups ir).map importLine)

end NodeSchema.TypeScript
