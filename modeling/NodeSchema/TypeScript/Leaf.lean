import NodeSchema.TypeScript.FieldType
import NodeSchema.TypeScript.Reserved
import NodeSchema.Ir.Basic

set_option autoImplicit false

/-! The code generated for a leaf: its interface, a helper class of the same name, and a
constructor function. The class has a shape predicate `anyIs` (every required key and the
discriminant present, no other key unless extras are allowed, the right tag), a predicate `is`
over the leaf's outermost union, `children` listing the fields that hold declared types
(scalars first), and the tag. The constructor takes the fields positionally or as one object
without the discriminant. Its name is the type name in lower camel case; a parameter whose
field name is reserved takes trailing underscores past every field name. -/

namespace NodeSchema.TypeScript

/-! ### Interfaces

Interface declarations for bases and leaves: a comment naming the type, then
`export interface Name extends A, B` with one property per own field. A leaf's discriminant
comes first, typed by its tag literal; inherited fields come through `extends`. -/

/-- The interface of a record; `tag` is a leaf's discriminant value, none for a base. -/
def interface (options : Options) (node : Record) (tag : Option String) : String :=
  let what := if tag.isSome then "leaf" else "interface"
  let extendsClause := if node.bases.isEmpty then "" else " extends " ++ ", ".intercalate node.bases
  let tagLine := match tag with
    | some t => ["    " ++ options.tagName ++ ": " ++ stringLiteral t ++ ";"]
    | none => []
  lines ([comment ["This code implements the types and functions associated with",
      "the " ++ what ++ " type " ++ node.name ++ "."],
    "export interface " ++ node.name ++ extendsClause ++ " " ++ lbrace] ++ tagLine ++
    node.fields.entries.map (fun (name, field) =>
      "    " ++ fieldKey name field options ++ ": " ++ fieldType field options .property ++ ";") ++
    [rbrace])

/-- The lower camel form of a type name: the leading run of capitals is lowered except for its
last letter, which starts the next word (`Lit` to `lit`, `ASTNode` to `astNode`, `IO` to `io`);
a name without a leading capital keeps its first letter. -/
def constructorName (typeName : String) : String :=
  let cs := typeName.toList
  let upper := (cs.takeWhile Char.isUpper).length
  let lowered := if upper = cs.length then cs.length else max (upper - 1) 1
  String.ofList (cs.zipIdx.map fun (c, i) => if i < lowered then c.toLower else c)

/-- The parameter name of a field, with the names taken so far: a reserved field name is
escaped past them and then taken. -/
def paramName (field : String) (taken : List String) : String × List String :=
  if !isReserved field then (field, taken)
  else
    let name := freshName taken field
    (name, taken ++ [name])

/-- The helper class of a leaf with its flattened fields and child fields. -/
def helperClass (options : Options) (leaf : LeafNode) (fields children : List ResolvedField) :
    String :=
  let name := leaf.name
  let tagName := options.tagName
  let tag := stringLiteral leaf.tag
  let required := fields.filter fun f => !isOmittable f.descriptor options
  let allowed := ", ".intercalate ((tagName :: fields.map (·.name)).map stringLiteral)
  let exprs := ", ".intercalate (children.map fun f => childExpr "x" f.name f.descriptor options)
  lines ([
    "export class " ++ name ++ " " ++ lbrace,
    indentedComment "    " ["A predicate function that takes an instance of `any` and determines if it is an instance of " ++ name],
    "    static anyIs = (x: any, allowExtra: boolean = false): x is " ++ name ++ " => " ++ lbrace,
    "        if (x === null || x === undefined) return false;",
    "        if (typeof x !== \"object\") return false;",
    "        const keys = Object.keys(x);"] ++
    required.map (fun f => "        if (!keys.includes(" ++ stringLiteral f.name ++ ")) return false;") ++ [
    "        if (!keys.includes(" ++ stringLiteral tagName ++ ")) return false;",
    "        if (!allowExtra && keys.some((k) => ![" ++ allowed ++ "].includes(k))) return false;",
    "        return x." ++ tagName ++ " === " ++ tag ++ ";",
    "    " ++ rbrace ++ ";",
    indentedComment "    " ["A predicate function that takes an instance of type " ++ leaf.rootUnion ++
      " and determines if it is an instance of " ++ name],
    "    static is = (x: " ++ leaf.rootUnion ++ "): x is " ++ name ++ " => " ++ lbrace ++ " return x." ++
      tagName ++ " === " ++ tag ++ "; " ++ rbrace ++ ";",
    indentedComment "    " ["Given an instance of " ++ name ++ ", determine all children that are instances of " ++
      leaf.rootUnion],
    "    static children = (x: " ++ name ++ ") => " ++ lbrace ++ " return [" ++ exprs ++ "] as const; " ++
      rbrace ++ ";",
    indentedComment "    " ["Although generally not necessary, this tag can be used to identify instances of " ++ name],
    "    static tag = " ++ tag ++ " as const;",
    rbrace])

/-- The parameters and object entries of a positional constructor. -/
def positionalParts (options : Options) (fields : List ResolvedField) : List String × List String :=
  let step := fun (acc : List String × List String × List String) (f : ResolvedField) =>
    let (params, entries, taken) := acc
    let (param, taken) := paramName f.name taken
    (params ++ [param ++ ": " ++ fieldType f.descriptor options .argument],
      entries ++ [if param == f.name then param else f.name ++ ": " ++ param], taken)
  let (params, entries, _) := fields.foldl step ([], [], fields.map (·.name))
  (params, entries)

def constructorFunction (options : Options) (leaf : LeafNode) (fields : List ResolvedField)
    (ctor : String) : String :=
  let name := leaf.name
  let tagName := options.tagName
  let tag := stringLiteral leaf.tag
  let doc := indentedComment "" ["This function can be invoked to create a new instance of " ++ name]
  let code := match options.constructor with
    | .singleParameterObject =>
      ["export function " ++ ctor ++ "(fields: Omit<" ++ name ++ ", " ++ stringLiteral tagName ++ ">): " ++
          name ++ " " ++ lbrace,
        "    return " ++ lbrace ++ " " ++ tagName ++ ": " ++ tag ++ ", ...fields " ++ rbrace ++ ";",
        rbrace]
    | .positionalArgs =>
      let (params, entries) := positionalParts options fields
      ["export function " ++ ctor ++ "(" ++ ", ".intercalate params ++ "): " ++ name ++ " " ++ lbrace,
        "    return " ++ lbrace ++ " " ++ ", ".intercalate ((tagName ++ ": " ++ tag) :: entries) ++ " " ++
          rbrace ++ ";",
        rbrace]
  lines [doc, lines code]

/-- Everything generated for a leaf whose constructor is named `ctor`. -/
def renderLeaf (ir : Ir) (leaf : LeafNode) (ctor : String) : Except GenerationError String := do
  let fields ← (resolveFields ir.declarations leaf.toRecord).mapError .resolve
  let children ← (resolveChildFields ir.declarations leaf.toRecord).mapError .resolve
  pure (lines [interface ir.options leaf.toRecord (some leaf.tag), "",
    helperClass ir.options leaf fields children, "",
    constructorFunction ir.options leaf fields ctor])

end NodeSchema.TypeScript
