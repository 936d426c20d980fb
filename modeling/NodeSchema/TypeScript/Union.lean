import NodeSchema.TypeScript.Text
import NodeSchema.Ir.Basic

set_option autoImplicit false

/-! The code generated for a union: its sum type over the declared members, and a namespace of
the same name dispatching over the flattened leaves. `anyIs` tries each leaf's shape
predicate; `children` keeps the children that belong to the union; `map` and `match` switch
exhaustively on the discriminant (an impossible value throws); `partialMap` and
`partialMatch` call the handlers given and fall back otherwise. -/

namespace NodeSchema.TypeScript

def namespaceDoc (text : List String) : String := indentedComment "    " text

def handlerEntry (ret : String) (l : LeafNode) : String :=
  l.name ++ ": (n: " ++ l.name ++ ") => " ++ ret

/-- The handler object type: one handler per leaf, each returning `ret`. -/
def handlers (leaves : List LeafNode) (ret : String) : String :=
  lbrace ++ " " ++ "; ".intercalate (leaves.map (handlerEntry ret)) ++ " " ++ rbrace

/-- The case of one leaf in an exhaustive switch, labelled with the leaf's tag. -/
def caseLine (l : LeafNode) : String :=
  "            case " ++ stringLiteral l.tag ++ ": return f." ++ l.name ++ "(n);"

/-- A switch on the discriminant with one case per leaf and a default that cannot happen. -/
def exhaustiveSwitch (union tagName : String) (leaves : List LeafNode) : String :=
  lines (["        switch (n." ++ tagName ++ ") " ++ lbrace] ++ leaves.map caseLine ++
    ["            default: " ++ lbrace,
      "                const x: never = n;",
      "                throw new Error(" ++
        stringLiteral ("impossible variant of " ++ union ++ ", unexpected " ++ tagName ++ ": ") ++
        " + (x as any)." ++ tagName ++ ");",
      "            " ++ rbrace,
      "        " ++ rbrace])

/-- The call of one leaf's handler, guarded by the leaf's tag and the handler's presence. -/
def checkLine (tagName : String) (l : LeafNode) : String :=
  "        if (n." ++ tagName ++ " === " ++ stringLiteral l.tag ++ " && f." ++ l.name ++ ") return f." ++
    l.name ++ "(n);"

def partialChecks (tagName : String) (leaves : List LeafNode) : String :=
  lines (leaves.map (checkLine tagName))

/-- The code of a union: its sum type over the declared members, and its namespace
dispatching over `leaves`. -/
def unionCode (decl : UnionNode) (tagName : String) (leaves : List LeafNode) : String :=
  let name := decl.name
  lines ([
    comment ["This code implements the types and functions associated with",
      "the union type " ++ name ++ "."],
    "export type " ++ name ++ " = " ++ " | ".intercalate decl.members ++ ";",
    "",
    "export namespace " ++ name ++ " " ++ lbrace,
    namespaceDoc ["Given an instance of `any` determine if it is an instance of any of the leaf types of " ++
      name],
    "    export const anyIs = (n: any): n is " ++ name ++ " => " ++ lbrace] ++
    leaves.map (fun l => "        if (" ++ l.name ++ ".anyIs(n)) return true;") ++ [
    "        return false;",
    "    " ++ rbrace ++ ";",
    namespaceDoc ["Given an instance of " ++ name ++ ", return a list of all children"],
    "    export const children = (n: " ++ name ++ "): readonly " ++ name ++ "[] => map(n, " ++ lbrace] ++
    leaves.map (fun l => "        " ++ l.name ++ ": (c): readonly " ++ name ++ "[] => " ++ l.name ++
      ".children(c).map((x) => x as any).filter(anyIs),") ++ [
    "    " ++ rbrace ++ ");",
    namespaceDoc ["Given an instance of type " ++ name ++ ", map that value depending on the",
      "specific underlying node type"],
    "    export const map = <R>(n: " ++ name ++ ", f: " ++ handlers leaves "R" ++ "): R => " ++ lbrace,
    exhaustiveSwitch name tagName leaves,
    "    " ++ rbrace ++ ";",
    namespaceDoc ["Given an instance of type " ++ name ++ ", map that value for certain subtypes",
      "and for all others, simply return the `orElse` argument"],
    "    export const partialMap = <R>(n: " ++ name ++ ", f: Partial<" ++ handlers leaves "R" ++
      ">, orElse: R): R => " ++ lbrace,
    partialChecks tagName leaves,
    "        return orElse;",
    "    " ++ rbrace ++ ";",
    namespaceDoc ["Given an instance of type " ++ name ++ ", take action depending on the",
      "specific underlying node type"],
    "    export const match = (n: " ++ name ++ ", f: " ++ handlers leaves "void" ++ "): void => " ++ lbrace,
    exhaustiveSwitch name tagName leaves,
    "    " ++ rbrace ++ ";",
    namespaceDoc ["Given an instance of type " ++ name ++ ", take action for certain subtypes",
      "and for all others, invoke the optional `orElse` callback"],
    "    export const partialMatch = (n: " ++ name ++ ", f: Partial<" ++ handlers leaves "void" ++
      ">, orElse?: (n: " ++ name ++ ") => void): void => " ++ lbrace,
    partialChecks tagName leaves,
    "        if (orElse) return orElse(n);",
    "    " ++ rbrace ++ ";",
    rbrace])

/-- Everything generated for a flattened union: the union's code over the leaves its
declaration flattens to. -/
def renderUnion (ir : Ir) (union : FlatUnion) : Except GenerationError String := do
  let leaves ← (resolveUnionLeaves ir.declarations union.decl).mapError .resolve
  pure (unionCode union.decl ir.options.tagName leaves)

end NodeSchema.TypeScript
