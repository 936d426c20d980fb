import NodeSchema.Ir.Basic

set_option autoImplicit false

/-! Schemas and assembled nodes as JSON values: the views a loaded schema and its assembly are
reported in. Options are written with their canonical words; tables keep their declaration
order; a descriptor is its structure and its kind, the kind tagged `builtin`, `enum` or `node`.
An assembled node is its kind word followed by the entries of the declaration it holds; a union
adds its flattened leaves. -/

namespace NodeSchema

def stringsJson (xs : List String) : Json := .array (xs.map .string)

def Options.toJson (o : Options) : Json :=
  .object [("tagName", .string o.tagName), ("optional", .string o.optional.word),
    ("maps", .string o.maps.word), ("constructor", .string o.constructor.word)]

def ValueKind.toJson : ValueKind → Json
  | .builtin types => .object [("kind", .string "builtin"), ("types", stringsJson types)]
  | .enum tags => .object [("kind", .string "enum"), ("tags", stringsJson tags)]
  | .node types => .object [("kind", .string "node"), ("types", stringsJson types)]

def FieldDescriptor.toJson (d : FieldDescriptor) : Json :=
  .object [("structure", .string d.container.word), ("kind", d.kind.toJson)]

def Table.toJson {α : Type} (f : α → Json) (t : Table α) : Json :=
  .object (t.entries.map fun (k, v) => (k, f v))

def NameTable.toJson (names : NameTable) : Json :=
  .object [("entries", names.entries.toJson fun kinds => stringsJson (kinds.map DeclKind.word))]

def BaseNode.jsonEntries (b : BaseNode) : List (String × Json) :=
  [("name", .string b.name), ("bases", stringsJson b.bases),
    ("fields", b.fields.toJson FieldDescriptor.toJson)]

def LeafNode.jsonEntries (l : LeafNode) : List (String × Json) :=
  [("name", .string l.name), ("tag", .string l.tag), ("bases", stringsJson l.bases),
    ("fields", l.fields.toJson FieldDescriptor.toJson),
    ("enclosing_union", match l.enclosingUnion with | some u => .string u | none => .null),
    ("root_union", .string l.rootUnion)]

def UnionNode.jsonEntries (u : UnionNode) : List (String × Json) :=
  [("name", .string u.name), ("members", stringsJson u.members), ("excluded", stringsJson u.excluded)]

def ExternalNode.jsonEntries (e : ExternalNode) : List (String × Json) :=
  [("symbol", .string e.symbol), ("source", .string e.source)]

def Schema.toJson (s : Schema) : Json :=
  .object [("options", s.options.toJson), ("names", s.names.toJson),
    ("bases", s.bases.toJson fun b => .object b.jsonEntries),
    ("leaves", s.leaves.toJson fun l => .object l.jsonEntries),
    ("unions", s.unions.toJson fun u => .object u.jsonEntries),
    ("externs", s.externs.toJson fun e => .object e.jsonEntries)]

def IrNode.toJson (node : IrNode) : Json :=
  .object (("kind", .string node.kind.word) :: match node with
    | .base b => b.jsonEntries
    | .leaf l => l.jsonEntries
    | .union u => u.decl.jsonEntries ++ [("leaves", stringsJson u.leaves)]
    | .external e => e.jsonEntries)

def Ir.toJson (ir : Ir) : Json :=
  .object [("options", ir.options.toJson), ("nodes", ir.nodes.toJson IrNode.toJson)]

end NodeSchema
