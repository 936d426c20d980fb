import NodeSchema.Resolve.Fields
import NodeSchema.Resolve.Unions

set_option autoImplicit false

/-! The assembled nodes handed to code generation: one name-indexed table holding the external
types, then the unions (each with its flattened leaves), then the bases, then the leaves, each
group in declaration order. Assembly checks, union by union, that the union flattens, that it
declares members and that no two of its leaves share a tag; then that every base and every
leaf flattens its inheritance; and last that no name is claimed twice across the kinds. -/

namespace NodeSchema

/-- A union with the leaves it sums. -/
structure FlatUnion where
  decl : UnionNode
  /-- The flattened leaf names, in order of first appearance. -/
  leaves : List String
  deriving DecidableEq, Repr

/-- One assembled declaration. -/
inductive IrNode where
  | base (b : BaseNode)
  | leaf (l : LeafNode)
  | union (u : FlatUnion)
  | external (e : ExternalNode)
  deriving Repr

namespace IrNode

def kind : IrNode → DeclKind
  | .base _ => .base
  | .leaf _ => .leaf
  | .union _ => .union
  | .external _ => .external

/-- The name an assembled declaration is claimed under. -/
def name : IrNode → String
  | .base b => b.name
  | .leaf l => l.name
  | .union u => u.decl.name
  | .external e => e.symbol

end IrNode

/-- The assembled declarations of a schema. -/
structure Ir where
  options : Options
  nodes : Table IrNode
  deriving Repr

/-- Refuses the first leaf whose tag an earlier leaf of the list carries. -/
def checkTags (union : String) : List (String × String) → List LeafNode → Except GenerationError Unit
  | _, [] => .ok ()
  | seen, leaf :: rest =>
    match seen.lookup leaf.tag with
    | some first => .error (.duplicateTag union leaf.tag first leaf.name)
    | none => checkTags union (seen ++ [(leaf.tag, leaf.name)]) rest

def flattenUnion (d : Declarations) (u : UnionNode) : Except GenerationError FlatUnion := do
  let leaves ← (resolveUnionLeaves d u).mapError .resolve
  if u.members.isEmpty then throw (.emptyUnion u.name)
  checkTags u.name [] leaves
  pure ⟨u, leaves.map (·.name)⟩

/-- Checks, in order, that every record flattens its inheritance. -/
def checkInheritance (d : Declarations) (records : List Record) : Except GenerationError Unit :=
  records.forM fun r => do
    let _ ← (resolveFields d r).mapError .resolve

namespace Ir

/-- Claims a node's name, refused when an earlier node holds it. -/
def insert (ir : Ir) (node : IrNode) : Except GenerationError Ir :=
  match ir.nodes.get? node.name with
  | some existing => .error (.alreadyDefined node.name node.kind existing.kind)
  | none => .ok { ir with nodes := ir.nodes.insert node.name node }

def build (s : Schema) : Except GenerationError Ir := do
  let d := s.declarations
  let unions ← s.unions.values.mapM (flattenUnion d)
  checkInheritance d (s.bases.values.map (·.toRecord))
  checkInheritance d (s.leaves.values.map (·.toRecord))
  let nodes := s.externs.values.map .external ++ unions.map .union ++
    s.bases.values.map .base ++ s.leaves.values.map .leaf
  nodes.foldlM insert ⟨s.options, .empty⟩

def base? (ir : Ir) (name : String) : Option BaseNode :=
  match ir.nodes.get? name with
  | some (.base b) => some b
  | _ => none

def leaf? (ir : Ir) (name : String) : Option LeafNode :=
  match ir.nodes.get? name with
  | some (.leaf l) => some l
  | _ => none

def union? (ir : Ir) (name : String) : Option UnionNode :=
  match ir.nodes.get? name with
  | some (.union u) => some u.decl
  | _ => none

def unionNames (ir : Ir) : List String :=
  ir.nodes.values.filterMap fun
    | .union u => some u.decl.name
    | _ => none

/-- The declarations of assembled nodes: each name finds the node of its own kind only. -/
def declarations (ir : Ir) : Declarations where
  base? := ir.base?
  leaf? := ir.leaf?
  union? := ir.union?
  baseNames := ir.nodes.keys
  unionNames := ir.unionNames
  base?_mem := by
    intro name b found
    unfold base? at found
    split at found
    · exact Table.mem_keys_of_get? (by assumption)
    · simp at found
  union?_mem := by
    intro name u found
    unfold union? at found
    split at found
    · rename_i flat present
      simp only [Option.some.injEq] at found
      subst found
      exact List.mem_filterMap.2 ⟨_, Table.mem_values_of_get? present, rfl⟩
    · simp at found

def bases (ir : Ir) : List BaseNode := ir.nodes.values.filterMap fun
  | .base b => some b
  | _ => none

def leaves (ir : Ir) : List LeafNode := ir.nodes.values.filterMap fun
  | .leaf l => some l
  | _ => none

def unions (ir : Ir) : List FlatUnion := ir.nodes.values.filterMap fun
  | .union u => some u
  | _ => none

def externals (ir : Ir) : List ExternalNode := ir.nodes.values.filterMap fun
  | .external e => some e
  | _ => none

end Ir

end NodeSchema
