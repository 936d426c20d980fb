import NodeSchema.Resolve.Declarations
import NodeSchema.Error

set_option autoImplicit false
-- the hypotheses named in matches below are used only by the termination proofs
set_option linter.unusedVariables false

/-! Flattening inheritance. The fields of a record are those of its bases, depth first in base
order, then its own; no field name may occur twice. A base that cannot be found, or that is
reached again while its own bases are being read, is a fault. Only bases stand on the path: a
leaf may share its name with a base it does not inherit from.

The recursion ends because a base is entered only when its name is listed by the
declarations and not yet on the path, so the number of listed names off the path falls. -/

namespace NodeSchema

/-- A field after flattening, with the declaration that owns it. -/
structure ResolvedField where
  name : String
  descriptor : FieldDescriptor
  /-- The record itself or one of its bases. -/
  declaredIn : String
  deriving DecidableEq, Repr

/-- Appends a record's own fields, refusing a name already collected. -/
def addOwnFields (owner : String) :
    List (String × FieldDescriptor) → List ResolvedField → Except ResolveError (List ResolvedField)
  | [], out => .ok out
  | (name, descriptor) :: rest, out =>
    if out.any (·.name == name) then .error (.duplicateField owner name)
    else addOwnFields owner rest (out ++ [⟨name, descriptor, owner⟩])

/-- Collects the fields of `node` after `out`, with `visiting` the bases on the path: the fields
of each base in order, then the node's own. -/
def collectFields (d : Declarations) (visiting : List String) (node : Record)
    (out : List ResolvedField) : Except ResolveError (List ResolvedField) := do
  let out ← node.bases.foldlM (fun out name =>
    match found : d.base? name with
    | none => .error (.unknownBase node.name name)
    | some base =>
      if onPath : name ∈ visiting then .error (.cyclicInheritance name)
      else collectFields d (name :: visiting) base.toRecord out) out
  addOwnFields node.name node.fields.entries out
termination_by d.unvisitedBases visiting
decreasing_by exact countP_not_mem_cons_lt (d.base?_mem found) onPath

/-- The fields of a record: inherited ones first, depth first in base order, then its own. -/
def resolveFields (d : Declarations) (node : Record) : Except ResolveError (List ResolvedField) :=
  collectFields d [] node []

/-- Whether a field's values sit in a container: the key child fields are sorted by, so that
scalar ones come first. -/
def ResolvedField.contained (f : ResolvedField) : Bool := f.descriptor.container != .scalar

/-- The fields of a record that hold declared types, sorted stably by whether they are
contained, the uncontained ones first: scalar fields lead. -/
def resolveChildFields (d : Declarations) (node : Record) : Except ResolveError (List ResolvedField) := do
  let nodes := (← resolveFields d node).filter (·.descriptor.isNode)
  pure (nodes.mergeSort fun a b => !a.contained || b.contained)

end NodeSchema
