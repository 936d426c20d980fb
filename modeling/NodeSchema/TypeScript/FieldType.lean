import NodeSchema.TypeScript.Text
import NodeSchema.Schema.Field
import NodeSchema.Schema.Options

set_option autoImplicit false

/-! How a field is typed and read in generated code. The value type joins the alternatives
with bars (tags as string literals); the structure wraps it as an array, a set, a record or map
of strings, or an optional in the style the options choose. An optional field whose key may be
left out is written `name?` as a property and `T | undefined` as a parameter. The children a
field holds are spread out of its container. -/

namespace NodeSchema.TypeScript

/-- Where a field type is written. -/
inductive Position where
  /-- A property of an interface. -/
  | property
  /-- A positional constructor parameter. -/
  | argument
  deriving DecidableEq, Repr

/-- The value type without its structure: `number`, `A | B`, `"add" | "sub"`. -/
def typeName : ValueKind → String
  | .builtin types | .node types => " | ".intercalate types
  | .enum tags => " | ".intercalate (tags.map stringLiteral)

def partCount : ValueKind → Nat
  | .builtin types | .node types => types.length
  | .enum tags => tags.length

def fieldType (field : FieldDescriptor) (options : Options) (position : Position) : String :=
  let name := typeName field.kind
  match field.container with
  | .scalar => name
  | .array => if partCount field.kind > 1 then "(" ++ name ++ ")[]" else name ++ "[]"
  | .set => "Set<" ++ name ++ ">"
  | .map => match options.maps with
    | .plainRecord => "Record<string, " ++ name ++ ">"
    | .associativeContainer => "Map<string, " ++ name ++ ">"
  | .optional => match options.optional, position with
    | .omittableKey, .property => name
    | .omittableKey, .argument => name ++ " | undefined"
    | .nullable, _ => name ++ " | null"
    | .monadicWrapper, _ => "Maybe<" ++ name ++ ">"

def isOmittable (field : FieldDescriptor) (options : Options) : Bool :=
  field.container == .optional && options.optional == .omittableKey

/-- The property key of a field: `name?` when the key may be left out. -/
def fieldKey (name : String) (field : FieldDescriptor) (options : Options) : String :=
  if isOmittable field options then name ++ "?" else name

/-- An expression passing or spreading the children held by `var.name`. -/
def childExpr (var name : String) (field : FieldDescriptor) (options : Options) : String :=
  let access := var ++ "." ++ name
  match field.container with
  | .scalar => access
  | .array | .set => "..." ++ access
  | .map => match options.maps with
    | .plainRecord => "...Object.values(" ++ access ++ ")"
    | .associativeContainer => "..." ++ access ++ ".values()"
  | .optional => match options.optional with
    | .omittableKey | .nullable => "...(" ++ access ++ " ? [" ++ access ++ "] : [])"
    | .monadicWrapper => "..." ++ access ++ ".map((v) => [v]).orDefault([])"

end NodeSchema.TypeScript
