import NodeSchema.Error
import NodeSchema.Schema.Field

set_option autoImplicit false

/-! The options block of a schema: the name of the discriminant field every leaf carries, and
how optional fields, map fields and leaf constructors are written in generated code. Each
option has a default, so a missing key or a short array takes it. The block is an object with
the keys `tagName`, `optional`, `maps` and `constructor`, or an array with up to four elements
in that order. A style is named by its kebab-case word or by an older alias. The discriminant
name must itself be a valid name. -/

namespace NodeSchema

open Json (PathStep Shaped Misfit)

/-- How an optional field is written. -/
inductive OptionalStyle where
  /-- The key may be left out: `name?: T`. -/
  | omittableKey
  /-- The key is present and the value may be null: `name: T | null`. -/
  | nullable
  /-- The value is wrapped: `name: Maybe<T>`. -/
  | monadicWrapper
  deriving DecidableEq, Repr, Inhabited

/-- How a map field is written. -/
inductive MapStyle where
  /-- A record of strings: `Record<string, T>`. -/
  | plainRecord
  /-- A map container: `Map<string, T>`. -/
  | associativeContainer
  deriving DecidableEq, Repr, Inhabited

/-- How a leaf's constructor function takes its fields. -/
inductive ConstructorStyle where
  /-- One parameter per field, in field order. -/
  | positionalArgs
  /-- One object holding every field but the discriminant. -/
  | singleParameterObject
  deriving DecidableEq, Repr, Inhabited

/-- The words naming each optional style, in the order messages list them. -/
def OptionalStyle.words : List (String × OptionalStyle) :=
  [("json", .omittableKey), ("omittable-key", .omittableKey), ("expnull", .nullable),
    ("nullable", .nullable), ("monadic-wrapper", .monadicWrapper), ("purify", .monadicWrapper)]

def OptionalStyle.word : OptionalStyle → String
  | .omittableKey => "omittable-key"
  | .nullable => "nullable"
  | .monadicWrapper => "monadic-wrapper"

/-- The words naming each map style, in the order messages list them. -/
def MapStyle.words : List (String × MapStyle) :=
  [("json", .plainRecord), ("plain-record", .plainRecord),
    ("associative-container", .associativeContainer), ("map", .associativeContainer)]

def MapStyle.word : MapStyle → String
  | .plainRecord => "plain-record"
  | .associativeContainer => "associative-container"

/-- The words naming each constructor style, in the order messages list them. -/
def ConstructorStyle.words : List (String × ConstructorStyle) :=
  [("positional", .positionalArgs), ("positional-args", .positionalArgs),
    ("obj", .singleParameterObject), ("single-parameter-object", .singleParameterObject)]

def ConstructorStyle.word : ConstructorStyle → String
  | .positionalArgs => "positional-args"
  | .singleParameterObject => "single-parameter-object"

/-- Schema-wide generator options. -/
structure Options where
  /-- The discriminant field carried by every leaf. -/
  tagName : String := "tag"
  optional : OptionalStyle := .omittableKey
  maps : MapStyle := .plainRecord
  constructor : ConstructorStyle := .positionalArgs
  deriving DecidableEq, Repr, Inhabited

namespace Options

/-- The keys of the options block, in the order of its array form. -/
def keys : List String := ["tagName", "optional", "maps", "constructor"]

/-- Sets the option of a known key from a value found at `here`. -/
def set (options : Options) (here : List PathStep) (key : String) (value : Json) :
    Shaped Options :=
  match key with
  | "tagName" => do return { options with tagName := ← Json.Shape.string here value }
  | "optional" => do return { options with optional := ← Json.Shape.variant here OptionalStyle.words value }
  | "maps" => do return { options with maps := ← Json.Shape.variant here MapStyle.words value }
  | _ => do return { options with constructor := ← Json.Shape.variant here ConstructorStyle.words value }

/-- Reads one entry of the object form; a key outside `keys` is refused. -/
def setEntry (options : Options) (entry : String × Json) : Shaped Options :=
  if entry.1 ∈ keys then options.set [.key entry.1] entry.1 entry.2
  else Json.Shape.fail [.key entry.1] (.unknownField entry.1 keys)

/-- Reads the options' shape: an object of known keys, or an array of at most four values
taken in key order (the four are read before the length is checked); whatever is absent keeps
its default. -/
def shape : Json → Shaped Options
  | .object entries => entries.foldlM setEntry {}
  | .array items => do
    let options ← (items.zip keys).zipIdx.foldlM (fun o e => o.set [.index e.2] e.1.2 e.1.1) {}
    if items.length > keys.length then
      Json.Shape.fail [] (.invalidLength items.length "fewer elements in array")
    else pure options
  | v => Json.Shape.fail [] (.invalidType (Json.found v) "struct Options")

/-- Reads the options block found at `path`: its shape, then the discriminant name, which
must be a valid name. -/
def read (value : Json) (path : String) : Except SchemaError Options :=
  match shape value with
  | .error e => .error (.invalidOption (Json.pathUnder path e.path) (.shape e.misfit))
  | .ok options =>
    if Text.isIdentifier options.tagName then .ok options
    else .error (.invalidOption (path ++ ".tagName") (.discriminant options.tagName))

end Options

end NodeSchema
