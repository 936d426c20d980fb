import NodeSchema.Json.Shape
import NodeSchema.Schema.Names

set_option autoImplicit false

/-! The faults this library reports, each as a cause with the schema element at fault, one
function giving its message, and a coarse classification. Paths name an element the way it
sits in the document (`nodes.Expr.Add[1].left`). Loading reports `SchemaError`; flattening
inheritance or a union reports `ResolveError`; assembly reports `GenerationError`, which
carries flattening faults unchanged. -/

namespace NodeSchema

/-- The coarse class of a fault. -/
inductive ErrorKind where
  /-- A malformed document, descriptor or name. -/
  | syntactic
  /-- A reference to a missing, cyclic or ambiguous declaration. -/
  | reference
  /-- A name, field, base or tag given twice, or a field named like the discriminant. -/
  | uniqueness
  /-- An unknown top-level key, or an option outside its set. -/
  | option
  deriving DecidableEq, Repr

/-- The name of a fault class: `Syntax`, `Reference`, `Uniqueness`, `Option`. -/
def ErrorKind.name : ErrorKind → String
  | .syntactic => "Syntax"
  | .reference => "Reference"
  | .uniqueness => "Uniqueness"
  | .option => "Option"

/-- What a part of the document was expected to be. -/
inductive ExpectedShape where
  /-- The `nodes` table. -/
  | nodeTable
  /-- The `bases` table. -/
  | baseTable
  /-- A member of the node tree. -/
  | unionOrLeaf
  /-- The content of a base. -/
  | fieldList
  deriving DecidableEq, Repr

def ExpectedShape.describe : ExpectedShape → String
  | .nodeTable => "an object mapping names to unions and leaves"
  | .baseTable => "an object mapping names to field lists"
  | .unionOrLeaf => "an object (union) or an array of fields (leaf)"
  | .fieldList => "an array of fields"

/-- Why the options block was refused. -/
inductive OptionFault where
  /-- The block or one of its values has the wrong shape. -/
  | shape (misfit : Json.Misfit)
  /-- The discriminant name is not a valid name. -/
  | discriminant (name : String)
  deriving DecidableEq, Repr

def OptionFault.message : OptionFault → String
  | .shape m => m.message
  | .discriminant name => Json.ticked name ++ " is not a valid discriminant name"

/-- Why a schema document could not be loaded. -/
inductive SchemaError where
  | rootNotObject
  | missingNodes
  | unknownTopLevelKey (key : String)
  | unexpectedShape (path : String) (expected : ExpectedShape)
  | invalidIdentifier (path : String) (name : String)
  | duplicateName (path : String) (name : String)
  /-- A field list item that is not an object with one key; `item` is its compact JSON. -/
  | malformedField (path : String) (item : String)
  | unrecognizedFieldSyntax (path : String) (field : String) (text : String)
  | unknownType (path : String) (field : String) (type : String)
  | unknownBase (path : String) (node : String) (base : String)
  | reservedFieldName (path : String) (field : String)
  | duplicateField (path : String) (node : String) (field : String)
  | duplicateBase (path : String) (node : String) (base : String)
  | invalidTag (path : String) (node : String)
  | invalidOption (path : String) (fault : OptionFault)
  | invalidExtern (path : String) (misfit : Json.Misfit)
  deriving DecidableEq, Repr

namespace SchemaError

open Json (ticked)

def message : SchemaError → String
  | .rootNotObject => "schema root must be an object"
  | .missingNodes => "missing " ++ ticked "nodes" ++ " field"
  | .unknownTopLevelKey k => "unrecognized top-level key " ++ ticked k
  | .unexpectedShape p e => "at " ++ p ++ ": expected " ++ e.describe
  | .invalidIdentifier p n => "at " ++ p ++ ": invalid name " ++ ticked n
  | .duplicateName p n => "at " ++ p ++ ": name " ++ ticked n ++ " defined multiple times"
  | .malformedField p item =>
    "at " ++ p ++ ": unexpected field type specification " ++ item ++
      " (expected an object with exactly one key)"
  | .unrecognizedFieldSyntax p f t =>
    "at " ++ p ++ ": field " ++ ticked f ++ " has unrecognized field syntax " ++ ticked t
  | .unknownType p f t => "at " ++ p ++ ": field " ++ ticked f ++ " refers to unknown type " ++ ticked t
  | .unknownBase p n b =>
    "at " ++ p ++ ": type " ++ ticked n ++ " cannot extend from unknown base type " ++ ticked b
  | .reservedFieldName p f =>
    "at " ++ p ++ ": field " ++ ticked f ++ " collides with the discriminant field name"
  | .duplicateField p n f => "at " ++ p ++ ": field " ++ ticked f ++ " declared twice in " ++ ticked n
  | .duplicateBase p n b => "at " ++ p ++ ": " ++ ticked n ++ " extends " ++ ticked b ++ " more than once"
  | .invalidTag p n => "at " ++ p ++ ": tag override on " ++ ticked n ++ " must be a non-empty string"
  | .invalidOption p f => "at " ++ p ++ ": " ++ f.message
  | .invalidExtern p m => "at " ++ p ++ ": " ++ m.message

def kind : SchemaError → ErrorKind
  | .rootNotObject | .missingNodes | .unexpectedShape .. | .invalidIdentifier .. | .malformedField ..
  | .unrecognizedFieldSyntax .. | .invalidTag .. | .invalidExtern .. => .syntactic
  | .unknownType .. | .unknownBase .. => .reference
  | .duplicateName .. | .reservedFieldName .. | .duplicateField .. | .duplicateBase .. => .uniqueness
  | .unknownTopLevelKey .. | .invalidOption .. => .option

end SchemaError

/-- Why inheritance or a union could not be flattened. -/
inductive ResolveError where
  | unknownBase (node : String) (base : String)
  | duplicateField (node : String) (field : String)
  | cyclicInheritance (base : String)
  | unknownMember (union : String) (member : String)
  | ambiguousMember (union : String) (member : String)
  deriving DecidableEq, Repr

namespace ResolveError

open Json (ticked)

def message : ResolveError → String
  | .unknownBase n b => "unknown base type " ++ ticked b ++ " of " ++ ticked n
  | .duplicateField n f =>
    "field " ++ ticked f ++ " of " ++ ticked n ++ " is not unique (already inherited or declared)"
  | .cyclicInheritance b => "inheritance cycle through " ++ ticked b
  | .unknownMember u m => "unable to find member " ++ ticked m ++ " of union " ++ ticked u
  | .ambiguousMember u m => "member " ++ ticked m ++ " of union " ++ ticked u ++ " is both a union and a leaf"

def kind : ResolveError → ErrorKind
  | .duplicateField .. => .uniqueness
  | _ => .reference

end ResolveError

/-- Why a loaded schema could not be assembled into generated code. -/
inductive GenerationError where
  /-- Flattening failed. -/
  | resolve (fault : ResolveError)
  /-- A name was claimed by a declaration of kind `kind` after one of kind `existing`. -/
  | alreadyDefined (name : String) (kind : DeclKind) (existing : DeclKind)
  /-- Two leaves of a union's flattening carry one tag. -/
  | duplicateTag (union : String) (tag : String) (first : String) (second : String)
  /-- A union declares no members. -/
  | emptyUnion (union : String)
  deriving DecidableEq, Repr

namespace GenerationError

open Json (ticked)

/-- The message of an assembly fault; a flattening fault keeps its own. -/
def message : GenerationError → String
  | .resolve e => e.message
  | .alreadyDefined n k e => k.describe ++ " named " ++ n ++ " was already defined as a(n) " ++ e.word
  | .duplicateTag u t f s =>
    "leaves " ++ ticked f ++ " and " ++ ticked s ++ " of union " ++ ticked u ++ " share the tag " ++
      "\"" ++ t ++ "\""
  | .emptyUnion u => "union " ++ ticked u ++ " has no members"

def kind : GenerationError → ErrorKind
  | .resolve e => e.kind
  | .alreadyDefined .. | .duplicateTag .. => .uniqueness
  | .emptyUnion _ => .syntactic

end GenerationError

end NodeSchema
