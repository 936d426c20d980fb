import NodeSchema.Error

set_option autoImplicit false

/-! Field descriptors and the small language that writes them.

```
descriptor := core "?"  (optional) | core "[]"  (array) | core "{}"  (map)
            | "<" core ">"  (set) | core  (scalar)
core       := part ("|" part)*
part       := builtin | "." tag | TypeName
```

The descriptor is trimmed of blanks first, and so are the core and every part. A part given
twice counts once. All parts of one core must be of one kind: all built-in types, all tags,
or all declared names. A built-in mixed with names, an empty part or tag, or anything else is
refused as unrecognized; a name that is not declared is refused as an unknown type. -/

/-! ### Names and blanks

The names a schema may declare: a letter, `_` or `$`, then letters, digits, `_` or `$`, all
ASCII, up to the very end of the text. Every such name is a legal identifier in the generated
code; some legal identifiers (non-ASCII ones) are refused.

Blank characters are those of the Unicode White_Space property, which is what descriptor texts
are trimmed of: the ASCII tab through carriage return and the space, the next line U+0085, the
no-break space, the Ogham space mark, the en quad through the hair space, the line and
paragraph separators, the narrow no-break space, the medium mathematical space and the
ideographic space. The zero-width space U+200B and the byte order mark are not blank. -/

namespace NodeSchema.Text

def isAsciiLetter (c : Char) : Bool := ('a' ≤ c && c ≤ 'z') || ('A' ≤ c && c ≤ 'Z')

def isNameStart (c : Char) : Bool := isAsciiLetter c || c = '_' || c = '$'

def isNamePart (c : Char) : Bool := isNameStart c || ('0' ≤ c && c ≤ '9')

/-- Whether a text is a name: a start character followed by part characters only. -/
def isIdentifier (s : String) : Bool :=
  match s.toList with
  | [] => false
  | c :: rest => isNameStart c && rest.all isNamePart

/-- The White_Space code points as inclusive ranges, in increasing order. -/
def blankRanges : List (Nat × Nat) :=
  [(0x09, 0x0D), (0x20, 0x20), (0x85, 0x85), (0xA0, 0xA0), (0x1680, 0x1680),
    (0x2000, 0x200A), (0x2028, 0x2029), (0x202F, 0x202F), (0x205F, 0x205F), (0x3000, 0x3000)]

def isBlank (c : Char) : Bool := blankRanges.any fun r => r.1 ≤ c.toNat && c.toNat ≤ r.2

def trimBlank (s : String) : String :=
  String.ofList ((s.toList.dropWhile isBlank).reverse.dropWhile isBlank).reverse

theorem isBlank_of_isWhitespace (c : Char) (white : c.isWhitespace = true) : isBlank c = true := by
  simp only [Char.isWhitespace, Bool.or_eq_true, decide_eq_true_eq] at white
  simp only [isBlank, blankRanges, List.any_cons, List.any_nil, Bool.or_eq_true,
    Bool.and_eq_true, decide_eq_true_eq]
  rcases white with ((h | h) | h) | h <;> subst h <;> decide

example : trimBlank "　 A|B\u0085 " = "A|B" := by decide
example : trimBlank "​A" = "​A" := by decide

end NodeSchema.Text

namespace NodeSchema

/-- The container a field's values sit in. -/
inductive Structure where
  | scalar
  | array
  | optional
  | map
  | set
  deriving DecidableEq, Repr, Inhabited

def Structure.word : Structure → String
  | .scalar => "scalar"
  | .array => "array"
  | .optional => "optional"
  | .map => "map"
  | .set => "set"

/-- What a field's values are. -/
inductive ValueKind where
  /-- One of the built-in types. -/
  | builtin (types : List String)
  /-- One of a list of string tags. -/
  | enum (tags : List String)
  /-- One of the declared types. -/
  | node (types : List String)
  deriving DecidableEq, Repr, Inhabited

/-- The type of a field. -/
structure FieldDescriptor where
  container : Structure
  kind : ValueKind
  deriving DecidableEq, Repr, Inhabited

/-- The built-in type names, written as they are in generated code. -/
def builtinTypes : List String := ["string", "number", "boolean", "bigint", "null", "unknown"]

def isBuiltin (name : String) : Bool := builtinTypes.contains name

namespace FieldDescriptor

def isNode (d : FieldDescriptor) : Bool :=
  match d.kind with
  | .node _ => true
  | _ => false

/-- Whether the field holds declared types among which is `type`. -/
def references (d : FieldDescriptor) (type : String) : Bool :=
  match d.kind with
  | .node types => types.contains type
  | _ => false

/-- A scalar field of tags, given as a list in place of a descriptor text. -/
def ofTags (tags : List String) : FieldDescriptor := ⟨.scalar, .enum tags⟩

end FieldDescriptor

/-- A descriptor text split into its structure and its trimmed core. -/
def splitStructure (text : String) : Structure × String :=
  let cs := (Text.trimBlank text).toList
  let core (xs : List Char) : String := Text.trimBlank (String.ofList xs)
  match cs.reverse with
  | '?' :: rest => (.optional, core rest.reverse)
  | ']' :: '[' :: rest => (.array, core rest.reverse)
  | '\x7d' :: '\x7b' :: rest => (.map, core rest.reverse)
  | '>' :: rest =>
    match rest.reverse with
    | '<' :: inner => (.set, core inner)
    | _ => (.scalar, String.ofList cs)
  | _ => (.scalar, String.ofList cs)

/-- The parts of a core: split at bars, trimmed, each kept at its first occurrence. `none`
when a part is empty. -/
def splitParts (core : String) : Option (List String) :=
  let parts := (core.toList.splitOn '|').map fun cs => Text.trimBlank (String.ofList cs)
  if parts.any (·.isEmpty) then none else some parts.eraseDups

/-- Reads a descriptor text for the field `field` at `path`, with `names` the declared
names. -/
def parseField (path field text : String) (names : NameTable) : Except SchemaError FieldDescriptor :=
  let unrecognized : SchemaError := .unrecognizedFieldSyntax path field text
  let (container, core) := splitStructure text
  match splitParts core with
  | none => .error unrecognized
  | some parts =>
    if parts.all isBuiltin then .ok ⟨container, .builtin parts⟩
    else if parts.all (·.toList.head? == some '.') then
      let tags := parts.map fun p => String.ofList (p.toList.drop 1)
      if tags.any (·.isEmpty) then .error unrecognized else .ok ⟨container, .enum tags⟩
    else if parts.all Text.isIdentifier then
      if parts.any isBuiltin then .error unrecognized
      else match parts.find? (fun p => !names.contains p) with
        | some unknown => .error (.unknownType path field unknown)
        | none => .ok ⟨container, .node parts⟩
    else .error unrecognized

end NodeSchema
