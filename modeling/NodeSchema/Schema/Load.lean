import NodeSchema.Schema.Basic
import NodeSchema.Json.Write
import NodeSchema.TypeScript.Reserved

set_option autoImplicit false

/-! Loading a schema document in two passes. The first pass declares every name (bases, then
external symbols, then the node tree in pre-order) and refuses a name that is not valid, is a
built-in type or a reserved word, or is declared twice with one kind. The second pass reads
the contents against those names, so an `extends` or a field may name a type declared further
down. Faults are found in document order; the top-level checks come first: the root must be an
object of known keys with a `nodes` object, then the options, the externs and the bases table
are read.

A field list is an array of single-key objects. The key `extends` (or `^`) adds bases, the
key `@tag` sets a leaf's tag, any other key declares a field whose value is a descriptor text
or a non-empty list of tag strings. A union is an object of members; a member key starting
with `~` is excluded from the sum type, and its subtree is rooted at itself. -/

namespace NodeSchema

open Json (Shaped PathStep)

def topLevelKeys : List String := ["nodes", "bases", "externs", "options"]

def ExternalNode.keys : List String := ["symbol", "source"]

/-- Reads an external type: an object with exactly the keys `symbol` and `source`, or an
array of those two strings. -/
def ExternalNode.shape : Json → Shaped ExternalNode
  | .object entries => do
    let (symbol, source) ← entries.foldlM
      (fun (acc : Option String × Option String) (key, value) =>
        if key = "symbol" then do return (some (← Json.Shape.string [.key key] value), acc.2)
        else if key = "source" then do return (acc.1, some (← Json.Shape.string [.key key] value))
        else Json.Shape.fail [.key key] (.unknownField key ExternalNode.keys)) (none, none)
    match symbol, source with
    | none, _ => Json.Shape.fail [] (.missingField "symbol")
    | some _, none => Json.Shape.fail [] (.missingField "source")
    | some symbol, some source => pure ⟨symbol, source⟩
  | .array items =>
    let expected := "struct ExternalNode with 2 elements"
    match items with
    | [] => Json.Shape.fail [] (.invalidLength 0 expected)
    | [symbol] => do
      let _ ← Json.Shape.string [.index 0] symbol
      Json.Shape.fail [] (.invalidLength 1 expected)
    | symbol :: source :: rest => do
      let symbol ← Json.Shape.string [.index 0] symbol
      let source ← Json.Shape.string [.index 1] source
      if rest.isEmpty then pure ⟨symbol, source⟩
      else Json.Shape.fail [] (.invalidLength items.length "fewer elements in array")
  | v => Json.Shape.fail [] (.invalidType (Json.found v) "struct ExternalNode")

/-- Reads the externs list: an array of external types. -/
def readExterns (value : Json) : Except SchemaError (List ExternalNode) :=
  let shaped : Shaped (List ExternalNode) := match value with
    | .array items => items.zipIdx.mapM fun (item, i) =>
      match ExternalNode.shape item with
      | .ok e => .ok e
      | .error e => .error ⟨.index i :: e.path, e.misfit⟩
    | v => Json.Shape.fail [] (.invalidType (Json.found v) "a sequence")
  match shaped with
  | .ok externs => .ok externs
  | .error e => .error (.invalidExtern (Json.pathUnder "externs" e.path) e.misfit)

/-- A member key split into whether it carries the exclusion marker and the member's name. -/
def memberName (key : String) : Bool × String :=
  match key.toList with
  | '~' :: rest => (true, String.ofList rest)
  | _ => (false, key)

/-! ### First pass: names -/

def declareName (names : NameTable) (name : String) (kind : DeclKind) (path : String) :
    Except SchemaError NameTable :=
  if !Text.isIdentifier name || isBuiltin name || TypeScript.isReserved name then
    .error (.invalidIdentifier path name)
  else
    match names.declare name kind with
    | (true, names) => .ok names
    | (false, _) => .error (.duplicateName path name)

mutual

/-- Declares a node and, for a union, its members in document order. -/
def collectNode (names : NameTable) (name path : String) : Json → Except SchemaError NameTable
  | .array _ => declareName names name .leaf path
  | .object members => do
    let names ← declareName names name .union path
    collectMembers names path members
  | _ => .error (.unexpectedShape path .unionOrLeaf)

def collectMembers (names : NameTable) (path : String) :
    List (String × Json) → Except SchemaError NameTable
  | [] => .ok names
  | (key, child) :: rest => do
    let names ← collectNode names (memberName key).2 (path ++ "." ++ key) child
    collectMembers names path rest

end

/-- The names of a document: bases, external symbols, then the node tree. -/
def collectNames (bases : List (String × Json)) (externs : List ExternalNode)
    (nodes : List (String × Json)) : Except SchemaError NameTable := do
  let names ← bases.foldlM (fun names (name, _) => declareName names name .base ("bases." ++ name)) {}
  let names ← externs.zipIdx.foldlM (fun names (e, i) =>
    declareName names e.symbol .external ("externs[" ++ toString i ++ "].symbol")) names
  nodes.foldlM (fun names (name, content) => collectNode names name ("nodes." ++ name) content) names

/-! ### Second pass: contents -/

/-- What a field list declares. -/
structure FieldList where
  bases : List String := []
  fields : Table FieldDescriptor := .empty
  tag : Option String := none

/-- What the second pass reads contents against. -/
structure Context where
  names : NameTable
  /-- The discriminant field name, which no field may take. -/
  tagName : String

/-- The base names of an `extends` item: one name, or a list of names. -/
def baseNamesOf (value : Json) (path : String) : Except SchemaError (List String) :=
  let malformed : SchemaError := .malformedField path (Json.render value)
  match value with
  | .string name => .ok [name]
  | .array items => match items.mapM Json.string? with
    | some names => .ok names
    | none => .error malformed
  | _ => .error malformed

/-- Adds bases to a list, each declared as a base and not yet in it. -/
def addBases (ctx : Context) (owner path : String) (list : FieldList) :
    List String → Except SchemaError FieldList
  | [] => .ok list
  | base :: rest =>
    if !ctx.names.hasKind base .base then .error (.unknownBase path owner base)
    else if base ∈ list.bases then .error (.duplicateBase path owner base)
    else addBases ctx owner path { list with bases := list.bases ++ [base] } rest

/-- Reads the descriptor of the field `key` declared by `item` at `path`. -/
def descriptorOf (ctx : Context) (key path : String) (item value : Json) :
    Except SchemaError FieldDescriptor :=
  let malformed : SchemaError := .malformedField path (Json.render item)
  match value with
  | .string text => parseField path key text ctx.names
  | .array (first :: more) => match (first :: more).mapM Json.string? with
    | some tags => .ok (FieldDescriptor.ofTags tags)
    | none => .error malformed
  | _ => .error malformed

/-- Reads one item of the field list of `owner`, found at `path`. -/
def walkItem (ctx : Context) (owner : String) (isLeaf : Bool) (list : FieldList) (path : String)
    (item : Json) : Except SchemaError FieldList :=
  match item with
  | .object [(key, value)] =>
    if key = "extends" || key = "^" then do
      addBases ctx owner path list (← baseNamesOf value path)
    else if key = "@tag" then
      match value with
      | .string tag => if isLeaf && !tag.isEmpty then .ok { list with tag := some tag }
        else .error (.invalidTag path owner)
      | _ => .error (.invalidTag path owner)
    else
      let fieldPath := path ++ "." ++ key
      if !Text.isIdentifier key then .error (.invalidIdentifier fieldPath key)
      else if key = ctx.tagName then .error (.reservedFieldName fieldPath key)
      else if list.fields.contains key then .error (.duplicateField fieldPath owner key)
      else do
        let descriptor ← descriptorOf ctx key fieldPath item value
        pure { list with fields := list.fields.insert key descriptor }
  | _ => .error (.malformedField path (Json.render item))

def walkFields (ctx : Context) (owner : String) (items : List Json) (path : String) (isLeaf : Bool) :
    Except SchemaError FieldList :=
  items.zipIdx.foldlM (fun list (item, i) =>
    walkItem ctx owner isLeaf list (path ++ "[" ++ toString i ++ "]") item) {}

/-- The declarations read so far. -/
structure Builder where
  bases : Table BaseNode := .empty
  leaves : Table LeafNode := .empty
  unions : Table UnionNode := .empty

def walkBase (ctx : Context) (b : Builder) (name path : String) : Json → Except SchemaError Builder
  | .array items => do
    let list ← walkFields ctx name items path false
    pure { b with bases := b.bases.insert name ⟨⟨name, list.bases, list.fields⟩⟩ }
  | _ => .error (.unexpectedShape path .fieldList)

mutual

/-- Reads a node found at `path`, directly inside `enclosing` and under the outermost union
`root`. A union's slot is taken before its members are read, so unions stay in pre-order. -/
def walkNode (ctx : Context) (b : Builder) (name path : String) (enclosing : Option String)
    (root : String) : Json → Except SchemaError Builder
  | .array items => do
    let list ← walkFields ctx name items path true
    let leaf : LeafNode :=
      { name, bases := list.bases, fields := list.fields,
        tag := list.tag.getD (name.map Char.toLower), enclosingUnion := enclosing, rootUnion := root }
    pure { b with leaves := b.leaves.insert name leaf }
  | .object entries => do
    let b := { b with unions := b.unions.insert name ⟨name, [], []⟩ }
    let (b, members, excluded) ← walkMembers ctx name path root b [] [] entries
    pure { b with unions := b.unions.insert name ⟨name, members, excluded⟩ }
  | _ => .error (.unexpectedShape path .unionOrLeaf)

/-- Reads the members of the union `name` found at `path`, collecting the summed and the
excluded member names. -/
def walkMembers (ctx : Context) (name path root : String) (b : Builder)
    (members excluded : List String) :
    List (String × Json) → Except SchemaError (Builder × List String × List String)
  | [] => .ok (b, members, excluded)
  | (key, child) :: rest => do
    let (isExcluded, member) := memberName key
    let b ← walkNode ctx b member (path ++ "." ++ key) (some name)
      (if isExcluded then member else root) child
    if isExcluded then walkMembers ctx name path root b members (excluded ++ [member]) rest
    else walkMembers ctx name path root b (members ++ [member]) excluded rest

end

/-- The parts of a schema document that the two passes read. -/
structure DocumentParts where
  nodes : List (String × Json)
  options : Options
  externs : List ExternalNode
  bases : List (String × Json)

/-- The options block of a document's root, or the defaults. -/
def readOptionsBlock (root : List (String × Json)) : Except SchemaError Options :=
  match Json.lookup "options" root with
  | some v => Options.read v "options"
  | none => pure {}

def readExternsList (root : List (String × Json)) : Except SchemaError (List ExternalNode) :=
  match Json.lookup "externs" root with
  | some v => readExterns v
  | none => pure []

/-- The bases table of a document's root, or an empty one. -/
def readBasesTable (root : List (String × Json)) : Except SchemaError (List (String × Json)) :=
  match Json.lookup "bases" root with
  | some (.object bases) => pure bases
  | some _ => throw (.unexpectedShape "bases" .baseTable)
  | none => pure []

/-- The top-level checks, in order: the root must be an object of known keys with a `nodes`
object; then the options, the externs and the bases table are read. -/
def readParts (value : Json) : Except SchemaError DocumentParts :=
  match value with
  | .object root =>
    match root.find? (fun e => !topLevelKeys.contains e.1) with
    | some (key, _) => .error (.unknownTopLevelKey key)
    | none =>
      match Json.lookup "nodes" root with
      | none => .error .missingNodes
      | some (.object nodes) => do
        let options ← readOptionsBlock root
        let externs ← readExternsList root
        let bases ← readBasesTable root
        pure ⟨nodes, options, externs, bases⟩
      | some _ => .error (.unexpectedShape "nodes" .nodeTable)
  | _ => .error .rootNotObject

def loadParts (parts : DocumentParts) : Except SchemaError Schema := do
  let names ← collectNames parts.bases parts.externs parts.nodes
  let ctx : Context := ⟨names, parts.options.tagName⟩
  let b ← parts.bases.foldlM (fun b (name, content) => walkBase ctx b name ("bases." ++ name) content) {}
  let b ← parts.nodes.foldlM (fun b (name, content) =>
    walkNode ctx b name ("nodes." ++ name) none name content) b
  pure { options := parts.options, names, bases := b.bases, leaves := b.leaves, unions := b.unions,
         externs := parts.externs.foldl (fun t e => t.insert e.symbol e) .empty }

def Schema.load (value : Json) : Except SchemaError Schema := do
  loadParts (← readParts value)

end NodeSchema

namespace NodeSchema

/-- Replaces keys of a document's options block, creating the block last when it is absent. A
document whose root or options block is not an object is left as it is. -/
def overrideOptions (doc : Json) (edits : List (String × Json)) : Json :=
  let apply (block : List (String × Json)) := edits.foldl (fun o e => Json.upsert e.1 e.2 o) block
  if edits.isEmpty then doc
  else match doc with
    | .object root =>
      match Json.lookup "options" root with
      | none => .object (Json.upsert "options" (.object (apply [])) root)
      | some (.object block) => .object (Json.upsert "options" (.object (apply block)) root)
      | some _ => doc
    | _ => doc

end NodeSchema
