import NodeSchema.Table

set_option autoImplicit false

/-! Declared names and the kinds they were declared as. A schema declares every name of a
base, leaf, union or external type before it reads any content, so that a reference may
point forward. A name normally carries one kind; a second, different kind is kept rather
than refused, so that union flattening and assembly can report the clash precisely. The
same name declared twice with one kind is refused. -/

namespace NodeSchema

/-- What a declared name stands for. -/
inductive DeclKind where
  | base
  | leaf
  | union
  | external
  deriving DecidableEq, Repr, Inhabited

namespace DeclKind

/-- The kind as a noun phrase: `base type`, `leaf type`, ... -/
def describe : DeclKind → String
  | .base => "base type"
  | .leaf => "leaf type"
  | .union => "union type"
  | .external => "external type"

/-- The kind as one word: `base`, `leaf`, `union`, `external`. -/
def word : DeclKind → String
  | .base => "base"
  | .leaf => "leaf"
  | .union => "union"
  | .external => "external"

def ofWord? : String → Option DeclKind
  | "base" => some .base
  | "leaf" => some .leaf
  | "union" => some .union
  | "external" => some .external
  | _ => none

end DeclKind

/-- Every declared name with the kinds it was declared as, in declaration order. -/
structure NameTable where
  entries : Table (List DeclKind) := .empty
  deriving Repr, Inhabited

namespace NameTable

/-- The kinds a name was declared as, in order; empty for an undeclared name. -/
def kinds (names : NameTable) (name : String) : List DeclKind :=
  (names.entries.get? name).getD []

/-- Declares a name as a kind. Refused (the table unchanged, `false`) when the name already
carries that kind. -/
def declare (names : NameTable) (name : String) (kind : DeclKind) : Bool × NameTable :=
  let present := names.kinds name
  if kind ∈ present then (false, names)
  else (true, ⟨names.entries.insert name (present ++ [kind])⟩)

def contains (names : NameTable) (name : String) : Bool := names.entries.contains name

def hasKind (names : NameTable) (name : String) (kind : DeclKind) : Bool :=
  (names.kinds name).contains kind

def size (names : NameTable) : Nat := names.entries.size

def isEmpty (names : NameTable) : Bool := names.size == 0

end NameTable

end NodeSchema
