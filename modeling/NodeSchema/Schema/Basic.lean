import NodeSchema.Schema.Field
import NodeSchema.Schema.Options

set_option autoImplicit false

/-! The declarations of a schema. A record (a base or a leaf) has a name, the bases it
extends and its own fields. A base is a reusable set of fields, never a variant of its own; a
leaf is a variant with a discriminant tag, the union that directly contains it and the
outermost union it was declared under. A union lists its members and the members it excludes
from its sum type. An external type is a symbol imported from a source. A schema holds its
options, every declared name with its kinds, and one table per kind of declaration, each in
declaration order; unions in the order their declarations begin. -/

namespace NodeSchema

/-- A declaration with fields and a base list: the common part of bases and leaves. -/
structure Record where
  name : String
  bases : List String
  fields : Table FieldDescriptor
  deriving Repr

/-- A reusable set of fields. -/
structure BaseNode extends Record
  deriving Repr

/-- A variant of a union, or a node type of its own at the top level. -/
structure LeafNode extends Record where
  /-- The discriminant value. -/
  tag : String
  /-- The union directly containing the leaf, none at the top level. -/
  enclosingUnion : Option String
  /-- The outermost union the leaf was declared under, or the leaf itself at the top level. -/
  rootUnion : String
  deriving Repr

/-- A sum of members, each a union or a leaf. -/
structure UnionNode where
  name : String
  /-- The members of the sum type, in declaration order. -/
  members : List String
  /-- Members declared with the exclusion marker: checked and generated, never summed here. -/
  excluded : List String
  deriving DecidableEq, Repr

/-- A type imported from elsewhere. -/
structure ExternalNode where
  symbol : String
  source : String
  deriving DecidableEq, Repr

/-- The checked declarations of one schema document. -/
structure Schema where
  options : Options
  names : NameTable
  bases : Table BaseNode
  leaves : Table LeafNode
  unions : Table UnionNode
  externs : Table ExternalNode
  deriving Repr

end NodeSchema
