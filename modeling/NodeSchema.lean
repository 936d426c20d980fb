import NodeSchema.Table
import NodeSchema.Json.Value
import NodeSchema.Decimal.Notation
import NodeSchema.Json.Read
import NodeSchema.Json.Write
import NodeSchema.TypeScript.Reserved
import NodeSchema.Schema.Names
import NodeSchema.Text.Unprintable
import NodeSchema.Json.Shape
import NodeSchema.Error
import NodeSchema.Schema.Field
import NodeSchema.Schema.Options
import NodeSchema.Schema.Basic
import NodeSchema.Schema.Load
import NodeSchema.Resolve.Declarations
import NodeSchema.Resolve.Fields
import NodeSchema.Resolve.Unions
import NodeSchema.Ir.Basic
import NodeSchema.Ir.Encode
import NodeSchema.TypeScript.Text
import NodeSchema.TypeScript.FieldType
import NodeSchema.TypeScript.Leaf
import NodeSchema.TypeScript.Union
import NodeSchema.TypeScript.Imports
import NodeSchema.TypeScript.Module
import NodeSchema.Main
import NodeSchema.Proofs.Load.Names
import NodeSchema.Proofs.Load.Fields
import NodeSchema.Proofs.Load.Builder
import NodeSchema.Proofs.Load.Schema
import NodeSchema.Proofs.Ir.Assembly
import NodeSchema.Proofs.TypeScript.Emit
import NodeSchema.Proofs.Ir.Names
import NodeSchema.Proofs.Load.Tree
import NodeSchema.Proofs.Resolve.Expansion
import NodeSchema.Proofs.Ir.Roots
import NodeSchema.Proofs.TypeScript.Dispatch
import NodeSchema.Proofs.TypeScript.Layout
import NodeSchema.Proofs.TypeScript.Sections
import NodeSchema.Proofs.TypeScript.Output
import NodeSchema.Proofs.Resolve.Unfolding
import NodeSchema.Proofs.Resolve.Inheritance
import NodeSchema.Proofs.Resolve.Faults
import NodeSchema.Proofs.Text.Trim
import NodeSchema.Proofs.Load.Descriptor
import NodeSchema.Proofs.Json.Reorder
import NodeSchema.Proofs.Load.Parts
import NodeSchema.Proofs.Load.Declarable
import NodeSchema.Proofs.Load.Rigid
import NodeSchema.Proofs.Load.Rearranged
import NodeSchema.Proofs.Resolve.Reordered
import NodeSchema.Proofs.Ir.Rearranged
import NodeSchema.Proofs.Resolve.Closure
import NodeSchema.Proofs.TypeScript.Fresh
import NodeSchema.Proofs.TypeScript.Constructors
import NodeSchema.Proofs.TypeScript.StringValue
import NodeSchema.Proofs.Resolve.Children
import NodeSchema.Proofs.TypeScript.Imports
import NodeSchema.Proofs.Load.Order
import NodeSchema.Proofs.Schema.NameTable
