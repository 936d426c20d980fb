import NodeSchema.TypeScript.Module
import NodeSchema.Proofs.Ir.Assembly

set_option autoImplicit false

/-! Code generation after assembly. Generation can fail in two places only: flattening the
inheritance of a leaf and flattening the leaves of a union, both done again, over the assembled
nodes. When the schema stores each declaration under its own name the assembled nodes answer
every lookup as the schema's tables do, so both succeed as they did during assembly: generation
fails exactly when assembly does, with the same fault. -/

namespace NodeSchema

theorem resolveChildFields_ok {d : Declarations} {node : Record} {fields : List ResolvedField}
    (resolved : resolveFields d node = .ok fields) :
    ∃ children, resolveChildFields d node = .ok children := by
  unfold resolveChildFields
  rw [resolved]
  exact ⟨_, rfl⟩

namespace TypeScript

variable {ir : Ir}

theorem renderLeaf_ok {leaf : LeafNode} {fields : List ResolvedField} (ctor : String)
    (resolved : resolveFields ir.declarations leaf.toRecord = .ok fields) :
    ∃ code, renderLeaf ir leaf ctor = .ok code := by
  obtain ⟨children, childrenResolved⟩ := resolveChildFields_ok resolved
  unfold renderLeaf
  rw [resolved, childrenResolved]
  exact ⟨_, rfl⟩

theorem emitLeaves_ok :
    ∀ (leaves : List LeafNode) (out : String) (taken : List String),
      (∀ l ∈ leaves, ∃ fields, resolveFields ir.declarations l.toRecord = .ok fields) →
        ∃ out', emitLeaves ir leaves out taken = .ok out'
  | [], out, _, _ => ⟨out, rfl⟩
  | leaf :: rest, out, taken, flatten => by
    obtain ⟨fields, resolved⟩ := flatten leaf List.mem_cons_self
    obtain ⟨code, rendered⟩ :=
      renderLeaf_ok (freshName taken (constructorName leaf.name)) resolved
    obtain ⟨out', later⟩ := emitLeaves_ok rest _ _ fun l listed => flatten l (List.mem_cons_of_mem _ listed)
    refine ⟨out', ?_⟩
    rw [emitLeaves, rendered]
    exact later

theorem renderUnion_ok {union : FlatUnion} {leaves : List LeafNode}
    (resolved : resolveUnionLeaves ir.declarations union.decl = .ok leaves) :
    ∃ code, renderUnion ir union = .ok code := by
  unfold renderUnion
  rw [resolved]
  exact ⟨_, rfl⟩

theorem renderUnions_ok :
    ∀ (unions : List FlatUnion) (out : String),
      (∀ u ∈ unions, ∃ leaves, resolveUnionLeaves ir.declarations u.decl = .ok leaves) →
        ∃ out', unions.foldlM (fun out u => do return pushSection out (← renderUnion ir u)) out =
          .ok out'
  | [], out, _ => ⟨out, rfl⟩
  | union :: rest, out, flatten => by
    obtain ⟨leaves, resolved⟩ := flatten union List.mem_cons_self
    obtain ⟨code, rendered⟩ := renderUnion_ok resolved
    obtain ⟨out', later⟩ := renderUnions_ok rest (pushSection out code)
      fun u listed => flatten u (List.mem_cons_of_mem _ listed)
    refine ⟨out', ?_⟩
    rw [List.foldlM_cons, rendered]
    exact later

theorem emit_ok
    (leavesFlatten : ∀ l ∈ ir.leaves, ∃ fields, resolveFields ir.declarations l.toRecord = .ok fields)
    (unionsFlatten : ∀ u ∈ ir.unions, ∃ leaves, resolveUnionLeaves ir.declarations u.decl = .ok leaves) :
    ∃ out, emit ir = .ok out := by
  unfold emit
  dsimp only
  obtain ⟨out, leavesEmitted⟩ := emitLeaves_ok ir.leaves _ ir.nodes.keys leavesFlatten
  obtain ⟨out', unionsEmitted⟩ := renderUnions_ok ir.unions out unionsFlatten
  refine ⟨out', ?_⟩
  rw [leavesEmitted]
  exact unionsEmitted

/-- Generation over a schema agrees with its assembly: the assembled nodes answer as the
schema does, every leaf and every union flattens over them as over the schema, generation
succeeds after every successful assembly, and it fails exactly when assembly does. -/
structure GeneratesAsBuilt (s : Schema) : Prop where
  mirrors : ∀ ir, Ir.build s = .ok ir → ir.Mirrors s
  leaves : ∀ ir, Ir.build s = .ok ir → ∀ l ∈ ir.leaves, ∃ fields children,
    resolveFields ir.declarations l.toRecord = .ok fields ∧
      resolveFields s.declarations l.toRecord = .ok fields ∧
      resolveChildFields ir.declarations l.toRecord = .ok children ∧
      resolveChildFields s.declarations l.toRecord = .ok children
  unions : ∀ ir, Ir.build s = .ok ir → ∀ u ∈ ir.unions, ∃ leaves,
    resolveUnionLeaves ir.declarations u.decl = .ok leaves ∧ leaves.map (·.name) = u.leaves
  emits : ∀ ir, Ir.build s = .ok ir → ∃ out, emit ir = .ok out
  errors : ∀ e, generate s = .error e ↔ Ir.build s = .error e

section Built

variable {s : Schema} (keyed : s.KeyedByName)
include keyed

theorem build_leaves_flatten {ir : Ir} (built : Ir.build s = .ok ir) :
    ∀ l ∈ ir.leaves, ∃ fields children,
      resolveFields ir.declarations l.toRecord = .ok fields ∧
        resolveFields s.declarations l.toRecord = .ok fields ∧
        resolveChildFields ir.declarations l.toRecord = .ok children ∧
        resolveChildFields s.declarations l.toRecord = .ok children := by
  intro l listed
  obtain ⟨unions, assembled⟩ := Ir.build_assembled built
  have mirrors := assembled.mirrors keyed
  rw [assembled.leaves_eq] at listed
  obtain ⟨fields, resolved⟩ := assembled.leaves l listed
  obtain ⟨children, childrenResolved⟩ := resolveChildFields_ok resolved
  refine ⟨fields, children, ?_, resolved, ?_, childrenResolved⟩
  · rw [mirrors.resolveFields_eq]
    exact resolved
  · rw [mirrors.resolveChildFields_eq]
    exact childrenResolved

theorem build_unions_flatten {ir : Ir} (built : Ir.build s = .ok ir) :
    ∀ u ∈ ir.unions, ∃ leaves,
      resolveUnionLeaves ir.declarations u.decl = .ok leaves ∧ leaves.map (·.name) = u.leaves := by
  intro u listed
  obtain ⟨unions, assembled⟩ := Ir.build_assembled built
  rw [assembled.unions_eq] at listed
  obtain ⟨leaves, resolved, _, _, carried⟩ := Ir.flattenUnion_eq_ok.1 (assembled.flattened u listed)
  refine ⟨leaves, ?_, ?_⟩
  · rw [(assembled.mirrors keyed).resolveUnionLeaves_eq]
    exact resolved
  · rw [carried]

theorem build_emits {ir : Ir} (built : Ir.build s = .ok ir) : ∃ out, emit ir = .ok out := by
  apply emit_ok
  · intro l listed
    obtain ⟨fields, _, resolved, _⟩ := build_leaves_flatten keyed built l listed
    exact ⟨fields, resolved⟩
  · intro u listed
    obtain ⟨leaves, resolved, _⟩ := build_unions_flatten keyed built u listed
    exact ⟨leaves, resolved⟩

end Built

theorem generate_agrees_with_build {s : Schema} (keyed : s.KeyedByName) : GeneratesAsBuilt s where
  mirrors := fun _ built => Ir.build_mirrors keyed built
  leaves := fun _ built => build_leaves_flatten keyed built
  unions := fun _ built => build_unions_flatten keyed built
  emits := fun _ built => build_emits keyed built
  errors := by
    intro e
    unfold generate
    cases built : Ir.build s with
    | error e' => simp [bind, Except.bind]
    | ok ir =>
      obtain ⟨out, emitted⟩ := build_emits keyed built
      simp [bind, Except.bind, emitted]

theorem generate_agrees_with_build_expressions :
    ∃ s, Schema.load expressionsDocument = .ok s ∧ s.KeyedByName ∧ GeneratesAsBuilt s := by
  obtain ⟨s, loaded⟩ := expressionsDocument_loads
  have keyed := Schema.load_keyedByName loaded
  exact ⟨s, loaded, keyed, generate_agrees_with_build keyed⟩

/-- A schema that files a base under a name other than its own: the base `B` under `A`, and a
leaf `L` extending `A`. Loading never builds such a schema. -/
def misfiledBase : Schema where
  options := {}
  names := {}
  bases := Table.empty.insert "A" { name := "B", bases := [], fields := .empty }
  leaves := Table.empty.insert "L"
    { name := "L", bases := ["A"], fields := .empty, tag := "l", enclosingUnion := none,
      rootUnion := "L" }
  unions := .empty
  externs := .empty

/-- Assembly reads the schema's tables, which find a base under `A`, but files the base under
its own name `B`; generation then looks `A` up among the assembled nodes and misses it. -/
theorem generate_fails_after_build_misfiled :
    (∃ ir, Ir.build misfiledBase = .ok ir) ∧
      generate misfiledBase = .error (.resolve (.unknownBase "L" "A")) ∧
      ¬GeneratesAsBuilt misfiledBase := by
  have built : (Ir.build misfiledBase).isOk = true := by decide +kernel
  have failed : generate misfiledBase = .error (.resolve (.unknownBase "L" "A")) := by
    decide +kernel
  obtain ⟨ir, assembled⟩ : ∃ ir, Ir.build misfiledBase = .ok ir := by
    cases result : Ir.build misfiledBase with
    | error e =>
      rw [result] at built
      cases built
    | ok ir => exact ⟨ir, rfl⟩
  refine ⟨⟨ir, assembled⟩, failed, fun agrees => ?_⟩
  rw [(agrees.errors _).1 failed] at assembled
  cases assembled

end TypeScript

end NodeSchema
