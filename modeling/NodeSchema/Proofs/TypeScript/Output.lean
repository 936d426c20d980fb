import NodeSchema.Proofs.TypeScript.Sections
import NodeSchema.Proofs.Ir.Roots

set_option autoImplicit false

/-! The layout of a whole generated module. Code generation appends sections to settled text,
and every section it writes is a block once the names it writes as they are are safe. Those
names come from the assembled nodes, and for a loaded schema they are validly spelled
declarations, fields and built-in types; a leaf's root is the leaf itself or a union. So every
module generated from a loaded schema ends with one line feed, never holds two blank lines in a
row, and carries no control character and neither the line nor the paragraph separator. -/

namespace NodeSchema.Ir

/-! ### Where assembled nodes are stored -/

variable {ir : Ir}

theorem base_mem_values {b : BaseNode} (listed : b ∈ ir.bases) : IrNode.base b ∈ ir.nodes.values := by
  obtain ⟨node, stored, picked⟩ := List.mem_filterMap.1 listed
  cases node <;> cases picked
  exact stored

theorem leaf_mem_values {l : LeafNode} (listed : l ∈ ir.leaves) : IrNode.leaf l ∈ ir.nodes.values := by
  obtain ⟨node, stored, picked⟩ := List.mem_filterMap.1 listed
  cases node <;> cases picked
  exact stored

theorem union_mem_values {u : FlatUnion} (listed : u ∈ ir.unions) : IrNode.union u ∈ ir.nodes.values := by
  obtain ⟨node, stored, picked⟩ := List.mem_filterMap.1 listed
  cases node <;> cases picked
  exact stored

theorem external_mem_values {e : ExternalNode} (listed : e ∈ ir.externals) :
    IrNode.external e ∈ ir.nodes.values := by
  obtain ⟨node, stored, picked⟩ := List.mem_filterMap.1 listed
  cases node <;> cases picked
  exact stored

end NodeSchema.Ir

namespace NodeSchema.TypeScript

/-! ### Assembled nodes that can be written -/

/-- The names an assembled node has written as they are, all safe. -/
def NodeWritable : IrNode → Prop
  | .base b => RecordSafe b.toRecord
  | .leaf l => RecordSafe l.toRecord ∧ SafeText l.rootUnion
  | .union u => SafeText u.decl.name ∧ ∀ m ∈ u.decl.members, SafeText m
  | .external e => SafeText e.symbol

/-- Assembled nodes whose code is written without breaking a line: the discriminant and the
names of every node are safe, and every union flattens to some leaf. -/
structure Writable (ir : Ir) : Prop where
  tagName : SafeText ir.options.tagName
  nodes : ∀ node ∈ ir.nodes.values, NodeWritable node
  unions_filled : ∀ u ∈ ir.unions, ∀ leaves,
    resolveUnionLeaves ir.declarations u.decl = .ok leaves → leaves ≠ []

section Writable

variable {ir : Ir} (writable : Writable ir)
include writable

theorem Writable.found_base {n : String} {b : BaseNode} (found : ir.declarations.base? n = some b) :
    RecordSafe b.toRecord :=
  writable.nodes _ (Table.mem_values_of_get? (Ir.base?_eq_some_iff.1 found))

theorem Writable.found_leaf {n : String} {l : LeafNode} (found : ir.declarations.leaf? n = some l) :
    SafeText l.name :=
  (writable.nodes _ (Table.mem_values_of_get? (Ir.leaf?_eq_some_iff.1 found))).1.name

theorem Writable.fields {r : Record} (safe : RecordSafe r) {fields : List ResolvedField}
    (resolved : resolveFields ir.declarations r = .ok fields) : ∀ f ∈ fields, FieldSafe f :=
  @resolveFields_entries ir.declarations r fields (fun k d => SafeText k ∧ KindSafe d.kind) safe.fields
    (fun _ _ found => (writable.found_base found).fields) resolved

theorem Writable.union_leaves {u : UnionNode} {leaves : List LeafNode}
    (resolved : resolveUnionLeaves ir.declarations u = .ok leaves) : ∀ l ∈ leaves, SafeText l.name := by
  intro l member
  obtain ⟨m, _, found⟩ := resolveUnionLeaves_found resolved l member
  exact writable.found_leaf found

/-! ### Sections of assembled nodes -/

theorem Writable.block_of_renderLeaf {leaf : LeafNode} (listed : leaf ∈ ir.leaves) {ctor code : String}
    (ctorSafe : SafeText ctor) (rendered : renderLeaf ir leaf ctor = .ok code) : Block code := by
  obtain ⟨leafSafe, rootSafe⟩ := writable.nodes _ (Ir.leaf_mem_values listed)
  exact block_renderLeaf rendered writable.tagName leafSafe rootSafe
    (fun _ resolved => writable.fields leafSafe resolved) ctorSafe

theorem Writable.block_of_renderUnion {u : FlatUnion} (listed : u ∈ ir.unions) {code : String}
    (rendered : renderUnion ir u = .ok code) : Block code := by
  obtain ⟨nameSafe, membersSafe⟩ := writable.nodes _ (Ir.union_mem_values listed)
  obtain ⟨leaves, resolved, rfl⟩ := renderUnion_eq_ok.1 rendered
  exact block_unionCode u.decl writable.tagName nameSafe membersSafe (writable.union_leaves resolved)
    (writable.unions_filled u listed leaves resolved)

theorem Writable.emitLeaves_settled : ∀ (leaves : List LeafNode) (out : String) (taken : List String)
    {out' : String}, (∀ l ∈ leaves, l ∈ ir.leaves) → Settled out →
      emitLeaves ir leaves out taken = .ok out' → Settled out'
  | [], _, _, _, _, settled, emitted => by
    cases emitted
    exact settled
  | leaf :: rest, out, taken, out', inIr, settled, emitted => by
    simp only [emitLeaves] at emitted
    obtain ⟨code, rendered, later⟩ := bind_eq_ok.1 emitted
    have named := (writable.nodes _ (Ir.leaf_mem_values (inIr leaf List.mem_cons_self))).1.name
    have block := writable.block_of_renderLeaf (inIr leaf List.mem_cons_self)
      (safeText_freshName (safeText_constructorName named)) rendered
    exact Writable.emitLeaves_settled rest _ _
      (fun l listed => inIr l (List.mem_cons_of_mem _ listed)) (pushSection_settled (.inr settled) block)
      later

theorem Writable.renderUnions_settled : ∀ (unions : List FlatUnion) (out : String) {out' : String},
    (∀ u ∈ unions, u ∈ ir.unions) → Settled out →
      unions.foldlM (fun out u => do return pushSection out (← renderUnion ir u)) out = .ok out' →
        Settled out'
  | [], _, _, _, settled, done => by
    cases done
    exact settled
  | u :: rest, out, out', inIr, settled, done => by
    rw [List.foldlM_cons] at done
    obtain ⟨mid, stepped, later⟩ := bind_eq_ok.1 done
    obtain ⟨code, rendered, pushed⟩ := bind_eq_ok.1 stepped
    obtain rfl := Except.ok.inj pushed
    have block := writable.block_of_renderUnion (inIr u List.mem_cons_self) rendered
    exact Writable.renderUnions_settled rest _
      (fun v listed => inIr v (List.mem_cons_of_mem _ listed)) (pushSection_settled (.inr settled) block)
      later

theorem Writable.emit_settled {out : String} (emitted : emit ir = .ok out) : Settled out := by
  unfold emit at emitted
  dsimp only at emitted
  obtain ⟨leavesOut, leavesEmitted, unionsEmitted⟩ := bind_eq_ok.1 emitted
  have headed := pushSection_settled (.inl rfl) block_header
  have imported : Settled (if (renderImports ir).isEmpty = true then pushSection "" (comment header)
      else pushSection (pushSection "" (comment header)) (renderImports ir)) := by
    split
    · exact headed
    · rename_i filled
      have symbolsSafe : ∀ e ∈ ir.externals, SafeText e.symbol :=
        fun e listed => writable.nodes _ (Ir.external_mem_values listed)
      exact pushSection_settled (.inr headed)
        (block_renderImports symbolsSafe (Bool.eq_false_iff.2 filled))
  have based := foldl_keeps Settled _ ir.bases _
    (fun _ b listed settled => pushSection_settled (.inr settled)
      (block_interface _ _ none writable.tagName (writable.nodes _ (Ir.base_mem_values listed))))
    imported
  have leavesSettled := writable.emitLeaves_settled ir.leaves _ ir.nodes.keys (fun _ listed => listed)
    based leavesEmitted
  exact writable.renderUnions_settled ir.unions leavesOut (fun _ listed => listed) leavesSettled
    unionsEmitted

end Writable


end NodeSchema.TypeScript

namespace NodeSchema.Schema

/-! ### The names of a loaded schema -/

section Consistent

variable {s : Schema} (consistent : s.Consistent)
include consistent

theorem Consistent.safeText_key {n : String} {kind : DeclKind} (key : n ∈ s.keysOf kind) :
    TypeScript.SafeText n :=
  TypeScript.safeText_of_isIdentifier (consistent.names_valid n kind ((consistent.names_exact n kind).2 key)).1

omit consistent in
theorem safeText_builtin {t : String} (listed : t ∈ builtinTypes) : TypeScript.SafeText t := by
  simp only [builtinTypes, List.mem_cons, List.not_mem_nil, or_false] at listed
  rcases listed with rfl | rfl | rfl | rfl | rfl | rfl
  all_goals exact TypeScript.safeText_of_ofList rfl (by decide)

theorem Consistent.kindSafe {d : FieldDescriptor} (known : s.TypesKnown d) : TypeScript.KindSafe d.kind := by
  unfold Schema.TypesKnown at known
  cases described : d.kind with
  | builtin types =>
    rw [described] at known
    exact fun t listed => safeText_builtin (known t listed)
  | node types =>
    rw [described] at known
    intro t listed
    obtain ⟨kind, key⟩ := known t listed
    exact consistent.safeText_key key
  | enum tags => trivial

theorem Consistent.recordSafe {r : Record} (member : r ∈ s.records) (named : TypeScript.SafeText r.name) :
    TypeScript.RecordSafe r where
  name := named
  bases := fun x listed =>
    consistent.safeText_key (show x ∈ s.keysOf .base from (consistent.bases_known r member).1 x listed)
  fields := fun e listed =>
    ⟨TypeScript.safeText_of_isIdentifier (consistent.field_names r member e.1 (List.mem_map_of_mem listed)).1,
      consistent.kindSafe (consistent.field_types r member e.2 (List.mem_map_of_mem listed))⟩

theorem Consistent.members_safe {u : UnionNode} (stored : u ∈ s.unions.values) :
    ∀ m ∈ u.members, TypeScript.SafeText m := by
  intro m summed
  rcases (consistent.members_known u stored m (List.mem_append_left _ summed)).1 with isUnion | isLeaf
  · exact consistent.safeText_key (show m ∈ s.keysOf .union from isUnion)
  · exact consistent.safeText_key (show m ∈ s.keysOf .leaf from isLeaf)

end Consistent

end NodeSchema.Schema

namespace NodeSchema.Ir

section Built

variable {s : Schema} (wf : s.WellFormed) {ir : Ir} {unions : List FlatUnion}
  (built : Assembled s ir unions) {nodes : List (String × Json)} (laid : s.Laid nodes)
include wf built laid

theorem Assembled.root_safe {l : LeafNode} (stored : l ∈ s.leaves.values) :
    TypeScript.SafeText l.rootUnion := by
  have consistent := wf.consistent
  by_cases self : l.rootUnion = l.name
  · rw [self]
    exact consistent.safeText_key
      (show l.name ∈ s.keysOf .leaf from Table.key_mem_keys_of_keyed wf.keyedByName.leaves stored)
  · obtain ⟨_, _, found, _⟩ := built.root_flattens_to_leaf wf laid stored self
    exact consistent.safeText_key (show l.rootUnion ∈ s.keysOf .union from Table.mem_keys_of_get? found)

omit laid in
theorem Assembled.unions_filled : ∀ u ∈ ir.unions, ∀ leaves,
    resolveUnionLeaves ir.declarations u.decl = .ok leaves → leaves ≠ [] := by
  intro u listed leaves resolved
  have sound := built.unionSound wf u listed
  rw [built.unions_eq] at listed
  obtain ⟨leaves', resolved', _, _, carried⟩ := flattenUnion_eq_ok.1 (built.flattened u listed)
  rw [(built.mirrors wf.keyedByName).resolveUnionLeaves_eq, resolved'] at resolved
  obtain rfl := Except.ok.inj resolved
  have named : u.leaves = leaves'.map (·.name) := by rw [carried]
  intro empty
  exact sound.leaves_ne_nil (by rw [named, empty, List.map_nil])

theorem Assembled.writable : TypeScript.Writable ir where
  tagName := by
    rw [built.options]
    exact TypeScript.safeText_of_isIdentifier wf.tagName
  nodes := by
    have consistent := wf.consistent
    intro node stored
    rw [built.values] at stored
    have named := consistent.safeText_key (name_mem_keysOf wf.keyedByName built.decls stored)
    simp only [claims, List.mem_append, List.mem_map] at stored
    rcases stored with ((⟨e, _, rfl⟩ | ⟨flat, listed, rfl⟩) | ⟨b, stored, rfl⟩) | ⟨l, stored, rfl⟩
    · exact named
    · have decl : flat.decl ∈ s.unions.values := by
        rw [← built.decls]
        exact List.mem_map_of_mem listed
      exact ⟨named, consistent.members_safe decl⟩
    · exact consistent.recordSafe (List.mem_append_left _ (List.mem_map_of_mem stored)) named
    · exact ⟨consistent.recordSafe (List.mem_append_right _ (List.mem_map_of_mem stored)) named,
        built.root_safe wf laid stored⟩
  unions_filled := built.unions_filled wf

end Built

end NodeSchema.Ir

namespace NodeSchema.TypeScript

/-- Every module generated from a loaded schema is laid out: it ends with one line feed, holds no
two blank lines in a row, and apart from line feeds holds no control character and neither the
line nor the paragraph separator, whatever text the schema's tags, literals and sources hold. -/
theorem generate_laid_out {v : Json} {s : Schema} (loaded : Schema.load v = .ok s) {out : String}
    (generated : generate s = .ok out) : LaidOut out := by
  have wf := Schema.load_wellFormed loaded
  obtain ⟨nodes, laid⟩ := Schema.load_laid loaded
  obtain ⟨ir, assembled, emitted⟩ := generate_eq_ok.1 generated
  obtain ⟨unions, built⟩ := Ir.build_assembled assembled
  exact ((built.writable wf laid).emit_settled emitted).laidOut

theorem generate_laid_out_expressions :
    ∃ s out, Schema.load expressionsDocument = .ok s ∧ generate s = .ok out ∧ LaidOut out := by
  obtain ⟨s, ir, loaded, assembled, _⟩ := Ir.expressionsDocument_builds
  obtain ⟨out, emitted⟩ := build_emits (Schema.load_keyedByName loaded) assembled
  have generated : generate s = .ok out := generate_eq_ok.2 ⟨ir, assembled, emitted⟩
  exact ⟨s, out, loaded, generated, generate_laid_out loaded generated⟩

end NodeSchema.TypeScript
