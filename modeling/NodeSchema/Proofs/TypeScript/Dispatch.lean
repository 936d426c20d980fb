import NodeSchema.Proofs.TypeScript.Emit
import NodeSchema.Proofs.TypeScript.Literals
import NodeSchema.Proofs.Ir.Roots
import Mathlib.Tactic.SplitIfs

set_option autoImplicit false

/-! The dispatch generated for a union against its sum type. The sum type is written from the
declared member lists, one alias per union, while the switches, the guarded checks and the
handler object type are written from the union's leaves, flattened again over the assembled
nodes. In every module generated from a loaded schema the two agree: the leaves are the naive
expansion of the union's name through the member lists, with later repeats removed, and their
case labels, the string literals of their tags, are distinct. -/

namespace NodeSchema.TypeScript

/-! ### Where a union's code lands -/

theorem pushSection_extends (out part : String) :
    ∃ sep post, pushSection out part = out ++ sep ++ part ++ post := by
  unfold pushSection
  dsimp only
  split_ifs with ends empty empty
  · refine ⟨"", "", ?_⟩
    rw [String.isEmpty_iff.1 empty]
    simp
  · exact ⟨"\n", "", by simp⟩
  · refine ⟨"", "\n", ?_⟩
    rw [String.isEmpty_iff.1 empty]
    simp
  · exact ⟨"\n", "\n", by simp [String.append_assoc]⟩

theorem renderUnion_eq_ok {ir : Ir} {union : FlatUnion} {code : String} :
    renderUnion ir union = .ok code ↔
      ∃ leaves, resolveUnionLeaves ir.declarations union.decl = .ok leaves ∧
        code = unionCode union.decl ir.options.tagName leaves := by
  unfold renderUnion
  cases resolveUnionLeaves ir.declarations union.decl with
  | error e => simp [mapError_error, bind, Except.bind]
  | ok leaves => simp [mapError_ok, bind, Except.bind, pure, Except.pure, eq_comm]

theorem renderUnions_written {ir : Ir} : ∀ (unions : List FlatUnion) (out out' : String),
    unions.foldlM (fun out u => do return pushSection out (← renderUnion ir u)) out = .ok out' →
      (∃ post, out' = out ++ post) ∧
        ∀ u ∈ unions, ∃ code, renderUnion ir u = .ok code ∧ ∃ pre post, out' = pre ++ code ++ post
  | [], out, out', done => by
    cases done
    exact ⟨⟨"", by simp⟩, by simp⟩
  | u :: rest, out, out', done => by
    rw [List.foldlM_cons] at done
    obtain ⟨mid, stepped, later⟩ := bind_eq_ok.1 done
    obtain ⟨code, rendered, pushed⟩ := bind_eq_ok.1 stepped
    cases pushed
    obtain ⟨⟨post, grown⟩, held⟩ := renderUnions_written rest _ _ later
    obtain ⟨sep, tail, pushedText⟩ := pushSection_extends out code
    refine ⟨⟨sep ++ code ++ tail ++ post, ?_⟩, ?_⟩
    · rw [grown, pushedText]
      simp only [String.append_assoc]
    · intro v listed
      rcases List.mem_cons.1 listed with rfl | inRest
      · refine ⟨code, rendered, out ++ sep, tail ++ post, ?_⟩
        rw [grown, pushedText]
        simp only [String.append_assoc]
      · exact held v inRest

theorem emit_writes_unions {ir : Ir} {out : String} (emitted : emit ir = .ok out) :
    ∀ u ∈ ir.unions, ∃ code, renderUnion ir u = .ok code ∧ ∃ pre post, out = pre ++ code ++ post := by
  unfold emit at emitted
  dsimp only at emitted
  obtain ⟨leavesOut, _, unionsDone⟩ := bind_eq_ok.1 emitted
  exact (renderUnions_written ir.unions leavesOut out unionsDone).2

theorem generate_eq_ok {s : Schema} {out : String} :
    generate s = .ok out ↔ ∃ ir, Ir.build s = .ok ir ∧ emit ir = .ok out := by
  unfold generate
  cases Ir.build s with
  | error e => simp [bind, Except.bind]
  | ok ir => simp [bind, Except.bind]

/-! ### The dispatch of a union -/

/-- The code generated for a union `u` of `ir` within the module `out`, over `leaves`: the
module holds it; `leaves` are the naive expansion of the union's name through the member lists
of the sum types, with later repeats removed; and the case labels are distinct, so the switches
and checks written from `leaves` dispatch on every variant of the sum type exactly once. -/
structure DispatchSound (ir : Ir) (out : String) (u : FlatUnion) (leaves : List LeafNode) :
    Prop where
  written : ∃ pre post, out = pre ++ unionCode u.decl ir.options.tagName leaves ++ post
  expands : ∃ xs, ir.declarations.SumExpands u.decl.name xs
  flattened : ∀ xs, ir.declarations.SumExpands u.decl.name xs → leaves.map (·.name) = xs.eraseDups
  labels_distinct : (leaves.map fun l => stringLiteral l.tag).Nodup

end NodeSchema.TypeScript

namespace NodeSchema.Ir

section Built

variable {s : Schema} (wf : s.WellFormed) {ir : Ir} {unions : List FlatUnion}
  (built : Assembled s ir unions)
include wf built

theorem Assembled.union?_generated {w : String} {nested : UnionNode}
    (found : ir.union? w = some nested) : ∃ flat ∈ ir.unions, flat.decl = nested := by
  rw [(built.mirrors wf.keyedByName).union? w] at found
  have stored : nested ∈ unions.map (·.decl) := by
    rw [built.decls]
    exact Table.mem_values_of_get? found
  obtain ⟨flat, listed, carried⟩ := List.mem_map.1 stored
  exact ⟨flat, built.unions_eq ▸ listed, carried⟩

theorem Assembled.union_leaves_expand {u : FlatUnion} (listed : u ∈ ir.unions)
    {leaves : List LeafNode} (resolved : resolveUnionLeaves ir.declarations u.decl = .ok leaves) :
    (∃ xs, ir.declarations.SumExpands u.decl.name xs) ∧
      (∀ xs, ir.declarations.SumExpands u.decl.name xs → leaves.map (·.name) = xs.eraseDups) ∧
      (leaves.map (·.tag)).Nodup := by
  have mirrors := built.mirrors wf.keyedByName
  rw [mirrors.resolveUnionLeaves_eq] at resolved
  rw [built.unions_eq] at listed
  have stored : u.decl ∈ s.unions.values := by
    rw [← built.decls]
    exact List.mem_map_of_mem listed
  obtain ⟨_, _, _, leaves', xs, resolved', _, expands, deduped⟩ := built.flattens_to_expansion wf stored
  rw [resolved] at resolved'
  cases resolved'
  have expandsHere : ir.declarations.SumExpands u.decl.name xs :=
    expands.congr fun n => (mirrors.union? n).symm
  obtain ⟨leaves'', resolved'', _, checked, _⟩ := flattenUnion_eq_ok.1 (built.flattened u listed)
  rw [resolved] at resolved''
  cases resolved''
  refine ⟨⟨xs, expandsHere⟩, fun ys other => ?_, by simpa using checkTags_ok (by simp) checked⟩
  rw [← expandsHere.unique other]
  exact deduped

end Built

end NodeSchema.Ir

namespace NodeSchema.TypeScript

/-- In every module generated from a loaded schema, the dispatch of each union agrees with its
sum type: the union's code is written over the naive expansion of its name through the member
lists of the sum types, with later repeats removed, and labels each case with a distinct string
literal. Every union a member names is one whose sum type is generated. -/
theorem generate_dispatch_sound {v : Json} {s : Schema} (loaded : Schema.load v = .ok s)
    {out : String} (generated : generate s = .ok out) :
    ∃ ir, Ir.build s = .ok ir ∧
      (∀ w nested, ir.union? w = some nested → ∃ flat ∈ ir.unions, flat.decl = nested) ∧
      ∀ u ∈ ir.unions, ∃ leaves, DispatchSound ir out u leaves := by
  have wf := Schema.load_wellFormed loaded
  obtain ⟨ir, assembled, emitted⟩ := generate_eq_ok.1 generated
  obtain ⟨unions, built⟩ := Ir.build_assembled assembled
  refine ⟨ir, assembled, fun w nested found => built.union?_generated wf found, ?_⟩
  intro u listed
  obtain ⟨code, rendered, pre, post, holds⟩ := emit_writes_unions emitted u listed
  obtain ⟨leaves, resolved, rfl⟩ := renderUnion_eq_ok.1 rendered
  obtain ⟨expands, flattened, tagsDistinct⟩ := built.union_leaves_expand wf listed resolved
  have labelsDistinct : (leaves.map fun l => stringLiteral l.tag).Nodup := by
    have labels := tagsDistinct.map stringLiteral_injective
    rwa [List.map_map] at labels
  exact ⟨leaves, ⟨pre, post, holds⟩, expands, flattened, labelsDistinct⟩

theorem generate_dispatch_sound_expressions :
    ∃ s out, Schema.load expressionsDocument = .ok s ∧ generate s = .ok out ∧
      ∃ ir, Ir.build s = .ok ir ∧
        (∀ w nested, ir.union? w = some nested → ∃ flat ∈ ir.unions, flat.decl = nested) ∧
        ∀ u ∈ ir.unions, ∃ leaves, DispatchSound ir out u leaves := by
  obtain ⟨s, ir, loaded, assembled, _⟩ := Ir.expressionsDocument_builds
  obtain ⟨out, emitted⟩ := build_emits (Schema.load_keyedByName loaded) assembled
  have generated : generate s = .ok out := generate_eq_ok.2 ⟨ir, assembled, emitted⟩
  exact ⟨s, out, loaded, generated, generate_dispatch_sound loaded generated⟩

end NodeSchema.TypeScript
