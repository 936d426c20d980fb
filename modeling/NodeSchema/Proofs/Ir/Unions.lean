import NodeSchema.Proofs.Ir.Assembly

set_option autoImplicit false

/-! What assembling a loaded schema guarantees of its unions and records. Assembly checks that
each union declares members and that the tags of its flattening differ, and flattens every
record; the nodes it builds answer as the schema does, so code generation sees unions with
distinct, distinctly tagged leaves whose names are leaf nodes, members that are each one union
or one leaf, and records whose flattened fields have distinct names other than the
discriminant.

That a union's leaves are not empty is not checked anywhere: it holds because in a loaded
schema a member union is declared inside its owner, so it claims its slot later. Walking the
first member of each union down the tree therefore never meets a union already seen, and ends
at a leaf. -/

namespace NodeSchema

theorem idxOf_lt_of_sublist {a b : String} :
    ∀ {l : List String}, l.Nodup → [a, b].Sublist l → l.idxOf a < l.idxOf b
  | [], _, kept => by simp at kept
  | x :: rest, distinct, kept => by
    have fresh := (List.nodup_cons.1 distinct).1
    rcases List.sublist_cons_iff.1 kept with skipped | ⟨tail, same, keptTail⟩
    · -- the pair lies in the rest, so the head is neither of the two
      have aIn : a ∈ rest := skipped.subset (by simp)
      have bIn : b ∈ rest := skipped.subset (by simp)
      have xa : (x == a) = false := by simpa using fun h : x = a => fresh (h ▸ aIn)
      have xb : (x == b) = false := by simpa using fun h : x = b => fresh (h ▸ bIn)
      rw [List.idxOf_cons, List.idxOf_cons, xa, xb]
      have := idxOf_lt_of_sublist (List.nodup_cons.1 distinct).2 skipped
      simp only [cond_false]
      omega
    · -- the head is the first of the pair, and the second lies in the rest
      simp only [List.cons.injEq] at same
      obtain ⟨rfl, rfl⟩ := same
      have bIn : b ∈ rest := keptTail.subset (by simp)
      have xb : (a == b) = false := by simpa using fun h : a = b => fresh (h ▸ bIn)
      rw [List.idxOf_cons_self, List.idxOf_cons, xb]
      simp

namespace Ir

/-- A flattened union as code generation relies on it: declared members, each found as one
union or one leaf; a flattening that is not empty, names no leaf twice, and whose leaves are
leaf nodes with distinct tags. -/
structure UnionSound (ir : Ir) (u : FlatUnion) : Prop where
  members_ne_nil : u.decl.members ≠ []
  members_found : ∀ m ∈ u.decl.members, ir.declarations.FindsOne m
  leaves_ne_nil : u.leaves ≠ []
  leaves_nodup : u.leaves.Nodup
  leaves_tagged : ∃ leaves : List LeafNode, leaves.map (·.name) = u.leaves ∧
    (∀ l ∈ leaves, ir.nodes.get? l.name = some (.leaf l)) ∧ (leaves.map (·.tag)).Nodup

/-- A record whose inheritance flattens over assembled nodes into fields with distinct names,
none of them the discriminant. -/
def FlattensCleanly (ir : Ir) (r : Record) : Prop :=
  ∃ fields, resolveFields ir.declarations r = .ok fields ∧ (fields.map (·.name)).Nodup ∧
    ∀ f ∈ fields, f.name ≠ ir.options.tagName

section Loaded

variable {s : Schema} (wf : s.WellFormed) {ir : Ir} {unions : List FlatUnion}
  (built : Assembled s ir unions)
include wf built

omit wf in
theorem Assembled.union_members_ne_nil {n : String} {u : UnionNode}
    (found : s.unions.get? n = some u) : u.members ≠ [] := by
  have stored : u ∈ unions.map (·.decl) := by
    rw [built.decls]
    exact Table.mem_values_of_get? found
  obtain ⟨flat, listed, rfl⟩ := List.mem_map.1 stored
  obtain ⟨_, _, filled, _⟩ := flattenUnion_eq_ok.1 (built.flattened flat listed)
  exact filled

omit built in
theorem member_deeper {n : String} {u : UnionNode} (found : s.unions.get? n = some u) :
    ∀ m ∈ u.members, ∀ nested, s.unions.get? m = some nested → s.leaves.get? m = none →
      s.unions.keys.idxOf u.name < s.unions.keys.idxOf nested.name := by
  intro m listed nested isNested notLeaf
  obtain ⟨named, placed⟩ := wf.unions n u found
  rcases placed m (List.mem_append_left _ listed) with ⟨l, isLeaf, _⟩ | later
  · rw [notLeaf] at isLeaf
    cases isLeaf
  · rw [named, wf.keyedByName.unions m nested isNested]
    exact idxOf_lt_of_sublist s.unions.nodup_keys later

theorem Assembled.unionSound : ∀ flat ∈ ir.unions, ir.UnionSound flat := by
  intro flat listed
  rw [built.unions_eq] at listed
  have mirrors := built.mirrors wf.keyedByName
  obtain ⟨leaves, resolved, filled, checked, carried⟩ :=
    flattenUnion_eq_ok.1 (built.flattened flat listed)
  have found : ∃ n, s.unions.get? n = some flat.decl := by
    have stored : flat.decl ∈ s.unions.values := by
      rw [← built.decls]
      exact List.mem_map_of_mem listed
    exact Table.mem_values_iff.1 stored
  have leavesNamed : flat.leaves = leaves.map (·.name) := by rw [carried]
  refine ⟨filled, ?_, ?_, ?_, ⟨leaves, leavesNamed.symm, ?_, ?_⟩⟩
  · rw [← mirrors.resolveUnionLeaves_eq] at resolved
    exact resolveUnionLeaves_findsOne resolved
  · rw [leavesNamed]
    intro empty
    refine resolveUnionLeaves_ne_nil (fun x => s.unions.keys.idxOf x)
      (fun n u found => built.union_members_ne_nil found)
      (fun n u found => member_deeper wf found) found resolved ?_
    exact List.map_eq_nil_iff.1 empty
  · rw [leavesNamed]
    exact resolveUnionLeaves_names_nodup resolved
  · intro l member
    obtain ⟨m, _, isLeaf⟩ := resolveUnionLeaves_found resolved l member
    have named : l.name = m := wf.keyedByName.leaves m l isLeaf
    rw [← leaf?_eq_some_iff, mirrors.leaf?, named]
    exact isLeaf
  · simpa using checkTags_ok (by simp) checked

theorem Assembled.flattensCleanly {r : Record}
    (sound : FieldsSound ⟨s.names, s.options.tagName⟩ r.bases r.fields)
    (flattens : ∃ fields, resolveFields s.declarations r = .ok fields) : ir.FlattensCleanly r := by
  obtain ⟨fields, resolved⟩ := flattens
  refine ⟨fields, ?_, resolveFields_names_nodup resolved, ?_⟩
  · rw [(built.mirrors wf.keyedByName).resolveFields_eq]
    exact resolved
  · rw [built.options]
    refine resolveFields_names (fun k listed => (sound.field_names k listed).2) ?_ resolved
    intro n b found k listed
    exact ((wf.bases n b found).2.field_names k listed).2

theorem Assembled.bases_flatten : ∀ b ∈ ir.bases, ir.FlattensCleanly b.toRecord := by
  intro b listed
  rw [built.bases_eq] at listed
  obtain ⟨k, found⟩ := Table.mem_values_iff.1 listed
  exact built.flattensCleanly wf (wf.bases k b found).2 (built.bases b listed)

theorem Assembled.leaves_flatten : ∀ l ∈ ir.leaves, ir.FlattensCleanly l.toRecord := by
  intro l listed
  rw [built.leaves_eq] at listed
  obtain ⟨k, found⟩ := Table.mem_values_iff.1 listed
  exact built.flattensCleanly wf (wf.leaves k l found).2 (built.leaves l listed)

end Loaded

theorem build_error_of_unsound_union {s : Schema}
    (unsound : ∃ u ∈ s.unions.values, u.members = [] ∨
      ∃ leaves, resolveUnionLeaves s.declarations u = .ok leaves ∧ ¬(leaves.map (·.tag)).Nodup) :
    ∃ e, build s = .error e := by
  cases assembled : build s with
  | error e => exact ⟨e, rfl⟩
  | ok ir =>
    exfalso
    obtain ⟨unions, built⟩ := build_assembled assembled
    obtain ⟨u, stored, empty | ⟨leaves, resolved, clash⟩⟩ := unsound
    all_goals
      rw [← built.decls] at stored
      obtain ⟨flat, listed, rfl⟩ := List.mem_map.1 stored
      obtain ⟨leaves', resolved', filled, checked, _⟩ :=
        flattenUnion_eq_ok.1 (built.flattened flat listed)
    · exact filled empty
    · rw [resolved] at resolved'
      cases resolved'
      exact clash (by simpa using checkTags_ok (by simp) checked)

/-- Assembling a loaded schema gives unions and records as code generation relies on them, and
fails on a union without members or with a tag clash in its flattening. -/
theorem build_unions_sound {v : Json} {s : Schema} (loaded : Schema.load v = .ok s) :
    (∀ ir, build s = .ok ir →
      (∀ u ∈ ir.unions, ir.UnionSound u) ∧
        (∀ b ∈ ir.bases, ir.FlattensCleanly b.toRecord) ∧
        (∀ l ∈ ir.leaves, ir.FlattensCleanly l.toRecord)) ∧
    ((∃ u ∈ s.unions.values, u.members = [] ∨
        ∃ leaves, resolveUnionLeaves s.declarations u = .ok leaves ∧ ¬(leaves.map (·.tag)).Nodup) →
      ∃ e, build s = .error e) := by
  have wf := Schema.load_wellFormed loaded
  refine ⟨fun ir assembled => ?_, build_error_of_unsound_union⟩
  obtain ⟨unions, built⟩ := build_assembled assembled
  exact ⟨built.unionSound wf, built.bases_flatten wf, built.leaves_flatten wf⟩

theorem expressionsDocument_builds :
    ∃ s ir, Schema.load expressionsDocument = .ok s ∧ build s = .ok ir ∧ ir.unions.length = 1 := by
  have runs : (match Schema.load expressionsDocument with
      | .ok s => (match build s with
        | .ok ir => ir.unions.length == 1
        | .error _ => false)
      | .error _ => false) = true := by decide +kernel
  cases loaded : Schema.load expressionsDocument with
  | error e => rw [loaded] at runs; cases runs
  | ok s =>
    rw [loaded] at runs
    dsimp only at runs
    cases assembled : build s with
    | error e => rw [assembled] at runs; cases runs
    | ok ir =>
      rw [assembled] at runs
      exact ⟨s, ir, rfl, assembled, by simpa using runs⟩

theorem build_unions_sound_expressions :
    ∃ s ir, Schema.load expressionsDocument = .ok s ∧ build s = .ok ir ∧ ir.unions ≠ [] ∧
      ∀ u ∈ ir.unions, ir.UnionSound u := by
  obtain ⟨s, ir, loaded, assembled, one⟩ := expressionsDocument_builds
  refine ⟨s, ir, loaded, assembled, ?_, ((build_unions_sound loaded).1 ir assembled).1⟩
  intro empty
  rw [empty] at one
  cases one

end Ir

end NodeSchema
