import NodeSchema.Proofs.Load.Tree
import NodeSchema.Proofs.Resolve.Expansion
import NodeSchema.Proofs.Ir.Names
import NodeSchema.Proofs.Ir.Unions

set_option autoImplicit false

/-! The outermost union a leaf records, and what code generation does with it: the helper class
of a leaf types its `is` predicate over that union. A leaf declared at the top level or as an
excluded member is its own root; any other leaf lies, through members that are not excluded,
under a union that flattens to it, and every leaf a union flattens to shares one root.

The root is threaded down the node tree as it is read, while flattening looks members up by
name. The two meet in a loaded schema whose assembly succeeds: each member is declared in
place, and no name is both a leaf and a union, so looking a member up finds the node declared
there. -/

namespace NodeSchema

/-- A schema whose leaf and union tables are those of the node tree `nodes`. -/
structure Schema.Laid (s : Schema) (nodes : List (String × Json)) : Prop where
  shaped : ∀ e ∈ nodes, NodeShaped e.2
  places : s.leaves.values.map LeafNode.place = documentPlaces nodes
  unions : s.unions.entries = unionEntries (documentUnions nodes)

theorem Schema.load_laid {value : Json} {s : Schema} (loaded : Schema.load value = .ok s) :
    ∃ nodes, s.Laid nodes := by
  obtain ⟨nodes, shaped, places, unions⟩ := Schema.load_tree loaded
  exact ⟨nodes, shaped, places, unions⟩

namespace Schema.Laid

variable {s : Schema} {nodes : List (String × Json)} (laid : s.Laid nodes)
include laid

theorem get?_union {k : String} {u : UnionNode} :
    s.unions.get? k = some u ↔ ∃ r, (u, r) ∈ documentUnions nodes ∧ u.name = k := by
  rw [Table.get?_eq_some_iff, laid.unions, unionEntries, List.mem_map]
  constructor
  · rintro ⟨⟨u', r⟩, listed, same⟩
    simp only [Prod.mk.injEq] at same
    obtain ⟨rfl, rfl⟩ := same
    exact ⟨r, listed, rfl⟩
  · rintro ⟨r, listed, rfl⟩
    exact ⟨(u, r), listed, rfl⟩

theorem get?_union_of_mem {q : UnionNode × String} (listed : q ∈ documentUnions nodes) :
    s.unions.get? q.1.name = some q.1 :=
  laid.get?_union.2 ⟨q.2, listed, rfl⟩

theorem union_keys : s.unions.keys = (documentUnions nodes).map (·.1.name) := by
  rw [Table.keys, laid.unions, unionEntries, List.map_map]
  rfl

theorem union_names_nodup : ((documentUnions nodes).map (·.1.name)).Nodup :=
  laid.union_keys ▸ s.unions.nodup_keys

theorem union_unique {q q' : UnionNode × String} (listed : q ∈ documentUnions nodes)
    (listed' : q' ∈ documentUnions nodes) (same : q.1.name = q'.1.name) : q = q' :=
  List.inj_on_of_nodup_map laid.union_names_nodup listed listed' same

theorem place_of_get? {m : String} {l : LeafNode} (keyed : s.KeyedByName)
    (found : s.leaves.get? m = some l) {p : LeafPlace} (placed : p ∈ documentPlaces nodes)
    (named : p.name = m) : l.place = p := by
  rw [← laid.places] at placed
  obtain ⟨l', stored, rfl⟩ := List.mem_map.1 placed
  have found' : s.leaves.get? m = some l' :=
    (Table.get?_eq_some_iff_of_keyed keyed.leaves).2 ⟨stored, named⟩
  rw [found] at found'
  cases found'
  rfl

theorem place_mem {l : LeafNode} (stored : l ∈ s.leaves.values) : l.place ∈ documentPlaces nodes := by
  rw [← laid.places]
  exact List.mem_map_of_mem stored

theorem union_mem_values {q : UnionNode × String} (listed : q ∈ documentUnions nodes) :
    q.1 ∈ s.unions.values :=
  Table.mem_values_of_get? (laid.get?_union_of_mem listed)

theorem union_of_mem_values {u : UnionNode} (stored : u ∈ s.unions.values) :
    ∃ r, (u, r) ∈ documentUnions nodes := by
  obtain ⟨k, found⟩ := Table.mem_values_iff.1 stored
  obtain ⟨r, listed, _⟩ := laid.get?_union.1 found
  exact ⟨r, listed⟩

end Schema.Laid

namespace Ir

section Roots

variable {s : Schema} {nodes : List (String × Json)} (laid : s.Laid nodes)
include laid

theorem member_leaf_root (keyed : s.KeyedByName) {q : UnionNode × String}
    (listed : q ∈ documentUnions nodes) {m : String} (summed : m ∈ q.1.members)
    (notUnion : s.unions.get? m = none) {l : LeafNode} (isLeaf : s.leaves.get? m = some l) :
    l.rootUnion = q.2 := by
  rcases (documentUnions_declared laid.shaped listed).1 m summed with
      ⟨p, placed, named, rooted⟩ | ⟨q', inner, named, _⟩
  · rw [← rooted, ← laid.place_of_get? keyed isLeaf placed named]
    rfl
  · rw [← named, laid.get?_union_of_mem inner] at notUnion
    cases notUnion

theorem member_union_root (keyed : s.KeyedByName) {q : UnionNode × String}
    (listed : q ∈ documentUnions nodes) {m : String} (summed : m ∈ q.1.members)
    (notLeaf : s.leaves.get? m = none) {q' : UnionNode × String}
    (inner : q' ∈ documentUnions nodes) (named : q'.1.name = m) : q'.2 = q.2 := by
  rcases (documentUnions_declared laid.shaped listed).1 m summed with
      ⟨p, placed, placedName, _⟩ | ⟨q'', declared, declaredName, rooted⟩
  · rw [← laid.places] at placed
    obtain ⟨l, stored, rfl⟩ := List.mem_map.1 placed
    have found : s.leaves.get? m = some l :=
      (Table.get?_eq_some_iff_of_keyed keyed.leaves).2 ⟨stored, placedName⟩
    rw [found] at notLeaf
    cases notLeaf
  · rw [laid.union_unique inner declared (named.trans declaredName.symm)]
    exact rooted

mutual

theorem sumExpands_root (keyed : s.KeyedByName)
    (apart : ∀ n, n ∈ s.leaves.keys → n ∉ s.unions.keys) :
    ∀ {n : String} {xs : List String}, s.declarations.SumExpands n xs →
      ∀ q ∈ documentUnions nodes, q.1.name = n →
        ∀ y ∈ xs, ∀ l, s.leaves.get? y = some l → l.rootUnion = q.2
  | _, _, .leaf notUnion, q, listed, named => by
    rw [← named] at notUnion
    change s.unions.get? q.1.name = none at notUnion
    rw [laid.get?_union_of_mem listed] at notUnion
    cases notUnion
  | _, _, .union found members, q, listed, named => by
    change s.unions.get? _ = some _ at found
    rw [← named, laid.get?_union_of_mem listed] at found
    have same := (Option.some.inj found).symm
    exact membersExpand_root keyed apart members q listed (fun _ summed => same ▸ summed)

theorem membersExpand_root (keyed : s.KeyedByName)
    (apart : ∀ n, n ∈ s.leaves.keys → n ∉ s.unions.keys) :
    ∀ {ms xs : List String}, s.declarations.MembersExpand ms xs →
      ∀ q ∈ documentUnions nodes, (∀ m ∈ ms, m ∈ q.1.members) →
        ∀ y ∈ xs, ∀ l, s.leaves.get? y = some l → l.rootUnion = q.2
  | _, _, .nil, _, _, _ => by simp
  | _, _, @Declarations.MembersExpand.cons _ m _ _ _ head tail, q, listed, summed => by
    intro y inXs l isLeaf
    rcases List.mem_append.1 inXs with inHead | inTail
    · cases lookup : s.unions.get? m with
      | none =>
        have single := head.of_not_union lookup
        rw [single, List.mem_singleton] at inHead
        subst inHead
        exact member_leaf_root laid keyed listed (summed _ List.mem_cons_self) lookup isLeaf
      | some nested =>
        obtain ⟨r, inner, named⟩ := laid.get?_union.1 lookup
        have notLeaf : s.leaves.get? m = none :=
          Table.get?_eq_none_iff.2 fun isKey => apart m isKey (Table.mem_keys_of_get? lookup)
        have sameRoot := member_union_root laid keyed listed (summed _ List.mem_cons_self)
          notLeaf inner named
        have rooted := sumExpands_root keyed apart head _ inner named y inHead l isLeaf
        rw [rooted]
        exact sameRoot
    · exact membersExpand_root keyed apart tail q listed
        (fun m' later => summed m' (List.mem_cons_of_mem _ later)) y inTail l isLeaf

end

theorem union_under_root {q : UnionNode × String} (listed : q ∈ documentUnions nodes) :
    (∃ top ∈ documentUnions nodes, top.1.name = q.2) ∧
      ∀ xs, s.declarations.SumExpands q.2 xs →
        ∃ xq, s.declarations.SumExpands q.1.name xq ∧ xq <:+: xs := by
  induction hn : s.unions.keys.idxOf q.1.name using Nat.strongRecOn generalizing q with
  | _ k ih =>
  rcases documentUnions_rooted listed with self | ⟨parent, before, sameRoot, summed⟩
  · refine ⟨⟨q, listed, self.symm⟩, fun xs expands => ⟨xs, self ▸ expands, List.infix_refl xs⟩⟩
  · have parentListed : parent ∈ documentUnions nodes := before.subset List.mem_cons_self
    have earlier : s.unions.keys.idxOf parent.1.name < k := by
      rw [← hn]
      apply idxOf_lt_of_sublist s.unions.nodup_keys
      rw [laid.union_keys]
      exact before.map (·.1.name)
    obtain ⟨top, walked⟩ := ih _ earlier parentListed rfl
    refine ⟨sameRoot ▸ top, fun xs expands => ?_⟩
    obtain ⟨xp, parentExpands, inside⟩ := walked xs (sameRoot ▸ expands)
    have members := parentExpands.of_union (laid.get?_union_of_mem parentListed)
    obtain ⟨xq, unionExpands, inner⟩ := members.part summed
    exact ⟨xq, unionExpands, inner.trans inside⟩

theorem leaf_under_root (keyed : s.KeyedByName)
    (apart : ∀ n, n ∈ s.leaves.keys → n ∉ s.unions.keys) {l : LeafNode}
    (stored : l ∈ s.leaves.values) {q : UnionNode × String} (listed : q ∈ documentUnions nodes)
    (summed : l.name ∈ q.1.members) {xs : List String}
    (expands : s.declarations.SumExpands q.2 xs) : l.name ∈ xs := by
  obtain ⟨xq, unionExpands, inside⟩ := (union_under_root laid listed).2 xs expands
  have members := unionExpands.of_union (laid.get?_union_of_mem listed)
  obtain ⟨xm, leafExpands, inner⟩ := members.part summed
  have notUnion : s.unions.get? l.name = none :=
    Table.get?_eq_none_iff.2 (apart _ (Table.key_mem_keys_of_keyed keyed.leaves stored))
  have single : xm = [l.name] := leafExpands.of_not_union notUnion
  exact (inner.trans inside).subset (by simp [single])

end Roots

/-- What code generation relies on of the roots leaves record: a leaf is its own root exactly
when it is declared at the top level or excluded from a sum; any other leaf is among the leaves
its root union flattens to, so the union its helper narrows from dispatches on it; and the
leaves one union flattens to share one root. -/
structure RootsSound (s : Schema) (ir : Ir) : Prop where
  root_self : ∀ l ∈ s.leaves.values,
    l.rootUnion = l.name ↔ l.enclosingUnion = none ∨ ∃ u ∈ s.unions.values, l.name ∈ u.excluded
  narrows : ∀ l ∈ s.leaves.values, l.rootUnion ≠ l.name →
    ∃ root leaves, s.unions.get? l.rootUnion = some root ∧
      resolveUnionLeaves s.declarations root = .ok leaves ∧ l.name ∈ leaves.map (·.name)
  dispatches : ∀ l ∈ s.leaves.values, l.rootUnion ≠ l.name →
    ∃ flat ∈ ir.unions, flat.decl.name = l.rootUnion ∧ l.name ∈ flat.leaves
  shared : ∀ u ∈ s.unions.values, ∀ leaves, resolveUnionLeaves s.declarations u = .ok leaves →
    ∀ l ∈ leaves, ∀ l' ∈ leaves, l.rootUnion = l'.rootUnion

section Built

variable {s : Schema} (wf : s.WellFormed) {ir : Ir} {unions : List FlatUnion}
  (built : Assembled s ir unions)
include wf built

theorem Assembled.leaf_not_union {n : String} (isLeaf : n ∈ s.leaves.keys) : n ∉ s.unions.keys := by
  intro isUnion
  have same := keysOf_disjoint wf.keyedByName built.decls built.distinct
    (show n ∈ s.keysOf .leaf from isLeaf) (show n ∈ s.keysOf .union from isUnion)
  cases same

theorem Assembled.flattens_to_expansion {u : UnionNode} (stored : u ∈ s.unions.values) :
    ∃ flat ∈ ir.unions, flat.decl = u ∧ ∃ leaves xs,
      resolveUnionLeaves s.declarations u = .ok leaves ∧ flat.leaves = leaves.map (·.name) ∧
        s.declarations.SumExpands u.name xs ∧ leaves.map (·.name) = xs.eraseDups := by
  have found : ∃ n, s.unions.get? n = some u := Table.mem_values_iff.1 stored
  rw [← built.decls] at stored
  obtain ⟨flat, listed, rfl⟩ := List.mem_map.1 stored
  obtain ⟨leaves, resolved, _, _, carried⟩ := flattenUnion_eq_ok.1 (built.flattened flat listed)
  obtain ⟨xs, expands, named⟩ := resolveUnionLeaves_expands (fun x => s.unions.keys.idxOf x)
    wf.keyedByName.leaves wf.keyedByName.unions (fun n u found => member_deeper wf found)
    found resolved
  have leavesNamed : flat.leaves = leaves.map (·.name) := by rw [carried]
  exact ⟨flat, built.unions_eq ▸ listed, rfl, leaves, xs, resolved, leavesNamed, expands, named⟩

variable {nodes : List (String × Json)} (laid : s.Laid nodes)
include laid

theorem Assembled.root_eq_name_iff {l : LeafNode} (stored : l ∈ s.leaves.values) :
    l.rootUnion = l.name ↔ l.enclosingUnion = none ∨ ∃ u ∈ s.unions.values, l.name ∈ u.excluded := by
  have keyed := wf.keyedByName
  have isLeaf : l.name ∈ s.leaves.keys := Table.key_mem_keys_of_keyed keyed.leaves stored
  have found : s.leaves.get? l.name = some l :=
    (Table.get?_eq_some_iff_of_keyed keyed.leaves).2 ⟨stored, rfl⟩
  have placed := laid.place_mem stored
  constructor
  · intro self
    rcases documentPlaces_placed placed with ⟨top, _⟩ | ⟨q, listed, _, ⟨summed, rooted⟩ | ⟨excluded, _⟩⟩
    · exact .inl top
    · -- a summed leaf is rooted at a union, and no union is named as a leaf
      obtain ⟨⟨top, topListed, named⟩, _⟩ := union_under_root laid listed
      have isUnion : l.name ∈ s.unions.keys := by
        rw [laid.union_keys]
        exact List.mem_map.2 ⟨top, topListed, named.trans (rooted.symm.trans self)⟩
      exact absurd isUnion (built.leaf_not_union wf isLeaf)
    · exact .inr ⟨q.1, laid.union_mem_values listed, excluded⟩
  · rintro (top | ⟨u, unionStored, excluded⟩)
    · rcases documentPlaces_placed placed with ⟨_, rooted⟩ | ⟨q, _, enclosed, _⟩
      · exact rooted
      · change l.enclosingUnion = some q.1.name at enclosed
        rw [top] at enclosed
        cases enclosed
    · -- an excluded member is declared in place, rooted at itself
      obtain ⟨r, listed⟩ := laid.union_of_mem_values unionStored
      rcases (documentUnions_declared laid.shaped listed).2 l.name excluded with
          ⟨p, inPlaces, named, rooted⟩ | ⟨q, inner, named, _⟩
      · rw [← laid.place_of_get? keyed found inPlaces named] at rooted
        exact rooted
      · have isUnion : l.name ∈ s.unions.keys := by
          rw [laid.union_keys]
          exact List.mem_map.2 ⟨q, inner, named⟩
        exact absurd isUnion (built.leaf_not_union wf isLeaf)

theorem Assembled.root_flattens_to_leaf {l : LeafNode} (stored : l ∈ s.leaves.values)
    (notSelf : l.rootUnion ≠ l.name) :
    ∃ flat ∈ ir.unions, s.unions.get? l.rootUnion = some flat.decl ∧ ∃ leaves,
      resolveUnionLeaves s.declarations flat.decl = .ok leaves ∧
        flat.leaves = leaves.map (·.name) ∧ l.name ∈ leaves.map (·.name) := by
  have keyed := wf.keyedByName
  have apart : ∀ n, n ∈ s.leaves.keys → n ∉ s.unions.keys := fun _ => built.leaf_not_union wf
  rcases documentPlaces_placed (laid.place_mem stored) with
      ⟨_, self⟩ | ⟨q, listed, _, ⟨summed, rooted⟩ | ⟨_, self⟩⟩
  · exact absurd self notSelf
  · change l.rootUnion = q.2 at rooted
    obtain ⟨⟨top, topListed, named⟩, _⟩ := union_under_root laid listed
    obtain ⟨flat, flatListed, carried, leaves, xs, resolved, leavesNamed, expands, deduped⟩ :=
      built.flattens_to_expansion wf (laid.union_mem_values topListed)
    rw [named] at expands
    have inXs := leaf_under_root laid keyed apart stored listed summed expands
    refine ⟨flat, flatListed, ?_, leaves, carried ▸ resolved, leavesNamed, ?_⟩
    · rw [rooted, ← named, carried]
      exact laid.get?_union_of_mem topListed
    · rw [deduped]
      exact List.mem_eraseDups.2 inXs
  · exact absurd self notSelf

theorem Assembled.flattened_share_root {u : UnionNode} (stored : u ∈ s.unions.values)
    {leaves : List LeafNode} (resolved : resolveUnionLeaves s.declarations u = .ok leaves) :
    ∃ r, ∀ l ∈ leaves, l.rootUnion = r := by
  have keyed := wf.keyedByName
  have apart : ∀ n, n ∈ s.leaves.keys → n ∉ s.unions.keys := fun _ => built.leaf_not_union wf
  obtain ⟨r, listed⟩ := laid.union_of_mem_values stored
  obtain ⟨xs, expands, deduped⟩ := resolveUnionLeaves_expands (fun x => s.unions.keys.idxOf x)
    keyed.leaves keyed.unions (fun n u found => member_deeper wf found)
    (Table.mem_values_iff.1 stored) resolved
  refine ⟨r, fun l member => ?_⟩
  obtain ⟨m, _, isLeaf⟩ := resolveUnionLeaves_found resolved l member
  have named : l.name = m := keyed.leaves m l isLeaf
  have inXs : m ∈ xs := by
    rw [← named, ← List.mem_eraseDups, ← deduped]
    exact List.mem_map_of_mem member
  exact sumExpands_root laid keyed apart expands (u, r) listed rfl m inXs l isLeaf

end Built

/-- The roots leaves record agree with union flattening in every schema that loads and
assembles: a leaf's helper narrows from a union whose dispatch holds the leaf. -/
theorem build_roots_sound {v : Json} {s : Schema} (loaded : Schema.load v = .ok s) {ir : Ir}
    (assembled : build s = .ok ir) : RootsSound s ir := by
  have wf := Schema.load_wellFormed loaded
  obtain ⟨nodes, laid⟩ := Schema.load_laid loaded
  obtain ⟨unions, built⟩ := build_assembled assembled
  refine ⟨fun l stored => built.root_eq_name_iff wf laid stored, ?_, ?_, ?_⟩
  · intro l stored notSelf
    obtain ⟨flat, _, found, leaves, resolved, _, inLeaves⟩ :=
      built.root_flattens_to_leaf wf laid stored notSelf
    exact ⟨flat.decl, leaves, found, resolved, inLeaves⟩
  · intro l stored notSelf
    obtain ⟨flat, listed, found, leaves, _, leavesNamed, inLeaves⟩ :=
      built.root_flattens_to_leaf wf laid stored notSelf
    exact ⟨flat, listed, (wf.keyedByName.unions _ _ found), leavesNamed ▸ inLeaves⟩
  · intro u stored leaves resolved l member l' member'
    obtain ⟨r, shared⟩ := built.flattened_share_root wf laid stored resolved
    rw [shared l member, shared l' member']

theorem build_roots_sound_expressions :
    ∃ s ir, Schema.load expressionsDocument = .ok s ∧ build s = .ok ir ∧ RootsSound s ir := by
  obtain ⟨s, ir, loaded, assembled, _⟩ := expressionsDocument_builds
  exact ⟨s, ir, loaded, assembled, build_roots_sound loaded assembled⟩

end Ir

end NodeSchema
