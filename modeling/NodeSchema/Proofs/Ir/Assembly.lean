import NodeSchema.Ir.Basic
import NodeSchema.Proofs.Resolve.Fields
import NodeSchema.Proofs.Resolve.Unions
import NodeSchema.Proofs.Load.Schema

set_option autoImplicit false

/-! Assembly read step by step. Claiming names node after node succeeds exactly when no two
nodes share a name, and then lists the nodes in order under their names. An assembly that
succeeds has flattened every union, checked the inheritance of every record and claimed the
nodes in the order external types, unions, bases, leaves. When the schema stores each
declaration under its own name, the assembled nodes answer every lookup as the schema's tables
do, so flattening over either gives one result. -/

namespace NodeSchema

namespace Ir

/-- The nodes assembly claims, in order: the external types, the flattened unions, the bases
and the leaves. -/
def claims (s : Schema) (unions : List FlatUnion) : List IrNode :=
  s.externs.values.map .external ++ unions.map .union ++ s.bases.values.map .base ++
    s.leaves.values.map .leaf

/-! ### Claiming names -/

theorem insert_eq_ok {ir ir' : Ir} {node : IrNode} :
    ir.insert node = .ok ir' ↔
      node.name ∉ ir.nodes.keys ∧ ir' = { ir with nodes := ir.nodes.insert node.name node } := by
  unfold insert
  cases found : ir.nodes.get? node.name with
  | none => simp [Table.get?_eq_none_iff.1 found, eq_comm]
  | some existing =>
    simp only [reduceCtorEq, false_iff, not_and]
    intro absent
    exact absurd (Table.mem_keys_of_get? found) absent

theorem foldlM_insert_ok : ∀ {nodes : List IrNode} {ir ir' : Ir},
    nodes.foldlM insert ir = .ok ir' →
      (ir.nodes.keys ++ nodes.map IrNode.name).Nodup ∧ ir'.options = ir.options ∧
        ir'.nodes.entries = ir.nodes.entries ++ nodes.map fun node => (node.name, node)
  | [], ir, ir', claimed => by
    cases claimed
    exact ⟨by simpa using ir.nodes.nodup_keys, rfl, by simp⟩
  | node :: rest, ir, ir', claimed => by
    rw [List.foldlM_cons] at claimed
    obtain ⟨mid, inserted, later⟩ := bind_eq_ok.1 claimed
    obtain ⟨fresh, rfl⟩ := insert_eq_ok.1 inserted
    obtain ⟨distinct, sameOptions, entries⟩ := foldlM_insert_ok later
    have distinct' : ((ir.nodes.insert node.name node).keys ++ rest.map IrNode.name).Nodup :=
      distinct
    rw [Table.keys_insert_of_not_mem node fresh] at distinct'
    refine ⟨by simpa using distinct', sameOptions, ?_⟩
    rw [entries]
    show (ir.nodes.insert node.name node).entries ++ _ = _
    rw [Table.entries_insert_of_not_mem node fresh]
    simp

theorem get?_eq_some_iff_of_entries {t : Table IrNode} {nodes : List IrNode}
    (listed : t.entries = nodes.map fun node => (node.name, node)) {n : String} {node : IrNode} :
    t.get? n = some node ↔ node ∈ nodes ∧ node.name = n := by
  rw [Table.get?_eq_some_iff, listed, List.mem_map]
  constructor
  · rintro ⟨x, member, same⟩
    simp only [Prod.mk.injEq] at same
    obtain ⟨named, rfl⟩ := same
    exact ⟨member, named⟩
  · rintro ⟨member, rfl⟩
    exact ⟨node, member, rfl⟩

theorem get?_eq_some_iff_of_claimed {options : Options} {nodes : List IrNode} {ir : Ir}
    (claimed : nodes.foldlM insert ⟨options, .empty⟩ = .ok ir) {n : String} {node : IrNode} :
    ir.nodes.get? n = some node ↔ node ∈ nodes ∧ node.name = n := by
  obtain ⟨_, _, entries⟩ := foldlM_insert_ok claimed
  exact get?_eq_some_iff_of_entries (by simpa [Table.empty] using entries)

theorem foldlM_insert_of_nodup : ∀ {nodes : List IrNode} {ir : Ir},
    (ir.nodes.keys ++ nodes.map IrNode.name).Nodup → ∃ ir', nodes.foldlM insert ir = .ok ir'
  | [], ir, _ => ⟨ir, rfl⟩
  | node :: rest, ir, distinct => by
    have fresh : node.name ∉ ir.nodes.keys := by
      intro present
      exact (List.nodup_append.1 distinct).2.2 _ present _ List.mem_cons_self rfl
    have inserted : ir.insert node = .ok { ir with nodes := ir.nodes.insert node.name node } :=
      insert_eq_ok.2 ⟨fresh, rfl⟩
    have restDistinct : ((ir.nodes.insert node.name node).keys ++ rest.map IrNode.name).Nodup := by
      rw [Table.keys_insert_of_not_mem node fresh]
      simpa using distinct
    obtain ⟨ir', later⟩ : ∃ ir', rest.foldlM insert
        { ir with nodes := ir.nodes.insert node.name node } = .ok ir' :=
      foldlM_insert_of_nodup restDistinct
    exact ⟨ir', by rw [List.foldlM_cons, inserted]; exact later⟩

theorem foldlM_insert_eq_error {e : GenerationError} : ∀ {nodes : List IrNode} {ir : Ir},
    nodes.foldlM insert ir = .error e ↔
      ∃ before node after mid existing, nodes = before ++ node :: after ∧
        before.foldlM insert ir = .ok mid ∧ mid.nodes.get? node.name = some existing ∧
        e = .alreadyDefined node.name node.kind existing.kind
  | [], ir => by simp [pure, Except.pure]
  | x :: rest, ir => by
    rw [List.foldlM_cons]
    constructor
    · intro failed
      cases inserted : ir.insert x with
      | error e' =>
        rw [inserted] at failed
        cases failed
        unfold insert at inserted
        split at inserted
        · rename_i existing found
          cases inserted
          exact ⟨[], x, rest, ir, existing, rfl, rfl, found, rfl⟩
        · cases inserted
      | ok mid =>
        rw [inserted] at failed
        obtain ⟨before, node, after, mid', existing, split, prefixDone, found, rfl⟩ :=
          foldlM_insert_eq_error.1 failed
        refine ⟨x :: before, node, after, mid', existing, by rw [split]; rfl, ?_, found, rfl⟩
        rw [List.foldlM_cons, inserted]
        exact prefixDone
    · rintro ⟨before, node, after, mid, existing, split, prefixDone, found, rfl⟩
      cases before with
      | nil =>
        simp only [List.nil_append, List.cons.injEq] at split
        obtain ⟨rfl, rfl⟩ := split
        cases prefixDone
        have refused : ir.insert x = .error (.alreadyDefined x.name x.kind existing.kind) := by
          unfold insert
          rw [found]
        rw [refused]
        rfl
      | cons y before' =>
        simp only [List.cons_append, List.cons.injEq] at split
        obtain ⟨rfl, rfl⟩ := split
        rw [List.foldlM_cons] at prefixDone
        obtain ⟨first, inserted, restDone⟩ := bind_eq_ok.1 prefixDone
        rw [inserted]
        exact foldlM_insert_eq_error.2 ⟨before', node, after, mid, existing, rfl, restDone, found, rfl⟩

/-! ### The checks before claiming -/

theorem checkTags_ok {union : String} :
    ∀ {seen : List (String × String)} {leaves : List LeafNode}, (seen.map Prod.fst).Nodup →
      checkTags union seen leaves = .ok () → (seen.map Prod.fst ++ leaves.map (·.tag)).Nodup
  | seen, [], distinct, _ => by simpa using distinct
  | seen, leaf :: rest, distinct, checked => by
    simp only [checkTags] at checked
    split at checked
    · cases checked
    · rename_i unseen
      have fresh : leaf.tag ∉ seen.map Prod.fst := by
        intro present
        obtain ⟨p, member, named⟩ := List.mem_map.1 present
        have differ := List.lookup_eq_none_iff.1 unseen p member
        simp [named] at differ
      have grown : ((seen ++ [(leaf.tag, leaf.name)]).map Prod.fst).Nodup := by
        rw [List.map_append, List.nodup_append]
        refine ⟨distinct, by simp, ?_⟩
        simp only [List.map_cons, List.map_nil, List.mem_singleton]
        rintro a old b rfl rfl
        exact fresh old
      have later := checkTags_ok grown checked
      simpa using later

theorem flattenUnion_eq_ok {d : Declarations} {u : UnionNode} {flat : FlatUnion} :
    flattenUnion d u = .ok flat ↔
      ∃ leaves, resolveUnionLeaves d u = .ok leaves ∧ u.members ≠ [] ∧
        checkTags u.name [] leaves = .ok () ∧ flat = ⟨u, leaves.map (·.name)⟩ := by
  unfold flattenUnion
  cases resolved : resolveUnionLeaves d u with
  | error e => simp [bind, Except.bind]
  | ok leaves =>
    cases members : u.members with
    | nil => simp [bind, Except.bind, throw, throwThe, MonadExceptOf.throw]
    | cons m ms =>
      cases checked : checkTags u.name [] leaves with
      | error e => simp [bind, Except.bind, checked]
      | ok passed =>
        simp [bind, Except.bind, checked, pure, Except.pure, eq_comm]

theorem checkInheritance_eq_ok {d : Declarations} {records : List Record} :
    checkInheritance d records = .ok () ↔ ∀ r ∈ records, ∃ fields, resolveFields d r = .ok fields := by
  unfold checkInheritance
  rw [forM_eq_ok]
  apply forall_congr'
  intro r
  apply imp_congr_right
  intro _
  cases resolveFields d r with
  | error e => simp [bind, Except.bind]
  | ok fields => simp [bind, Except.bind, pure, Except.pure]

theorem build_eq_of_checked {s : Schema} {unions : List FlatUnion}
    (flattened : s.unions.values.mapM (flattenUnion s.declarations) = .ok unions)
    (basesChecked : checkInheritance s.declarations (s.bases.values.map (·.toRecord)) = .ok ())
    (leavesChecked : checkInheritance s.declarations (s.leaves.values.map (·.toRecord)) = .ok ()) :
    build s = (claims s unions).foldlM insert ⟨s.options, .empty⟩ := by
  unfold build
  dsimp only
  rw [flattened]
  show (checkInheritance _ _ >>= fun _ => _) = _
  rw [basesChecked]
  show (checkInheritance _ _ >>= fun _ => _) = _
  rw [leavesChecked]
  rfl

/-! ### A successful assembly -/

/-- What a successful assembly of `s` into `ir` has done, with `unions` the flattened unions. -/
structure Assembled (s : Schema) (ir : Ir) (unions : List FlatUnion) : Prop where
  decls : unions.map (·.decl) = s.unions.values
  flattened : ∀ flat ∈ unions, flattenUnion s.declarations flat.decl = .ok flat
  bases : ∀ b ∈ s.bases.values, ∃ fields, resolveFields s.declarations b.toRecord = .ok fields
  leaves : ∀ l ∈ s.leaves.values, ∃ fields, resolveFields s.declarations l.toRecord = .ok fields
  distinct : ((claims s unions).map IrNode.name).Nodup
  options : ir.options = s.options
  entries : ir.nodes.entries = (claims s unions).map fun node => (node.name, node)

theorem build_assembled {s : Schema} {ir : Ir} (built : build s = .ok ir) :
    ∃ unions, Assembled s ir unions := by
  unfold build at built
  obtain ⟨unions, flattened, rest⟩ := bind_eq_ok.1 built
  obtain ⟨⟨⟩, basesChecked, rest⟩ := bind_eq_ok.1 rest
  obtain ⟨⟨⟩, leavesChecked, claimed⟩ := bind_eq_ok.1 rest
  have carried : ∀ u flat, flattenUnion s.declarations u = .ok flat → flat.decl = u := by
    intro u flat done
    obtain ⟨_, _, _, _, rfl⟩ := flattenUnion_eq_ok.1 done
    rfl
  obtain ⟨decls, eachFlat⟩ := mapM_eq_ok_inverse (·.decl) carried flattened
  obtain ⟨distinct, options, entries⟩ := foldlM_insert_ok claimed
  refine ⟨unions, decls, eachFlat, ?_, ?_, by simpa [claims] using distinct, options,
    by simpa [claims, Table.empty] using entries⟩
  · intro b stored
    exact checkInheritance_eq_ok.1 basesChecked _ (List.mem_map_of_mem stored)
  · intro l stored
    exact checkInheritance_eq_ok.1 leavesChecked _ (List.mem_map_of_mem stored)

section Assembled

variable {s : Schema} {ir : Ir} {unions : List FlatUnion} (built : Assembled s ir unions)
include built

theorem Assembled.values : ir.nodes.values = claims s unions := by
  unfold Table.values
  rw [built.entries, List.map_map]
  exact List.map_id' _

theorem Assembled.get?_eq_some_iff {n : String} {node : IrNode} :
    ir.nodes.get? n = some node ↔ node ∈ claims s unions ∧ node.name = n :=
  get?_eq_some_iff_of_entries built.entries

theorem Assembled.keys : ir.nodes.keys = (claims s unions).map IrNode.name := by
  unfold Table.keys
  rw [built.entries, List.map_map]
  rfl

theorem Assembled.leaves_eq : ir.leaves = s.leaves.values := by
  simp [Ir.leaves, built.values, claims, List.filterMap_append, List.filterMap_map]

theorem Assembled.bases_eq : ir.bases = s.bases.values := by
  simp [Ir.bases, built.values, claims, List.filterMap_append, List.filterMap_map]

theorem Assembled.unions_eq : ir.unions = unions := by
  simp [Ir.unions, built.values, claims, List.filterMap_append, List.filterMap_map]

end Assembled

/-! ### Lookups of assembled nodes -/

/-- Assembled nodes that answer every lookup as the tables of a schema do. -/
structure Mirrors (ir : Ir) (s : Schema) : Prop where
  base? : ∀ n, ir.base? n = s.bases.get? n
  leaf? : ∀ n, ir.leaf? n = s.leaves.get? n
  union? : ∀ n, ir.union? n = s.unions.get? n

theorem base?_eq_some_iff {ir : Ir} {n : String} {b : BaseNode} :
    ir.base? n = some b ↔ ir.nodes.get? n = some (.base b) := by
  unfold base?
  split <;> simp_all

theorem leaf?_eq_some_iff {ir : Ir} {n : String} {l : LeafNode} :
    ir.leaf? n = some l ↔ ir.nodes.get? n = some (.leaf l) := by
  unfold leaf?
  split <;> simp_all

theorem union?_eq_some_iff {ir : Ir} {n : String} {u : UnionNode} :
    ir.union? n = some u ↔ ∃ flat, ir.nodes.get? n = some (.union flat) ∧ flat.decl = u := by
  unfold union?
  split <;> simp_all

theorem Assembled.mirrors {s : Schema} {ir : Ir} {unions : List FlatUnion}
    (built : Assembled s ir unions) (keyed : s.KeyedByName) : ir.Mirrors s where
  base? := by
    intro n
    apply Option.ext
    intro b
    rw [base?_eq_some_iff, built.get?_eq_some_iff, Table.get?_eq_some_iff_of_keyed keyed.bases]
    simp [claims, IrNode.name]
  leaf? := by
    intro n
    apply Option.ext
    intro l
    rw [leaf?_eq_some_iff, built.get?_eq_some_iff, Table.get?_eq_some_iff_of_keyed keyed.leaves]
    simp [claims, IrNode.name]
  union? := by
    intro n
    apply Option.ext
    intro u
    rw [union?_eq_some_iff, Table.get?_eq_some_iff_of_keyed keyed.unions, ← built.decls]
    simp only [built.get?_eq_some_iff, List.mem_map]
    constructor
    · rintro ⟨flat, ⟨member, named⟩, rfl⟩
      exact ⟨⟨flat, by simpa [claims] using member, rfl⟩, named⟩
    · rintro ⟨⟨flat, member, rfl⟩, named⟩
      exact ⟨flat, ⟨by simp [claims, member], named⟩, rfl⟩

theorem build_mirrors {s : Schema} {ir : Ir} (keyed : s.KeyedByName) (built : build s = .ok ir) :
    ir.Mirrors s := by
  obtain ⟨unions, assembled⟩ := build_assembled built
  exact assembled.mirrors keyed

section Mirrors

variable {s : Schema} {ir : Ir} (mirrors : ir.Mirrors s)
include mirrors

theorem Mirrors.resolveFields_eq (r : Record) :
    resolveFields ir.declarations r = resolveFields s.declarations r :=
  resolveFields_congr mirrors.base? r

theorem Mirrors.resolveChildFields_eq (r : Record) :
    resolveChildFields ir.declarations r = resolveChildFields s.declarations r :=
  resolveChildFields_congr mirrors.base? r

theorem Mirrors.resolveUnionLeaves_eq (u : UnionNode) :
    resolveUnionLeaves ir.declarations u = resolveUnionLeaves s.declarations u :=
  resolveUnionLeaves_congr mirrors.union? mirrors.leaf? u

end Mirrors

end Ir

end NodeSchema
