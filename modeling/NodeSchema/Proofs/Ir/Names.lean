import Mathlib.Data.List.Pairwise
import NodeSchema.Proofs.Ir.Unions

set_option autoImplicit false

/-! The names of a loaded schema after assembly. Loading records every declared name with
each kind it was declared as, and lets one name carry several kinds; the report is left to
assembly, which claims every declaration's name once, in the order external types, unions,
bases, leaves. So a name of two kinds always makes assembly fail, at the latest when the second
declaration claims it; when assembly succeeds every name has one kind, and the assembled nodes
are exactly the declared names, each with its kind. Once flattening and the inheritance checks
have passed, the fault names the first declaration whose name was claimed before, with the kind
of the earlier one. -/

namespace NodeSchema

namespace Ir

section Claims

variable {s : Schema} {unions : List FlatUnion}

theorem claims_names (keyed : s.KeyedByName) (decls : unions.map (·.decl) = s.unions.values) :
    (claims s unions).map IrNode.name =
      [DeclKind.external, .union, .base, .leaf].flatMap s.keysOf := by
  have externNames : s.externs.values.map (·.symbol) = s.externs.keys :=
    Table.values_map_of_keyed keyed.externs
  have unionNames : unions.map (·.decl.name) = s.unions.keys := by
    rw [← Table.values_map_of_keyed keyed.unions, ← decls, List.map_map]
    rfl
  have baseNames : s.bases.values.map (·.name) = s.bases.keys :=
    Table.values_map_of_keyed keyed.bases
  have leafNames : s.leaves.values.map (·.name) = s.leaves.keys :=
    Table.values_map_of_keyed keyed.leaves
  simp only [claims, List.map_append, List.map_map, List.flatMap_cons, List.flatMap_nil,
    List.append_nil, List.append_assoc, Schema.keysOf]
  rw [← externNames, ← unionNames, ← baseNames, ← leafNames]
  rfl

theorem name_mem_keysOf (keyed : s.KeyedByName) (decls : unions.map (·.decl) = s.unions.values)
    {node : IrNode} (claimed : node ∈ claims s unions) : node.name ∈ s.keysOf node.kind := by
  simp only [claims, List.mem_append, List.mem_map] at claimed
  rcases claimed with ((⟨e, stored, rfl⟩ | ⟨flat, listed, rfl⟩) | ⟨b, stored, rfl⟩) |
      ⟨l, stored, rfl⟩
  · exact Table.key_mem_keys_of_keyed keyed.externs stored
  · have stored : flat.decl ∈ s.unions.values := by
      rw [← decls]
      exact List.mem_map_of_mem listed
    exact Table.key_mem_keys_of_keyed keyed.unions stored
  · exact Table.key_mem_keys_of_keyed keyed.bases stored
  · exact Table.key_mem_keys_of_keyed keyed.leaves stored

theorem keysOf_disjoint (keyed : s.KeyedByName) (decls : unions.map (·.decl) = s.unions.values)
    (distinct : ((claims s unions).map IrNode.name).Nodup) {n : String} {kind kind' : DeclKind}
    (first : n ∈ s.keysOf kind) (second : n ∈ s.keysOf kind') : kind = kind' := by
  rw [claims_names keyed decls, List.nodup_flatMap] at distinct
  have listed : ∀ k : DeclKind, k ∈ [DeclKind.external, .union, .base, .leaf] := by
    intro k
    cases k <;> simp
  have : Std.Symm (Function.onFun List.Disjoint s.keysOf) := ⟨fun _ _ apart _ inFirst inSecond => apart inSecond inFirst⟩
  by_contra differ
  exact distinct.2.forall (listed kind) (listed kind') differ first second

end Claims

section Loaded

variable {s : Schema} (wf : s.WellFormed)
include wf

theorem build_error_of_two_kinds {n : String} {kind kind' : DeclKind}
    (first : kind ∈ s.names.kinds n) (second : kind' ∈ s.names.kinds n) (differ : kind ≠ kind') :
    ∃ e, build s = .error e := by
  cases assembled : build s with
  | error e => exact ⟨e, rfl⟩
  | ok ir =>
    obtain ⟨unions, built⟩ := build_assembled assembled
    exact absurd (keysOf_disjoint wf.keyedByName built.decls built.distinct
      ((wf.declares n kind).1 first) ((wf.declares n kind').1 second)) differ

theorem kinds_single_of_build {ir : Ir} (assembled : build s = .ok ir) {n : String}
    (declared : n ∈ s.names.entries.keys) : ∃ kind, s.names.kinds n = [kind] := by
  obtain ⟨unions, built⟩ := build_assembled assembled
  obtain ⟨kind, recorded⟩ := List.exists_mem_of_ne_nil _ ((wf.names_keys n).1 declared)
  have same : ∀ k ∈ s.names.kinds n, k = kind := fun k listed =>
    keysOf_disjoint wf.keyedByName built.decls built.distinct ((wf.declares n k).1 listed)
      ((wf.declares n kind).1 recorded)
  have distinct := wf.kinds_nodup n
  cases listed : s.names.kinds n with
  | nil =>
    rw [listed] at recorded
    cases recorded
  | cons a rest =>
    rw [listed] at same distinct
    cases rest with
    | nil => exact ⟨a, rfl⟩
    | cons b more =>
      exfalso
      have sameHead : a = b := (same a List.mem_cons_self).trans (same b (by simp)).symm
      exact (List.nodup_cons.1 distinct).1 (by rw [sameHead]; exact List.mem_cons_self)

theorem mem_keys_of_build {ir : Ir} (assembled : build s = .ok ir) (n : String) :
    n ∈ ir.nodes.keys ↔ n ∈ s.names.entries.keys := by
  obtain ⟨unions, built⟩ := build_assembled assembled
  rw [built.keys, claims_names wf.keyedByName built.decls, List.mem_flatMap, wf.names_keys]
  constructor
  · rintro ⟨kind, _, listed⟩
    exact List.ne_nil_of_mem ((wf.declares n kind).2 listed)
  · intro declared
    obtain ⟨kind, recorded⟩ := List.exists_mem_of_ne_nil _ declared
    exact ⟨kind, by cases kind <;> simp, (wf.declares n kind).1 recorded⟩

theorem kinds_of_build {ir : Ir} (assembled : build s = .ok ir) {n : String} {node : IrNode}
    (found : ir.nodes.get? n = some node) : s.names.kinds n = [node.kind] := by
  obtain ⟨unions, built⟩ := build_assembled assembled
  obtain ⟨claimed, rfl⟩ := built.get?_eq_some_iff.1 found
  have recorded : node.kind ∈ s.names.kinds node.name :=
    (wf.declares _ _).2 (name_mem_keysOf wf.keyedByName built.decls claimed)
  obtain ⟨kind, single⟩ := kinds_single_of_build wf assembled
    ((mem_keys_of_build wf assembled _).1 (Table.mem_keys_of_get? found))
  rw [single] at recorded ⊢
  rw [List.mem_singleton.1 recorded]

end Loaded

theorem build_eq_error_of_checked {s : Schema} {unions : List FlatUnion}
    (flattened : s.unions.values.mapM (flattenUnion s.declarations) = .ok unions)
    (basesChecked : checkInheritance s.declarations (s.bases.values.map (·.toRecord)) = .ok ())
    (leavesChecked : checkInheritance s.declarations (s.leaves.values.map (·.toRecord)) = .ok ())
    (e : GenerationError) :
    build s = .error e ↔ ∃ before node after existing,
      claims s unions = before ++ node :: after ∧ (before.map IrNode.name).Nodup ∧
        existing ∈ before ∧ existing.name = node.name ∧
        e = .alreadyDefined node.name node.kind existing.kind := by
  rw [build_eq_of_checked flattened basesChecked leavesChecked, foldlM_insert_eq_error]
  constructor
  · rintro ⟨before, node, after, mid, existing, split, prefixDone, found, rfl⟩
    obtain ⟨distinct, _, _⟩ := foldlM_insert_ok prefixDone
    obtain ⟨listed, named⟩ := (get?_eq_some_iff_of_claimed prefixDone).1 found
    exact ⟨before, node, after, existing, split, by simpa using distinct, listed, named, rfl⟩
  · rintro ⟨before, node, after, existing, split, distinct, listed, named, rfl⟩
    have fresh : ((⟨s.options, .empty⟩ : Ir).nodes.keys ++ before.map IrNode.name).Nodup := by
      simpa [Table.empty, Table.keys] using distinct
    obtain ⟨mid, prefixDone⟩ := foldlM_insert_of_nodup fresh
    exact ⟨before, node, after, mid, existing, split, prefixDone,
      (get?_eq_some_iff_of_claimed prefixDone).2 ⟨listed, named⟩, rfl⟩

/-- The names of a loaded schema under assembly: a name of two kinds makes assembly fail; a
successful assembly leaves every declared name one kind, assembles exactly the declared names,
each with that kind; and once flattening and the inheritance checks pass, the fault is the first
declaration, in claiming order, whose name an earlier one holds. -/
theorem build_names_sound {v : Json} {s : Schema} (loaded : Schema.load v = .ok s) :
    (∀ n kind kind', kind ∈ s.names.kinds n → kind' ∈ s.names.kinds n → kind ≠ kind' →
      ∃ e, build s = .error e) ∧
    (∀ ir, build s = .ok ir →
      (∀ n ∈ s.names.entries.keys, ∃ kind, s.names.kinds n = [kind]) ∧
        (∀ n, n ∈ ir.nodes.keys ↔ n ∈ s.names.entries.keys) ∧
        (∀ n node, ir.nodes.get? n = some node → s.names.kinds n = [node.kind])) ∧
    (∀ unions, s.unions.values.mapM (flattenUnion s.declarations) = .ok unions →
      checkInheritance s.declarations (s.bases.values.map (·.toRecord)) = .ok () →
      checkInheritance s.declarations (s.leaves.values.map (·.toRecord)) = .ok () →
      ∀ e, build s = .error e ↔ ∃ before node after existing,
        claims s unions = before ++ node :: after ∧ (before.map IrNode.name).Nodup ∧
          existing ∈ before ∧ existing.name = node.name ∧
          e = .alreadyDefined node.name node.kind existing.kind) := by
  have wf := Schema.load_wellFormed loaded
  refine ⟨fun n kind kind' first second differ => build_error_of_two_kinds wf first second differ,
    fun ir assembled => ⟨fun n declared => kinds_single_of_build wf assembled declared,
      mem_keys_of_build wf assembled, fun n node found => kinds_of_build wf assembled found⟩,
    fun unions flattened basesChecked leavesChecked => build_eq_error_of_checked flattened
      basesChecked leavesChecked⟩

/-- A document declaring `Lit` both as a base and as a leaf. -/
def crossKindDocument : Json :=
  .object [("bases", .object [("Lit", .array [])]), ("nodes", .object [("Lit", .array [])])]

theorem build_names_sound_crossKind :
    ∃ s, Schema.load crossKindDocument = .ok s ∧ s.names.kinds "Lit" = [.base, .leaf] ∧
      ∃ e, build s = .error e := by
  have recorded : (match Schema.load crossKindDocument with
      | .ok s => s.names.kinds "Lit" == [.base, .leaf]
      | .error _ => false) = true := by decide +kernel
  cases loaded : Schema.load crossKindDocument with
  | error e => rw [loaded] at recorded; cases recorded
  | ok s =>
    rw [loaded] at recorded
    have kinds : s.names.kinds "Lit" = [.base, .leaf] := by simpa using recorded
    refine ⟨s, rfl, kinds, (build_names_sound loaded).1 "Lit" .base .leaf ?_ ?_ (by decide)⟩
    · rw [kinds]
      exact List.mem_cons_self
    · rw [kinds]
      simp

end Ir

end NodeSchema
