import Mathlib.Data.List.Perm.Basic
import NodeSchema.Proofs.Ir.Names
import NodeSchema.Proofs.Load.Rearranged
import NodeSchema.Proofs.Resolve.Reordered

set_option autoImplicit false

/-! Loading and assembling a document do not depend on the order of the keys of its objects.
A reordered document loads whenever the document does, into the same declarations in another
order, with the members of each union reordered. Assembly then succeeds on one exactly when it
succeeds on the other: inheritance reads bases by name only; a union flattens to the same
leaves in another order, so its tags clash in neither or both; and the names claimed are the
same, so none is claimed twice in neither or both. Which fault is reported may differ. -/

namespace NodeSchema

open Json (Reorders)

theorem UnionNode.Rearranged.symm {u u' : UnionNode} (rearranged : u.Rearranged u') : u'.Rearranged u where
  name := rearranged.name.symm
  members := rearranged.members.symm
  excluded := rearranged.excluded.symm

namespace Schema

section Rearranged

variable {s s' : Schema} (rearranged : s.Rearranged s')
include rearranged

theorem Rearranged.symm : s'.Rearranged s where
  options := rearranged.options.symm
  externs := rearranged.externs.symm
  bases := rearranged.bases.symm
  leaves := rearranged.leaves.symm
  unionKeys := rearranged.unionKeys.symm
  unions k u' found := by
    have listed : k ∈ s.unions.keys := rearranged.unionKeys.symm.subset (Table.mem_keys_of_get? found)
    obtain ⟨u, original⟩ := Table.mem_keys_iff.1 listed
    obtain ⟨u'', moved, same⟩ := rearranged.unions k u original
    rw [found] at moved
    cases moved
    exact ⟨u, original, same.symm⟩

theorem Rearranged.declarations : s.declarations.Reordered s'.declarations where
  leaf n := (Table.get?_eq_of_perm rearranged.leaves n).symm
  forth n w found := by
    obtain ⟨w', found', same⟩ := rearranged.unions n w found
    exact ⟨w', found', same.members⟩
  back n w' found := by
    obtain ⟨w, found', same⟩ := rearranged.symm.unions n w' found
    exact ⟨w, found', same.members.symm⟩

theorem Rearranged.keysOf (kind : DeclKind) : (s.keysOf kind).Perm (s'.keysOf kind) := by
  cases kind with
  | base => exact rearranged.bases.map Prod.fst
  | leaf => exact rearranged.leaves.map Prod.fst
  | union => exact rearranged.unionKeys
  | external =>
    show s.externs.keys.Perm s'.externs.keys
    rw [rearranged.externs]

end Rearranged

theorem WellFormed.acyclic {s : Schema} (wf : s.WellFormed) {n : String} {u : UnionNode}
    (found : s.unions.get? n = some u) :
    ∀ w, Relation.ReflTransGen s.declarations.Nests u w → ¬Relation.TransGen s.declarations.Nests w w := by
  refine Declarations.acyclic_of_rank (fun v => s.unions.keys.idxOf v.name) ?_
  rintro v w reach ⟨m, listed, isUnion, notLeaf⟩
  obtain ⟨k, stored⟩ : ∃ k, s.unions.get? k = some v := by
    rcases Declarations.reached_found reach with rfl | stored
    · exact ⟨n, found⟩
    · exact stored
  exact Ir.member_deeper wf stored m listed w isUnion notLeaf

end Schema

theorem checkTags_of_nodup {union : String} :
    ∀ {seen : List (String × String)} {leaves : List LeafNode},
      (seen.map Prod.fst ++ leaves.map (·.tag)).Nodup → checkTags union seen leaves = .ok ()
  | _, [], _ => rfl
  | seen, leaf :: rest, distinct => by
    have fresh : leaf.tag ∉ seen.map Prod.fst := by
      intro present
      exact (List.nodup_append.1 distinct).2.2 _ present _ List.mem_cons_self rfl
    have unseen : seen.lookup leaf.tag = none := by
      refine List.lookup_eq_none_iff.2 fun p member => ?_
      have differ : leaf.tag ≠ p.1 := fun same => fresh (same ▸ List.mem_map_of_mem member)
      simpa using differ
    simp only [checkTags, unseen]
    exact checkTags_of_nodup (by simpa using distinct)

namespace Ir

section Rearranged

variable {s s' : Schema} (rearranged : s.Rearranged s')
include rearranged

theorem checkInheritance_rearranged {α : Type} (toRecord : α → Record) {xs xs' : List α} (perm : xs.Perm xs')
    (checked : ∀ x ∈ xs, ∃ fields, resolveFields s.declarations (toRecord x) = .ok fields) :
    checkInheritance s'.declarations (xs'.map toRecord) = .ok () := by
  refine checkInheritance_eq_ok.2 fun r listed => ?_
  obtain ⟨x, stored, rfl⟩ := List.mem_map.1 listed
  obtain ⟨fields, resolved⟩ := checked x (perm.symm.subset stored)
  have sameBases : ∀ n, s.declarations.base? n = s'.declarations.base? n :=
    Table.get?_eq_of_perm rearranged.bases
  exact ⟨fields, by rw [← resolveFields_congr sameBases]; exact resolved⟩

variable (wf : s.WellFormed) (wf' : s'.WellFormed)
include wf wf'

theorem flattenUnion_rearranged {k : String} {u u' : UnionNode} (found : s.unions.get? k = some u)
    (found' : s'.unions.get? k = some u') (perm : u.members.Perm u'.members) {flat : FlatUnion}
    (flattened : flattenUnion s.declarations u = .ok flat) :
    ∃ flat', flattenUnion s'.declarations u' = .ok flat' := by
  obtain ⟨leaves, resolved, filled, checked, -⟩ := flattenUnion_eq_ok.1 flattened
  have keyed := wf.keyedByName
  have keyed' := wf'.keyedByName
  have unshadowed : s.declarations.Unshadowed u := .inr (by rw [keyed.unions k u found]; exact found)
  have unshadowed' : s'.declarations.Unshadowed u' := .inr (by rw [keyed'.unions k u' found']; exact found')
  obtain ⟨leaves', resolved', moved⟩ := resolveUnionLeaves_reordered rearranged.declarations
    keyed.unions keyed'.unions keyed.leaves (wf.acyclic found) (wf'.acyclic found') unshadowed unshadowed'
    perm resolved
  refine ⟨_, flattenUnion_eq_ok.2 ⟨leaves', resolved', ?_, ?_, rfl⟩⟩
  · intro empty
    rw [empty] at perm
    exact filled perm.eq_nil
  · -- the tags are those of the original flattening, in another order
    have tags : (leaves.map (·.tag)).Nodup := by simpa using checkTags_ok (by simp) checked
    exact checkTags_of_nodup (by simpa using (moved.map (·.tag)).nodup_iff.1 tags)

theorem build_rearranged {ir : Ir} (built : build s = .ok ir) : ∃ ir', build s' = .ok ir' := by
  obtain ⟨unions, assembled⟩ := build_assembled built
  obtain ⟨unions', flattened'⟩ : ∃ unions', s'.unions.values.mapM (flattenUnion s'.declarations) = .ok unions' := by
    refine mapM_ok_of_each fun u' stored' => ?_
    obtain ⟨k, found'⟩ := Table.mem_values_iff.1 stored'
    obtain ⟨u, found, same⟩ := rearranged.symm.unions k u' found'
    have stored : u ∈ unions.map (·.decl) := by
      rw [assembled.decls]
      exact Table.mem_values_of_get? found
    obtain ⟨flat, listed, rfl⟩ := List.mem_map.1 stored
    exact flattenUnion_rearranged rearranged wf wf' found found' same.members.symm
      (assembled.flattened flat listed)
  have basesChecked := checkInheritance_rearranged rearranged BaseNode.toRecord
    (rearranged.bases.map Prod.snd) assembled.bases
  have leavesChecked := checkInheritance_rearranged rearranged LeafNode.toRecord
    (rearranged.leaves.map Prod.snd) assembled.leaves
  rw [build_eq_of_checked flattened' basesChecked leavesChecked]
  have decls' : unions'.map (·.decl) = s'.unions.values := by
    refine (mapM_eq_ok_inverse (·.decl) (fun u flat done => ?_) flattened').1
    obtain ⟨_, _, _, _, rfl⟩ := flattenUnion_eq_ok.1 done
    rfl
  have names : ((claims s unions).map IrNode.name).Perm ((claims s' unions').map IrNode.name) := by
    rw [claims_names wf.keyedByName assembled.decls, claims_names wf'.keyedByName decls']
    exact List.Perm.flatMap_left _ fun kind _ => rearranged.keysOf kind
  refine foldlM_insert_of_nodup ?_
  rw [Table.keys_empty, List.nil_append]
  exact names.nodup_iff.1 assembled.distinct

end Rearranged

/-- Loading a document, and assembling what it loads, do not depend on the order of the keys
of any of its objects: a reordered document loads exactly when the document does, into the
same declarations rearranged, and assembly succeeds on one exactly when on the other. -/
theorem load_build_order_free {v v' : Json} (distinct : v.keysDistinct = true) (reordered : Reorders v v') :
    ((∃ s, Schema.load v = .ok s) ↔ ∃ s', Schema.load v' = .ok s') ∧
      ∀ s s', Schema.load v = .ok s → Schema.load v' = .ok s' →
        s.Rearranged s' ∧ ((∃ ir, build s = .ok ir) ↔ ∃ ir', build s' = .ok ir') := by
  have distinct' := Json.keysDistinct_of_reorders v reordered distinct
  have back := Reorders.symm v reordered
  refine ⟨⟨fun ⟨s, loaded⟩ => ?_, fun ⟨s', loaded'⟩ => ?_⟩, fun s s' loaded loaded' => ?_⟩
  · obtain ⟨s', loaded', _⟩ := Schema.load_reorders distinct reordered loaded
    exact ⟨s', loaded'⟩
  · obtain ⟨s, loaded, _⟩ := Schema.load_reorders distinct' back loaded'
    exact ⟨s, loaded⟩
  · obtain ⟨s'', loaded'', rearranged⟩ := Schema.load_reorders distinct reordered loaded
    rw [loaded'] at loaded''
    cases loaded''
    have wf := Schema.load_wellFormed loaded
    have wf' := Schema.load_wellFormed loaded'
    exact ⟨rearranged, fun ⟨_, built⟩ => build_rearranged rearranged wf wf' built,
      fun ⟨_, built'⟩ => build_rearranged rearranged.symm wf' wf built'⟩

/-- The sample document with its top-level keys swapped, and the two leaves of its union too. -/
def expressionsReordered : Json :=
  .object [("nodes", .object [("Expr", .object [
      ("Var", .array [.object [("extends", .string "Named")]]),
      ("Lit", .array [.object [("value", .string "number")]]),
      ("~Hole", .array [])])]),
    ("bases", .object [("Named", .array [.object [("name", .string "string")]])])]

theorem load_build_order_free_expressions :
    expressionsDocument.keysDistinct = true ∧ Reorders expressionsDocument expressionsReordered ∧
      (((∃ s, Schema.load expressionsDocument = .ok s) ↔ ∃ s', Schema.load expressionsReordered = .ok s') ∧
        ∀ s s', Schema.load expressionsDocument = .ok s → Schema.load expressionsReordered = .ok s' →
          s.Rearranged s' ∧ ((∃ ir, build s = .ok ir) ↔ ∃ ir', build s' = .ok ir')) := by
  have distinct : expressionsDocument.keysDistinct = true := by decide
  have reordered : Reorders expressionsDocument expressionsReordered := by
    unfold expressionsDocument expressionsReordered
    refine .object ?_ ?_ (List.Perm.swap _ _ [])
    · rfl
    refine .cons (Reorders.refl _) (.cons ?_ .nil)
    refine .object ?_ ?_ (List.Perm.refl _)
    · rfl
    refine .cons ?_ .nil
    refine .object ?_ ?_ (List.Perm.swap _ _ _)
    · rfl
    exact List.forall₂_same.2 fun x _ => Reorders.refl x
  exact ⟨distinct, reordered, load_build_order_free distinct reordered⟩

end Ir

end NodeSchema
