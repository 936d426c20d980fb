import NodeSchema.Resolve.Fields

set_option autoImplicit false

/-! The order of child fields. Child fields are the flattened fields that hold declared types,
sorted by whether their values sit in a container. The sort is stable, and a stable sort by a
two-valued key is a partition: the fields with the smaller key, in their order, then the others,
in theirs. So a record's child fields are its scalar node fields in flattening order followed by
its contained node fields in flattening order, and a fault of flattening is passed on as it is. -/

namespace NodeSchema

/-! ### Stable sorting by a flag -/

section Flag

variable {α : Type} (key : α → Bool)

theorem flagOrder_trans (a b c : α) (ab : (!key a || key b) = true) (bc : (!key b || key c) = true) :
    (!key a || key c) = true := by
  cases ka : key a <;> cases kb : key b <;> simp_all

theorem flagOrder_total (a b : α) : ((!key a || key b) || (!key b || key a)) = true := by
  cases key a <;> cases key b <;> rfl

theorem eq_filter_append_of_pairwise {l : List α}
    (sorted : l.Pairwise fun a b => (!key a || key b) = true) :
    l = l.filter (fun a => !key a) ++ l.filter key := by
  induction l with
  | nil => rfl
  | cons a rest ih =>
    obtain ⟨above, sortedRest⟩ := List.pairwise_cons.1 sorted
    cases flagged : key a with
    | false =>
      simp only [List.filter_cons, flagged, Bool.not_false, if_true, Bool.false_eq_true, if_false,
        List.cons_append]
      exact congrArg (a :: ·) (ih sortedRest)
    | true =>
      -- everything after a flagged item is flagged
      have allFlagged : ∀ b ∈ rest, key b = true := fun b listed => by
        simpa [flagged] using above b listed
      have noneUnflagged : rest.filter (fun b => !key b) = [] :=
        List.filter_eq_nil_iff.2 fun b listed => by simp [allFlagged b listed]
      simp [flagged, noneUnflagged, List.filter_eq_self.2 allFlagged]

theorem sublist_mergeSort_byFlag {l sub : List α}
    (ordered : sub.Pairwise fun a b => (!key a || key b) = true) (within : sub.Sublist l) :
    sub.Sublist (l.mergeSort fun a b => !key a || key b) :=
  List.sublist_mergeSort (flagOrder_trans key) (flagOrder_total key) ordered within

theorem filter_mergeSort_byFlag (l : List α) (flag : Bool) :
    (l.mergeSort fun a b => !key a || key b).filter (fun a => key a == flag) =
      l.filter (fun a => key a == flag) := by
  have sameFlag : (l.filter fun a => key a == flag).Pairwise fun a b => (!key a || key b) = true := by
    refine List.Pairwise.imp_of_mem ?_ (List.pairwise_of_forall fun _ _ => trivial)
    intro a b first second _
    simp only [List.mem_filter, beq_iff_eq] at first second
    simp [first.2, second.2]
  have kept := (sublist_mergeSort_byFlag key sameFlag List.filter_sublist).filter
    (fun a => key a == flag)
  simp only [List.filter_filter, Bool.and_self] at kept
  refine (kept.eq_of_length ?_).symm
  exact ((List.mergeSort_perm l _).filter _).length_eq.symm

/-- A stable sort by a flag is the partition by the flag: the unflagged items, then the flagged
ones, each in input order. -/
theorem mergeSort_byFlag (l : List α) :
    (l.mergeSort fun a b => !key a || key b) = l.filter (fun a => !key a) ++ l.filter key := by
  rw [eq_filter_append_of_pairwise key
    (List.pairwise_mergeSort (flagOrder_trans key) (flagOrder_total key) l)]
  have unflagged := filter_mergeSort_byFlag key l false
  have flagged := filter_mergeSort_byFlag key l true
  simp only [beq_false, beq_true] at unflagged flagged
  rw [unflagged, flagged]

end Flag

/-! ### Child fields -/

/-- The child fields of a record are its flattened fields that hold declared types, the scalar
ones first and then the contained ones, each in flattening order; a flattening fault is the
fault. -/
theorem resolveChildFields_scalars_first (d : Declarations) (node : Record) :
    resolveChildFields d node = (resolveFields d node).map fun fields =>
      fields.filter (fun f => f.descriptor.isNode && f.descriptor.container == .scalar) ++
        fields.filter (fun f => f.descriptor.isNode && f.descriptor.container != .scalar) := by
  unfold resolveChildFields
  cases resolveFields d node with
  | error e => rfl
  | ok fields =>
    show Except.ok ((fields.filter (·.descriptor.isNode)).mergeSort _) = Except.ok (_ ++ _)
    rw [mergeSort_byFlag ResolvedField.contained, List.filter_filter, List.filter_filter]
    congr 2 <;> refine List.filter_congr fun f _ => ?_ <;>
      cases f.descriptor.isNode <;> simp [ResolvedField.contained, bne]

end NodeSchema
