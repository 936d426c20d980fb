import NodeSchema.Resolve.Fields
import NodeSchema.Proofs.Tables

set_option autoImplicit false

/-! What flattening inheritance does with one base, and what its result is. A base the
declarations do not find, or one already on the path, ends the walk; any other is walked in
turn, and then the record's own fields are appended, each refused if its name was collected
already. So the collected names never repeat, and each is the name of an own field of the
record or of a base the declarations find. The walk reads its declarations only through their
base lookup. -/

namespace NodeSchema

theorem addOwnFields_ok {owner : String} :
    ∀ {fields : List (String × FieldDescriptor)} {out r : List ResolvedField},
      addOwnFields owner fields out = .ok r →
        r = out ++ fields.map (fun e => ⟨e.1, e.2, owner⟩) ∧
          ((out.map (·.name)).Nodup → (r.map (·.name)).Nodup)
  | [], out, r, added => by
    cases added
    exact ⟨by simp, id⟩
  | (name, descriptor) :: rest, out, r, added => by
    simp only [addOwnFields] at added
    split at added
    · cases added
    · rename_i absent
      obtain ⟨appended, distinct⟩ := addOwnFields_ok added
      refine ⟨by simp [appended], fun before => distinct ?_⟩
      rw [List.map_append, List.nodup_append]
      refine ⟨before, by simp, ?_⟩
      intro a old b new same
      simp only [List.map_cons, List.map_nil, List.mem_singleton] at new
      subst new same
      simp only [List.any_eq_true, beq_iff_eq, not_exists, not_and] at absent
      obtain ⟨f, member, named⟩ := List.mem_map.1 old
      exact absent f member named

/-! ### One base -/

/-- One base `name` of `owner` read during flattening, with `visiting` the bases on the path:
the step of the fold `collectFields` is. -/
def baseStep (d : Declarations) (visiting : List String) (owner : String)
    (out : List ResolvedField) (name : String) : Except ResolveError (List ResolvedField) :=
  match d.base? name with
  | none => .error (.unknownBase owner name)
  | some base =>
    if name ∈ visiting then .error (.cyclicInheritance name)
    else collectFields d (name :: visiting) base.toRecord out

theorem collectFields_eq (d : Declarations) (visiting : List String) (node : Record)
    (out : List ResolvedField) :
    collectFields d visiting node out =
      node.bases.foldlM (baseStep d visiting node.name) out >>=
        addOwnFields node.name node.fields.entries := by
  rw [collectFields.eq_1]
  congr 1
  congr 1
  funext out name
  unfold baseStep
  split
  all_goals rename_i found
  all_goals simp only [found]
  split <;> rfl

theorem baseStep_ok {d : Declarations} {visiting : List String} {owner name : String}
    {out out' : List ResolvedField} (stepped : baseStep d visiting owner out name = .ok out') :
    ∃ base, d.base? name = some base ∧ name ∉ visiting ∧
      collectFields d (name :: visiting) base.toRecord out = .ok out' := by
  unfold baseStep at stepped
  split at stepped
  · cases stepped
  · rename_i base found
    split at stepped
    · cases stepped
    · rename_i offPath
      exact ⟨base, found, offPath, stepped⟩

/-! ### Whole walks -/

section Walk

variable {d : Declarations}

theorem collectFields_congr {d' : Declarations} (same : ∀ n, d.base? n = d'.base? n) :
    ∀ visiting node out, collectFields d visiting node out = collectFields d' visiting node out := by
  intro visiting node out
  induction visiting, node, out using collectFields.induct d with
  | case1 visiting node out walkedAlike =>
    rw [collectFields_eq, collectFields_eq]
    congr 2
    funext out name
    unfold baseStep
    rw [← same name]
    split
    · rfl
    · rename_i base found
      split
      · rfl
      · rename_i offPath
        exact walkedAlike out name base found offPath

theorem resolveFields_congr {d' : Declarations} (same : ∀ n, d.base? n = d'.base? n)
    (node : Record) : resolveFields d node = resolveFields d' node :=
  collectFields_congr same [] node []

theorem resolveChildFields_congr {d' : Declarations} (same : ∀ n, d.base? n = d'.base? n)
    (node : Record) : resolveChildFields d node = resolveChildFields d' node := by
  unfold resolveChildFields
  rw [resolveFields_congr same]

theorem collectFields_keeps (inv : List ResolvedField → Prop) (eligible : Record → Prop)
    (bases : ∀ n b, d.base? n = some b → eligible b.toRecord)
    (onOwn : ∀ (rec : Record) out out', eligible rec → inv out →
      addOwnFields rec.name rec.fields.entries out = .ok out' → inv out') :
    ∀ visiting node out r, eligible node → inv out → collectFields d visiting node out = .ok r →
      inv r := by
  intro visiting node out
  induction visiting, node, out using collectFields.induct d with
  | case1 visiting node out basesKeep =>
    intro r isEligible holds collected
    rw [collectFields_eq] at collected
    obtain ⟨mid, basesCollected, added⟩ := bind_eq_ok.1 collected
    have basesHold : inv mid := by
      refine foldlM_keeps inv (baseStep d visiting node.name) ?_ node.bases out mid holds
        basesCollected
      intro before name after kept stepped
      obtain ⟨base, found, offPath, walked⟩ := baseStep_ok stepped
      exact basesKeep before name base found offPath after (bases name base found) kept walked
    exact onOwn node mid r isEligible basesHold added

end Walk

/-! ### The fields of a record -/

section Resolved

variable {d : Declarations} {node : Record} {fields : List ResolvedField}

theorem resolveFields_names_nodup (resolved : resolveFields d node = .ok fields) :
    (fields.map (·.name)).Nodup :=
  collectFields_keeps (fun out => (out.map fun f : ResolvedField => f.name).Nodup) (fun _ => True)
    (fun _ _ _ => trivial) (fun _ _ _ _ before added => (addOwnFields_ok added).2 before)
    [] node [] fields trivial List.nodup_nil resolved

theorem resolveFields_entries {good : String → FieldDescriptor → Prop}
    (own : ∀ e ∈ node.fields.entries, good e.1 e.2)
    (bases : ∀ n b, d.base? n = some b → ∀ e ∈ b.fields.entries, good e.1 e.2)
    (resolved : resolveFields d node = .ok fields) : ∀ f ∈ fields, good f.name f.descriptor := by
  refine collectFields_keeps (fun out => ∀ f ∈ out, good f.name f.descriptor)
    (fun rec => ∀ e ∈ rec.fields.entries, good e.1 e.2) bases ?_ [] node [] fields own (by simp)
    resolved
  intro rec out out' recGood before added f member
  rw [(addOwnFields_ok added).1] at member
  rcases List.mem_append.1 member with old | new
  · exact before f old
  · obtain ⟨e, listed, rfl⟩ := List.mem_map.1 new
    exact recGood e listed

theorem resolveFields_names {good : String → Prop} (own : ∀ k ∈ node.fields.keys, good k)
    (bases : ∀ n b, d.base? n = some b → ∀ k ∈ b.fields.keys, good k)
    (resolved : resolveFields d node = .ok fields) : ∀ f ∈ fields, good f.name :=
  @resolveFields_entries d node fields (fun k _ => good k)
    (fun e listed => own e.1 (List.mem_map_of_mem listed))
    (fun n b found e listed => bases n b found e.1 (List.mem_map_of_mem listed)) resolved

end Resolved

end NodeSchema
