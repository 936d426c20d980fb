import NodeSchema.Proofs.Resolve.Unfolding

set_option autoImplicit false

/-! Flattening a union does not depend on the order of any union's members. The walk of
`resolveUnionLeaves` is the naive unfolding with later repeats removed; the unfolding fails
exactly when it meets a member found as both a union and a leaf or as neither, and otherwise
lists exactly the leaves found under the members it meets. Which members an unfolding meets
depends only on which members each union has, so declarations that find the same leaves, and
the same unions up to the order of their members, fail together, and flatten a union to the
same leaves in another order when each leaf is found under its own name. -/

namespace NodeSchema

namespace Declarations

variable {d : Declarations}

/-- The members an unfolding of the members `ms` meets: each of them, and those met inside a
member that names only a union. -/
inductive Meets (d : Declarations) : List String → String → Prop
  | here {ms : List String} {m : String} : m ∈ ms → Meets d ms m
  | inner {ms : List String} {m' m : String} {w : UnionNode} :
      m' ∈ ms → d.union? m' = some w → d.leaf? m' = none → Meets d w.members m → Meets d ms m

theorem Meets.mono {ms ms' : List String} {m : String} (meets : d.Meets ms m) (sub : ms ⊆ ms') :
    d.Meets ms' m := by
  cases meets with
  | here listed => exact .here (sub listed)
  | inner listed isUnion notLeaf inside => exact .inner (sub listed) isUnion notLeaf inside

theorem not_meets_nil {m : String} : ¬d.Meets [] m := by
  rintro (⟨listed⟩ | ⟨listed⟩) <;> cases listed

theorem meets_cons_iff {m₀ m : String} {ms : List String} :
    d.Meets (m₀ :: ms) m ↔
      m = m₀ ∨ (∃ w, d.union? m₀ = some w ∧ d.leaf? m₀ = none ∧ d.Meets w.members m) ∨ d.Meets ms m := by
  constructor
  · rintro (⟨listed⟩ | ⟨listed, isUnion, notLeaf, inside⟩)
    · rcases List.mem_cons.1 listed with rfl | later
      · exact .inl rfl
      · exact .inr (.inr (.here later))
    · rcases List.mem_cons.1 listed with rfl | later
      · exact .inr (.inl ⟨_, isUnion, notLeaf, inside⟩)
      · exact .inr (.inr (.inner later isUnion notLeaf inside))
  · rintro (rfl | ⟨w, isUnion, notLeaf, inside⟩ | later)
    · exact .here List.mem_cons_self
    · exact .inner List.mem_cons_self isUnion notLeaf inside
    · exact later.mono (List.subset_cons_self _ _)

/-! ### What an unfolding meets -/

section Unfolding

variable {owner : String} {ms : List String} {r : Except ResolveError (List LeafNode)}

theorem Unfolds.findsOne (unfolds : d.Unfolds owner ms r) {xs : List LeafNode} (succeeded : r = .ok xs)
    {m : String} (meets : d.Meets ms m) : d.FindsOne m := by
  induction unfolds generalizing xs with
  | nil => exact absurd meets not_meets_nil
  | ambiguous => cases succeeded
  | unknown => cases succeeded
  | nestedError => cases succeeded
  | leaf notUnion isLeaf _ ih =>
    obtain ⟨ys, rest, _⟩ := map_eq_ok.1 succeeded
    rcases meets_cons_iff.1 meets with rfl | ⟨w, isUnion, _, _⟩ | later
    · exact .inr ⟨_, notUnion, isLeaf⟩
    · rw [notUnion] at isUnion
      cases isUnion
    · exact ih rest later
  | nested isUnion notLeaf _ _ ihInner ihRest =>
    obtain ⟨ys, rest, _⟩ := map_eq_ok.1 succeeded
    rcases meets_cons_iff.1 meets with rfl | ⟨w, isUnion', _, inside⟩ | later
    · exact .inl ⟨_, isUnion, notLeaf⟩
    · rw [isUnion] at isUnion'
      cases isUnion'
      exact ihInner rfl inside
    · exact ihRest rest later

theorem Unfolds.meets_faulty (unfolds : d.Unfolds owner ms r) {e : ResolveError} (failed : r = .error e) :
    ∃ m, d.Meets ms m ∧ ¬d.FindsOne m := by
  induction unfolds with
  | nil => cases failed
  | ambiguous isUnion isLeaf =>
    refine ⟨_, .here List.mem_cons_self, ?_⟩
    simp [FindsOne, isUnion, isLeaf]
  | unknown notUnion notLeaf =>
    refine ⟨_, .here List.mem_cons_self, ?_⟩
    simp [FindsOne, notUnion, notLeaf]
  | leaf _ _ _ ih =>
    obtain ⟨m, meets, faulty⟩ := ih (map_eq_error.1 failed)
    exact ⟨m, meets.mono (List.subset_cons_self _ _), faulty⟩
  | nestedError isUnion notLeaf _ ih =>
    obtain ⟨m, meets, faulty⟩ := ih failed
    exact ⟨m, .inner List.mem_cons_self isUnion notLeaf meets, faulty⟩
  | nested _ _ _ _ _ ihRest =>
    obtain ⟨m, meets, faulty⟩ := ihRest (map_eq_error.1 failed)
    exact ⟨m, meets.mono (List.subset_cons_self _ _), faulty⟩

theorem Unfolds.mem_iff (unfolds : d.Unfolds owner ms r) {xs : List LeafNode} (succeeded : r = .ok xs)
    {l : LeafNode} : l ∈ xs ↔ ∃ m, d.Meets ms m ∧ d.union? m = none ∧ d.leaf? m = some l := by
  induction unfolds generalizing xs with
  | nil =>
    cases succeeded
    simp only [List.not_mem_nil, false_iff, not_exists, not_and]
    exact fun m meets => absurd meets not_meets_nil
  | ambiguous => cases succeeded
  | unknown => cases succeeded
  | nestedError => cases succeeded
  | leaf notUnion isLeaf _ ih =>
    obtain ⟨ys, rest, rfl⟩ := map_eq_ok.1 succeeded
    rw [List.mem_cons, ih rest]
    constructor
    · rintro (rfl | ⟨m, meets, none, found⟩)
      · exact ⟨_, .here List.mem_cons_self, notUnion, isLeaf⟩
      · exact ⟨m, meets.mono (List.subset_cons_self _ _), none, found⟩
    · rintro ⟨m, meets, none, found⟩
      rcases meets_cons_iff.1 meets with rfl | ⟨w, isUnion, _, _⟩ | later
      · rw [isLeaf] at found
        exact .inl (Option.some.inj found).symm
      · rw [notUnion] at isUnion
        cases isUnion
      · exact .inr ⟨m, later, none, found⟩
  | nested isUnion notLeaf _ _ ihInner ihRest =>
    obtain ⟨ys, rest, rfl⟩ := map_eq_ok.1 succeeded
    rw [List.mem_append, ihInner rfl, ihRest rest]
    constructor
    · rintro (⟨m, meets, none, found⟩ | ⟨m, meets, none, found⟩)
      · exact ⟨m, .inner List.mem_cons_self isUnion notLeaf meets, none, found⟩
      · exact ⟨m, meets.mono (List.subset_cons_self _ _), none, found⟩
    · rintro ⟨m, meets, none, found⟩
      rcases meets_cons_iff.1 meets with rfl | ⟨w, isUnion', _, inside⟩ | later
      · rw [isUnion] at none
        cases none
      · rw [isUnion] at isUnion'
        cases isUnion'
        exact .inl ⟨m, inside, none, found⟩
      · exact .inr ⟨m, later, none, found⟩

end Unfolding

/-! ### Declarations that differ in the order of members -/

/-- Declarations that find the same leaves, and the same unions up to the order of their
members. -/
structure Reordered (d d' : Declarations) : Prop where
  leaf : ∀ n, d'.leaf? n = d.leaf? n
  forth : ∀ n w, d.union? n = some w → ∃ w', d'.union? n = some w' ∧ w.members.Perm w'.members
  back : ∀ n w', d'.union? n = some w' → ∃ w, d.union? n = some w ∧ w.members.Perm w'.members

section Reordered

variable {d' : Declarations} (reordered : d.Reordered d')
include reordered

theorem Reordered.symm : d'.Reordered d where
  leaf n := (reordered.leaf n).symm
  forth n w' found := by
    obtain ⟨w, found', perm⟩ := reordered.back n w' found
    exact ⟨w, found', perm.symm⟩
  back n w found := by
    obtain ⟨w', found', perm⟩ := reordered.forth n w found
    exact ⟨w', found', perm.symm⟩

theorem Reordered.union_none {n : String} (missing : d.union? n = none) : d'.union? n = none := by
  cases found : d'.union? n with
  | none => rfl
  | some w' =>
    obtain ⟨w, found', _⟩ := reordered.back n w' found
    rw [missing] at found'
    cases found'

theorem Reordered.findsOne {m : String} (finds : d.FindsOne m) : d'.FindsOne m := by
  rcases finds with ⟨w, isUnion, notLeaf⟩ | ⟨l, notUnion, isLeaf⟩
  · obtain ⟨w', isUnion', _⟩ := reordered.forth m w isUnion
    exact .inl ⟨w', isUnion', by rw [reordered.leaf]; exact notLeaf⟩
  · exact .inr ⟨l, reordered.union_none notUnion, by rw [reordered.leaf]; exact isLeaf⟩

theorem Reordered.meets {ms ms' : List String} {m : String} (meets : d.Meets ms m) (sub : ms ⊆ ms') :
    d'.Meets ms' m := by
  induction meets generalizing ms' with
  | here listed => exact .here (sub listed)
  | @inner ms m' m w listed isUnion notLeaf _ ih =>
    obtain ⟨w', isUnion', perm⟩ := reordered.forth m' w isUnion
    have notLeaf' : d'.leaf? m' = none := by rw [reordered.leaf]; exact notLeaf
    exact .inner (sub listed) isUnion' notLeaf' (ih perm.subset)

theorem Reordered.meets_leaf {ms ms' : List String} (perm : ms.Perm ms') {l : LeafNode} :
    (∃ m, d.Meets ms m ∧ d.union? m = none ∧ d.leaf? m = some l) →
      ∃ m, d'.Meets ms' m ∧ d'.union? m = none ∧ d'.leaf? m = some l := by
  rintro ⟨m, meets, notUnion, isLeaf⟩
  exact ⟨m, reordered.meets meets perm.subset, reordered.union_none notUnion, by rw [reordered.leaf]; exact isLeaf⟩

end Reordered

end Declarations

/-! ### Flattening against reordered declarations -/

theorem mem_keepFirstNamed_iff {l : LeafNode} :
    ∀ {xs : List LeafNode} {taken : List String}, (∀ a ∈ xs, ∀ b ∈ xs, a.name = b.name → a = b) →
      (l ∈ keepFirstNamed taken xs ↔ l ∈ xs ∧ l.name ∉ taken)
  | [], _, _ => by simp [keepFirstNamed]
  | x :: xs, taken, determined => by
    have rest : ∀ a ∈ xs, ∀ b ∈ xs, a.name = b.name → a = b := fun a inA b inB =>
      determined a (List.mem_cons_of_mem x inA) b (List.mem_cons_of_mem x inB)
    rw [keepFirstNamed_cons]
    split
    · rename_i taken'
      rw [mem_keepFirstNamed_iff rest, List.mem_cons]
      constructor
      · rintro ⟨inXs, fresh⟩
        exact ⟨.inr inXs, fresh⟩
      · rintro ⟨rfl | inXs, fresh⟩
        · exact absurd taken' fresh
        · exact ⟨inXs, fresh⟩
    · rename_i fresh
      rw [List.mem_cons, mem_keepFirstNamed_iff rest, List.mem_cons]
      constructor
      · rintro (rfl | ⟨inXs, notTaken⟩)
        · exact ⟨.inl rfl, fresh⟩
        · exact ⟨.inr inXs, fun inTaken => notTaken (List.mem_append_left _ inTaken)⟩
      · rintro ⟨rfl | inXs, notTaken⟩
        · exact .inl rfl
        · by_cases same : l = x
          · exact .inl same
          · -- another leaf of the list cannot share the name of `x`
            have differs : l.name ≠ x.name := fun named =>
              same (determined l (List.mem_cons_of_mem x inXs) x List.mem_cons_self named)
            refine .inr ⟨inXs, ?_⟩
            simpa [differs] using notTaken

section Flattening

variable {d : Declarations} {u : UnionNode}

theorem resolveUnionLeaves_unfolds (named : ∀ n w, d.union? n = some w → w.name = n)
    (acyclic : ∀ w, Relation.ReflTransGen d.Nests u w → ¬Relation.TransGen d.Nests w w)
    (unshadowed : d.Unshadowed u) :
    ∃ r, d.Unfolds u.name u.members r ∧ resolveUnionLeaves d u = r.map (keepFirstNamed []) := by
  have start : Expansion.Ready d u ⟨[u.name], []⟩ := by
    intro x seen
    rw [List.mem_singleton.1 seen]
    exact .inl ⟨u, rfl, unshadowed, .refl⟩
  obtain ⟨r, unfolds, agrees⟩ := expandUnion_agrees named acyclic u _ .refl start
  refine ⟨r, unfolds, ?_⟩
  rw [resolveUnionLeaves_eq_map]
  cases walked : expandUnion d u ⟨[u.name], []⟩ with
  | error e =>
    rw [walked] at agrees
    change r = .error e at agrees
    rw [agrees]
    rfl
  | ok st =>
    rw [walked] at agrees
    obtain ⟨xs, rfl, leaves, -⟩ := agrees
    change Except.ok st.1.leaves = Except.ok (keepFirstNamed [] xs)
    rw [leaves, Expansion.foldl_addLeaf_leaves]
    rfl

theorem mem_resolveUnionLeaves_iff (leafNamed : ∀ n l, d.leaf? n = some l → l.name = n)
    {xs leaves : List LeafNode} (unfolds : d.Unfolds u.name u.members (.ok xs))
    (resolved : keepFirstNamed [] xs = leaves) {l : LeafNode} :
    l ∈ leaves ↔ ∃ m, d.Meets u.members m ∧ d.union? m = none ∧ d.leaf? m = some l := by
  have found : ∀ a ∈ xs, d.leaf? a.name = some a := by
    intro a listed
    obtain ⟨m, _, _, isLeaf⟩ := (unfolds.mem_iff rfl).1 listed
    rw [leafNamed m a isLeaf]
    exact isLeaf
  have determined : ∀ a ∈ xs, ∀ b ∈ xs, a.name = b.name → a = b := by
    intro a inA b inB named
    have same := found a inA
    rw [named, found b inB] at same
    exact (Option.some.inj same).symm
  rw [← resolved, mem_keepFirstNamed_iff determined, ← unfolds.mem_iff rfl]
  simp

end Flattening

theorem resolveUnionLeaves_reordered {d d' : Declarations} (reordered : d.Reordered d')
    (named : ∀ n w, d.union? n = some w → w.name = n) (named' : ∀ n w, d'.union? n = some w → w.name = n)
    (leafNamed : ∀ n l, d.leaf? n = some l → l.name = n) {u u' : UnionNode}
    (acyclic : ∀ w, Relation.ReflTransGen d.Nests u w → ¬Relation.TransGen d.Nests w w)
    (acyclic' : ∀ w, Relation.ReflTransGen d'.Nests u' w → ¬Relation.TransGen d'.Nests w w)
    (unshadowed : d.Unshadowed u) (unshadowed' : d'.Unshadowed u') (perm : u.members.Perm u'.members)
    {leaves : List LeafNode} (resolved : resolveUnionLeaves d u = .ok leaves) :
    ∃ leaves', resolveUnionLeaves d' u' = .ok leaves' ∧ leaves.Perm leaves' := by
  obtain ⟨r, unfolds, flattened⟩ := resolveUnionLeaves_unfolds named acyclic unshadowed
  obtain ⟨r', unfolds', flattened'⟩ := resolveUnionLeaves_unfolds named' acyclic' unshadowed'
  rw [resolved] at flattened
  obtain ⟨xs, rfl, kept⟩ := map_eq_ok.1 flattened.symm
  cases r' with
  | error e =>
    obtain ⟨m, meets, faulty⟩ := unfolds'.meets_faulty rfl
    have meetsHere := reordered.symm.meets meets perm.symm.subset
    exact absurd (reordered.findsOne (unfolds.findsOne rfl meetsHere)) faulty
  | ok xs' =>
    refine ⟨_, flattened', ?_⟩
    have distinct : leaves.Nodup := List.Nodup.of_map _ (resolveUnionLeaves_names_nodup resolved)
    have distinct' : (keepFirstNamed [] xs').Nodup :=
      List.Nodup.of_map _ (resolveUnionLeaves_names_nodup flattened')
    have leafNamed' : ∀ n l, d'.leaf? n = some l → l.name = n := by
      intro n l found
      rw [reordered.leaf] at found
      exact leafNamed n l found
    refine (List.perm_ext_iff_of_nodup distinct distinct').2 fun l => ?_
    rw [mem_resolveUnionLeaves_iff leafNamed unfolds kept, mem_resolveUnionLeaves_iff leafNamed' unfolds' rfl]
    exact ⟨reordered.meets_leaf perm, reordered.symm.meets_leaf perm.symm⟩

end NodeSchema
