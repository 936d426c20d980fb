import NodeSchema.Proofs.Resolve.Unions

set_option autoImplicit false

/-! A union's sum type names its members; unfolding every member that is itself a union, all
the way down, gives the naive expansion of the sum, in which a union met twice contributes
twice. The walk of `expandUnion` enters each union at most once and keeps each leaf once.
Where every member union lies deeper than its owner, what the walk skips it has collected
already, so the leaves it finds are the naive expansion with its later repeats removed. -/

namespace NodeSchema

namespace Declarations

mutual

/-- The naive expansion of a name: a union found under it expands to the expansions of its
members one after another; any other name stands for itself. -/
inductive SumExpands (d : Declarations) : String → List String → Prop
  | leaf {n : String} : d.union? n = none → SumExpands d n [n]
  | union {n : String} {u : UnionNode} {xs : List String} :
      d.union? n = some u → MembersExpand d u.members xs → SumExpands d n xs

/-- The expansions of a list of members, one after another. -/
inductive MembersExpand (d : Declarations) : List String → List String → Prop
  | nil : MembersExpand d [] []
  | cons {m : String} {ms xs ys : List String} :
      SumExpands d m xs → MembersExpand d ms ys → MembersExpand d (m :: ms) (xs ++ ys)

end

variable {d : Declarations}

theorem SumExpands.of_not_union {n : String} {xs : List String} (expands : d.SumExpands n xs)
    (notUnion : d.union? n = none) : xs = [n] := by
  cases expands with
  | leaf _ => rfl
  | union isUnion _ => rw [notUnion] at isUnion; cases isUnion

theorem SumExpands.of_union {n : String} {u : UnionNode} {xs : List String}
    (expands : d.SumExpands n xs) (isUnion : d.union? n = some u) : d.MembersExpand u.members xs := by
  cases expands with
  | leaf notUnion => rw [notUnion] at isUnion; cases isUnion
  | union found members =>
    rw [isUnion] at found
    cases found
    exact members

theorem MembersExpand.append : ∀ {ms xs ms' ys : List String}, d.MembersExpand ms xs →
    d.MembersExpand ms' ys → d.MembersExpand (ms ++ ms') (xs ++ ys)
  | _, _, _, _, .nil, second => by simpa using second
  | _, _, _, _, .cons head tail, second => by
    simpa using MembersExpand.cons head (tail.append second)

theorem MembersExpand.singleton {m : String} {xs : List String} (expands : d.SumExpands m xs) :
    d.MembersExpand [m] xs := by
  simpa using MembersExpand.cons expands MembersExpand.nil

theorem MembersExpand.part {m : String} :
    ∀ {ms xs : List String}, d.MembersExpand ms xs → m ∈ ms → ∃ xm, d.SumExpands m xm ∧ xm <:+: xs
  | _, _, .nil, listed => by cases listed
  | _, _, @MembersExpand.cons _ _ _ xs' ys head tail, listed => by
    rcases List.mem_cons.1 listed with rfl | later
    · exact ⟨xs', head, List.infix_append [] xs' ys⟩
    · obtain ⟨xm, expands, inside⟩ := tail.part later
      exact ⟨xm, expands, inside.trans (List.suffix_append xs' ys).isInfix⟩

mutual

theorem SumExpands.unique :
    ∀ {n : String} {xs ys : List String}, d.SumExpands n xs → d.SumExpands n ys → xs = ys
  | _, _, _, .leaf notUnion, other => (other.of_not_union notUnion).symm
  | _, _, _, .union found members, other => members.unique (other.of_union found)

theorem MembersExpand.unique :
    ∀ {ms xs ys : List String}, d.MembersExpand ms xs → d.MembersExpand ms ys → xs = ys
  | _, _, _, .nil, other => by
    cases other
    rfl
  | _, _, _, .cons head tail, other => by
    cases other with
    | cons head' tail' => rw [head.unique head', tail.unique tail']

end

mutual

theorem SumExpands.congr {d' : Declarations} (same : ∀ n, d.union? n = d'.union? n) :
    ∀ {n : String} {xs : List String}, d.SumExpands n xs → d'.SumExpands n xs
  | _, _, .leaf notUnion => .leaf ((same _).symm.trans notUnion)
  | _, _, .union found members => .union ((same _).symm.trans found) (members.congr same)

theorem MembersExpand.congr {d' : Declarations} (same : ∀ n, d.union? n = d'.union? n) :
    ∀ {ms xs : List String}, d.MembersExpand ms xs → d'.MembersExpand ms xs
  | _, _, .nil => .nil
  | _, _, .cons head tail => .cons (head.congr same) (tail.congr same)

end

end Declarations

theorem Expansion.names_addLeaf (st : Expansion) (leaf : LeafNode) :
    (st.addLeaf leaf).leaves.map (·.name) = appendNew (st.leaves.map (·.name)) leaf.name := by
  unfold Expansion.addLeaf appendNew
  by_cases present : leaf.name ∈ st.leaves.map (·.name)
  · have found : st.leaves.any (·.name == leaf.name) = true := by
      simpa using present
    rw [if_pos found, if_pos present]
  · have missing : st.leaves.any (·.name == leaf.name) = false := by
      simpa using present
    rw [if_neg (by simp [missing]), if_neg present]
    simp

/-! ### The walk against the naive expansion -/

/-- The leaves collected hold the whole expansion of a name. -/
def Expansion.Covers (d : Declarations) (st : Expansion) (x : String) : Prop :=
  ∃ xs, d.SumExpands x xs ∧ ∀ y ∈ xs, y ∈ st.leaves.map (·.name)

theorem Expansion.Covers.grow {d : Declarations} {st st' : Expansion} {x : String}
    (covers : st.Covers d x) (grows : ∀ y ∈ st.leaves.map (·.name), y ∈ st'.leaves.map (·.name)) :
    st'.Covers d x := by
  obtain ⟨xs, expands, held⟩ := covers
  exact ⟨xs, expands, fun y listed => grows y (held y listed)⟩

section Acyclic

variable {d : Declarations} (rank : String → Nat)
  (leafNamed : ∀ m l, d.leaf? m = some l → l.name = m)
  (unionNamed : ∀ m u, d.union? m = some u → u.name = m)
  (deeper : ∀ n u, d.union? n = some u → ∀ m ∈ u.members, ∀ nested,
    d.union? m = some nested → d.leaf? m = none → rank u.name < rank nested.name)

/-- While a union `owner` is walked, every union seen so far is one it lies under, ranked no
higher, or one already covered. -/
def Expansion.Settled (d : Declarations) (rank : String → Nat) (owner : String) (st : Expansion) :
    Prop :=
  ∀ x ∈ st.seen, rank x ≤ rank owner ∨ st.Covers d x

/-- What a walk of the members `ms` of a union from `acc` to `r` did, against the naive
expansion: it appended the expansion of the members, each name once, and every union it saw
anew is covered. -/
def WalkedAs (d : Declarations) (ms : List String) (acc r : Expansion) : Prop :=
  ∃ xs, d.MembersExpand ms xs ∧ r.leaves.map (·.name) = xs.foldl appendNew (acc.leaves.map (·.name)) ∧
    ∀ x ∈ r.seen, x ∈ acc.seen ∨ r.Covers d x

private theorem fold_walkedAs (u : UnionNode) {st : Expansion}
    (step : ∀ (acc acc' : { next : Expansion // st.seen ⊆ next.seen }) m, m ∈ u.members →
      acc.1.Settled d rank u.name → memberStep d u.name acc m = .ok acc' →
        WalkedAs d [m] acc.1 acc'.1) :
    ∀ (ms : List String) (acc r : { next : Expansion // st.seen ⊆ next.seen }), (∀ m ∈ ms, m ∈ u.members) →
      acc.1.Settled d rank u.name → ms.foldlM (memberStep d u.name) acc = .ok r →
        WalkedAs d ms acc.1 r.1
  | [], acc, r, _, _, walked => by
    cases walked
    exact ⟨[], .nil, rfl, fun x seen => .inl seen⟩
  | m :: ms, acc, r, listed, settled, walked => by
    rw [List.foldlM_cons] at walked
    obtain ⟨mid, stepped, rest⟩ := bind_eq_ok.1 walked
    obtain ⟨xs, first, names, fresh⟩ := step acc mid m (listed m List.mem_cons_self) settled stepped
    -- the names collected only grow, so whatever was covered stays covered
    have grows : ∀ y ∈ acc.1.leaves.map (·.name), y ∈ mid.1.leaves.map (·.name) := by
      intro y held
      rw [names]
      exact mem_foldl_appendNew.2 (.inl held)
    have midSettled : mid.1.Settled d rank u.name := by
      intro x seen
      rcases fresh x seen with old | covered
      · rcases settled x old with below | covered
        · exact .inl below
        · exact .inr (covered.grow grows)
      · exact .inr covered
    obtain ⟨ys, later, names', fresh'⟩ := fold_walkedAs u step ms mid r
      (fun m' inRest => listed m' (List.mem_cons_of_mem _ inRest)) midSettled rest
    refine ⟨xs ++ ys, ?_, ?_, ?_⟩
    · exact first.append later
    · rw [names', names, List.foldl_append]
    · intro x seen
      rcases fresh' x seen with old | covered
      · rcases fresh x old with older | covered
        · exact .inl older
        · refine .inr (covered.grow ?_)
          intro y held
          rw [names']
          exact mem_foldl_appendNew.2 (.inl held)
      · exact .inr covered

include leafNamed unionNamed deeper in
theorem expandUnion_walkedAs : ∀ u st r, (∃ n, d.union? n = some u) →
    st.Settled d rank u.name → expandUnion d u st = .ok r → WalkedAs d u.members st r.1 := by
  intro u st
  induction u, st using expandUnion.induct d with
  | case1 u st entered =>
    intro r found settled walked
    obtain ⟨owner, found⟩ := found
    rw [expandUnion_eq] at walked
    refine fold_walkedAs rank u ?_ u.members ⟨st, List.Subset.refl _⟩ r (fun _ listed => listed)
      settled walked
    intro acc acc' m listed accSettled stepped
    rcases memberStep_ok stepped with ⟨leaf, notUnion, isLeaf, same⟩ |
        ⟨nested, isUnion, notLeaf, seen, same⟩ |
        ⟨nested, inner, isUnion, notLeaf, unseen, innerWalked, same⟩
    · -- a leaf member expands to itself and is appended unless present
      rw [same]
      refine ⟨[m], .singleton (.leaf notUnion), ?_, ?_⟩
      · rw [Expansion.names_addLeaf, leafNamed m leaf isLeaf]
        rfl
      · intro x seenNow
        rw [Expansion.addLeaf_seen] at seenNow
        exact .inl seenNow
    · -- a union seen before ranks above the owner, so it is covered already
      have above := deeper owner u found m listed nested isUnion notLeaf
      rcases accSettled nested.name seen with below | ⟨xs, expands, held⟩
      · omega
      · rw [unionNamed m nested isUnion] at expands
        rw [same]
        exact ⟨xs, .singleton expands, by rw [foldl_appendNew_of_subset held], fun x seenNow => .inl seenNow⟩
    · -- a union not seen yet is walked from a state settled for it
      have above := deeper owner u found m listed nested isUnion notLeaf
      have innerSettled : Expansion.Settled d rank nested.name
          ⟨nested.name :: acc.1.seen, acc.1.leaves⟩ := by
        intro x seenNow
        rcases List.mem_cons.1 seenNow with rfl | older
        · exact .inl (Nat.le_refl _)
        · rcases accSettled x older with below | covered
          · exact .inl (by omega)
          · exact .inr covered
      obtain ⟨xs, members, names, fresh⟩ :=
        entered acc m nested isUnion unseen inner ⟨m, isUnion⟩ innerSettled innerWalked
      have named := unionNamed m nested isUnion
      rw [same]
      refine ⟨xs, .singleton (.union isUnion members), names, ?_⟩
      · intro x seenNow
        rcases fresh x seenNow with old | covered
        · rcases List.mem_cons.1 old with rfl | older
          · -- the union entered is covered by what its walk appended
            refine .inr ⟨xs, .union (named ▸ isUnion) members, fun y listed => ?_⟩
            rw [names]
            exact mem_foldl_appendNew.2 (.inr listed)
          · exact .inl older
        · exact .inr covered

include leafNamed unionNamed deeper in
theorem resolveUnionLeaves_expands {u : UnionNode} {leaves : List LeafNode}
    (found : ∃ n, d.union? n = some u) (resolved : resolveUnionLeaves d u = .ok leaves) :
    ∃ xs, d.SumExpands u.name xs ∧ leaves.map (·.name) = xs.eraseDups := by
  obtain ⟨r, walked, rfl⟩ := resolveUnionLeaves_eq_ok.1 resolved
  have settled : Expansion.Settled d rank u.name ⟨[u.name], []⟩ := by
    intro x seen
    rw [List.mem_singleton.1 seen]
    exact .inl (Nat.le_refl _)
  obtain ⟨xs, members, names, _⟩ :=
    expandUnion_walkedAs rank leafNamed unionNamed deeper u _ r found settled walked
  obtain ⟨n, isUnion⟩ := found
  rw [← unionNamed n u isUnion] at isUnion
  exact ⟨xs, .union isUnion members, names.trans (foldl_appendNew_nil xs)⟩

end Acyclic

end NodeSchema
