import NodeSchema.Resolve.Unions
import NodeSchema.Proofs.Tables

set_option autoImplicit false

/-! What a union walk does with one member, and what every walk keeps. A member found as a
leaf only adds that leaf; one found as a union is entered the first time and skipped after; one
found as both or as neither ends the walk. From these steps: a walk reads its declarations only
through their lookups; its leaves only grow at the end and never repeat a name; every member it
reads is found as exactly one of a union and a leaf; and where each union has members and a
member union always lies deeper than its owner, the walk finds a leaf. -/

namespace NodeSchema

/-- A name found as exactly one of a union and a leaf. -/
def Declarations.FindsOne (d : Declarations) (name : String) : Prop :=
  (∃ u, d.union? name = some u ∧ d.leaf? name = none) ∨
    (∃ l, d.union? name = none ∧ d.leaf? name = some l)

/-! ### Adding a leaf -/

namespace Expansion

variable (st : Expansion) (leaf : LeafNode)

theorem leaves_prefix_addLeaf : st.leaves <+: (st.addLeaf leaf).leaves := by
  unfold addLeaf
  split
  · exact List.prefix_refl _
  · exact List.prefix_append _ _

theorem addLeaf_leaves_ne_nil : (st.addLeaf leaf).leaves ≠ [] := by
  unfold addLeaf
  split
  · rename_i present
    intro empty
    rw [empty] at present
    cases present
  · simp

theorem names_nodup_addLeaf (distinct : (st.leaves.map (·.name)).Nodup) :
    ((st.addLeaf leaf).leaves.map (·.name)).Nodup := by
  unfold addLeaf
  split
  · exact distinct
  · rename_i absent
    rw [List.map_append, List.nodup_append]
    refine ⟨distinct, by simp, ?_⟩
    intro a old b new same
    simp only [List.map_cons, List.map_nil, List.mem_singleton] at new
    subst new same
    simp only [List.any_eq_true, beq_iff_eq, not_exists, not_and] at absent
    obtain ⟨l, member, named⟩ := List.mem_map.1 old
    exact absent l member named

theorem mem_addLeaf {l : LeafNode} (member : l ∈ (st.addLeaf leaf).leaves) :
    l ∈ st.leaves ∨ l = leaf := by
  unfold addLeaf at member
  split at member
  · exact Or.inl member
  · simpa using member

end Expansion

/-! ### One member -/

theorem seen_subset_addLeaf {st : Expansion} (acc : { next : Expansion // st.seen ⊆ next.seen })
    (leaf : LeafNode) : st.seen ⊆ (acc.1.addLeaf leaf).seen := by
  simpa using acc.2

theorem seen_subset_of_entered {st : Expansion} (acc : { next : Expansion // st.seen ⊆ next.seen })
    (nested : UnionNode) {inner : Expansion} (grown : nested.name :: acc.1.seen ⊆ inner.seen) :
    st.seen ⊆ inner.seen :=
  fun _ seen => grown (List.mem_cons_of_mem _ (acc.2 seen))

/-- One member of the union `owner` read by a walk that started from `st`: the step of the fold
`expandUnion` is. -/
def memberStep (d : Declarations) (owner : String) {st : Expansion}
    (acc : { next : Expansion // st.seen ⊆ next.seen }) (member : String) :
    Except ResolveError { next : Expansion // st.seen ⊆ next.seen } :=
  match d.union? member, d.leaf? member with
  | some _, some _ => .error (.ambiguousMember owner member)
  | none, none => .error (.unknownMember owner member)
  | none, some leaf => .ok ⟨acc.1.addLeaf leaf, seen_subset_addLeaf acc leaf⟩
  | some nested, none =>
    if nested.name ∈ acc.1.seen then .ok acc
    else do
      let ⟨inner, grown⟩ ← expandUnion d nested ⟨nested.name :: acc.1.seen, acc.1.leaves⟩
      pure ⟨inner, seen_subset_of_entered acc nested grown⟩

theorem expandUnion_eq (d : Declarations) (u : UnionNode) (st : Expansion) :
    expandUnion d u st = u.members.foldlM (memberStep d u.name) ⟨st, List.Subset.refl _⟩ := by
  rw [expandUnion.eq_1]
  congr 1
  funext acc member
  unfold memberStep
  split
  all_goals rename_i found isLeaf
  all_goals simp only [found, isLeaf]
  split <;> rfl

section Step

variable {d : Declarations} {owner member : String} {st : Expansion}
  {acc acc' : { next : Expansion // st.seen ⊆ next.seen }}

theorem memberStep_ok (stepped : memberStep d owner acc member = .ok acc') :
    (∃ leaf, d.union? member = none ∧ d.leaf? member = some leaf ∧ acc'.1 = acc.1.addLeaf leaf) ∨
    (∃ nested, d.union? member = some nested ∧ d.leaf? member = none ∧
      nested.name ∈ acc.1.seen ∧ acc'.1 = acc.1) ∨
    (∃ nested inner, d.union? member = some nested ∧ d.leaf? member = none ∧
      nested.name ∉ acc.1.seen ∧
      expandUnion d nested ⟨nested.name :: acc.1.seen, acc.1.leaves⟩ = .ok inner ∧
      acc'.1 = inner.1) := by
  unfold memberStep at stepped
  split at stepped
  · cases stepped
  · cases stepped
  · rename_i leaf notUnion isLeaf
    cases stepped
    exact Or.inl ⟨leaf, notUnion, isLeaf, rfl⟩
  · rename_i nested isUnion notLeaf
    split at stepped
    · rename_i seen
      cases stepped
      exact Or.inr (Or.inl ⟨nested, isUnion, notLeaf, seen, rfl⟩)
    · rename_i unseen
      obtain ⟨inner, entered, stored⟩ := bind_eq_ok.1 stepped
      cases stored
      exact Or.inr (Or.inr ⟨nested, inner, isUnion, notLeaf, unseen, entered, rfl⟩)

theorem memberStep_findsOne (stepped : memberStep d owner acc member = .ok acc') :
    d.FindsOne member := by
  rcases memberStep_ok stepped with ⟨leaf, notUnion, isLeaf, _⟩ | ⟨nested, isUnion, notLeaf, _⟩ |
      ⟨nested, _, isUnion, notLeaf, _⟩
  · exact Or.inr ⟨leaf, notUnion, isLeaf⟩
  · exact Or.inl ⟨nested, isUnion, notLeaf⟩
  · exact Or.inl ⟨nested, isUnion, notLeaf⟩

end Step

/-! ### Whole walks -/

section Walk

variable {d : Declarations}

theorem expandUnion_congr {d' : Declarations} (sameUnion : ∀ n, d.union? n = d'.union? n)
    (sameLeaf : ∀ n, d.leaf? n = d'.leaf? n) :
    ∀ u st, expandUnion d u st = expandUnion d' u st := by
  intro u st
  induction u, st using expandUnion.induct d with
  | case1 u st walkedAlike =>
    rw [expandUnion_eq, expandUnion_eq]
    congr 1
    funext acc member
    unfold memberStep
    rw [← sameUnion member, ← sameLeaf member]
    split
    · rfl
    · rfl
    · rfl
    · rename_i nested isUnion _
      split
      · rfl
      · rename_i unseen
        rw [walkedAlike acc member nested isUnion unseen]

theorem resolveUnionLeaves_congr {d' : Declarations} (sameUnion : ∀ n, d.union? n = d'.union? n)
    (sameLeaf : ∀ n, d.leaf? n = d'.leaf? n) (u : UnionNode) :
    resolveUnionLeaves d u = resolveUnionLeaves d' u := by
  unfold resolveUnionLeaves
  rw [expandUnion_congr sameUnion sameLeaf]

theorem expandUnion_keeps (inv : Expansion → Prop)
    (onLeaf : ∀ st member leaf, d.union? member = none → d.leaf? member = some leaf →
      inv st → inv (st.addLeaf leaf))
    (onEnter : ∀ (st : Expansion) member nested, d.union? member = some nested →
      d.leaf? member = none → nested.name ∉ st.seen → inv st →
        inv ⟨nested.name :: st.seen, st.leaves⟩) :
    ∀ u st r, inv st → expandUnion d u st = .ok r → inv r.1 := by
  intro u st
  induction u, st using expandUnion.induct d with
  | case1 u st nestedKeeps =>
    intro r holds walked
    rw [expandUnion_eq] at walked
    refine foldlM_keeps (fun acc => inv acc.1) (memberStep d u.name) ?_ u.members _ r holds walked
    intro acc member acc' before stepped
    rcases memberStep_ok stepped with ⟨leaf, notUnion, isLeaf, same⟩ | ⟨_, _, _, _, same⟩ |
        ⟨nested, inner, isUnion, notLeaf, unseen, entered, same⟩
    · rw [same]
      exact onLeaf _ member leaf notUnion isLeaf before
    · rw [same]
      exact before
    · rw [same]
      exact nestedKeeps acc member nested isUnion unseen inner
        (onEnter _ member nested isUnion notLeaf unseen before) entered

section Kept

variable {u : UnionNode} {st : Expansion} {r : { next : Expansion // st.seen ⊆ next.seen }}

theorem expandUnion_leaves_grow (walked : expandUnion d u st = .ok r) : st.leaves <+: r.1.leaves :=
  expandUnion_keeps (fun st' : Expansion => st.leaves <+: st'.leaves)
    (fun st' _ leaf _ _ before => before.trans (st'.leaves_prefix_addLeaf leaf))
    (fun _ _ _ _ _ _ before => before) u st r (List.prefix_refl _) walked

theorem expandUnion_names_nodup (distinct : (st.leaves.map (·.name)).Nodup)
    (walked : expandUnion d u st = .ok r) : (r.1.leaves.map (·.name)).Nodup :=
  expandUnion_keeps (fun st' : Expansion => (st'.leaves.map fun l : LeafNode => l.name).Nodup)
    (fun st' _ leaf _ _ before => st'.names_nodup_addLeaf leaf before)
    (fun _ _ _ _ _ _ before => before) u st r distinct walked

theorem expandUnion_leaves_found
    (found : ∀ l ∈ st.leaves, ∃ m, d.union? m = none ∧ d.leaf? m = some l)
    (walked : expandUnion d u st = .ok r) :
    ∀ l ∈ r.1.leaves, ∃ m, d.union? m = none ∧ d.leaf? m = some l :=
  expandUnion_keeps
    (fun st' : Expansion => ∀ l ∈ st'.leaves, ∃ m, d.union? m = none ∧ d.leaf? m = some l)
    (fun st' member leaf notUnion isLeaf before l added => by
      rcases st'.mem_addLeaf leaf added with old | rfl
      · exact before l old
      · exact ⟨member, notUnion, isLeaf⟩)
    (fun _ _ _ _ _ _ before => before) u st r found walked

theorem expandUnion_findsOne (walked : expandUnion d u st = .ok r) :
    ∀ m ∈ u.members, d.FindsOne m := by
  rw [expandUnion_eq] at walked
  intro m listed
  obtain ⟨acc, acc', stepped⟩ := foldlM_ok_each walked m listed
  exact memberStep_findsOne stepped

end Kept

theorem memberStep_leaves_grow {owner member : String} {st : Expansion}
    {acc acc' : { next : Expansion // st.seen ⊆ next.seen }}
    (stepped : memberStep d owner acc member = .ok acc') : acc.1.leaves <+: acc'.1.leaves := by
  rcases memberStep_ok stepped with ⟨leaf, _, _, same⟩ | ⟨_, _, _, _, same⟩ |
      ⟨_, inner, _, _, _, entered, same⟩
  · rw [same]
    exact acc.1.leaves_prefix_addLeaf leaf
  · exact same ▸ List.prefix_refl _
  · rw [same]
    exact expandUnion_leaves_grow entered

private theorem ne_nil_of_grows {α : Type} {l l' : List α} (before : l <+: l') (filled : l ≠ []) :
    l' ≠ [] := by
  obtain ⟨t, rfl⟩ := before
  exact List.append_ne_nil_of_left_ne_nil filled t

theorem expandUnion_leaves_ne_nil (rank : String → Nat)
    (filled : ∀ n u, d.union? n = some u → u.members ≠ [])
    (deeper : ∀ n u, d.union? n = some u → ∀ m ∈ u.members, ∀ nested,
      d.union? m = some nested → d.leaf? m = none → rank u.name < rank nested.name) :
    ∀ u st r, (∃ n, d.union? n = some u) → (∀ x ∈ st.seen, rank x ≤ rank u.name) →
      expandUnion d u st = .ok r → r.1.leaves ≠ [] := by
  intro u st
  induction u, st using expandUnion.induct d with
  | case1 u st nestedFills =>
    intro r ⟨n, found⟩ below walked
    rw [expandUnion_eq] at walked
    obtain ⟨first, rest, members⟩ := List.exists_cons_of_ne_nil (filled n u found)
    have firstListed : first ∈ u.members := by rw [members]; exact List.mem_cons_self
    rw [members, List.foldlM_cons] at walked
    obtain ⟨acc, stepped, later⟩ := bind_eq_ok.1 walked
    have grows : acc.1.leaves <+: r.1.leaves :=
      foldlM_keeps (fun a => acc.1.leaves <+: a.1.leaves) (memberStep d u.name)
        (fun _ _ _ before stepped => before.trans (memberStep_leaves_grow stepped))
        rest acc r (List.prefix_refl _) later
    refine ne_nil_of_grows grows ?_
    rcases memberStep_ok stepped with ⟨leaf, _, _, same⟩ | ⟨nested, isUnion, notLeaf, seen, _⟩ |
        ⟨nested, inner, isUnion, notLeaf, unseen, entered, same⟩
    · rw [same]
      exact Expansion.addLeaf_leaves_ne_nil _ leaf
    · -- a union ranked above the owner cannot be among the unions seen, which rank no higher
      have above := deeper n u found first firstListed nested isUnion notLeaf
      have notAbove := below nested.name seen
      omega
    · have above := deeper n u found first firstListed nested isUnion notLeaf
      have innerBelow : ∀ x ∈ nested.name :: st.seen, rank x ≤ rank nested.name := by
        intro x seenNow
        rcases List.mem_cons.1 seenNow with rfl | earlier
        · exact Nat.le_refl _
        · have := below x earlier
          omega
      rw [same]
      exact nestedFills _ first nested isUnion unseen inner ⟨first, isUnion⟩ innerBelow entered

end Walk

/-! ### The leaves of a union -/

section Leaves

variable {d : Declarations} {u : UnionNode} {leaves : List LeafNode}

theorem resolveUnionLeaves_eq_ok :
    resolveUnionLeaves d u = .ok leaves ↔
      ∃ r, expandUnion d u ⟨[u.name], []⟩ = .ok r ∧ r.1.leaves = leaves := by
  unfold resolveUnionLeaves
  cases expandUnion d u ⟨[u.name], []⟩ with
  | error e => simp [bind, Except.bind]
  | ok r => simp [bind, Except.bind, pure, Except.pure]

theorem resolveUnionLeaves_names_nodup (resolved : resolveUnionLeaves d u = .ok leaves) :
    (leaves.map (·.name)).Nodup := by
  obtain ⟨r, walked, rfl⟩ := resolveUnionLeaves_eq_ok.1 resolved
  exact expandUnion_names_nodup List.nodup_nil walked

theorem resolveUnionLeaves_found (resolved : resolveUnionLeaves d u = .ok leaves) :
    ∀ l ∈ leaves, ∃ m, d.union? m = none ∧ d.leaf? m = some l := by
  obtain ⟨r, walked, rfl⟩ := resolveUnionLeaves_eq_ok.1 resolved
  exact expandUnion_leaves_found (by simp) walked

theorem resolveUnionLeaves_findsOne (resolved : resolveUnionLeaves d u = .ok leaves) :
    ∀ m ∈ u.members, d.FindsOne m := by
  obtain ⟨r, walked, _⟩ := resolveUnionLeaves_eq_ok.1 resolved
  exact expandUnion_findsOne walked

theorem resolveUnionLeaves_ne_nil (rank : String → Nat)
    (filled : ∀ n u, d.union? n = some u → u.members ≠ [])
    (deeper : ∀ n u, d.union? n = some u → ∀ m ∈ u.members, ∀ nested,
      d.union? m = some nested → d.leaf? m = none → rank u.name < rank nested.name)
    (found : ∃ n, d.union? n = some u) (resolved : resolveUnionLeaves d u = .ok leaves) :
    leaves ≠ [] := by
  obtain ⟨r, walked, rfl⟩ := resolveUnionLeaves_eq_ok.1 resolved
  exact expandUnion_leaves_ne_nil rank filled deeper u _ r found (by simp) walked

end Leaves

end NodeSchema
