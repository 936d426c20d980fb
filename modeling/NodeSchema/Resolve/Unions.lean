import NodeSchema.Resolve.Declarations
import NodeSchema.Error

set_option autoImplicit false
-- the hypotheses named in matches below are used only by the termination proofs
set_option linter.unusedVariables false

/-! Flattening a union into the leaves it sums. Members are read in order: a nested union is
flattened in place, a leaf is added unless a leaf of that name was added already, and a member
that names both a union and a leaf, or neither, is a fault. A union already flattened during
this walk is not entered again, so each union contributes once and a cycle of unions ends.
Excluded members are not followed.

The walk ends because a nested union is entered only when its name is listed by the
declarations and not yet seen; the seen list only grows, which the result records. -/

namespace NodeSchema

/-- The state of a union walk: the unions entered so far and the leaves found, in order of
first appearance. -/
structure Expansion where
  seen : List String
  leaves : List LeafNode
  deriving Repr

def Expansion.addLeaf (st : Expansion) (leaf : LeafNode) : Expansion :=
  if st.leaves.any (·.name == leaf.name) then st else { st with leaves := st.leaves ++ [leaf] }

@[simp]
theorem Expansion.addLeaf_seen (st : Expansion) (leaf : LeafNode) : (st.addLeaf leaf).seen = st.seen := by
  unfold addLeaf; split <;> rfl

/-- Flattens the members of a union already marked as seen, in order. -/
def expandUnion (d : Declarations) (u : UnionNode) (st : Expansion) :
    Except ResolveError { next : Expansion // st.seen ⊆ next.seen } :=
  u.members.foldlM (fun acc member =>
    match found : d.union? member, d.leaf? member with
    | some _, some _ => .error (.ambiguousMember u.name member)
    | none, none => .error (.unknownMember u.name member)
    | none, some leaf => .ok ⟨acc.1.addLeaf leaf, by simpa using acc.2⟩
    | some nested, none =>
      if fresh : nested.name ∈ acc.1.seen then .ok acc
      else do
        let ⟨inner, grown⟩ ← expandUnion d nested ⟨nested.name :: acc.1.seen, acc.1.leaves⟩
        pure ⟨inner, fun x h => grown (List.mem_cons_of_mem _ (acc.2 h))⟩)
    ⟨st, List.Subset.refl _⟩
termination_by d.unseenUnions st.seen
decreasing_by
  exact Nat.lt_of_lt_of_le (countP_not_mem_cons_lt (d.union?_mem found) fresh)
    (countP_not_mem_le _ acc.2)

/-- The leaves a union sums, each once, in order of first appearance. -/
def resolveUnionLeaves (d : Declarations) (u : UnionNode) : Except ResolveError (List LeafNode) := do
  let ⟨st, _⟩ ← expandUnion d u ⟨[u.name], []⟩
  pure st.leaves

end NodeSchema
