import Mathlib.Logic.Relation
import NodeSchema.Proofs.Resolve.Unions

set_option autoImplicit false

/-! The naive unfolding of a union: its members in order, a member that names only a union
replaced by the unfolding of that union's members, a member that names only a leaf by the
leaf, and the first member that names both or neither ending the unfolding with its fault. It
keeps no memory of the unions it unfolded, so a union reached twice contributes twice.

Main statement: where no union reachable from `u` reaches itself through its members, the
walk of `resolveUnionLeaves` is this unfolding with its later repeats (by leaf name) removed,
fault for fault. The walk enters a union only once; when it meets one it entered before,
that union is not one it is still inside (that would be a cycle), so the walk finished it and
every leaf it would add is already listed. -/

namespace NodeSchema

/-- Leaves with each one whose name is `taken` or on an earlier leaf left out. -/
def keepFirstNamed (taken : List String) : List LeafNode → List LeafNode
  | [] => []
  | l :: ls =>
    if l.name ∈ taken then keepFirstNamed taken ls else l :: keepFirstNamed (taken ++ [l.name]) ls

theorem keepFirstNamed_cons (taken : List String) (l : LeafNode) (ls : List LeafNode) :
    keepFirstNamed taken (l :: ls) =
      if l.name ∈ taken then keepFirstNamed taken ls else l :: keepFirstNamed (taken ++ [l.name]) ls :=
  rfl

namespace Declarations

/-- The naive unfolding of the members `ms` of the union named `owner`. -/
inductive Unfolds (d : Declarations) : String → List String → Except ResolveError (List LeafNode) → Prop
  | nil {owner : String} : Unfolds d owner [] (.ok [])
  | ambiguous {owner m : String} {ms : List String} {w : UnionNode} {l : LeafNode} :
      d.union? m = some w → d.leaf? m = some l →
      Unfolds d owner (m :: ms) (.error (.ambiguousMember owner m))
  | unknown {owner m : String} {ms : List String} :
      d.union? m = none → d.leaf? m = none → Unfolds d owner (m :: ms) (.error (.unknownMember owner m))
  | leaf {owner m : String} {ms : List String} {l : LeafNode} {r : Except ResolveError (List LeafNode)} :
      d.union? m = none → d.leaf? m = some l → Unfolds d owner ms r →
      Unfolds d owner (m :: ms) (r.map (l :: ·))
  | nestedError {owner m : String} {ms : List String} {w : UnionNode} {e : ResolveError} :
      d.union? m = some w → d.leaf? m = none → Unfolds d w.name w.members (.error e) →
      Unfolds d owner (m :: ms) (.error e)
  | nested {owner m : String} {ms : List String} {w : UnionNode} {xs : List LeafNode}
      {r : Except ResolveError (List LeafNode)} :
      d.union? m = some w → d.leaf? m = none → Unfolds d w.name w.members (.ok xs) →
      Unfolds d owner ms r → Unfolds d owner (m :: ms) (r.map (xs ++ ·))

/-- A member of `v` names the union `w` and no leaf: the walk enters `w` from `v`. -/
def Nests (d : Declarations) (v w : UnionNode) : Prop :=
  ∃ m ∈ v.members, d.union? m = some w ∧ d.leaf? m = none

variable {d : Declarations}

/-- No union but `a` itself is found under the name of `a`. -/
def Unshadowed (d : Declarations) (a : UnionNode) : Prop :=
  d.union? a.name = none ∨ d.union? a.name = some a

theorem Unfolds.unique {owner : String} {ms : List String} {r r' : Except ResolveError (List LeafNode)}
    (first : d.Unfolds owner ms r) (second : d.Unfolds owner ms r') : r = r' := by
  induction first generalizing r' with
  | nil => cases second; rfl
  | ambiguous isUnion isLeaf =>
    cases second <;> simp_all
  | unknown notUnion notLeaf =>
    cases second <;> simp_all
  | leaf notUnion isLeaf _ ih =>
    cases second with
    | leaf _ isLeaf' rest =>
      rw [isLeaf] at isLeaf'
      cases isLeaf'
      rw [ih rest]
    | _ => simp_all
  | nestedError isUnion notLeaf _ ih =>
    cases second with
    | ambiguous _ isLeaf' => simp_all
    | unknown notUnion' => simp_all
    | leaf notUnion' => simp_all
    | nestedError isUnion' _ inner => exact ih (by simp_all)
    | nested isUnion' _ inner _ =>
      rw [isUnion] at isUnion'
      cases isUnion'
      cases ih inner
  | nested isUnion notLeaf _ _ ihInner ihRest =>
    cases second with
    | ambiguous _ isLeaf' => simp_all
    | unknown notUnion' => simp_all
    | leaf notUnion' => simp_all
    | nestedError isUnion' _ inner =>
      rw [isUnion] at isUnion'
      cases isUnion'
      cases ihInner inner
    | nested isUnion' _ inner rest =>
      rw [isUnion] at isUnion'
      cases isUnion'
      cases ihInner inner
      rw [ihRest rest]

end Declarations

end NodeSchema

namespace NodeSchema

/-! ### Adding leaves one by one -/

namespace Expansion

theorem foldl_addLeaf_leaves : ∀ (xs : List LeafNode) (st : Expansion),
    (xs.foldl addLeaf st).leaves = st.leaves ++ keepFirstNamed (st.leaves.map (·.name)) xs
  | [], st => by simp [keepFirstNamed]
  | l :: ls, st => by
    rw [List.foldl_cons, foldl_addLeaf_leaves ls, keepFirstNamed_cons]
    unfold addLeaf
    by_cases present : l.name ∈ st.leaves.map (·.name)
    · have found : st.leaves.any (·.name == l.name) = true := by simpa using present
      rw [if_pos found, if_pos present]
    · have missing : st.leaves.any (·.name == l.name) = false := by simpa using present
      rw [if_neg (by simp [missing]), if_neg present]
      simp

theorem foldl_addLeaf_seen : ∀ (xs : List LeafNode) (st : Expansion), (xs.foldl addLeaf st).seen = st.seen
  | [], _ => rfl
  | l :: ls, st => by rw [List.foldl_cons, foldl_addLeaf_seen ls, addLeaf_seen]

theorem foldl_addLeaf_congr (xs : List LeafNode) {st st' : Expansion} (same : st.leaves = st'.leaves) :
    (xs.foldl addLeaf st).leaves = (xs.foldl addLeaf st').leaves := by
  rw [foldl_addLeaf_leaves, foldl_addLeaf_leaves, same]

theorem foldl_addLeaf_of_listed {xs : List LeafNode} {st : Expansion}
    (listed : ∀ l ∈ xs, l.name ∈ st.leaves.map (·.name)) : xs.foldl addLeaf st = st := by
  induction xs with
  | nil => rfl
  | cons l ls ih =>
    have present : st.leaves.any (·.name == l.name) = true := by
      simpa using listed l List.mem_cons_self
    rw [List.foldl_cons, show st.addLeaf l = st by simp [addLeaf, present]]
    exact ih fun l' later => listed l' (List.mem_cons_of_mem _ later)

theorem name_mem_addLeaf (st : Expansion) (l : LeafNode) : l.name ∈ (st.addLeaf l).leaves.map (·.name) := by
  unfold addLeaf
  split
  · rename_i present
    simpa using present
  · simp

theorem leaves_prefix_foldl_addLeaf (xs : List LeafNode) (st : Expansion) :
    st.leaves <+: (xs.foldl addLeaf st).leaves := by
  rw [foldl_addLeaf_leaves]
  exact List.prefix_append _ _

theorem name_mem_foldl_addLeaf {xs : List LeafNode} {l : LeafNode} (st : Expansion) (added : l ∈ xs) :
    l.name ∈ (xs.foldl addLeaf st).leaves.map (·.name) := by
  induction xs generalizing st with
  | nil => cases added
  | cons l' ls ih =>
    rw [List.foldl_cons]
    rcases List.mem_cons.1 added with rfl | later
    · exact ((leaves_prefix_foldl_addLeaf ls _).map _).subset (name_mem_addLeaf st l)
    · exact ih _ later

end Expansion

/-! ### The walk against the unfolding -/

namespace Expansion

variable {d : Declarations}

/-- The union found under `x` was walked to its end: its unfolding succeeds and every leaf of
it is listed. -/
def Finished (d : Declarations) (st : Expansion) (x : String) : Prop :=
  ∃ w xs, d.union? x = some w ∧ d.Unfolds w.name w.members (.ok xs) ∧
    ∀ l ∈ xs, l.name ∈ st.leaves.map (·.name)

/-- While `v` is walked, every union seen is one the walk is still inside of (one from which `v`
is reached) or a finished one. -/
def Ready (d : Declarations) (v : UnionNode) (st : Expansion) : Prop :=
  ∀ x ∈ st.seen,
    (∃ a, a.name = x ∧ d.Unshadowed a ∧ Relation.ReflTransGen d.Nests a v) ∨ st.Finished d x

/-- A walk's result against an unfolding from `st`: the same fault, or the leaves of `st`
followed by those of the unfolding not listed yet, with every union seen anew finished. -/
def Agrees (d : Declarations) (st : Expansion) :
    Except ResolveError Expansion → Except ResolveError (List LeafNode) → Prop
  | .error e, r => r = .error e
  | .ok st', r => ∃ xs, r = .ok xs ∧ st'.leaves = (xs.foldl addLeaf st).leaves ∧
      ∀ x ∈ st'.seen, x ∈ st.seen ∨ st'.Finished d x

theorem Finished.grow {st st' : Expansion} {x : String} (finished : st.Finished d x)
    (grows : st.leaves <+: st'.leaves) : st'.Finished d x := by
  obtain ⟨w, xs, found, unfolds, listed⟩ := finished
  exact ⟨w, xs, found, unfolds, fun l added => (grows.map _).subset (listed l added)⟩

section Agreement

variable {st : Expansion} {res : Except ResolveError Expansion} {r : Except ResolveError (List LeafNode)}

theorem Agrees.addLeaf {l : LeafNode} (agrees : (st.addLeaf l).Agrees d res r) :
    st.Agrees d res (r.map (l :: ·)) := by
  cases res with
  | error e =>
    change r = .error e at agrees
    rw [agrees]
    rfl
  | ok st' =>
    obtain ⟨xs, rfl, leaves, seen⟩ := agrees
    refine ⟨l :: xs, rfl, leaves, ?_⟩
    simpa only [addLeaf_seen] using seen

theorem Agrees.skip {xs : List LeafNode} (listed : ∀ l ∈ xs, l.name ∈ st.leaves.map (·.name))
    (agrees : st.Agrees d res r) : st.Agrees d res (r.map (xs ++ ·)) := by
  cases res with
  | error e =>
    change r = .error e at agrees
    rw [agrees]
    rfl
  | ok st' =>
    obtain ⟨ys, rfl, leaves, seen⟩ := agrees
    refine ⟨xs ++ ys, rfl, ?_, seen⟩
    rw [List.foldl_append, foldl_addLeaf_of_listed listed, leaves]

theorem Agrees.leaves_prefix {st' : Expansion} {xs : List LeafNode}
    (walked : st.Agrees d (.ok st') (.ok xs)) : st.leaves <+: st'.leaves := by
  obtain ⟨_, _, leaves, _⟩ := walked
  rw [leaves]
  exact leaves_prefix_foldl_addLeaf _ _

theorem Agrees.finished {w : UnionNode} {inner : Expansion} {xs : List LeafNode}
    (found : d.union? w.name = some w) (unfolds : d.Unfolds w.name w.members (.ok xs))
    (walked : Agrees d ⟨w.name :: st.seen, st.leaves⟩ (.ok inner) (.ok xs)) :
    inner.Finished d w.name := by
  obtain ⟨_, same, leaves, _⟩ := walked
  cases same
  refine ⟨w, xs, found, unfolds, fun l added => ?_⟩
  rw [leaves]
  exact name_mem_foldl_addLeaf _ added

theorem Agrees.enter {w : UnionNode} {inner : Expansion} {xs : List LeafNode}
    (found : d.union? w.name = some w) (unfolds : d.Unfolds w.name w.members (.ok xs))
    (walked : Agrees d ⟨w.name :: st.seen, st.leaves⟩ (.ok inner) (.ok xs))
    (agrees : inner.Agrees d res r) : st.Agrees d res (r.map (xs ++ ·)) := by
  have innerFinished := walked.finished found unfolds
  obtain ⟨_, same, innerLeaves, innerSeen⟩ := walked
  cases same
  cases res with
  | error e =>
    change r = .error e at agrees
    rw [agrees]
    rfl
  | ok st' =>
    obtain ⟨ys, rfl, leaves, seen⟩ := agrees
    have grows : inner.leaves <+: st'.leaves := by
      rw [leaves]
      exact leaves_prefix_foldl_addLeaf ys inner
    refine ⟨xs ++ ys, rfl, ?_, ?_⟩
    · rw [leaves, List.foldl_append]
      exact foldl_addLeaf_congr ys (innerLeaves.trans (foldl_addLeaf_congr xs rfl))
    · intro x seenNow
      rcases seen x seenNow with old | finished
      · rcases innerSeen x old with older | finished
        · rcases List.mem_cons.1 older with rfl | oldest
          · exact .inr (innerFinished.grow grows)
          · exact .inl oldest
        · exact .inr (finished.grow grows)
      · exact .inr finished

end Agreement

section Readiness

variable {v w : UnionNode} {st : Expansion}

theorem Ready.addLeaf (ready : st.Ready d v) (l : LeafNode) : (st.addLeaf l).Ready d v := by
  intro x seen
  rw [addLeaf_seen] at seen
  rcases ready x seen with inside | finished
  · exact .inl inside
  · exact .inr (finished.grow (leaves_prefix_addLeaf st l))

theorem Ready.enter (ready : st.Ready d v) (found : d.union? w.name = some w) (nests : d.Nests v w) :
    Expansion.Ready d w ⟨w.name :: st.seen, st.leaves⟩ := by
  intro x seen
  rcases List.mem_cons.1 seen with rfl | older
  · exact .inl ⟨w, rfl, .inr found, .refl⟩
  · rcases ready x older with ⟨a, named, unshadowed, reaches⟩ | finished
    · exact .inl ⟨a, named, unshadowed, reaches.tail nests⟩
    · exact .inr finished

theorem Ready.resume {inner : Expansion} {xs : List LeafNode} (ready : st.Ready d v)
    (found : d.union? w.name = some w) (unfolds : d.Unfolds w.name w.members (.ok xs))
    (walked : Agrees d ⟨w.name :: st.seen, st.leaves⟩ (.ok inner) (.ok xs)) : inner.Ready d v := by
  have innerFinished := walked.finished found unfolds
  have grows := walked.leaves_prefix
  obtain ⟨_, _, _, innerSeen⟩ := walked
  intro x seen
  rcases innerSeen x seen with older | finished
  · rcases List.mem_cons.1 older with rfl | oldest
    · exact .inr innerFinished
    · rcases ready x oldest with inside | finished
      · exact .inl inside
      · exact .inr (finished.grow grows)
  · exact .inr finished

theorem Ready.finished_of_seen {u : UnionNode}
    (acyclic : ∀ w, Relation.ReflTransGen d.Nests u w → ¬Relation.TransGen d.Nests w w)
    (reach : Relation.ReflTransGen d.Nests u v) (ready : st.Ready d v) (nests : d.Nests v w)
    (found : d.union? w.name = some w) (seen : w.name ∈ st.seen) :
    ∃ xs, d.Unfolds w.name w.members (.ok xs) ∧ ∀ l ∈ xs, l.name ∈ st.leaves.map (·.name) := by
  rcases ready w.name seen with ⟨a, named, unshadowed, reaches⟩ | ⟨w', xs, found', unfolds, listed⟩
  · -- the union the walk is inside of under that name is `w` itself
    have same : a = w := by
      rcases unshadowed with absent | present
      · rw [named, found] at absent
        cases absent
      · rw [named, found] at present
        cases present
        rfl
    subst same
    exact absurd (Relation.TransGen.tail' reaches nests) (acyclic a (reach.tail nests))
  · rw [found] at found'
    cases found'
    exact ⟨xs, unfolds, listed⟩

end Readiness

end Expansion

/-! ### Acyclic member graphs -/

namespace Declarations

variable {d : Declarations} {u : UnionNode}

theorem reached_found {v : UnionNode} (reach : Relation.ReflTransGen d.Nests u v) :
    v = u ∨ ∃ n, d.union? n = some v := by
  cases reach with
  | refl => exact .inl rfl
  | tail _ nests =>
    obtain ⟨m, _, found, _⟩ := nests
    exact .inr ⟨m, found⟩

theorem acyclic_of_rank (rank : UnionNode → Nat)
    (rises : ∀ v w, Relation.ReflTransGen d.Nests u v → d.Nests v w → rank v < rank w) :
    ∀ w, Relation.ReflTransGen d.Nests u w → ¬Relation.TransGen d.Nests w w := by
  intro w reach cycle
  -- along a path from `w` the rank only rises, so the path cannot come back to `w`
  have climbs : ∀ x, Relation.TransGen d.Nests w x → rank w < rank x := by
    intro x path
    induction path with
    | single nests => exact rises _ _ reach nests
    | tail path nests ih =>
      exact Nat.lt_trans ih (rises _ _ (reach.trans path.to_reflTransGen) nests)
  exact Nat.lt_irrefl _ (climbs w cycle)

end Declarations

/-! ### Whole walks -/

section Walk

variable {d : Declarations} {u : UnionNode}
  (named : ∀ n w, d.union? n = some w → w.name = n)
  (acyclic : ∀ w, Relation.ReflTransGen d.Nests u w → ¬Relation.TransGen d.Nests w w)

include named acyclic in
theorem members_agree {v : UnionNode} {st : Expansion} (reach : Relation.ReflTransGen d.Nests u v)
    (entered : ∀ (acc : { next : Expansion // st.seen ⊆ next.seen }) (m : String) (w : UnionNode),
      d.union? m = some w → w.name ∉ acc.1.seen → Relation.ReflTransGen d.Nests u w →
      Expansion.Ready d w ⟨w.name :: acc.1.seen, acc.1.leaves⟩ →
      ∃ rw, d.Unfolds w.name w.members rw ∧ Expansion.Agrees d ⟨w.name :: acc.1.seen, acc.1.leaves⟩
        ((expandUnion d w ⟨w.name :: acc.1.seen, acc.1.leaves⟩).map Subtype.val) rw) :
    ∀ (ms : List String) (acc : { next : Expansion // st.seen ⊆ next.seen }), (∀ m ∈ ms, m ∈ v.members) →
      acc.1.Ready d v →
        ∃ r, d.Unfolds v.name ms r ∧ acc.1.Agrees d ((ms.foldlM (memberStep d v.name) acc).map Subtype.val) r
  | [], acc, _, _ => ⟨.ok [], .nil, [], rfl, rfl, fun _ seen => .inl seen⟩
  | m :: ms, acc, listed, ready => by
    have here : m ∈ v.members := listed m List.mem_cons_self
    have later : ∀ m' ∈ ms, m' ∈ v.members := fun m' inRest => listed m' (List.mem_cons_of_mem _ inRest)
    rw [List.foldlM_cons]
    cases isUnion : d.union? m with
    | none =>
      cases isLeaf : d.leaf? m with
      | none =>
        refine ⟨_, .unknown isUnion isLeaf, ?_⟩
        simp only [memberStep, isUnion, isLeaf]
        rfl
      | some l =>
        obtain ⟨r, unfolds, agrees⟩ := members_agree reach entered ms
          ⟨acc.1.addLeaf l, seen_subset_addLeaf acc l⟩ later (ready.addLeaf l)
        refine ⟨_, .leaf isUnion isLeaf unfolds, ?_⟩
        simp only [memberStep, isUnion, isLeaf]
        exact agrees.addLeaf
    | some w =>
      cases isLeaf : d.leaf? m with
      | some l =>
        refine ⟨_, .ambiguous isUnion isLeaf, ?_⟩
        simp only [memberStep, isUnion, isLeaf]
        rfl
      | none =>
        have nests : d.Nests v w := ⟨m, here, isUnion, isLeaf⟩
        have found : d.union? w.name = some w := by
          rw [named m w isUnion]
          exact isUnion
        by_cases seen : w.name ∈ acc.1.seen
        · -- met again: finished, so its leaves are listed already
          obtain ⟨xs, unfoldsW, listedW⟩ := ready.finished_of_seen acyclic reach nests found seen
          obtain ⟨r, unfolds, agrees⟩ := members_agree reach entered ms acc later ready
          refine ⟨_, .nested isUnion isLeaf unfoldsW unfolds, ?_⟩
          simp only [memberStep, isUnion, isLeaf, if_pos seen]
          exact agrees.skip listedW
        · obtain ⟨rw, unfoldsW, walked⟩ :=
            entered acc m w isUnion seen (reach.tail nests) (ready.enter found nests)
          simp only [memberStep, isUnion, isLeaf, if_neg seen]
          cases inner : expandUnion d w ⟨w.name :: acc.1.seen, acc.1.leaves⟩ with
          | error e =>
            rw [inner] at walked
            change rw = .error e at walked
            subst walked
            exact ⟨_, .nestedError isUnion isLeaf unfoldsW, rfl⟩
          | ok innerSt =>
            obtain ⟨innerSt, grown⟩ := innerSt
            rw [inner] at walked
            change Expansion.Agrees d _ (.ok innerSt) rw at walked
            obtain ⟨xs, same, -⟩ := id walked
            subst same
            obtain ⟨r, unfolds, agrees⟩ := members_agree reach entered ms
              ⟨innerSt, seen_subset_of_entered acc w grown⟩ later (ready.resume found unfoldsW walked)
            exact ⟨_, .nested isUnion isLeaf unfoldsW unfolds, .enter found unfoldsW walked agrees⟩

include named acyclic in
theorem expandUnion_agrees : ∀ (v : UnionNode) (st : Expansion), Relation.ReflTransGen d.Nests u v → st.Ready d v →
    ∃ r, d.Unfolds v.name v.members r ∧ st.Agrees d ((expandUnion d v st).map Subtype.val) r := by
  intro v st
  induction v, st using expandUnion.induct d with
  | case1 v st entered =>
    intro reach ready
    rw [expandUnion_eq]
    exact members_agree named acyclic reach
      (fun acc m w isUnion unseen reachW readyW => entered acc m w isUnion unseen reachW readyW)
      v.members ⟨st, List.Subset.refl _⟩ (fun _ listed => listed) ready

theorem resolveUnionLeaves_eq_map (u : UnionNode) :
    resolveUnionLeaves d u = (expandUnion d u ⟨[u.name], []⟩).map (·.1.leaves) := by
  unfold resolveUnionLeaves
  cases expandUnion d u ⟨[u.name], []⟩ <;> rfl

include named acyclic in
/-- Where every union is found under its own name, no other union is found under the name of
`u`, and no union reachable from `u` through members naming only a union reaches itself, the
naive unfolding of `u` exists, and flattening `u` gives exactly it with the later repeats of a
leaf name removed: the same fault, or the same leaves in order of first appearance. -/
theorem resolveUnionLeaves_eq_unfolding (unshadowed : d.Unshadowed u) :
    (∃ r, d.Unfolds u.name u.members r) ∧
      ∀ r, d.Unfolds u.name u.members r → resolveUnionLeaves d u = r.map (keepFirstNamed []) := by
  have start : Expansion.Ready d u ⟨[u.name], []⟩ := by
    intro x seen
    rw [List.mem_singleton.1 seen]
    exact .inl ⟨u, rfl, unshadowed, .refl⟩
  obtain ⟨r, unfolds, agrees⟩ := expandUnion_agrees named acyclic u _ .refl start
  refine ⟨⟨r, unfolds⟩, fun r' unfolds' => ?_⟩
  rw [← unfolds.unique unfolds', resolveUnionLeaves_eq_map]
  cases walked : expandUnion d u ⟨[u.name], []⟩ with
  | error e =>
    rw [walked] at agrees
    change r = .error e at agrees
    rw [agrees]
    rfl
  | ok st =>
    rw [walked] at agrees
    obtain ⟨xs, rfl, leaves, -⟩ := agrees
    change Except.ok st.1.leaves = Except.ok (keepFirstNamed [] xs)
    rw [leaves, Expansion.foldl_addLeaf_leaves]
    rfl

end Walk

/-! ### A shared union -/

/-- A leaf without bases or fields, tagged with its name. -/
def plainLeaf (name : String) : LeafNode :=
  { name, bases := [], fields := .empty, tag := name, enclosingUnion := none, rootUnion := name }

/-- Four unions over three leaves: `A` sums `B` and `C`, and both of them sum `D`. -/
def diamondUnion? : String → Option UnionNode
  | "A" => some ⟨"A", ["B", "C"], []⟩
  | "B" => some ⟨"B", ["D", "x"], []⟩
  | "C" => some ⟨"C", ["y", "D"], []⟩
  | "D" => some ⟨"D", ["z", "x"], []⟩
  | _ => none

def diamondLeaf? : String → Option LeafNode
  | "x" => some (plainLeaf "x")
  | "y" => some (plainLeaf "y")
  | "z" => some (plainLeaf "z")
  | _ => none

def diamond : Declarations where
  base? _ := none
  leaf? := diamondLeaf?
  union? := diamondUnion?
  baseNames := []
  unionNames := ["A", "B", "C", "D"]
  base?_mem := by
    intro _ _ found
    cases found
  union?_mem := by
    intro name u found
    unfold diamondUnion? at found
    split at found <;> cases found <;> simp

theorem diamond_named : ∀ n w, diamond.union? n = some w → w.name = n := by
  intro n w found
  change diamondUnion? n = some w at found
  unfold diamondUnion? at found
  split at found <;> cases found <;> rfl

theorem diamond_rises {v w : UnionNode} (found : ∃ n, diamond.union? n = some v)
    (nests : diamond.Nests v w) :
    ["A", "B", "C", "D"].idxOf v.name < ["A", "B", "C", "D"].idxOf w.name := by
  obtain ⟨n, found⟩ := found
  obtain ⟨m, listed, nested, _⟩ := nests
  change diamondUnion? n = some v at found
  change diamondUnion? m = some w at nested
  unfold diamondUnion? at found
  split at found <;> cases found <;> simp only [List.mem_cons, List.not_mem_nil, or_false] at listed <;>
    rcases listed with rfl | rfl <;> simp [diamondUnion?] at nested <;> subst nested <;> decide

theorem resolveUnionLeaves_eq_unfolding_diamond :
    (∀ n w, diamond.union? n = some w → w.name = n) ∧
    (∀ w, Relation.ReflTransGen diamond.Nests ⟨"A", ["B", "C"], []⟩ w →
      ¬Relation.TransGen diamond.Nests w w) ∧
    diamond.Unshadowed ⟨"A", ["B", "C"], []⟩ ∧
    resolveUnionLeaves diamond ⟨"A", ["B", "C"], []⟩ =
      .ok [plainLeaf "z", plainLeaf "x", plainLeaf "y"] := by
  have acyclic := Declarations.acyclic_of_rank (fun v => ["A", "B", "C", "D"].idxOf v.name)
    fun v w reach nests => by
      rcases Declarations.reached_found reach with rfl | found
      · exact diamond_rises ⟨"A", rfl⟩ nests
      · exact diamond_rises found nests
  have unfoldsD := @Declarations.Unfolds.leaf diamond "D" "z" ["x"] _ _ rfl rfl (.leaf rfl rfl .nil)
  have unfoldsB := @Declarations.Unfolds.nested diamond "B" "D" ["x"] _ _ _ rfl rfl unfoldsD
    (.leaf rfl rfl .nil)
  have unfoldsC := @Declarations.Unfolds.leaf diamond "C" "y" ["D"] _ _ rfl rfl
    (@Declarations.Unfolds.nested diamond "C" "D" [] _ _ _ rfl rfl unfoldsD .nil)
  have unfolding := @Declarations.Unfolds.nested diamond "A" "B" ["C"] _ _ _ rfl rfl unfoldsB
    (@Declarations.Unfolds.nested diamond "A" "C" [] _ _ _ rfl rfl unfoldsC .nil)
  refine ⟨diamond_named, acyclic, .inr rfl, ?_⟩
  rw [(resolveUnionLeaves_eq_unfolding diamond_named acyclic (.inr rfl)).2 _ unfolding]
  rfl

end NodeSchema
