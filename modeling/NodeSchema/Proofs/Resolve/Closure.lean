import NodeSchema.Proofs.Resolve.Unfolding

set_option autoImplicit false

/-! Which unions flattening a union expands, for any declarations, cycles among unions
included. The walk marks a union seen by name before it reads the union's members, and starts
with the name of the union it flattens. So it expands that union, and every union found under a
member of a union it expands, unless that union has the start's name: a declared union that
shares its name with the start is never expanded, even where a member names it. Only the
members of a sum are read, never its excluded members.

Main statement: flattening fails exactly when a member of an expanded union is found as both a
union and a leaf, or as neither, and the fault names such a member and its union. When it
succeeds its leaves have distinct names, each is found under a member of an expanded union, and
every leaf so found has its name among them. The walk ends by construction: each union it
enters takes a listed name not seen before. -/

namespace NodeSchema

namespace Declarations

/-- The unions flattening `u` expands: `u` itself, and every union found under a member of one
it expands, unless that union has the name of `u`. -/
inductive Expands (d : Declarations) (u : UnionNode) : UnionNode → Prop
  | start : Expands d u u
  | nested {v w : UnionNode} {m : String} : Expands d u v → m ∈ v.members → d.union? m = some w →
      w.name ≠ u.name → Expands d u w

theorem Expands.enter {d : Declarations} {u v w : UnionNode} {m : String} {seen : List String}
    (expands : d.Expands u v) (listed : m ∈ v.members) (isUnion : d.union? m = some w)
    (startSeen : u.name ∈ seen) (unseen : w.name ∉ seen) : d.Expands u w :=
  .nested expands listed isUnion fun same => unseen (same ▸ startSeen)

/-- A leaf found under a member of a union that flattening `u` expands. -/
def Summed (d : Declarations) (u : UnionNode) (l : LeafNode) : Prop :=
  ∃ v m, d.Expands u v ∧ m ∈ v.members ∧ d.leaf? m = some l

/-- The fault `e` reports the member `m` of the union `owner`: found as both a union and a
leaf, or as neither. -/
def Refuses (d : Declarations) (owner m : String) (e : ResolveError) : Prop :=
  (e = .ambiguousMember owner m ∧ (∃ w, d.union? m = some w) ∧ ∃ l, d.leaf? m = some l) ∨
    (e = .unknownMember owner m ∧ d.union? m = none ∧ d.leaf? m = none)

theorem Refuses.not_findsOne {d : Declarations} {owner m : String} {e : ResolveError}
    (refused : d.Refuses owner m e) : ¬d.FindsOne m := by
  rintro (⟨w, isUnion, notLeaf⟩ | ⟨l, notUnion, isLeaf⟩)
  · rcases refused with ⟨-, -, l, isLeaf⟩ | ⟨-, notUnion, -⟩
    · rw [notLeaf] at isLeaf
      cases isLeaf
    · rw [notUnion] at isUnion
      cases isUnion
  · rcases refused with ⟨-, ⟨w, isUnion⟩, -⟩ | ⟨-, -, notLeaf⟩
    · rw [notUnion] at isUnion
      cases isUnion
    · rw [notLeaf] at isLeaf
      cases isLeaf

end Declarations

/-! ### What a walk has read -/

namespace Expansion

variable {d : Declarations}

/-- A walk state holds at least the leaves, in order, and the seen unions of another. -/
structure Grows (st st' : Expansion) : Prop where
  leaves : st.leaves <+: st'.leaves
  seen : st.seen ⊆ st'.seen

theorem Grows.refl (st : Expansion) : st.Grows st := ⟨List.prefix_refl _, List.Subset.refl _⟩

theorem Grows.trans {st st' st'' : Expansion} (first : st.Grows st') (second : st'.Grows st'') :
    st.Grows st'' :=
  ⟨first.leaves.trans second.leaves, fun _ seen => second.seen (first.seen seen)⟩

/-- The member `m` is found as exactly one of a union and a leaf, and what it finds is held: a
leaf's name among the leaves, a union's name among the unions seen. -/
def Settles (d : Declarations) (st : Expansion) (m : String) : Prop :=
  d.FindsOne m ∧ (∀ l, d.leaf? m = some l → l.name ∈ st.leaves.map (·.name)) ∧
    ∀ w, d.union? m = some w → w.name ∈ st.seen

def Closes (d : Declarations) (st : Expansion) (v : UnionNode) : Prop :=
  ∀ m ∈ v.members, st.Settles d m

theorem Settles.grow {st st' : Expansion} {m : String} (settles : st.Settles d m)
    (grows : st.Grows st') : st'.Settles d m := by
  obtain ⟨finds, leafHeld, unionSeen⟩ := settles
  exact ⟨finds, fun l found => (grows.leaves.map _).subset (leafHeld l found),
    fun w found => grows.seen (unionSeen w found)⟩

theorem Closes.grow {st st' : Expansion} {v : UnionNode} (closes : st.Closes d v)
    (grows : st.Grows st') : st'.Closes d v :=
  fun m listed => (closes m listed).grow grows

end Expansion

/-! ### One member -/

section Step

variable {d : Declarations} {owner member : String} {st : Expansion}
  {acc acc' : { next : Expansion // st.seen ⊆ next.seen }}

theorem expandUnion_grows {v : UnionNode} {r : { next : Expansion // st.seen ⊆ next.seen }}
    (walked : expandUnion d v st = .ok r) : st.Grows r.1 :=
  ⟨expandUnion_leaves_grow walked, r.2⟩

theorem memberStep_grows (stepped : memberStep d owner acc member = .ok acc') :
    acc.1.Grows acc'.1 := by
  rcases memberStep_ok stepped with ⟨leaf, _, _, same⟩ | ⟨_, _, _, _, same⟩ |
      ⟨nested, inner, _, _, _, entered, same⟩
  · rw [same]
    exact ⟨acc.1.leaves_prefix_addLeaf leaf, by rw [Expansion.addLeaf_seen]; exact List.Subset.refl _⟩
  · rw [same]
    exact Expansion.Grows.refl _
  · rw [same]
    -- entering marks the union seen first, then the walk only grows
    have marked : acc.1.Grows ⟨nested.name :: acc.1.seen, acc.1.leaves⟩ :=
      ⟨List.prefix_refl _, List.subset_cons_self _ _⟩
    exact marked.trans (expandUnion_grows entered)

theorem memberStep_settles (stepped : memberStep d owner acc member = .ok acc') :
    acc'.1.Settles d member := by
  rcases memberStep_ok stepped with ⟨leaf, notUnion, isLeaf, same⟩ |
      ⟨nested, isUnion, notLeaf, seen, same⟩ | ⟨nested, inner, isUnion, notLeaf, _, entered, same⟩
  · refine ⟨.inr ⟨leaf, notUnion, isLeaf⟩, fun l found => ?_, fun w found => ?_⟩
    · rw [isLeaf] at found
      cases found
      rw [same]
      exact acc.1.name_mem_addLeaf leaf
    · rw [notUnion] at found
      cases found
  · refine ⟨.inl ⟨nested, isUnion, notLeaf⟩, fun l found => ?_, fun w found => ?_⟩
    · rw [notLeaf] at found
      cases found
    · rw [isUnion] at found
      cases found
      rw [same]
      exact seen
  · refine ⟨.inl ⟨nested, isUnion, notLeaf⟩, fun l found => ?_, fun w found => ?_⟩
    · rw [notLeaf] at found
      cases found
    · rw [isUnion] at found
      cases found
      rw [same]
      exact inner.2 List.mem_cons_self

theorem memberStep_eq_error {e : ResolveError} (stepped : memberStep d owner acc member = .error e) :
    d.Refuses owner member e ∨
      ∃ nested, d.union? member = some nested ∧ d.leaf? member = none ∧ nested.name ∉ acc.1.seen ∧
        expandUnion d nested ⟨nested.name :: acc.1.seen, acc.1.leaves⟩ = .error e := by
  unfold memberStep at stepped
  split at stepped
  · rename_i w l isUnion isLeaf
    cases stepped
    exact .inl (.inl ⟨rfl, ⟨w, isUnion⟩, l, isLeaf⟩)
  · rename_i notUnion notLeaf
    cases stepped
    exact .inl (.inr ⟨rfl, notUnion, notLeaf⟩)
  · cases stepped
  · rename_i nested isUnion notLeaf
    split at stepped
    · cases stepped
    · rename_i unseen
      rcases bind_eq_error.1 stepped with failed | ⟨_, _, stored⟩
      · exact .inr ⟨nested, isUnion, notLeaf, unseen, failed⟩
      · cases stored

end Step

/-! ### Whole walks -/

section Walk

variable {d : Declarations}

theorem expandUnion_closes {v : UnionNode} {st : Expansion}
    {r : { next : Expansion // st.seen ⊆ next.seen }} (walked : expandUnion d v st = .ok r) :
    r.1.Closes d v := by
  rw [expandUnion_eq] at walked
  intro m listed
  obtain ⟨acc, acc', rest, stepped, later⟩ := foldlM_ok_each_from walked m listed
  have grows : acc'.1.Grows r.1 :=
    foldlM_keeps (fun next => acc'.1.Grows next.1) (memberStep d v.name)
      (fun _ _ _ before stepped => before.trans (memberStep_grows stepped))
      rest acc' r (Expansion.Grows.refl _) later
  exact (memberStep_settles stepped).grow grows

theorem expandUnion_seen_closes (named : ∀ n w, d.union? n = some w → w.name = n) :
    ∀ v st r, expandUnion d v st = .ok r →
      ∀ x ∈ r.1.seen, x ∈ st.seen ∨ ∃ w, d.union? x = some w ∧ r.1.Closes d w := by
  intro v st
  induction v, st using expandUnion.induct d with
  | case1 v st entered =>
    intro r walked
    rw [expandUnion_eq] at walked
    refine foldlM_keeps
      (fun acc => ∀ x ∈ acc.1.seen, x ∈ st.seen ∨ ∃ w, d.union? x = some w ∧ acc.1.Closes d w)
      (memberStep d v.name) ?_ v.members _ r (fun _ seen => .inl seen) walked
    intro acc member acc' before stepped x seen
    have grows := memberStep_grows stepped
    rcases memberStep_ok stepped with ⟨leaf, _, _, same⟩ | ⟨_, _, _, _, same⟩ |
        ⟨nested, inner, isUnion, _, unseen, innerWalked, same⟩
    · rw [same, Expansion.addLeaf_seen] at seen
      rcases before x seen with old | ⟨w, found, closes⟩
      · exact .inl old
      · exact .inr ⟨w, found, closes.grow grows⟩
    · rw [same] at seen ⊢
      exact before x seen
    · rw [same] at seen grows ⊢
      rcases entered acc member nested isUnion unseen inner innerWalked x seen with
          older | closedInside
      · rcases List.mem_cons.1 older with rfl | old
        · -- the union just entered, closed by its own walk
          have found : d.union? nested.name = some nested := by
            rw [named member nested isUnion]
            exact isUnion
          exact .inr ⟨nested, found, expandUnion_closes innerWalked⟩
        · rcases before x old with fromStart | ⟨w, found, closes⟩
          · exact .inl fromStart
          · exact .inr ⟨w, found, closes.grow grows⟩
      · exact .inr closedInside

theorem expandUnion_refuses {u : UnionNode} :
    ∀ v st (e : ResolveError), d.Expands u v → u.name ∈ st.seen → expandUnion d v st = .error e →
      ∃ v' m, d.Expands u v' ∧ m ∈ v'.members ∧ d.Refuses v'.name m e := by
  intro v st
  induction v, st using expandUnion.induct d with
  | case1 v st entered =>
    intro e expands startSeen walked
    rw [expandUnion_eq] at walked
    obtain ⟨m, listed, acc, stepped⟩ := foldlM_error_step walked
    rcases memberStep_eq_error stepped with refused | ⟨nested, isUnion, _, unseen, innerWalked⟩
    · exact ⟨v, m, expands, listed, refused⟩
    · -- the start's name is seen, so the union entered does not have it
      exact entered acc m nested isUnion unseen e (expands.enter listed isUnion (acc.2 startSeen) unseen)
        (List.mem_cons_of_mem _ (acc.2 startSeen)) innerWalked

theorem expandUnion_summed {u : UnionNode} :
    ∀ v st r, d.Expands u v → u.name ∈ st.seen → expandUnion d v st = .ok r →
      ∀ l ∈ r.1.leaves, l ∈ st.leaves ∨ d.Summed u l := by
  intro v st
  induction v, st using expandUnion.induct d with
  | case1 v st entered =>
    intro r expands startSeen walked
    rw [expandUnion_eq] at walked
    refine foldlM_keeps_of_mem (fun acc => ∀ l ∈ acc.1.leaves, l ∈ st.leaves ∨ d.Summed u l)
      (memberStep d v.name) v.members _ r ?_ (fun _ held => .inl held) walked
    intro acc m acc' listed before stepped l held
    rcases memberStep_ok stepped with ⟨leaf, _, isLeaf, same⟩ | ⟨_, _, _, _, same⟩ |
        ⟨nested, inner, isUnion, _, unseen, innerWalked, same⟩
    · rw [same] at held
      rcases acc.1.mem_addLeaf leaf held with old | rfl
      · exact before l old
      · exact .inr ⟨v, m, expands, listed, isLeaf⟩
    · rw [same] at held
      exact before l held
    · rw [same] at held
      rcases entered acc m nested isUnion unseen inner
          (expands.enter listed isUnion (acc.2 startSeen) unseen)
          (List.mem_cons_of_mem _ (acc.2 startSeen)) innerWalked l held with old | summed
      · exact before l old
      · exact .inr summed

theorem expandUnion_closes_expanded (named : ∀ n w, d.union? n = some w → w.name = n)
    {u : UnionNode} {r : { next : Expansion // (⟨[u.name], []⟩ : Expansion).seen ⊆ next.seen }}
    (walked : expandUnion d u ⟨[u.name], []⟩ = .ok r) {w : UnionNode} (expands : d.Expands u w) :
    r.1.Closes d w := by
  have seenClosed := expandUnion_seen_closes named u _ r walked
  induction expands with
  | start => exact expandUnion_closes walked
  | @nested v w m _ listed isUnion differs closesV =>
    have seen : w.name ∈ r.1.seen := ((closesV m listed).2.2 w isUnion)
    rcases seenClosed w.name seen with start | ⟨w', found, closes⟩
    · exact absurd (List.mem_singleton.1 start) differs
    · rw [named m w isUnion, isUnion] at found
      cases found
      exact closes

end Walk

/-! ### Flattening -/

section Flattening

variable {d : Declarations} {u : UnionNode}

theorem resolveUnionLeaves_eq_error {e : ResolveError} :
    resolveUnionLeaves d u = .error e ↔ expandUnion d u ⟨[u.name], []⟩ = .error e := by
  unfold resolveUnionLeaves
  cases expandUnion d u ⟨[u.name], []⟩ with
  | error e' => simp [bind, Except.bind]
  | ok r => simp [bind, Except.bind, pure, Except.pure]

/-- Where every union is found under its own name, flattening any union `u` (declared, shadowed
by a declared union of its name, or free-standing, with cycles among the unions or not) fails
exactly when a member of a union it expands is found as both a union and a leaf or as neither,
and then with the fault of such a member. When it succeeds, the leaves have distinct names, each
is found under a member of an expanded union, and each leaf so found has its name among them. -/
theorem resolveUnionLeaves_expanded (named : ∀ n w, d.union? n = some w → w.name = n) (u : UnionNode) :
    ((∃ e, resolveUnionLeaves d u = .error e) ↔ ∃ v m, d.Expands u v ∧ m ∈ v.members ∧ ¬d.FindsOne m) ∧
    (∀ e, resolveUnionLeaves d u = .error e → ∃ v m, d.Expands u v ∧ m ∈ v.members ∧ d.Refuses v.name m e) ∧
    ∀ leaves, resolveUnionLeaves d u = .ok leaves →
      (leaves.map (·.name)).Nodup ∧ (∀ l ∈ leaves, d.Summed u l) ∧
        ∀ l, d.Summed u l → l.name ∈ leaves.map (·.name) := by
  have start : u.name ∈ ([u.name] : List String) := List.mem_singleton_self _
  have faults : ∀ e, resolveUnionLeaves d u = .error e →
      ∃ v m, d.Expands u v ∧ m ∈ v.members ∧ d.Refuses v.name m e := fun e failed =>
    expandUnion_refuses u _ e .start start (resolveUnionLeaves_eq_error.1 failed)
  refine ⟨⟨fun ⟨e, failed⟩ => ?_, fun ⟨v, m, expands, listed, faulty⟩ => ?_⟩, faults, ?_⟩
  · obtain ⟨v, m, expands, listed, refused⟩ := faults e failed
    exact ⟨v, m, expands, listed, refused.not_findsOne⟩
  · -- a successful flattening closes every expanded union, so every member finds one
    cases resolved : resolveUnionLeaves d u with
    | error e => exact ⟨e, rfl⟩
    | ok leaves =>
      obtain ⟨r, walked, -⟩ := resolveUnionLeaves_eq_ok.1 resolved
      exact absurd (expandUnion_closes_expanded named walked expands m listed).1 faulty
  · intro leaves resolved
    obtain ⟨r, walked, rfl⟩ := resolveUnionLeaves_eq_ok.1 resolved
    refine ⟨resolveUnionLeaves_names_nodup resolved, fun l held => ?_, ?_⟩
    · rcases expandUnion_summed u _ r .start start walked l held with none | summed
      · cases none
      · exact summed
    · rintro l ⟨v, m, expands, listed, isLeaf⟩
      exact (expandUnion_closes_expanded named walked expands m listed).2.1 l isLeaf

end Flattening

/-! ### A cycle under a shadowed name -/

/-- Two unions naming each other: `A` sums `B` and the leaf `x`, `B` sums `A` and the leaf `y`. -/
def pairedUnion? : String → Option UnionNode
  | "A" => some ⟨"A", ["B", "x"], []⟩
  | "B" => some ⟨"B", ["A", "y"], []⟩
  | _ => none

def pairedLeaf? : String → Option LeafNode
  | "x" => some (plainLeaf "x")
  | "y" => some (plainLeaf "y")
  | "z" => some (plainLeaf "z")
  | _ => none

theorem pairedUnion?_listed {name : String} {u : UnionNode} (found : pairedUnion? name = some u) :
    u.name ∈ ["A", "B"] := by
  unfold pairedUnion? at found
  split at found <;> cases found <;> simp

theorem no_base_found {name : String} {b : BaseNode} (found : (none : Option BaseNode) = some b) :
    name ∈ ([] : List String) := by
  cases found

def paired : Declarations where
  base? _ := none
  leaf? := pairedLeaf?
  union? := pairedUnion?
  baseNames := []
  unionNames := ["A", "B"]
  base?_mem := no_base_found
  union?_mem := pairedUnion?_listed

theorem paired_named : ∀ n w, paired.union? n = some w → w.name = n := by
  intro n w found
  change pairedUnion? n = some w at found
  unfold pairedUnion? at found
  split at found <;> cases found <;> rfl

/-- A union of its own named `A`, summing `B` and `z`, with the unknown `q` excluded. -/
def shadowingA : UnionNode := ⟨"A", ["B", "z"], ["q"]⟩

theorem resolveUnionLeaves_expanded_shadowing :
    (∀ n w, paired.union? n = some w → w.name = n) ∧
    (resolveUnionLeaves paired shadowingA).map (·.map (·.name)) = .ok ["y", "z"] ∧
    ¬paired.Summed shadowingA (plainLeaf "x") := by
  have names : (resolveUnionLeaves paired shadowingA).map (·.map (·.name)) = .ok ["y", "z"] := by
    decide +kernel
  refine ⟨paired_named, names, fun summed => ?_⟩
  cases resolved : resolveUnionLeaves paired shadowingA with
  | error e =>
    rw [resolved] at names
    cases names
  | ok leaves =>
    have held := ((resolveUnionLeaves_expanded paired_named shadowingA).2.2 leaves resolved).2.2 _ summed
    rw [resolved] at names
    have listed : leaves.map (·.name) = ["y", "z"] := Except.ok.inj names
    rw [listed] at held
    simp [plainLeaf] at held

end NodeSchema
