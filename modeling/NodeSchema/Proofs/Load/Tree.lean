import NodeSchema.Proofs.Load.Schema

set_option autoImplicit false

/-! The leaf and union tables of a loaded schema, read off its node tree. A leaf records where
it was declared: the union directly containing it, and the outermost union it lies under,
which is the root of its subtree. A top-level node and a member marked excluded root their own
subtree; any other member inherits the root of its union. A union records its summed and its
excluded members. The second pass stores exactly these records, in pre-order, so the facts
below about the tree are facts about every loaded schema: an enclosing union lists each of its
leaves, every member is declared in place, and a union's root is passed down to it from a
union above it. -/

namespace NodeSchema

/-- Where a leaf was declared: the union directly containing it and its outermost union. -/
structure LeafPlace where
  name : String
  enclosing : Option String
  root : String
  deriving DecidableEq, Repr

def LeafNode.place (l : LeafNode) : LeafPlace := ⟨l.name, l.enclosingUnion, l.rootUnion⟩

/-- The root of a member's subtree: the member itself when excluded, its union's root
otherwise. -/
def memberRoot (key root : String) : String :=
  if (memberName key).1 then (memberName key).2 else root

def summedMembers (entries : List (String × Json)) : List String :=
  entries.filterMap fun e => if (memberName e.1).1 then none else some (memberName e.1).2

def excludedMembers (entries : List (String × Json)) : List String :=
  entries.filterMap fun e => if (memberName e.1).1 then some (memberName e.1).2 else none

mutual

/-- The leaves of the node `name`, in pre-order, with where each was declared. -/
def nodePlaces (name : String) (enclosing : Option String) (root : String) :
    Json → List LeafPlace
  | .array _ => [⟨name, enclosing, root⟩]
  | .object members => memberPlaces name root members
  | _ => []

/-- The leaves under the members of the union `owner`, in pre-order. -/
def memberPlaces (owner root : String) : List (String × Json) → List LeafPlace
  | [] => []
  | (key, child) :: rest =>
    nodePlaces (memberName key).2 (some owner) (memberRoot key root) child ++
      memberPlaces owner root rest

end

mutual

/-- The unions of the node `name`, in pre-order, each with its root. -/
def nodeUnions (name root : String) : Json → List (UnionNode × String)
  | .object members =>
    (⟨name, summedMembers members, excludedMembers members⟩, root) :: memberUnions root members
  | _ => []

/-- The unions under the members of a union whose root is `root`, in pre-order. -/
def memberUnions (root : String) : List (String × Json) → List (UnionNode × String)
  | [] => []
  | (key, child) :: rest =>
    nodeUnions (memberName key).2 (memberRoot key root) child ++ memberUnions root rest

end

mutual

/-- Every node of a subtree is a field list or an object of members. -/
def NodeShaped : Json → Prop
  | .array _ => True
  | .object members => MembersShaped members
  | _ => False

/-- Every member of a union is a field list or an object of members, all the way down. -/
def MembersShaped : List (String × Json) → Prop
  | [] => True
  | (_, child) :: rest => NodeShaped child ∧ MembersShaped rest

end

/-- The leaves of a document's node tree, with where each was declared. -/
def documentPlaces (nodes : List (String × Json)) : List LeafPlace :=
  nodes.flatMap fun e => nodePlaces e.1 none e.1 e.2

/-- The unions of a document's node tree, each with its root. -/
def documentUnions (nodes : List (String × Json)) : List (UnionNode × String) :=
  nodes.flatMap fun e => nodeUnions e.1 e.1 e.2

def unionEntries (unions : List (UnionNode × String)) : List (String × UnionNode) :=
  unions.map fun p => (p.1.name, p.1)

@[simp]
theorem unionEntries_append (first second : List (UnionNode × String)) :
    unionEntries (first ++ second) = unionEntries first ++ unionEntries second :=
  List.map_append

/-! ### The second pass stores the tree -/

section Walk

variable {ctx : Context}

private theorem values_insert_of_not_mem {α : Type} {t : Table α} {key : String} (value : α)
    (fresh : key ∉ t.keys) : (t.insert key value).values = t.values ++ [value] := by
  unfold Table.values
  rw [Table.entries_insert_of_not_mem value fresh]
  simp

mutual

theorem walkNode_tree {b b' : Builder} {name path root : String} {enclosing : Option String} :
    (content : Json) → Fresh b (nodeDecls name content) →
      walkNode ctx b name path enclosing root content = .ok b' →
      NodeShaped content ∧
        b'.leaves.values.map LeafNode.place =
          b.leaves.values.map LeafNode.place ++ nodePlaces name enclosing root content ∧
        b'.unions.entries = b.unions.entries ++ unionEntries (nodeUnions name root content)
  | .array items, fresh, walked => by
    obtain ⟨list, _, stored⟩ := bind_eq_ok.1 walked
    cases stored
    have absent : name ∉ b.leaves.keys := fresh.leaves name (by simp [nodeDecls])
    refine ⟨trivial, ?_, by simp [nodeUnions, unionEntries]⟩
    show (b.leaves.insert name _).values.map LeafNode.place = _
    rw [values_insert_of_not_mem _ absent]
    simp [nodePlaces, LeafNode.place]
  | .object entries, fresh, walked => by
    obtain ⟨⟨inner, members, excluded⟩, membersRead, stored⟩ := bind_eq_ok.1 walked
    cases stored
    have split : nodeDecls name (.object entries) = [(name, .union)] ++ memberDecls entries := by
      simp [nodeDecls]
    rw [split] at fresh
    have absent : name ∉ b.unions.keys := fresh.unions name (by simp)
    have slot : Walked ctx b _ _ := walked_claimSlot absent
    obtain ⟨shaped, leaves, unions, summed, excludedOnes⟩ :=
      walkMembers_tree entries (fresh.after slot) membersRead
    simp only [List.nil_append] at summed excludedOnes
    subst summed excludedOnes
    refine ⟨shaped, ?_, ?_⟩
    · rw [leaves]
      rfl
    · -- the slot claimed first is filled in place
      have claimed : (b.unions.insert name ⟨name, [], []⟩).entries =
          b.unions.entries ++ [(name, ⟨name, [], []⟩)] :=
        Table.entries_insert_of_not_mem _ absent
      rw [claimed, List.append_assoc, List.singleton_append] at unions
      show (inner.unions.insert name _).entries = _
      rw [Table.entries_insert_of_split _ unions absent]
      simp [nodeUnions, unionEntries]
  | .null, _, walked | .bool _, _, walked | .number _, _, walked | .string _, _, walked => by
    simp [walkNode] at walked

theorem walkMembers_tree {b b' : Builder} {name path root : String}
    {members excluded members' excluded' : List String} :
    (entries : List (String × Json)) → Fresh b (memberDecls entries) →
      walkMembers ctx name path root b members excluded entries = .ok (b', members', excluded') →
      MembersShaped entries ∧
        b'.leaves.values.map LeafNode.place =
          b.leaves.values.map LeafNode.place ++ memberPlaces name root entries ∧
        b'.unions.entries = b.unions.entries ++ unionEntries (memberUnions root entries) ∧
        members' = members ++ summedMembers entries ∧ excluded' = excluded ++ excludedMembers entries
  | [], _, walked => by
    simp only [walkMembers, Except.ok.injEq, Prod.mk.injEq] at walked
    obtain ⟨rfl, rfl, rfl⟩ := walked
    simp [MembersShaped, memberPlaces, memberUnions, summedMembers, excludedMembers, unionEntries]
  | (key, child) :: rest, fresh, walked => by
    rcases named : memberName key with ⟨isExcluded, member⟩
    have split : memberDecls ((key, child) :: rest) = nodeDecls member child ++ memberDecls rest := by
      simp [memberDecls, named]
    rw [split] at fresh
    simp only [walkMembers, named] at walked
    obtain ⟨middle, nodeRead, restRead⟩ := bind_eq_ok.1 walked
    obtain ⟨nodeShaped, nodeLeaves, nodeUnionsStored⟩ := walkNode_tree child fresh.left nodeRead
    have nodeWalked := (walkNode_walked child fresh.left nodeRead).1
    have rooted : memberRoot key root = if isExcluded then member else root := by
      simp [memberRoot, named]
    cases isExcluded with
    | false =>
      simp only [Bool.false_eq_true, if_false] at restRead rooted
      obtain ⟨restShaped, restLeaves, restUnions, summed, excludedOnes⟩ :=
        walkMembers_tree rest (fresh.after nodeWalked) restRead
      refine ⟨⟨nodeShaped, restShaped⟩, ?_, ?_, ?_, ?_⟩
      · rw [restLeaves, nodeLeaves]
        simp [memberPlaces, named, rooted]
      · rw [restUnions, nodeUnionsStored]
        simp [memberUnions, named, rooted]
      · rw [summed]
        simp [summedMembers, named]
      · rw [excludedOnes]
        simp [excludedMembers, named]
    | true =>
      simp only [if_true] at restRead rooted
      obtain ⟨restShaped, restLeaves, restUnions, summed, excludedOnes⟩ :=
        walkMembers_tree rest (fresh.after nodeWalked) restRead
      refine ⟨⟨nodeShaped, restShaped⟩, ?_, ?_, ?_, ?_⟩
      · rw [restLeaves, nodeLeaves]
        simp [memberPlaces, named, rooted]
      · rw [restUnions, nodeUnionsStored]
        simp [memberUnions, named, rooted]
      · rw [summed]
        simp [summedMembers, named]
      · rw [excludedOnes]
        simp [excludedMembers, named]

end

theorem walkNodes_tree : ∀ (nodes : List (String × Json)) {b b' : Builder},
    Fresh b (nodes.flatMap fun e => nodeDecls e.1 e.2) →
    nodes.foldlM (fun b (name, content) =>
      walkNode ctx b name ("nodes." ++ name) none name content) b = .ok b' →
    (∀ e ∈ nodes, NodeShaped e.2) ∧
      b'.leaves.values.map LeafNode.place =
        b.leaves.values.map LeafNode.place ++ documentPlaces nodes ∧
      b'.unions.entries = b.unions.entries ++ unionEntries (documentUnions nodes)
  | [], b, b', _, walked => by
    cases walked
    simp [documentPlaces, documentUnions, unionEntries]
  | (name, content) :: rest, b, b', fresh, walked => by
    obtain ⟨middle, nodeRead, restRead⟩ := bind_eq_ok.1 walked
    rw [List.flatMap_cons] at fresh
    obtain ⟨nodeShaped, nodeLeaves, nodeUnionsStored⟩ := walkNode_tree content fresh.left nodeRead
    have nodeWalked := (walkNode_walked content fresh.left nodeRead).1
    obtain ⟨restShaped, restLeaves, restUnions⟩ := walkNodes_tree rest (fresh.after nodeWalked) restRead
    refine ⟨?_, ?_, ?_⟩
    · intro e listed
      rcases List.mem_cons.1 listed with rfl | later
      · exact nodeShaped
      · exact restShaped e later
    · rw [restLeaves, nodeLeaves]
      simp [documentPlaces]
    · rw [restUnions, nodeUnionsStored]
      simp [documentUnions]

end Walk

theorem Schema.load_tree {value : Json} {s : Schema} (loaded : Schema.load value = .ok s) :
    ∃ nodes : List (String × Json), (∀ e ∈ nodes, NodeShaped e.2) ∧
      s.leaves.values.map LeafNode.place = documentPlaces nodes ∧
      s.unions.entries = unionEntries (documentUnions nodes) := by
  obtain ⟨parts, _, passes⟩ := bind_eq_ok.1 loaded
  obtain ⟨names, namesRead, rest⟩ := bind_eq_ok.1 passes
  obtain ⟨b₁, basesRead, rest⟩ := bind_eq_ok.1 rest
  obtain ⟨b₂, nodesRead, stored⟩ := bind_eq_ok.1 rest
  cases stored
  have treeNodup := (documentDecls_nodup (collectNames_declares namesRead).nodup).2.2
  -- the bases table touches neither leaves nor unions, so the tree is walked from empty tables
  have untouched : b₁.leaves = ({} : Builder).leaves ∧ b₁.unions = ({} : Builder).unions := by
    refine foldlM_keeps (fun b : Builder => b.leaves = ({} : Builder).leaves ∧
      b.unions = ({} : Builder).unions) _ ?_ parts.bases {} b₁ ⟨rfl, rfl⟩ basesRead
    rintro b ⟨name, content⟩ b' ⟨sameLeaves, sameUnions⟩ stepped
    cases content with
    | array items =>
      obtain ⟨list, _, stored⟩ := bind_eq_ok.1 stepped
      cases stored
      exact ⟨sameLeaves, sameUnions⟩
    | _ => cases stepped
  obtain ⟨leavesEmpty, unionsEmpty⟩ := untouched
  have fresh : Fresh b₁ (parts.nodes.flatMap fun e => nodeDecls e.1 e.2) :=
    ⟨treeNodup, by intro n _; rw [leavesEmpty]; simp, by intro n _; rw [unionsEmpty]; simp⟩
  obtain ⟨shaped, leaves, unions⟩ := walkNodes_tree parts.nodes fresh nodesRead
  refine ⟨parts.nodes, shaped, ?_, ?_⟩
  · show b₂.leaves.values.map LeafNode.place = _
    rw [leaves, leavesEmpty]
    rfl
  · show b₂.unions.entries = _
    rw [unions, unionsEmpty]
    rfl

/-! ### What the tree lays out -/

/-- A leaf declared directly in the union `u` whose root is `root`: listed among its summed
members and rooted with it, or listed among its excluded members and rooted at itself. -/
def LeafPlace.PlacedIn (p : LeafPlace) (u : UnionNode) (root : String) : Prop :=
  p.enclosing = some u.name ∧ ((p.name ∈ u.members ∧ p.root = root) ∨ (p.name ∈ u.excluded ∧ p.root = p.name))

/-- The name `m` is declared among `places` and `unions` with the root `root`: as a leaf or as a
union. -/
def DeclaredWith (m root : String) (places : List LeafPlace) (unions : List (UnionNode × String)) :
    Prop :=
  (∃ p ∈ places, p.name = m ∧ p.root = root) ∨ ∃ q ∈ unions, q.1.name = m ∧ q.2 = root

theorem DeclaredWith.mono {m root : String} {places places' : List LeafPlace}
    {unions unions' : List (UnionNode × String)} (declared : DeclaredWith m root places unions)
    (morePlaces : places ⊆ places') (moreUnions : unions ⊆ unions') :
    DeclaredWith m root places' unions' := by
  rcases declared with ⟨p, listed, named, rooted⟩ | ⟨q, listed, named, rooted⟩
  · exact .inl ⟨p, morePlaces listed, named, rooted⟩
  · exact .inr ⟨q, moreUnions listed, named, rooted⟩

theorem mem_summedMembers {entries : List (String × Json)} {m : String} :
    m ∈ summedMembers entries ↔ ∃ e ∈ entries, memberName e.1 = (false, m) := by
  simp only [summedMembers, List.mem_filterMap]
  constructor
  · rintro ⟨e, listed, picked⟩
    refine ⟨e, listed, ?_⟩
    split at picked
    · cases picked
    · rename_i notExcluded
      cases picked
      ext <;> simp_all
  · rintro ⟨e, listed, named⟩
    exact ⟨e, listed, by simp [named]⟩

theorem mem_excludedMembers {entries : List (String × Json)} {m : String} :
    m ∈ excludedMembers entries ↔ ∃ e ∈ entries, memberName e.1 = (true, m) := by
  simp only [excludedMembers, List.mem_filterMap]
  constructor
  · rintro ⟨e, listed, picked⟩
    refine ⟨e, listed, ?_⟩
    split at picked
    · rename_i excludedOne
      cases picked
      ext <;> simp_all
    · cases picked
  · rintro ⟨e, listed, named⟩
    exact ⟨e, listed, by simp [named]⟩

theorem nodePlaces_subset_memberPlaces {owner root key : String} {child : Json}
    {entries : List (String × Json)} (listed : (key, child) ∈ entries) :
    nodePlaces (memberName key).2 (some owner) (memberRoot key root) child ⊆
      memberPlaces owner root entries := by
  induction entries with
  | nil => cases listed
  | cons e rest ih =>
    obtain ⟨k, c⟩ := e
    intro p here
    simp only [memberPlaces, List.mem_append]
    rcases List.mem_cons.1 listed with same | later
    · cases same
      exact .inl here
    · exact .inr (ih later here)

theorem nodeUnions_subset_memberUnions {root key : String} {child : Json}
    {entries : List (String × Json)} (listed : (key, child) ∈ entries) :
    nodeUnions (memberName key).2 (memberRoot key root) child ⊆ memberUnions root entries := by
  induction entries with
  | nil => cases listed
  | cons e rest ih =>
    obtain ⟨k, c⟩ := e
    intro q here
    simp only [memberUnions, List.mem_append]
    rcases List.mem_cons.1 listed with same | later
    · cases same
      exact .inl here
    · exact .inr (ih later here)

theorem MembersShaped.of_mem {entries : List (String × Json)} (shaped : MembersShaped entries)
    {key : String} {child : Json} (listed : (key, child) ∈ entries) : NodeShaped child := by
  induction entries with
  | nil => cases listed
  | cons e rest ih =>
    obtain ⟨k, c⟩ := e
    rcases List.mem_cons.1 listed with same | later
    · cases same
      exact shaped.1
    · exact ih shaped.2 later

theorem member_declaredWith {owner root key : String} {child : Json}
    {entries : List (String × Json)} (shaped : MembersShaped entries) (listed : (key, child) ∈ entries) :
    DeclaredWith (memberName key).2 (memberRoot key root) (memberPlaces owner root entries)
      (memberUnions root entries) := by
  have childShaped := shaped.of_mem listed
  cases child with
  | array items =>
    exact .inl ⟨⟨(memberName key).2, some owner, memberRoot key root⟩,
      nodePlaces_subset_memberPlaces listed (by simp [nodePlaces]), rfl, rfl⟩
  | object members =>
    exact .inr ⟨(⟨(memberName key).2, summedMembers members, excludedMembers members⟩,
      memberRoot key root), nodeUnions_subset_memberUnions listed (by simp [nodeUnions]), rfl, rfl⟩
  | _ => exact absurd childShaped id

mutual

theorem nodePlaces_placed {p : LeafPlace} {name root : String} {enclosing : Option String} :
    (content : Json) → p ∈ nodePlaces name enclosing root content →
      p = ⟨name, enclosing, root⟩ ∨ ∃ q ∈ nodeUnions name root content, p.PlacedIn q.1 q.2
  | .array _, listed => .inl (List.mem_singleton.1 listed)
  | .object members, listed => by
    rcases memberPlaces_placed members listed with direct | ⟨q, inner, placed⟩
    · exact .inr ⟨_, List.mem_cons_self, direct⟩
    · exact .inr ⟨q, List.mem_cons_of_mem _ inner, placed⟩
  | .null, listed | .bool _, listed | .number _, listed | .string _, listed => by
    simp [nodePlaces] at listed

theorem memberPlaces_placed {p : LeafPlace} {owner root : String} :
    (entries : List (String × Json)) → p ∈ memberPlaces owner root entries →
      p.PlacedIn ⟨owner, summedMembers entries, excludedMembers entries⟩ root ∨
        ∃ q ∈ memberUnions root entries, p.PlacedIn q.1 q.2
  | [], listed => by simp [memberPlaces] at listed
  | (key, child) :: rest, listed => by
    simp only [memberPlaces, List.mem_append] at listed
    have head : (key, child) ∈ (key, child) :: rest := List.mem_cons_self
    rcases listed with here | later
    · rcases nodePlaces_placed child here with rfl | ⟨q, inner, placed⟩
      · -- the member itself: summed and rooted with the union, or excluded and rooted at itself
        left
        refine ⟨rfl, ?_⟩
        rcases named : memberName key with ⟨isExcluded, member⟩
        cases isExcluded with
        | false =>
          left
          exact ⟨mem_summedMembers.2 ⟨_, head, named⟩, by simp [memberRoot, named]⟩
        | true =>
          right
          exact ⟨mem_excludedMembers.2 ⟨_, head, named⟩, by simp [memberRoot, named]⟩
      · exact .inr ⟨q, nodeUnions_subset_memberUnions head inner, placed⟩
    · rcases memberPlaces_placed rest later with ⟨enclosed, listedIn⟩ | ⟨q, inner, placed⟩
      · left
        refine ⟨enclosed, ?_⟩
        rcases listedIn with ⟨summed, rooted⟩ | ⟨excludedOne, rooted⟩
        · obtain ⟨e, inRest, named⟩ := mem_summedMembers.1 summed
          exact .inl ⟨mem_summedMembers.2 ⟨e, List.mem_cons_of_mem _ inRest, named⟩, rooted⟩
        · obtain ⟨e, inRest, named⟩ := mem_excludedMembers.1 excludedOne
          exact .inr ⟨mem_excludedMembers.2 ⟨e, List.mem_cons_of_mem _ inRest, named⟩, rooted⟩
      · exact .inr ⟨q, by simp [memberUnions, inner], placed⟩

end

mutual

theorem nodeUnions_declared {q : UnionNode × String} {name root : String} {enclosing : Option String} :
    (content : Json) → NodeShaped content → q ∈ nodeUnions name root content →
      (∀ m ∈ q.1.members, DeclaredWith m q.2 (nodePlaces name enclosing root content)
        (nodeUnions name root content)) ∧
      (∀ m ∈ q.1.excluded, DeclaredWith m m (nodePlaces name enclosing root content)
        (nodeUnions name root content))
  | .object members, shaped, listed => by
    have grows : memberUnions root members ⊆ nodeUnions name root (.object members) :=
      fun _ inner => List.mem_cons_of_mem _ inner
    rcases List.mem_cons.1 listed with rfl | inner
    · refine ⟨fun m summed => ?_, fun m excludedOne => ?_⟩
      · obtain ⟨⟨key, child⟩, inEntries, named⟩ := mem_summedMembers.1 summed
        have declared := @member_declaredWith name root _ _ _ shaped inEntries
        simp only [memberRoot, named] at declared
        exact declared.mono (fun _ h => h) grows
      · obtain ⟨⟨key, child⟩, inEntries, named⟩ := mem_excludedMembers.1 excludedOne
        have declared := @member_declaredWith name root _ _ _ shaped inEntries
        simp only [memberRoot, named] at declared
        exact declared.mono (fun _ h => h) grows
    · obtain ⟨summed, excludedOnes⟩ := @memberUnions_declared q name root members shaped inner
      exact ⟨fun m listedIn => (summed m listedIn).mono (fun _ h => h) grows,
        fun m listedIn => (excludedOnes m listedIn).mono (fun _ h => h) grows⟩
  | .array _, _, listed | .null, _, listed | .bool _, _, listed | .number _, _, listed
  | .string _, _, listed => by simp [nodeUnions] at listed

theorem memberUnions_declared {q : UnionNode × String} {owner root : String} :
    (entries : List (String × Json)) → MembersShaped entries → q ∈ memberUnions root entries →
      (∀ m ∈ q.1.members, DeclaredWith m q.2 (memberPlaces owner root entries)
        (memberUnions root entries)) ∧
      (∀ m ∈ q.1.excluded, DeclaredWith m m (memberPlaces owner root entries)
        (memberUnions root entries))
  | [], _, listed => by simp [memberUnions] at listed
  | (key, child) :: rest, shaped, listed => by
    have head : (key, child) ∈ (key, child) :: rest := List.mem_cons_self
    have placesGrow := @nodePlaces_subset_memberPlaces owner root _ _ _ head
    have unionsGrow := @nodeUnions_subset_memberUnions root _ _ _ head
    have restPlaces : memberPlaces owner root rest ⊆ memberPlaces owner root ((key, child) :: rest) := by
      intro p inRest
      simp [memberPlaces, inRest]
    have restUnions : memberUnions root rest ⊆ memberUnions root ((key, child) :: rest) := by
      intro q' inRest
      simp [memberUnions, inRest]
    simp only [memberUnions, List.mem_append] at listed
    rcases listed with here | later
    · obtain ⟨summed, excludedOnes⟩ :=
        @nodeUnions_declared _ _ _ (some owner) child shaped.1 here
      exact ⟨fun m listedIn => (summed m listedIn).mono placesGrow unionsGrow,
        fun m listedIn => (excludedOnes m listedIn).mono placesGrow unionsGrow⟩
    · obtain ⟨summed, excludedOnes⟩ := memberUnions_declared rest shaped.2 later
      exact ⟨fun m listedIn => (summed m listedIn).mono restPlaces restUnions,
        fun m listedIn => (excludedOnes m listedIn).mono restPlaces restUnions⟩

end

mutual

theorem nodeUnions_rooted {q : UnionNode × String} {name root : String} :
    (content : Json) → q ∈ nodeUnions name root content →
      (q.1.name = name ∧ q.2 = root) ∨ q.2 = q.1.name ∨
        ∃ parent, [parent, q].Sublist (nodeUnions name root content) ∧ parent.2 = q.2 ∧
          q.1.name ∈ parent.1.members
  | .object members, listed => by
    rcases List.mem_cons.1 listed with rfl | inner
    · exact .inl ⟨rfl, rfl⟩
    · rcases memberUnions_rooted members inner with ⟨rooted, summed⟩ | own |
          ⟨parent, before, sameRoot, summed⟩
      · -- summed directly by the node, which comes first
        exact .inr (.inr ⟨_, (List.singleton_sublist.2 inner).cons_cons _, rooted.symm, summed⟩)
      · exact .inr (.inl own)
      · exact .inr (.inr ⟨parent, before.cons _, sameRoot, summed⟩)
  | .array _, listed | .null, listed | .bool _, listed | .number _, listed | .string _, listed => by
    simp [nodeUnions] at listed

theorem memberUnions_rooted {q : UnionNode × String} {root : String} :
    (entries : List (String × Json)) → q ∈ memberUnions root entries →
      (q.2 = root ∧ q.1.name ∈ summedMembers entries) ∨ q.2 = q.1.name ∨
        ∃ parent, [parent, q].Sublist (memberUnions root entries) ∧ parent.2 = q.2 ∧
          q.1.name ∈ parent.1.members
  | [], listed => by simp [memberUnions] at listed
  | (key, child) :: rest, listed => by
    have head : (key, child) ∈ (key, child) :: rest := List.mem_cons_self
    simp only [memberUnions, List.mem_append] at listed
    rcases listed with here | later
    · rcases nodeUnions_rooted child here with ⟨named, rooted⟩ | own | ⟨parent, before, sameRoot, summed⟩
      · rcases nameIs : memberName key with ⟨isExcluded, member⟩
        cases isExcluded with
        | false =>
          left
          refine ⟨by simp [rooted, memberRoot, nameIs], mem_summedMembers.2 ⟨_, head, ?_⟩⟩
          rw [nameIs, named, nameIs]
        | true =>
          right; left
          rw [rooted, named]
          simp [memberRoot, nameIs]
      · exact .inr (.inl own)
      · exact .inr (.inr ⟨parent, before.trans (List.sublist_append_left _ _), sameRoot, summed⟩)
    · rcases memberUnions_rooted rest later with ⟨rooted, summed⟩ | own | ⟨parent, before, sameRoot, summed⟩
      · obtain ⟨e, inRest, named⟩ := mem_summedMembers.1 summed
        exact .inl ⟨rooted, mem_summedMembers.2 ⟨e, List.mem_cons_of_mem _ inRest, named⟩⟩
      · exact .inr (.inl own)
      · exact .inr (.inr ⟨parent, before.trans (List.sublist_append_right _ _), sameRoot, summed⟩)

end

section Document

variable {nodes : List (String × Json)}

theorem documentPlaces_placed {p : LeafPlace} (listed : p ∈ documentPlaces nodes) :
    (p.enclosing = none ∧ p.root = p.name) ∨ ∃ q ∈ documentUnions nodes, p.PlacedIn q.1 q.2 := by
  obtain ⟨e, inNodes, here⟩ := List.mem_flatMap.1 listed
  rcases nodePlaces_placed e.2 here with rfl | ⟨q, inner, placed⟩
  · exact .inl ⟨rfl, rfl⟩
  · exact .inr ⟨q, List.mem_flatMap.2 ⟨e, inNodes, inner⟩, placed⟩

theorem documentUnions_declared (shaped : ∀ e ∈ nodes, NodeShaped e.2) {q : UnionNode × String}
    (listed : q ∈ documentUnions nodes) :
    (∀ m ∈ q.1.members, DeclaredWith m q.2 (documentPlaces nodes) (documentUnions nodes)) ∧
      (∀ m ∈ q.1.excluded, DeclaredWith m m (documentPlaces nodes) (documentUnions nodes)) := by
  obtain ⟨e, inNodes, here⟩ := List.mem_flatMap.1 listed
  have placesGrow : nodePlaces e.1 none e.1 e.2 ⊆ documentPlaces nodes :=
    fun _ inner => List.mem_flatMap.2 ⟨e, inNodes, inner⟩
  have unionsGrow : nodeUnions e.1 e.1 e.2 ⊆ documentUnions nodes :=
    fun _ inner => List.mem_flatMap.2 ⟨e, inNodes, inner⟩
  obtain ⟨summed, excludedOnes⟩ := @nodeUnions_declared _ _ _ none e.2 (shaped e inNodes) here
  exact ⟨fun m listedIn => (summed m listedIn).mono placesGrow unionsGrow,
    fun m listedIn => (excludedOnes m listedIn).mono placesGrow unionsGrow⟩

theorem documentUnions_rooted {q : UnionNode × String} (listed : q ∈ documentUnions nodes) :
    q.2 = q.1.name ∨ ∃ parent, [parent, q].Sublist (documentUnions nodes) ∧ parent.2 = q.2 ∧
      q.1.name ∈ parent.1.members := by
  induction nodes with
  | nil => cases listed
  | cons e rest ih =>
    simp only [documentUnions, List.flatMap_cons, List.mem_append] at listed ⊢
    rcases listed with here | later
    · rcases nodeUnions_rooted e.2 here with ⟨named, rooted⟩ | own | ⟨parent, before, sameRoot, summed⟩
      · exact .inl (rooted.trans named.symm)
      · exact .inl own
      · exact .inr ⟨parent, before.trans (List.sublist_append_left _ _), sameRoot, summed⟩
    · rcases ih later with own | ⟨parent, before, sameRoot, summed⟩
      · exact .inl own
      · exact .inr ⟨parent, before.trans (List.sublist_append_right _ _), sameRoot, summed⟩

end Document

end NodeSchema
