import NodeSchema.Proofs.Load.Fields

set_option autoImplicit false

/-! The second pass over the node tree, read against the declarations of the first. Walking a
node whose declarations are not in the builder yet appends exactly those declarations to the
leaf and union tables, in pre-order, and leaves every entry already there alone. Each new leaf
is stored under its own name with a sound field list; each new union is stored under its own
name, and places each of its members: a member is a leaf declared directly inside the union, or
a union whose slot was claimed after the union's own. `Walked ctx b decls b'` records all of
this; runs of it compose, so it holds of the whole node tree. -/

namespace NodeSchema

/-- Where a union finds one of its members: a leaf declared directly inside it, or a union
whose slot comes after its own. -/
def MemberPlaced (leaves : Table LeafNode) (unionKeys : List String) (owner member : String) :
    Prop :=
  (∃ l, leaves.get? member = some l ∧ l.enclosingUnion = some owner) ∨
    [owner, member].Sublist unionKeys

/-- A union stored under `key`: named so, with every member, excluded or not, placed. -/
def UnionPlaced (leaves : Table LeafNode) (unionKeys : List String) (key : String)
    (u : UnionNode) : Prop :=
  u.name = key ∧ ∀ m ∈ u.members ++ u.excluded, MemberPlaced leaves unionKeys key m

/-- A base or leaf stored under `key`: named so, with a sound field list. -/
def RecordPlaced (ctx : Context) (key : String) (r : Record) : Prop :=
  r.name = key ∧ FieldsSound ctx r.bases r.fields

/-- Declarations of the node tree none of which is in the builder yet, with no pair twice. -/
structure Fresh (b : Builder) (decls : List (String × DeclKind)) : Prop where
  nodup : decls.Nodup
  leaves : ∀ n, (n, DeclKind.leaf) ∈ decls → n ∉ b.leaves.keys
  unions : ∀ n, (n, DeclKind.union) ∈ decls → n ∉ b.unions.keys

/-- Reading the nodes that declare `decls` took the builder `b` to `b'`. -/
structure Walked (ctx : Context) (b : Builder) (decls : List (String × DeclKind)) (b' : Builder) :
    Prop where
  bases : b'.bases = b.bases
  leafKeys : b'.leaves.keys = b.leaves.keys ++ namesOfKind .leaf decls
  unionKeys : b'.unions.keys = b.unions.keys ++ namesOfKind .union decls
  oldLeaves : ∀ k ∈ b.leaves.keys, b'.leaves.get? k = b.leaves.get? k
  oldUnions : ∀ k ∈ b.unions.keys, b'.unions.get? k = b.unions.get? k
  newLeaves : ∀ k l, b'.leaves.get? k = some l → k ∉ b.leaves.keys → RecordPlaced ctx k l.toRecord
  newUnions : ∀ k u, b'.unions.get? k = some u → k ∉ b.unions.keys →
    UnionPlaced b'.leaves b'.unions.keys k u

/-! ### Placement survives further walking -/

section Monotone

variable {ctx : Context} {b b' : Builder} {decls : List (String × DeclKind)}

theorem MemberPlaced.walked {owner member : String}
    (placed : MemberPlaced b.leaves b.unions.keys owner member) (walked : Walked ctx b decls b') :
    MemberPlaced b'.leaves b'.unions.keys owner member := by
  rcases placed with ⟨l, found, enclosing⟩ | before
  · left
    exact ⟨l, by rw [walked.oldLeaves _ (Table.mem_keys_of_get? found), found], enclosing⟩
  · right
    rw [walked.unionKeys]
    exact before.trans (List.sublist_append_left _ _)

theorem UnionPlaced.walked {key : String} {u : UnionNode}
    (placed : UnionPlaced b.leaves b.unions.keys key u) (walked : Walked ctx b decls b') :
    UnionPlaced b'.leaves b'.unions.keys key u :=
  ⟨placed.1, fun m member => (placed.2 m member).walked walked⟩

end Monotone

namespace Walked

variable {ctx : Context}

theorem refl (b : Builder) : Walked ctx b [] b where
  bases := rfl
  leafKeys := by simp
  unionKeys := by simp
  oldLeaves := fun _ _ => rfl
  oldUnions := fun _ _ => rfl
  newLeaves := fun k _ found absent => absurd (Table.mem_keys_of_get? found) absent
  newUnions := fun k _ found absent => absurd (Table.mem_keys_of_get? found) absent

theorem trans {b middle b' : Builder} {first second : List (String × DeclKind)}
    (before : Walked ctx b first middle) (after : Walked ctx middle second b') :
    Walked ctx b (first ++ second) b' where
  bases := after.bases.trans before.bases
  leafKeys := by rw [after.leafKeys, before.leafKeys, namesOfKind_append, List.append_assoc]
  unionKeys := by rw [after.unionKeys, before.unionKeys, namesOfKind_append, List.append_assoc]
  oldLeaves := by
    intro k present
    have stays : k ∈ middle.leaves.keys := by
      rw [before.leafKeys]
      exact List.mem_append_left _ present
    rw [after.oldLeaves k stays, before.oldLeaves k present]
  oldUnions := by
    intro k present
    have stays : k ∈ middle.unions.keys := by
      rw [before.unionKeys]
      exact List.mem_append_left _ present
    rw [after.oldUnions k stays, before.oldUnions k present]
  newLeaves := by
    intro k l found absent
    by_cases stays : k ∈ middle.leaves.keys
    · rw [after.oldLeaves k stays] at found
      exact before.newLeaves k l found absent
    · exact after.newLeaves k l found stays
  newUnions := by
    intro k u found absent
    by_cases stays : k ∈ middle.unions.keys
    · rw [after.oldUnions k stays] at found
      exact (before.newUnions k u found absent).walked after
    · exact after.newUnions k u found stays

end Walked

namespace Fresh

variable {b : Builder} {first second : List (String × DeclKind)}

theorem left (fresh : Fresh b (first ++ second)) : Fresh b first where
  nodup := (List.nodup_append.1 fresh.nodup).1
  leaves := fun n member => fresh.leaves n (List.mem_append_left _ member)
  unions := fun n member => fresh.unions n (List.mem_append_left _ member)

theorem after {ctx : Context} {b' : Builder} (fresh : Fresh b (first ++ second))
    (walked : Walked ctx b first b') : Fresh b' second where
  nodup := (List.nodup_append.1 fresh.nodup).2.1
  leaves := by
    intro n member
    rw [walked.leafKeys, List.mem_append, mem_namesOfKind, not_or]
    refine ⟨fresh.leaves n (List.mem_append_right _ member), fun early => ?_⟩
    exact (List.nodup_append.1 fresh.nodup).2.2 _ early _ member rfl
  unions := by
    intro n member
    rw [walked.unionKeys, List.mem_append, mem_namesOfKind, not_or]
    refine ⟨fresh.unions n (List.mem_append_right _ member), fun early => ?_⟩
    exact (List.nodup_append.1 fresh.nodup).2.2 _ early _ member rfl

end Fresh

/-! ### One node at a time -/

section Steps

variable {ctx : Context} {b : Builder}

private theorem walked_insertLeaf {name : String} {leaf : LeafNode} (fresh : name ∉ b.leaves.keys)
    (placed : RecordPlaced ctx name leaf.toRecord) :
    Walked ctx b [(name, .leaf)] { b with leaves := b.leaves.insert name leaf } where
  bases := rfl
  leafKeys := by
    rw [Table.keys_insert_of_not_mem _ fresh]
    simp
  unionKeys := by simp
  oldLeaves := by
    intro k present
    have differ : k ≠ name := fun same => fresh (same ▸ present)
    simp [differ]
  oldUnions := fun _ _ => rfl
  newLeaves := by
    intro k l found absent
    simp only [Table.get?_insert] at found
    split at found
    · rename_i same
      cases found
      rw [same]
      exact placed
    · exact absurd (Table.mem_keys_of_get? found) absent
  newUnions := fun k _ found absent => absurd (Table.mem_keys_of_get? found) absent

theorem walked_claimSlot {name : String} (fresh : name ∉ b.unions.keys) :
    Walked ctx b [(name, .union)] { b with unions := b.unions.insert name ⟨name, [], []⟩ } where
  bases := rfl
  leafKeys := by simp
  unionKeys := by
    rw [Table.keys_insert_of_not_mem _ fresh]
    simp
  oldLeaves := fun _ _ => rfl
  oldUnions := by
    intro k present
    have differ : k ≠ name := fun same => fresh (same ▸ present)
    simp [differ]
  newLeaves := fun k _ found absent => absurd (Table.mem_keys_of_get? found) absent
  newUnions := by
    intro k u found absent
    simp only [Table.get?_insert] at found
    split at found
    · rename_i same
      cases found
      exact ⟨same.symm, by simp⟩
    · exact absurd (Table.mem_keys_of_get? found) absent

private theorem Walked.fillSlot {inner : Builder} {decls : List (String × DeclKind)} {name : String}
    {u : UnionNode} (walked : Walked ctx b decls inner) (fresh : name ∉ b.unions.keys)
    (present : name ∈ inner.unions.keys) (placed : UnionPlaced inner.leaves inner.unions.keys name u) :
    Walked ctx b decls { inner with unions := inner.unions.insert name u } where
  bases := walked.bases
  leafKeys := walked.leafKeys
  unionKeys := by
    rw [Table.keys_insert_of_mem _ present]
    exact walked.unionKeys
  oldLeaves := walked.oldLeaves
  oldUnions := by
    intro k old
    have differ : k ≠ name := fun same => fresh (same ▸ old)
    simp only [Table.get?_insert, differ, if_false]
    exact walked.oldUnions k old
  newLeaves := walked.newLeaves
  newUnions := by
    intro k v found absent
    have sameKeys : (inner.unions.insert name u).keys = inner.unions.keys :=
      Table.keys_insert_of_mem _ present
    simp only [Table.get?_insert] at found
    rw [sameKeys]
    split at found
    · rename_i same
      cases found
      rw [same]
      exact placed
    · exact walked.newUnions k v found absent

end Steps

mutual

theorem walkNode_walked {ctx : Context} {b b' : Builder} {name path root : String}
    {enclosing : Option String} :
    (content : Json) → Fresh b (nodeDecls name content) →
      walkNode ctx b name path enclosing root content = .ok b' →
      Walked ctx b (nodeDecls name content) b' ∧
        ∀ owner, enclosing = some owner → owner ∈ b.unions.keys →
          MemberPlaced b'.leaves b'.unions.keys owner name
  | .array items, fresh, walked => by
    obtain ⟨list, read, stored⟩ := bind_eq_ok.1 walked
    cases stored
    have absent : name ∉ b.leaves.keys := fresh.leaves name (by simp [nodeDecls])
    refine ⟨walked_insertLeaf absent ⟨rfl, walkFields_sound read⟩, ?_⟩
    intro owner inside _
    exact Or.inl ⟨_, (Table.get?_insert _ _ _ _).trans (if_pos rfl), inside⟩
  | .object entries, fresh, walked => by
    obtain ⟨⟨inner, members, excluded⟩, membersRead, stored⟩ := bind_eq_ok.1 walked
    cases stored
    have split : nodeDecls name (.object entries) = [(name, .union)] ++ memberDecls entries := by
      simp [nodeDecls]
    rw [split] at fresh ⊢
    have absent : name ∉ b.unions.keys := fresh.unions name (by simp)
    have slot : Walked ctx b [(name, .union)] _ := walked_claimSlot absent
    have slotted : name ∈ (b.unions.insert name ⟨name, [], []⟩).keys := by
      rw [Table.keys_insert_of_not_mem _ absent]
      simp
    obtain ⟨membersWalked, placed⟩ :=
      walkMembers_walked entries (fresh.after slot) slotted (by simp) membersRead
    have whole := slot.trans membersWalked
    have present : name ∈ inner.unions.keys := by
      rw [whole.unionKeys]
      simp
    refine ⟨whole.fillSlot absent present ⟨rfl, placed⟩, ?_⟩
    intro owner _ earlier
    right
    rw [Table.keys_insert_of_mem _ present, whole.unionKeys]
    simp only [namesOfKind_append, namesOfKind_cons, if_true, namesOfKind_nil]
    exact (List.singleton_sublist.2 earlier).append (List.Sublist.cons_cons _ (List.nil_sublist _))
  | .null, _, walked | .bool _, _, walked | .number _, _, walked | .string _, _, walked => by
    simp [walkNode] at walked

theorem walkMembers_walked {ctx : Context} {b b' : Builder} {name path root : String}
    {members excluded members' excluded' : List String} :
    (entries : List (String × Json)) → Fresh b (memberDecls entries) → name ∈ b.unions.keys →
      (∀ m ∈ members ++ excluded, MemberPlaced b.leaves b.unions.keys name m) →
      walkMembers ctx name path root b members excluded entries = .ok (b', members', excluded') →
      Walked ctx b (memberDecls entries) b' ∧
        ∀ m ∈ members' ++ excluded', MemberPlaced b'.leaves b'.unions.keys name m
  | [], _, _, placed, walked => by
    simp only [walkMembers, Except.ok.injEq, Prod.mk.injEq] at walked
    obtain ⟨rfl, rfl, rfl⟩ := walked
    exact ⟨Walked.refl b, placed⟩
  | (key, child) :: rest, fresh, slotted, placed, walked => by
    rcases named : memberName key with ⟨isExcluded, member⟩
    have split : memberDecls ((key, child) :: rest) = nodeDecls member child ++ memberDecls rest := by
      simp [memberDecls, named]
    rw [split] at fresh ⊢
    simp only [walkMembers, named] at walked
    obtain ⟨middle, nodeRead, restRead⟩ := bind_eq_ok.1 walked
    obtain ⟨nodeWalked, head⟩ := walkNode_walked child fresh.left nodeRead
    have stillSlotted : name ∈ middle.unions.keys := by
      rw [nodeWalked.unionKeys]
      exact List.mem_append_left _ slotted
    have kept : ∀ m ∈ members ++ excluded, MemberPlaced middle.leaves middle.unions.keys name m :=
      fun m member => (placed m member).walked nodeWalked
    have here := head name rfl slotted
    cases isExcluded with
    | false =>
      simp only [Bool.false_eq_true, if_false] at restRead
      obtain ⟨restWalked, restPlaced⟩ := walkMembers_walked rest (fresh.after nodeWalked) stillSlotted
        (by
          intro m member
          simp only [List.mem_append, List.mem_singleton] at member
          rcases member with (old | rfl) | old
          · exact kept m (List.mem_append_left _ old)
          · exact here
          · exact kept m (List.mem_append_right _ old)) restRead
      exact ⟨nodeWalked.trans restWalked, restPlaced⟩
    | true =>
      simp only [if_true] at restRead
      obtain ⟨restWalked, restPlaced⟩ := walkMembers_walked rest (fresh.after nodeWalked) stillSlotted
        (by
          intro m member
          simp only [List.mem_append, List.mem_singleton] at member
          rcases member with old | old | rfl
          · exact kept m (List.mem_append_left _ old)
          · exact kept m (List.mem_append_right _ old)
          · exact here) restRead
      exact ⟨nodeWalked.trans restWalked, restPlaced⟩

end

end NodeSchema
