import NodeSchema.Proofs.Load.Declarable
import NodeSchema.Proofs.Load.Parts
import NodeSchema.Proofs.Load.Rigid

set_option autoImplicit false

/-! The second pass over a reordered document. Whether a node can be read does not depend on
what was read before it, so a walk that succeeds once succeeds from every builder, and a
reordered node, read against an agreeing context, succeeds too. What the walks store is
described without reference to their order: a base is its bases-table entry read as a field
list, a leaf is a field list read at its place in the tree (`LeafIn`), a union is a union of
the tree with its members. A reordered document describes the same bases and leaves, and the
same unions with their members in another order, so the schema it loads is the original's
with its declarations rearranged. -/

namespace NodeSchema

open Json (Reorders)

/-! ### Walks that succeed from every builder -/

/-- Reading the node `name` succeeds whatever was read before it. -/
def Walks (ctx : Context) (name path : String) (enclosing : Option String) (root : String)
    (content : Json) : Prop :=
  ∀ b, ∃ b', walkNode ctx b name path enclosing root content = .ok b'

section Walks

variable {ctx : Context}

theorem walkMembers_ok_of_walks {name path root : String} :
    ∀ (entries : List (String × Json)),
      (∀ e ∈ entries, Walks ctx (memberName e.1).2 (path ++ "." ++ e.1) (some name) (memberRoot e.1 root) e.2) →
      ∀ b members excluded, ∃ r, walkMembers ctx name path root b members excluded entries = .ok r
  | [], _, b, members, excluded => ⟨(b, members, excluded), rfl⟩
  | (key, child) :: rest, walks, b, members, excluded => by
    rcases named : memberName key with ⟨isExcluded, member⟩
    have rooted : memberRoot key root = if isExcluded then member else root := by
      simp [memberRoot, named]
    obtain ⟨b₁, first⟩ := walks (key, child) List.mem_cons_self b
    simp only [named, rooted] at first
    have later := walkMembers_ok_of_walks rest fun e listed => walks e (List.mem_cons_of_mem _ listed)
    simp only [walkMembers, named, first]
    cases isExcluded <;> exact later b₁ _ _

mutual

theorem walks_of_walkNode {b b' : Builder} {name path root : String} {enclosing : Option String} :
    (content : Json) → walkNode ctx b name path enclosing root content = .ok b' →
      Walks ctx name path enclosing root content
  | .array items, walked => by
    obtain ⟨list, fieldsRead, _⟩ := bind_eq_ok.1 walked
    intro b₀
    exact ⟨_, bind_eq_ok.2 ⟨list, fieldsRead, rfl⟩⟩
  | .object entries, walked => by
    obtain ⟨⟨inner, members, excluded⟩, membersRead, _⟩ := bind_eq_ok.1 walked
    have walks := walks_of_walkMembers entries membersRead
    intro b₀
    obtain ⟨r, read⟩ := walkMembers_ok_of_walks entries walks
      { b₀ with unions := b₀.unions.insert name ⟨name, [], []⟩ } [] []
    exact ⟨_, bind_eq_ok.2 ⟨r, read, rfl⟩⟩
  | .null, walked | .bool _, walked | .number _, walked | .string _, walked => by
    simp [walkNode] at walked

theorem walks_of_walkMembers {b : Builder} {name path root : String} {members excluded : List String}
    {r : Builder × List String × List String} :
    (entries : List (String × Json)) → walkMembers ctx name path root b members excluded entries = .ok r →
      ∀ e ∈ entries, Walks ctx (memberName e.1).2 (path ++ "." ++ e.1) (some name) (memberRoot e.1 root) e.2
  | [], _ => by simp
  | (key, child) :: rest, walked => by
    rcases named : memberName key with ⟨isExcluded, member⟩
    have rooted : memberRoot key root = if isExcluded then member else root := by
      simp [memberRoot, named]
    simp only [walkMembers, named] at walked
    obtain ⟨middle, first, later⟩ := bind_eq_ok.1 walked
    have here : Walks ctx member (path ++ "." ++ key) (some name) (memberRoot key root) child := by
      rw [rooted]
      exact walks_of_walkNode child first
    intro e listed
    rcases List.mem_cons.1 listed with rfl | inRest
    · simpa only [named] using here
    · cases isExcluded <;> exact walks_of_walkMembers rest later e inRest

end

theorem Walks.members {name path root : String} {enclosing : Option String} {entries : List (String × Json)}
    (walks : Walks ctx name path enclosing root (.object entries)) :
    ∀ e ∈ entries, Walks ctx (memberName e.1).2 (path ++ "." ++ e.1) (some name) (memberRoot e.1 root) e.2 := by
  obtain ⟨b', walked⟩ := walks {}
  obtain ⟨_, membersRead, _⟩ := bind_eq_ok.1 walked
  exact walks_of_walkMembers entries membersRead

theorem Walks.fields {name path root : String} {enclosing : Option String} {items : List Json}
    (walks : Walks ctx name path enclosing root (.array items)) :
    ∃ list, walkFields ctx name items path true = .ok list := by
  obtain ⟨b', walked⟩ := walks {}
  obtain ⟨list, fieldsRead, _⟩ := bind_eq_ok.1 walked
  exact ⟨list, fieldsRead⟩

end Walks

section Reorders

variable {ctx ctx' : Context}

mutual

theorem Walks.reorders (agree : ctx.Agree ctx') {name path root : String} {enclosing : Option String} :
    (c : Json) → ∀ {c' : Json}, Reorders c c' → Walks ctx name path enclosing root c →
      Walks ctx' name path enclosing root c'
  | .array _, _, .array related, walks => by
    obtain ⟨list, fieldsRead⟩ := walks.fields
    intro b
    exact ⟨_, bind_eq_ok.2 ⟨list, walkFields_reorders agree fieldsRead related, rfl⟩⟩
  | .object entries, _, .object keys values perm, walks => by
    have moved := membersWalk_reorders agree entries (Json.entriesReorder_iff.2 ⟨keys, values⟩) walks.members
    intro b
    obtain ⟨r, read⟩ := walkMembers_ok_of_walks _ (fun e listed => moved e (perm.symm.subset listed))
      { b with unions := b.unions.insert name ⟨name, [], []⟩ } [] []
    exact ⟨_, bind_eq_ok.2 ⟨r, read, rfl⟩⟩
  | .null, _, .null, walks | .bool _, _, .bool _, walks | .number _, _, .number _, walks
  | .string _, _, .string _, walks => by
    obtain ⟨_, walked⟩ := walks {}
    simp [walkNode] at walked

theorem membersWalk_reorders (agree : ctx.Agree ctx') {name path root : String} :
    (entries : List (String × Json)) → ∀ {moved : List (String × Json)}, Json.EntriesReorder entries moved →
      (∀ e ∈ entries, Walks ctx (memberName e.1).2 (path ++ "." ++ e.1) (some name) (memberRoot e.1 root) e.2) →
      ∀ e ∈ moved, Walks ctx' (memberName e.1).2 (path ++ "." ++ e.1) (some name) (memberRoot e.1 root) e.2
  | [], [], .nil, _ => by simp
  | (key, child) :: rest, (key', child') :: rest', .cons here later, walks => by
    obtain ⟨same, related⟩ := here
    simp only at same related
    subst same
    intro e listed
    rcases List.mem_cons.1 listed with rfl | inRest
    · exact Walks.reorders agree child related (walks (key, child) List.mem_cons_self)
    · exact membersWalk_reorders agree rest later (fun e member => walks e (List.mem_cons_of_mem _ member)) e inRest

end

end Reorders

/-! ### The bases table -/

/-- The base that the bases-table entry `key` with content `content` is read as. -/
def BaseRead (ctx : Context) (key : String) (content : Json) (base : BaseNode) : Prop :=
  ∃ items list, content = .array items ∧ walkFields ctx key items ("bases." ++ key) false = .ok list ∧
    base = ⟨⟨key, list.bases, list.fields⟩⟩

section Bases

variable {ctx : Context}

theorem walkBase_eq_ok {b b' : Builder} {name path : String} {content : Json} :
    walkBase ctx b name path content = .ok b' ↔
      ∃ items list, content = .array items ∧ walkFields ctx name items path false = .ok list ∧
        b' = { b with bases := b.bases.insert name ⟨⟨name, list.bases, list.fields⟩⟩ } := by
  constructor
  · intro walked
    cases content with
    | array items =>
      obtain ⟨list, read, stored⟩ := bind_eq_ok.1 walked
      cases stored
      exact ⟨items, list, rfl, read, rfl⟩
    | _ => cases walked
  · rintro ⟨items, list, rfl, read, rfl⟩
    exact bind_eq_ok.2 ⟨list, read, rfl⟩

theorem BaseRead.unique {key : String} {content : Json} {x y : BaseNode} (read : BaseRead ctx key content x)
    (read' : BaseRead ctx key content y) : x = y := by
  obtain ⟨items, list, rfl, fields, rfl⟩ := read
  obtain ⟨items', list', same, fields', rfl⟩ := read'
  cases same
  rw [fields] at fields'
  cases fields'
  rfl

theorem BaseRead.reorders {ctx' : Context} {key : String} {c c' : Json} {base : BaseNode}
    (agree : ctx.Agree ctx') (read : BaseRead ctx key c base) (reordered : Reorders c c') :
    BaseRead ctx' key c' base := by
  obtain ⟨items, list, rfl, fields, rfl⟩ := read
  obtain ⟨items', rfl, related⟩ := reordered.array_left
  exact ⟨items', list, rfl, walkFields_reorders agree fields related, rfl⟩

theorem walkBases_entries : ∀ (bases : List (String × Json)) {b b' : Builder},
    (b.bases.keys ++ bases.map Prod.fst).Nodup →
    bases.foldlM (fun b (name, content) => walkBase ctx b name ("bases." ++ name) content) b = .ok b' →
    ∀ e, e ∈ b'.bases.entries ↔ e ∈ b.bases.entries ∨ ∃ c, (e.1, c) ∈ bases ∧ BaseRead ctx e.1 c e.2
  | [], b, b', _, walked => by
    cases walked
    simp
  | (name, content) :: rest, b, b', distinct, walked => by
    obtain ⟨middle, first, later⟩ := bind_eq_ok.1 walked
    obtain ⟨items, list, rfl, fields, rfl⟩ := walkBase_eq_ok.1 first
    have fresh : name ∉ b.bases.keys := by
      intro present
      exact (List.nodup_append.1 distinct).2.2 _ present _ (by simp) rfl
    have read : BaseRead ctx name (.array items) ⟨⟨name, list.bases, list.fields⟩⟩ := ⟨items, list, rfl, fields, rfl⟩
    have stored := Table.entries_insert_of_not_mem (⟨⟨name, list.bases, list.fields⟩⟩ : BaseNode) fresh
    have restDistinct : ((b.bases.insert name ⟨⟨name, list.bases, list.fields⟩⟩).keys ++
        rest.map Prod.fst).Nodup := by
      rw [Table.keys_insert_of_not_mem _ fresh]
      simpa using distinct
    intro e
    rw [walkBases_entries rest restDistinct later e]
    change e ∈ (b.bases.insert name _).entries ∨ _ ↔ _
    rw [stored]
    obtain ⟨k, x⟩ := e
    simp only [List.mem_append, List.mem_cons, List.not_mem_nil, or_false, Prod.mk.injEq]
    constructor
    · rintro ((old | ⟨rfl, rfl⟩) | ⟨c, inRest, base⟩)
      · exact .inl old
      · exact .inr ⟨_, .inl ⟨rfl, rfl⟩, read⟩
      · exact .inr ⟨c, .inr inRest, base⟩
    · rintro (old | ⟨c, ⟨rfl, rfl⟩ | inRest, base⟩)
      · exact .inl (.inl old)
      · exact .inl (.inr ⟨rfl, base.unique read⟩)
      · exact .inr ⟨c, inRest, base⟩

end Bases

/-! ### The leaves -/

/-- `l` is a leaf read from the subtree of the node `name` found at `path`, directly inside
`enclosing` and under `root`: the node's own field list, or a leaf under one of its members. -/
inductive LeafIn (ctx : Context) : String → String → Option String → String → Json → LeafNode → Prop
  | here {name path : String} {enclosing : Option String} {root : String} {items : List Json}
      {list : FieldList} :
      walkFields ctx name items path true = .ok list →
      LeafIn ctx name path enclosing root (.array items)
        { name, bases := list.bases, fields := list.fields, tag := list.tag.getD (name.map Char.toLower),
          enclosingUnion := enclosing, rootUnion := root }
  | member {name path : String} {enclosing : Option String} {root key : String}
      {entries : List (String × Json)} {child : Json} {l : LeafNode} :
      (key, child) ∈ entries →
      LeafIn ctx (memberName key).2 (path ++ "." ++ key) (some name) (memberRoot key root) child l →
      LeafIn ctx name path enclosing root (.object entries) l

/-- `l` is a leaf under one of the members `entries` of the union `name` found at `path`. -/
def MemberLeafIn (ctx : Context) (name path root : String) (entries : List (String × Json)) (l : LeafNode) :
    Prop :=
  ∃ key child, (key, child) ∈ entries ∧
    LeafIn ctx (memberName key).2 (path ++ "." ++ key) (some name) (memberRoot key root) child l

section Leaves

variable {ctx : Context}

theorem leafIn_array_iff {name path root : String} {enclosing : Option String} {items : List Json}
    {l : LeafNode} :
    LeafIn ctx name path enclosing root (.array items) l ↔
      ∃ list, walkFields ctx name items path true = .ok list ∧
        l = { name, bases := list.bases, fields := list.fields, tag := list.tag.getD (name.map Char.toLower),
              enclosingUnion := enclosing, rootUnion := root } := by
  constructor
  · intro leaf
    cases leaf with
    | here read => exact ⟨_, read, rfl⟩
  · rintro ⟨list, read, rfl⟩
    exact .here read

theorem leafIn_object_iff {name path root : String} {enclosing : Option String}
    {entries : List (String × Json)} {l : LeafNode} :
    LeafIn ctx name path enclosing root (.object entries) l ↔ MemberLeafIn ctx name path root entries l := by
  constructor
  · intro leaf
    cases leaf with
    | member listed inner => exact ⟨_, _, listed, inner⟩
  · rintro ⟨key, child, listed, inner⟩
    exact .member listed inner

theorem memberLeafIn_nil {name path root : String} {l : LeafNode} : ¬MemberLeafIn ctx name path root [] l := by
  rintro ⟨_, _, listed, _⟩
  cases listed

theorem memberLeafIn_cons {name path root key : String} {child : Json} {rest : List (String × Json)}
    {l : LeafNode} :
    MemberLeafIn ctx name path root ((key, child) :: rest) l ↔
      LeafIn ctx (memberName key).2 (path ++ "." ++ key) (some name) (memberRoot key root) child l ∨
        MemberLeafIn ctx name path root rest l := by
  constructor
  · rintro ⟨key', child', listed, inner⟩
    rcases List.mem_cons.1 listed with same | later
    · cases same
      exact .inl inner
    · exact .inr ⟨key', child', later, inner⟩
  · rintro (inner | ⟨key', child', later, inner⟩)
    · exact ⟨key, child, List.mem_cons_self, inner⟩
    · exact ⟨key', child', List.mem_cons_of_mem _ later, inner⟩

mutual

theorem walkNode_leaves {b b' : Builder} {name path root : String} {enclosing : Option String} :
    (content : Json) → Fresh b (nodeDecls name content) →
      walkNode ctx b name path enclosing root content = .ok b' →
      ∀ e, e ∈ b'.leaves.entries ↔
        e ∈ b.leaves.entries ∨ e.1 = e.2.name ∧ LeafIn ctx name path enclosing root content e.2
  | .array items, fresh, walked => by
    obtain ⟨list, read, stored⟩ := bind_eq_ok.1 walked
    cases stored
    have absent : name ∉ b.leaves.keys := fresh.leaves name (by simp [nodeDecls])
    intro e
    show e ∈ (b.leaves.insert name _).entries ↔ _
    rw [Table.entries_insert_of_not_mem _ absent, List.mem_append, List.mem_singleton, leafIn_array_iff]
    obtain ⟨k, l⟩ := e
    constructor
    · rintro (old | same)
      · exact .inl old
      · cases same
        exact .inr ⟨rfl, list, read, rfl⟩
    · rintro (old | ⟨named, list', read', rfl⟩)
      · exact .inl old
      · rw [read] at read'
        cases read'
        simp only at named
        subst named
        exact .inr rfl
  | .object entries, fresh, walked => by
    obtain ⟨⟨inner, members, excluded⟩, membersRead, stored⟩ := bind_eq_ok.1 walked
    cases stored
    have split : nodeDecls name (.object entries) = [(name, .union)] ++ memberDecls entries := rfl
    rw [split] at fresh
    have absent : name ∉ b.unions.keys := fresh.unions name (by simp)
    have slot : Walked ctx b _ _ := walked_claimSlot absent
    have stored := walkMembers_leaves entries (fresh.after slot) membersRead
    intro e
    rw [leafIn_object_iff]
    exact stored e
  | .null, _, walked | .bool _, _, walked | .number _, _, walked | .string _, _, walked => by
    simp [walkNode] at walked

theorem walkMembers_leaves {b b' : Builder} {name path root : String}
    {members excluded members' excluded' : List String} :
    (entries : List (String × Json)) → Fresh b (memberDecls entries) →
      walkMembers ctx name path root b members excluded entries = .ok (b', members', excluded') →
      ∀ e, e ∈ b'.leaves.entries ↔
        e ∈ b.leaves.entries ∨ e.1 = e.2.name ∧ MemberLeafIn ctx name path root entries e.2
  | [], _, walked => by
    simp only [walkMembers, Except.ok.injEq, Prod.mk.injEq] at walked
    obtain ⟨rfl, -, -⟩ := walked
    intro e
    simp [memberLeafIn_nil]
  | (key, child) :: rest, fresh, walked => by
    rcases named : memberName key with ⟨isExcluded, member⟩
    have split : memberDecls ((key, child) :: rest) = nodeDecls member child ++ memberDecls rest := by
      simp [memberDecls, named]
    rw [split] at fresh
    have rooted : memberRoot key root = if isExcluded then member else root := by
      simp [memberRoot, named]
    simp only [walkMembers, named] at walked
    obtain ⟨middle, nodeRead, restRead⟩ := bind_eq_ok.1 walked
    have nodeLeaves := walkNode_leaves child fresh.left nodeRead
    have nodeWalked := (walkNode_walked child fresh.left nodeRead).1
    have restLeaves : ∀ e, e ∈ b'.leaves.entries ↔
        e ∈ middle.leaves.entries ∨ e.1 = e.2.name ∧ MemberLeafIn ctx name path root rest e.2 := by
      cases isExcluded <;> exact walkMembers_leaves rest (fresh.after nodeWalked) restRead
    intro e
    rw [restLeaves, nodeLeaves, memberLeafIn_cons, named, rooted]
    simp only
    tauto

end

theorem walkNodes_leaves : ∀ (nodes : List (String × Json)) {b b' : Builder},
    Fresh b (nodes.flatMap fun e => nodeDecls e.1 e.2) →
    nodes.foldlM (fun b (name, content) =>
      walkNode ctx b name ("nodes." ++ name) none name content) b = .ok b' →
    ∀ e, e ∈ b'.leaves.entries ↔ e ∈ b.leaves.entries ∨
      e.1 = e.2.name ∧ ∃ name c, (name, c) ∈ nodes ∧ LeafIn ctx name ("nodes." ++ name) none name c e.2
  | [], b, b', _, walked => by
    cases walked
    simp
  | (name, content) :: rest, b, b', fresh, walked => by
    obtain ⟨middle, nodeRead, restRead⟩ := bind_eq_ok.1 walked
    rw [List.flatMap_cons] at fresh
    have nodeLeaves := walkNode_leaves content fresh.left nodeRead
    have nodeWalked := (walkNode_walked content fresh.left nodeRead).1
    have restLeaves := walkNodes_leaves rest (fresh.after nodeWalked) restRead
    intro e
    rw [restLeaves, nodeLeaves]
    constructor
    · rintro ((old | ⟨named, leaf⟩) | ⟨named, name', c, listed, leaf⟩)
      · exact .inl old
      · exact .inr ⟨named, name, content, List.mem_cons_self, leaf⟩
      · exact .inr ⟨named, name', c, List.mem_cons_of_mem _ listed, leaf⟩
    · rintro (old | ⟨named, name', c, listed, leaf⟩)
      · exact .inl (.inl old)
      · rcases List.mem_cons.1 listed with same | later
        · cases same
          exact .inl (.inr ⟨named, leaf⟩)
        · exact .inr ⟨named, name', c, later, leaf⟩

theorem LeafIn.reorders {ctx' : Context} (agree : ctx.Agree ctx') {name path root : String}
    {enclosing : Option String} {c : Json} {l : LeafNode} (leaf : LeafIn ctx name path enclosing root c l) :
    ∀ {c' : Json}, Reorders c c' → LeafIn ctx' name path enclosing root c' l := by
  induction leaf with
  | here read =>
    intro c' reordered
    obtain ⟨items', rfl, related⟩ := reordered.array_left
    exact .here (walkFields_reorders agree read related)
  | member listed _ ih =>
    intro c' reordered
    obtain ⟨entries', _, rfl, _, _⟩ := reordered.object_left
    obtain ⟨child', listed', related⟩ := Json.mem_of_reorders reordered listed
    exact .member listed' (ih related)

end Leaves

/-! ### The unions -/

/-- `u'` is the union `u` with its members, summed and excluded, in another order. -/
structure UnionNode.Rearranged (u u' : UnionNode) : Prop where
  name : u'.name = u.name
  members : u.members.Perm u'.members
  excluded : u.excluded.Perm u'.excluded

theorem summedMembers_eq (entries : List (String × Json)) :
    summedMembers entries =
      (entries.map Prod.fst).filterMap fun k => if (memberName k).1 then none else some (memberName k).2 := by
  simp [summedMembers, List.filterMap_map]

theorem excludedMembers_eq (entries : List (String × Json)) :
    excludedMembers entries =
      (entries.map Prod.fst).filterMap fun k => if (memberName k).1 then some (memberName k).2 else none := by
  simp [excludedMembers, List.filterMap_map]

theorem memberUnions_eq_flatMap (root : String) (entries : List (String × Json)) :
    memberUnions root entries = entries.flatMap fun e => nodeUnions (memberName e.1).2 (memberRoot e.1 root) e.2 := by
  induction entries with
  | nil => rfl
  | cons e rest ih =>
    obtain ⟨key, child⟩ := e
    rw [memberUnions, ih, List.flatMap_cons]

theorem union_rearranged {name : String} {entries entries' : List (String × Json)}
    (reordered : Reorders (.object entries) (.object entries')) :
    UnionNode.Rearranged ⟨name, summedMembers entries, excludedMembers entries⟩
      ⟨name, summedMembers entries', excludedMembers entries'⟩ where
  name := rfl
  members := by
    rw [summedMembers_eq, summedMembers_eq]
    exact (Json.keys_perm_of_reorders reordered).filterMap _
  excluded := by
    rw [excludedMembers_eq, excludedMembers_eq]
    exact (Json.keys_perm_of_reorders reordered).filterMap _

mutual

theorem nodeUnions_reorders {name root : String} : (c : Json) → ∀ {c' : Json}, Reorders c c' →
    ∀ q ∈ nodeUnions name root c, ∃ q' ∈ nodeUnions name root c', q'.2 = q.2 ∧ q.1.Rearranged q'.1
  | .object entries, _, reordered@(.object keys values perm) => by
    intro q listed
    simp only [nodeUnions, List.mem_cons] at listed ⊢
    rcases listed with rfl | inner
    · exact ⟨_, .inl rfl, rfl, union_rearranged reordered⟩
    · obtain ⟨q', found, sameRoot, rearranged⟩ :=
        memberUnions_reorders entries (Json.entriesReorder_iff.2 ⟨keys, values⟩) q inner
      refine ⟨q', .inr ?_, sameRoot, rearranged⟩
      rw [memberUnions_eq_flatMap] at found ⊢
      exact (perm.flatMap_right _).subset found
  | .array _, _, _ | .null, _, _ | .bool _, _, _ | .number _, _, _ | .string _, _, _ => by
    simp [nodeUnions]

theorem memberUnions_reorders {root : String} : (entries : List (String × Json)) →
    ∀ {moved : List (String × Json)}, Json.EntriesReorder entries moved →
      ∀ q ∈ memberUnions root entries, ∃ q' ∈ memberUnions root moved, q'.2 = q.2 ∧ q.1.Rearranged q'.1
  | [], [], .nil => by simp [memberUnions]
  | (key, child) :: rest, (key', child') :: rest', .cons here later => by
    obtain ⟨same, related⟩ := here
    simp only at same related
    subst same
    intro q listed
    simp only [memberUnions, List.mem_append] at listed ⊢
    rcases listed with inner | inRest
    · obtain ⟨q', found, rest⟩ := nodeUnions_reorders child related q inner
      exact ⟨q', .inl found, rest⟩
    · obtain ⟨q', found, rest⟩ := memberUnions_reorders rest later q inRest
      exact ⟨q', .inr found, rest⟩

end

theorem documentUnions_reorders {nodes nodes' : List (String × Json)}
    (reordered : Reorders (.object nodes) (.object nodes')) :
    ∀ q ∈ documentUnions nodes, ∃ q' ∈ documentUnions nodes', q'.2 = q.2 ∧ q.1.Rearranged q'.1 := by
  intro q listed
  obtain ⟨⟨name, c⟩, top, inner⟩ := List.mem_flatMap.1 listed
  obtain ⟨c', top', related⟩ := Json.mem_of_reorders reordered top
  obtain ⟨q', found, rest⟩ := nodeUnions_reorders c related q inner
  exact ⟨q', List.mem_flatMap.2 ⟨(name, c'), top', found⟩, rest⟩

/-! ### Both passes -/

theorem loadParts_tables {parts : DocumentParts} {s : Schema} (loaded : loadParts parts = .ok s) :
    ∃ names, collectNames parts.bases parts.externs parts.nodes = .ok names ∧ s.options = parts.options ∧
      s.externs = parts.externs.foldl (fun t e => t.insert e.symbol e) .empty ∧
      (∀ e, e ∈ s.bases.entries ↔
        ∃ c, (e.1, c) ∈ parts.bases ∧ BaseRead ⟨names, parts.options.tagName⟩ e.1 c e.2) ∧
      (∀ e, e ∈ s.leaves.entries ↔ e.1 = e.2.name ∧
        ∃ name c, (name, c) ∈ parts.nodes ∧ LeafIn ⟨names, parts.options.tagName⟩ name ("nodes." ++ name) none name c e.2) ∧
      s.unions.entries = unionEntries (documentUnions parts.nodes) := by
  obtain ⟨names, namesRead, rest⟩ := bind_eq_ok.1 loaded
  obtain ⟨b₁, basesRead, rest⟩ := bind_eq_ok.1 rest
  obtain ⟨b₂, nodesRead, stored⟩ := bind_eq_ok.1 rest
  cases stored
  have declared := collectNames_declares namesRead
  obtain ⟨basesNodup, -, treeNodup⟩ := documentDecls_nodup declared.nodup
  have basesDistinct : ((Table.empty : Table BaseNode).keys ++ parts.bases.map Prod.fst).Nodup := by
    simpa using basesNodup
  obtain ⟨leavesEmpty, unionsEmpty, -, -⟩ := walkBases_spec parts.bases basesDistinct (by simp) basesRead
  have fresh : Fresh b₁ (parts.nodes.flatMap fun e => nodeDecls e.1 e.2) :=
    ⟨treeNodup, by intro n _; rw [leavesEmpty]; simp, by intro n _; rw [unionsEmpty]; simp⟩
  have walked := walkNodes_walked parts.nodes fresh nodesRead
  refine ⟨names, namesRead, rfl, rfl, ?_, ?_, ?_⟩
  · intro e
    show e ∈ b₂.bases.entries ↔ _
    rw [walked.bases, walkBases_entries parts.bases basesDistinct basesRead e]
    simp [Table.empty]
  · intro e
    show e ∈ b₂.leaves.entries ↔ _
    rw [walkNodes_leaves parts.nodes fresh nodesRead e, leavesEmpty]
    simp [Table.empty]
  · show b₂.unions.entries = _
    rw [(walkNodes_tree parts.nodes fresh nodesRead).2.2, unionsEmpty]
    rfl

section Passes

variable {ctx ctx' : Context} (agree : ctx.Agree ctx')
include agree

theorem walkBases_reorders {bases bases' : List (String × Json)} {b₁ : Builder}
    (reordered : Reorders (.object bases) (.object bases'))
    (walked : bases.foldlM (fun b (name, content) => walkBase ctx b name ("bases." ++ name) content) {} = .ok b₁) :
    ∀ b, ∃ b', bases'.foldlM (fun b (name, content) => walkBase ctx' b name ("bases." ++ name) content) b = .ok b' := by
  refine foldlM_ok_of_each ?_
  rintro ⟨k, c'⟩ listed' b
  obtain ⟨c, listed, back⟩ := Json.mem_of_reorders (Reorders.symm _ reordered) listed'
  obtain ⟨_, _, step⟩ := foldlM_ok_each walked (k, c) listed
  obtain ⟨items, list, rfl, read, -⟩ := walkBase_eq_ok.1 step
  obtain ⟨items', rfl, related⟩ := (Reorders.symm _ back).array_left
  exact ⟨_, walkBase_eq_ok.2 ⟨items', list, rfl, walkFields_reorders agree read related, rfl⟩⟩

theorem walkNodes_reorders {nodes nodes' : List (String × Json)} {b b₂ : Builder}
    (reordered : Reorders (.object nodes) (.object nodes'))
    (walked : nodes.foldlM (fun b (name, content) =>
      walkNode ctx b name ("nodes." ++ name) none name content) b = .ok b₂) :
    ∀ b, ∃ b', nodes'.foldlM (fun b (name, content) =>
      walkNode ctx' b name ("nodes." ++ name) none name content) b = .ok b' := by
  refine foldlM_ok_of_each ?_
  rintro ⟨k, c'⟩ listed' b
  obtain ⟨c, listed, back⟩ := Json.mem_of_reorders (Reorders.symm _ reordered) listed'
  obtain ⟨_, _, step⟩ := foldlM_ok_each walked (k, c) listed
  exact Walks.reorders agree c (Reorders.symm _ back) (walks_of_walkNode c step) b

end Passes

/-- `s'` holds the declarations of `s` rearranged: the same options and external types, the
same bases and leaves under the same names, and under each union name the same union with its
members in another order. -/
structure Schema.Rearranged (s s' : Schema) : Prop where
  options : s'.options = s.options
  externs : s'.externs = s.externs
  bases : s.bases.entries.Perm s'.bases.entries
  leaves : s.leaves.entries.Perm s'.leaves.entries
  unionKeys : s.unions.keys.Perm s'.unions.keys
  unions : ∀ k u, s.unions.get? k = some u → ∃ u', s'.unions.get? k = some u' ∧ u.Rearranged u'

section Transfer

variable {ctx ctx' : Context} (agree : ctx.Agree ctx')
include agree

theorem BaseRead.transfer {bases bases' : List (String × Json)} (reordered : Reorders (.object bases) (.object bases'))
    {key : String} {base : BaseNode} :
    (∃ c, (key, c) ∈ bases ∧ BaseRead ctx key c base) → ∃ c', (key, c') ∈ bases' ∧ BaseRead ctx' key c' base := by
  rintro ⟨c, listed, read⟩
  obtain ⟨c', listed', related⟩ := Json.mem_of_reorders reordered listed
  exact ⟨c', listed', read.reorders agree related⟩

theorem LeafIn.transfer {nodes nodes' : List (String × Json)} (reordered : Reorders (.object nodes) (.object nodes'))
    {l : LeafNode} :
    (∃ name c, (name, c) ∈ nodes ∧ LeafIn ctx name ("nodes." ++ name) none name c l) →
      ∃ name c', (name, c') ∈ nodes' ∧ LeafIn ctx' name ("nodes." ++ name) none name c' l := by
  rintro ⟨name, c, listed, leaf⟩
  obtain ⟨c', listed', related⟩ := Json.mem_of_reorders reordered listed
  exact ⟨name, c', listed', leaf.reorders agree related⟩

end Transfer

theorem unionKeys_reorders {nodes nodes' : List (String × Json)}
    (reordered : Reorders (.object nodes) (.object nodes')) {k : String}
    (listed : k ∈ (unionEntries (documentUnions nodes)).map Prod.fst) :
    k ∈ (unionEntries (documentUnions nodes')).map Prod.fst := by
  simp only [unionEntries, List.map_map, List.mem_map, Function.comp_apply] at listed ⊢
  obtain ⟨q, member, rfl⟩ := listed
  obtain ⟨q', member', _, rearranged⟩ := documentUnions_reorders reordered q member
  exact ⟨q', member', rearranged.name⟩

theorem loadParts_reorders {parts parts' : DocumentParts} {s : Schema} (rearranged : parts.Rearranged parts')
    (loaded : loadParts parts = .ok s) : ∃ s', loadParts parts' = .ok s' ∧ s.Rearranged s' := by
  obtain ⟨names, namesRead, rest⟩ := bind_eq_ok.1 loaded
  obtain ⟨b₁, basesRead, rest⟩ := bind_eq_ok.1 rest
  obtain ⟨b₂, nodesRead, _⟩ := bind_eq_ok.1 rest
  have namesRead₀ := namesRead
  rw [← rearranged.externs] at namesRead₀
  obtain ⟨names', namesRead', kinds⟩ := collectNames_reorders rearranged.bases rearranged.nodes namesRead₀
  have agree : Context.Agree ⟨names, parts.options.tagName⟩ ⟨names', parts'.options.tagName⟩ := by
    refine ⟨by rw [rearranged.options], fun n k => ?_, fun n => (kinds n).2⟩
    rw [Bool.eq_iff_iff, NameTable.hasKind_iff, NameTable.hasKind_iff]
    exact (kinds n).1.mem_iff.symm
  obtain ⟨b₁', basesRead'⟩ := walkBases_reorders agree rearranged.bases basesRead {}
  obtain ⟨b₂', nodesRead'⟩ := walkNodes_reorders agree rearranged.nodes nodesRead b₁'
  have loaded' : loadParts parts' = .ok ⟨parts'.options, names', b₂'.bases, b₂'.leaves, b₂'.unions,
      parts'.externs.foldl (fun t e => t.insert e.symbol e) .empty⟩ :=
    bind_eq_ok.2 ⟨names', namesRead', bind_eq_ok.2 ⟨b₁', basesRead', bind_eq_ok.2 ⟨b₂', nodesRead', rfl⟩⟩⟩
  refine ⟨_, loaded', ?_⟩
  obtain ⟨n₁, read₁, options₁, externs₁, bases₁, leaves₁, unions₁⟩ := loadParts_tables loaded
  obtain ⟨n₂, read₂, options₂, externs₂, bases₂, leaves₂, unions₂⟩ := loadParts_tables loaded'
  rw [namesRead] at read₁
  rw [namesRead'] at read₂
  cases read₁
  cases read₂
  have backward := Json.Reorders.symm _ rearranged.nodes
  refine ⟨?_, ?_, ?_, ?_, ?_, ?_⟩
  · rw [options₁, options₂, rearranged.options]
  · rw [externs₁, externs₂, rearranged.externs]
  · refine Table.entries_perm_of_mem_iff fun e => ?_
    rw [bases₁, bases₂]
    exact ⟨BaseRead.transfer agree rearranged.bases, BaseRead.transfer agree.symm (Json.Reorders.symm _ rearranged.bases)⟩
  · refine Table.entries_perm_of_mem_iff fun e => ?_
    rw [leaves₁, leaves₂]
    exact and_congr_right fun _ =>
      ⟨LeafIn.transfer agree rearranged.nodes, LeafIn.transfer agree.symm backward⟩
  · refine (List.perm_ext_iff_of_nodup s.unions.nodup_keys (Table.nodup_keys _)).2 fun k => ?_
    show k ∈ s.unions.entries.map Prod.fst ↔ k ∈ (Table.entries _).map Prod.fst
    rw [unions₁, unions₂]
    exact ⟨unionKeys_reorders rearranged.nodes, unionKeys_reorders backward⟩
  · intro k u found
    rw [Table.get?_eq_some_iff, unions₁] at found
    obtain ⟨q, member, same⟩ := List.mem_map.1 found
    simp only [Prod.mk.injEq] at same
    obtain ⟨rfl, rfl⟩ := same
    obtain ⟨q', member', _, rearrangedUnion⟩ := documentUnions_reorders rearranged.nodes q member
    refine ⟨q'.1, ?_, rearrangedUnion⟩
    rw [Table.get?_eq_some_iff, unions₂, ← rearrangedUnion.name]
    exact List.mem_map.2 ⟨q', member', rfl⟩

theorem Schema.load_reorders {v v' : Json} {s : Schema} (distinct : v.keysDistinct = true)
    (reordered : Reorders v v') (loaded : Schema.load v = .ok s) :
    ∃ s', Schema.load v' = .ok s' ∧ s.Rearranged s' := by
  obtain ⟨parts, read, built⟩ := bind_eq_ok.1 loaded
  obtain ⟨parts', read', rearranged⟩ := readParts_reorders distinct reordered read
  obtain ⟨s', loaded', same⟩ := loadParts_reorders rearranged built
  exact ⟨s', bind_eq_ok.2 ⟨parts', read', loaded'⟩, same⟩

end NodeSchema
