import NodeSchema.Proofs.Load.Builder

set_option autoImplicit false

/-! The invariants of a loaded schema, from the two passes together. The first pass records the
document's declarations in the name table; the second stores each of them, once, in the table
of its kind, under its own name. So the names a schema records with a kind are exactly the keys
of that kind's table, and every reference the second pass checked against the name table lands
on a key of some table. -/

namespace NodeSchema

namespace Schema

/-- The keys of the table holding one kind of declaration. -/
def keysOf (s : Schema) : DeclKind → List String
  | .base => s.bases.keys
  | .leaf => s.leaves.keys
  | .union => s.unions.keys
  | .external => s.externs.keys

/-- Every base, leaf and union of a schema is stored under its own name, every external type
under its symbol. -/
structure KeyedByName (s : Schema) : Prop where
  bases : ∀ k b, s.bases.get? k = some b → b.name = k
  leaves : ∀ k l, s.leaves.get? k = some l → l.name = k
  unions : ∀ k u, s.unions.get? k = some u → u.name = k
  externs : ∀ k e, s.externs.get? k = some e → e.symbol = k

/-- What loading establishes of a schema. -/
structure WellFormed (s : Schema) : Prop where
  declares : ∀ n k, k ∈ s.names.kinds n ↔ n ∈ s.keysOf k
  kinds_nodup : ∀ n, (s.names.kinds n).Nodup
  names_keys : ∀ n, n ∈ s.names.entries.keys ↔ s.names.kinds n ≠ []
  declarable : ∀ n, s.names.kinds n ≠ [] → isDeclarable n = true
  tagName : Text.isIdentifier s.options.tagName = true
  bases : ∀ k b, s.bases.get? k = some b → RecordPlaced ⟨s.names, s.options.tagName⟩ k b.toRecord
  leaves : ∀ k l, s.leaves.get? k = some l → RecordPlaced ⟨s.names, s.options.tagName⟩ k l.toRecord
  unions : ∀ k u, s.unions.get? k = some u → UnionPlaced s.leaves s.unions.keys k u
  externs : ∀ k e, s.externs.get? k = some e → e.symbol = k

theorem WellFormed.keyedByName {s : Schema} (wf : s.WellFormed) : s.KeyedByName where
  bases := fun k b found => (wf.bases k b found).1
  leaves := fun k l found => (wf.leaves k l found).1
  unions := fun k u found => (wf.unions k u found).1
  externs := wf.externs

end Schema

/-! ### The parts of a document -/

theorem readOptionsBlock_tagName {root : List (String × Json)} {options : Options}
    (read : readOptionsBlock root = .ok options) : Text.isIdentifier options.tagName = true := by
  unfold readOptionsBlock at read
  split at read
  · unfold Options.read at read
    split at read
    · cases read
    · split at read
      · rename_i valid
        cases read
        exact valid
      · cases read
  · cases read
    decide

theorem readParts_tagName {value : Json} {parts : DocumentParts} (read : readParts value = .ok parts) :
    Text.isIdentifier parts.options.tagName = true := by
  unfold readParts at read
  split at read
  · split at read
    · cases read
    · split at read
      · cases read
      · obtain ⟨options, optionsRead, rest⟩ := bind_eq_ok.1 read
        obtain ⟨externs, _, rest⟩ := bind_eq_ok.1 rest
        obtain ⟨bases, _, stored⟩ := bind_eq_ok.1 rest
        cases stored
        exact readOptionsBlock_tagName optionsRead
      · cases read
  · cases read

/-! ### The bases and the node tree -/

section Passes

variable {ctx : Context}

theorem walkBases_spec : ∀ (bases : List (String × Json)) {b b' : Builder},
    (b.bases.keys ++ bases.map Prod.fst).Nodup →
    (∀ k r, b.bases.get? k = some r → RecordPlaced ctx k r.toRecord) →
    bases.foldlM (fun b (name, content) => walkBase ctx b name ("bases." ++ name) content) b =
      .ok b' →
    b'.leaves = b.leaves ∧ b'.unions = b.unions ∧ b'.bases.keys = b.bases.keys ++ bases.map Prod.fst ∧
      ∀ k r, b'.bases.get? k = some r → RecordPlaced ctx k r.toRecord
  | [], b, b', _, placed, walked => by
    cases walked
    exact ⟨rfl, rfl, by simp, placed⟩
  | (name, content) :: rest, b, b', distinct, placed, walked => by
    obtain ⟨middle, baseRead, restRead⟩ := bind_eq_ok.1 walked
    cases content with
    | array items =>
      obtain ⟨list, fieldsRead, stored⟩ := bind_eq_ok.1 baseRead
      cases stored
      have fresh : name ∉ b.bases.keys := by
        intro present
        exact (List.nodup_append.1 distinct).2.2 _ present _ (by simp) rfl
      have keysAfter := Table.keys_insert_of_not_mem
        (⟨⟨name, list.bases, list.fields⟩⟩ : BaseNode) fresh
      obtain ⟨sameLeaves, sameUnions, keys, restPlaced⟩ := walkBases_spec rest
        (by
          show ((b.bases.insert name _).keys ++ rest.map Prod.fst).Nodup
          rw [keysAfter]
          simpa using distinct)
        (by
          intro k r found
          simp only [Table.get?_insert] at found
          split at found
          · rename_i same
            cases found
            exact ⟨same.symm, walkFields_sound fieldsRead⟩
          · exact placed k r found)
        restRead
      refine ⟨sameLeaves, sameUnions, ?_, restPlaced⟩
      rw [keys]
      show (b.bases.insert name _).keys ++ _ = _
      rw [keysAfter]
      simp
    | _ => cases baseRead

theorem walkNodes_walked : ∀ (nodes : List (String × Json)) {b b' : Builder},
    Fresh b (nodes.flatMap fun e => nodeDecls e.1 e.2) →
    nodes.foldlM (fun b (name, content) =>
      walkNode ctx b name ("nodes." ++ name) none name content) b = .ok b' →
    Walked ctx b (nodes.flatMap fun e => nodeDecls e.1 e.2) b'
  | [], b, b', _, walked => by
    cases walked
    exact Walked.refl b
  | (name, content) :: rest, b, b', fresh, walked => by
    obtain ⟨middle, nodeRead, restRead⟩ := bind_eq_ok.1 walked
    rw [List.flatMap_cons] at fresh ⊢
    obtain ⟨nodeWalked, _⟩ := walkNode_walked content fresh.left nodeRead
    exact nodeWalked.trans (walkNodes_walked rest (fresh.after nodeWalked) restRead)

end Passes

/-! ### The loaded schema -/

private theorem namesOfKind_tagged {α : Type} (f : α → String) (tag kind : DeclKind) (xs : List α) :
    namesOfKind kind (xs.map fun x => (f x, tag)) = if tag = kind then xs.map f else [] := by
  induction xs with
  | nil => split <;> rfl
  | cons x rest ih => by_cases same : tag = kind <;> simp_all

private theorem namesOfKind_nodes {kind : DeclKind} (nodes : List (String × Json))
    (notLeaf : kind ≠ .leaf) (notUnion : kind ≠ .union) :
    namesOfKind kind (nodes.flatMap fun e => nodeDecls e.1 e.2) = [] := by
  rw [List.eq_nil_iff_forall_not_mem]
  intro n member
  rw [mem_namesOfKind, List.mem_flatMap] at member
  obtain ⟨e, _, inNode⟩ := member
  rcases nodeDecls_kind e.2 _ inNode with isLeaf | isUnion
  · exact notLeaf isLeaf
  · exact notUnion isUnion

theorem loadParts_wellFormed {parts : DocumentParts} {s : Schema}
    (tagValid : Text.isIdentifier parts.options.tagName = true) (loaded : loadParts parts = .ok s) :
    s.WellFormed := by
  obtain ⟨names, namesRead, rest⟩ := bind_eq_ok.1 loaded
  obtain ⟨b₁, basesRead, rest⟩ := bind_eq_ok.1 rest
  obtain ⟨b₂, nodesRead, stored⟩ := bind_eq_ok.1 rest
  cases stored
  have declared := collectNames_declares namesRead
  have split : documentDecls parts.bases parts.externs parts.nodes =
      (parts.bases.map fun e => (e.1, DeclKind.base)) ++
        (parts.externs.map fun e => (e.symbol, DeclKind.external)) ++
          parts.nodes.flatMap fun e => nodeDecls e.1 e.2 := rfl
  have baseNames : namesOfKind .base (documentDecls parts.bases parts.externs parts.nodes) =
      parts.bases.map Prod.fst := by
    rw [split, namesOfKind_append, namesOfKind_append, namesOfKind_tagged, namesOfKind_tagged,
      namesOfKind_nodes _ (by decide) (by decide)]
    simp
  have externNames : namesOfKind .external (documentDecls parts.bases parts.externs parts.nodes) =
      parts.externs.map (·.symbol) := by
    rw [split, namesOfKind_append, namesOfKind_append, namesOfKind_tagged, namesOfKind_tagged,
      namesOfKind_nodes _ (by decide) (by decide)]
    simp
  have nodeNames : ∀ kind, kind = .leaf ∨ kind = .union →
      namesOfKind kind (documentDecls parts.bases parts.externs parts.nodes) =
        namesOfKind kind (parts.nodes.flatMap fun e => nodeDecls e.1 e.2) := by
    rintro kind (rfl | rfl) <;>
    · rw [split, namesOfKind_append, namesOfKind_append, namesOfKind_tagged, namesOfKind_tagged]
      simp
  obtain ⟨basesNodup, externsNodup, treeNodup⟩ := documentDecls_nodup declared.nodup
  have basesDistinct : ((Table.empty : Table BaseNode).keys ++ parts.bases.map Prod.fst).Nodup := by
    simpa using basesNodup
  obtain ⟨leavesEmpty, unionsEmpty, baseKeys, basesPlaced⟩ :=
    walkBases_spec parts.bases basesDistinct (by simp) basesRead
  have fresh : Fresh b₁ (parts.nodes.flatMap fun e => nodeDecls e.1 e.2) :=
    ⟨treeNodup, by intro n _; rw [leavesEmpty]; simp, by intro n _; rw [unionsEmpty]; simp⟩
  have walked := walkNodes_walked parts.nodes fresh nodesRead
  have externsDistinct : ((Table.empty : Table ExternalNode).keys ++
      parts.externs.map (·.symbol)).Nodup := by
    simpa using externsNodup
  obtain ⟨externKeys, externsFound⟩ :=
    Table.foldl_insert_spec (·.symbol) parts.externs .empty externsDistinct
  have keys : ∀ kind, Schema.keysOf ⟨parts.options, names, b₂.bases, b₂.leaves, b₂.unions,
      parts.externs.foldl (fun t e => t.insert e.symbol e) .empty⟩ kind =
        namesOfKind kind (documentDecls parts.bases parts.externs parts.nodes) := by
    intro kind
    cases kind with
    | base =>
      show b₂.bases.keys = _
      rw [walked.bases, baseKeys, baseNames]
      rfl
    | leaf =>
      show b₂.leaves.keys = _
      rw [walked.leafKeys, leavesEmpty, nodeNames .leaf (Or.inl rfl)]
      rfl
    | union =>
      show b₂.unions.keys = _
      rw [walked.unionKeys, unionsEmpty, nodeNames .union (Or.inr rfl)]
      rfl
    | external =>
      show (parts.externs.foldl (fun t e => t.insert e.symbol e) (Table.empty : Table ExternalNode)).keys = _
      rw [externKeys, externNames]
      rfl
  have kinds : ∀ n, names.kinds n = kindsIn (documentDecls parts.bases parts.externs parts.nodes) n := by
    intro n
    rw [declared.kinds, NameTable.kinds_empty, List.nil_append]
  refine ⟨?_, ?_, ?_, ?_, tagValid, ?_, ?_, ?_, ?_⟩
  · intro n kind
    rw [kinds, mem_kindsIn, keys, mem_namesOfKind]
  · intro n
    rw [kinds]
    exact kindsIn_nodup declared.nodup n
  · intro n
    rw [declared.keys, NameTable.keys_empty, kinds, kindsIn_ne_nil_iff]
    simp
  · intro n declaredName
    rw [kinds, kindsIn_ne_nil_iff] at declaredName
    obtain ⟨d, member, rfl⟩ := List.mem_map.1 declaredName
    exact declared.declarable d member
  · intro k r found
    rw [walked.bases] at found
    exact basesPlaced k r found
  · intro k l found
    exact walked.newLeaves k l found (by rw [leavesEmpty]; simp)
  · intro k u found
    exact walked.newUnions k u found (by rw [unionsEmpty]; simp)
  · intro k e found
    rcases externsFound k e found with earlier | own
    · simp at earlier
    · exact own

theorem Schema.load_wellFormed {value : Json} {s : Schema} (loaded : Schema.load value = .ok s) :
    s.WellFormed := by
  obtain ⟨parts, partsRead, passes⟩ := bind_eq_ok.1 loaded
  exact loadParts_wellFormed (readParts_tagName partsRead) passes

theorem Schema.load_keyedByName {value : Json} {s : Schema} (loaded : Schema.load value = .ok s) :
    s.KeyedByName :=
  (Schema.load_wellFormed loaded).keyedByName

/-! ### A loaded schema, stated over its tables

`WellFormed` speaks of the name table the second pass consulted; what follows restates it over
the tables alone: every reference of a loaded schema lands on a key of the table of its kind. -/

theorem MemberPlaced.known {leaves : Table LeafNode} {unionKeys : List String}
    {owner member : String} (placed : MemberPlaced leaves unionKeys owner member) :
    (member ∈ unionKeys ∨ member ∈ leaves.keys) ∧
      (member ∉ unionKeys → ∃ l, leaves.get? member = some l ∧ l.enclosingUnion = some owner) := by
  rcases placed with ⟨l, found, inside⟩ | nested
  · exact ⟨Or.inr (Table.mem_keys_of_get? found), fun _ => ⟨l, found, inside⟩⟩
  · have listed : member ∈ unionKeys := nested.subset (by simp)
    exact ⟨Or.inl listed, fun unlisted => absurd listed unlisted⟩

namespace Schema

/-- The records of a schema: its bases, then its leaves. -/
def records (s : Schema) : List Record :=
  s.bases.values.map (·.toRecord) ++ s.leaves.values.map (·.toRecord)

/-- The types a descriptor names are those of the schema: its node types are keys of some
table, its built-in types are built-in. -/
def TypesKnown (s : Schema) (d : FieldDescriptor) : Prop :=
  match d.kind with
  | .builtin types => ∀ t ∈ types, t ∈ builtinTypes
  | .node types => ∀ t ∈ types, ∃ kind, t ∈ s.keysOf kind
  | .enum _ => True

/-- What loading guarantees of a schema, in terms of its tables. -/
structure Consistent (s : Schema) : Prop where
  keyed : s.KeyedByName
  names_exact : ∀ n kind, kind ∈ s.names.kinds n ↔ n ∈ s.keysOf kind
  names_valid : ∀ n kind, kind ∈ s.names.kinds n →
    Text.isIdentifier n = true ∧ isBuiltin n = false ∧ TypeScript.isReserved n = false
  bases_known : ∀ r ∈ s.records, (∀ x ∈ r.bases, x ∈ s.bases.keys) ∧ r.bases.Nodup
  tagName : Text.isIdentifier s.options.tagName = true
  field_names : ∀ r ∈ s.records, ∀ f ∈ r.fields.keys,
    Text.isIdentifier f = true ∧ f ≠ s.options.tagName
  field_types : ∀ r ∈ s.records, ∀ d ∈ r.fields.values, s.TypesKnown d
  members_known : ∀ u ∈ s.unions.values, ∀ m ∈ u.members ++ u.excluded,
    (m ∈ s.unions.keys ∨ m ∈ s.leaves.keys) ∧
      (m ∉ s.unions.keys → ∃ l, s.leaves.get? m = some l ∧ l.enclosingUnion = some u.name)

section WellFormed

variable {s : Schema} (wf : s.WellFormed)
include wf

theorem WellFormed.record_sound {r : Record} (member : r ∈ s.records) :
    FieldsSound ⟨s.names, s.options.tagName⟩ r.bases r.fields := by
  rcases List.mem_append.1 member with isBase | isLeaf
  · obtain ⟨b, stored, rfl⟩ := List.mem_map.1 isBase
    obtain ⟨k, found⟩ := Table.mem_values_iff.1 stored
    exact (wf.bases k b found).2
  · obtain ⟨l, stored, rfl⟩ := List.mem_map.1 isLeaf
    obtain ⟨k, found⟩ := Table.mem_values_iff.1 stored
    exact (wf.leaves k l found).2

theorem WellFormed.keyOf_contains {n : String} (held : s.names.contains n = true) :
    ∃ kind, n ∈ s.keysOf kind := by
  rw [NameTable.contains_iff, wf.names_keys] at held
  obtain ⟨kind, recorded⟩ := List.exists_mem_of_ne_nil _ held
  exact ⟨kind, (wf.declares n kind).1 recorded⟩

theorem WellFormed.typesKnown {d : FieldDescriptor} (sound : DescriptorSound s.names d) :
    s.TypesKnown d := by
  unfold DescriptorSound at sound
  unfold TypesKnown
  split
  · rename_i types described
    rw [described] at sound
    intro t listed
    simpa [isBuiltin] using sound t listed
  · rename_i types described
    rw [described] at sound
    intro t listed
    exact wf.keyOf_contains (sound t listed)
  · trivial

end WellFormed

theorem WellFormed.consistent {s : Schema} (wf : s.WellFormed) : s.Consistent where
  keyed := wf.keyedByName
  names_exact := wf.declares
  names_valid := by
    intro n kind recorded
    have declarable := wf.declarable n (List.ne_nil_of_mem recorded)
    simp only [isDeclarable, Bool.and_eq_true, Bool.not_eq_true'] at declarable
    exact ⟨declarable.1.1, declarable.1.2, declarable.2⟩
  bases_known := by
    intro r member
    have sound := wf.record_sound member
    refine ⟨fun x listed => ?_, sound.bases_nodup⟩
    have declared := NameTable.hasKind_iff.1 (sound.bases_declared x listed)
    exact (wf.declares x .base).1 declared
  tagName := wf.tagName
  field_names := fun r member => (wf.record_sound member).field_names
  field_types := fun r member d described =>
    wf.typesKnown ((wf.record_sound member).descriptors d described)
  members_known := by
    intro u stored m listed
    obtain ⟨k, found⟩ := Table.mem_values_iff.1 stored
    obtain ⟨named, placed⟩ := wf.unions k u found
    rw [named]
    exact MemberPlaced.known (placed m listed)

end Schema

theorem Schema.load_consistent {value : Json} {s : Schema} (loaded : Schema.load value = .ok s) :
    s.Consistent :=
  (Schema.load_wellFormed loaded).consistent

/-- A document with a base, a union of two leaves, one of them extending the base, and an
excluded leaf. -/
def expressionsDocument : Json :=
  .object [("bases", .object [("Named", .array [.object [("name", .string "string")]])]),
    ("nodes", .object [("Expr", .object [
      ("Lit", .array [.object [("value", .string "number")]]),
      ("Var", .array [.object [("extends", .string "Named")]]),
      ("~Hole", .array [])])])]

theorem expressionsDocument_loads : ∃ s, Schema.load expressionsDocument = .ok s := by
  have loads : (Schema.load expressionsDocument).isOk = true := by decide
  cases loaded : Schema.load expressionsDocument with
  | error e => rw [loaded] at loads; cases loads
  | ok s => exact ⟨s, rfl⟩

theorem Schema.load_expressionsDocument_consistent :
    ∃ s, Schema.load expressionsDocument = .ok s ∧ s.Consistent := by
  obtain ⟨s, loaded⟩ := expressionsDocument_loads
  exact ⟨s, loaded, Schema.load_consistent loaded⟩

end NodeSchema
