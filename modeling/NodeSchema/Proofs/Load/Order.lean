import NodeSchema.Proofs.Load.Tree
import NodeSchema.Proofs.Load.Parts
import NodeSchema.Proofs.Ir.Assembly

set_option autoImplicit false

/-! The order of a loaded schema's tables follows the document. A document is an object whose
`nodes` object holds the node tree; its `bases` object and its `externs` array may be left out.
Every table lists its declarations in the order the document writes them: the bases in key
order, the external types in array order, the unions in pre-order of the tree (a union's slot is
taken before its members are read, and filling it keeps its place), each with its summed and its
excluded members in key order, and the leaves in the same depth-first order. The name table lists
every name where it is first declared, with its kinds in declaration order. Assembly then lists
the external types, the unions, the bases and the leaves, each group in that order. -/

namespace NodeSchema

/-! ### The parts of a document -/

/-- The entries of the object under `key` in a document's root, none when the key is absent. -/
def ObjectAt (root : List (String × Json)) (key : String) (entries : List (String × Json)) : Prop :=
  Json.lookup key root = some (.object entries) ∨ (Json.lookup key root = none ∧ entries = [])

/-- The external types read one by one from the items of a document's `externs` array, none
when the key is absent. -/
def ExternsAt (root : List (String × Json)) (externs : List ExternalNode) : Prop :=
  (∃ items, Json.lookup "externs" root = some (.array items) ∧
    List.Forall₂ (fun item e => ExternalNode.shape item = .ok e) items externs) ∨
  (Json.lookup "externs" root = none ∧ externs = [])

theorem forall₂_of_zipIdx {β : Type} {R : Json → β → Prop} :
    ∀ {items : List Json} {n : Nat} {ys : List β},
      List.Forall₂ (fun p y => R p.1 y) (items.zipIdx n) ys → List.Forall₂ R items ys
  | [], _, _, related => by
    cases related
    exact .nil
  | item :: rest, n, ys, related => by
    rw [List.zipIdx_cons] at related
    cases related with
    | cons here later => exact .cons here (forall₂_of_zipIdx later)

theorem readExterns_eq_ok {value : Json} {externs : List ExternalNode}
    (read : readExterns value = .ok externs) :
    ∃ items, value = .array items ∧
      List.Forall₂ (fun item e => ExternalNode.shape item = .ok e) items externs := by
  cases value with
  | array items =>
    simp only [readExterns] at read
    split at read
    · rename_i mapped
      cases read
      refine ⟨items, rfl, @forall₂_of_zipIdx ExternalNode _ items 0 externs ?_⟩
      exact (forall₂_of_mapM_eq_ok mapped).imp fun {_ _} stepped => readExtern_eq_ok.1 stepped
    · cases read
  | _ => simp [readExterns, Json.Shape.fail] at read

theorem readExternsList_eq_ok {root : List (String × Json)} {externs : List ExternalNode}
    (read : readExternsList root = .ok externs) : ExternsAt root externs := by
  unfold readExternsList at read
  cases found : Json.lookup "externs" root with
  | none =>
    rw [found] at read
    cases read
    exact .inr ⟨found, rfl⟩
  | some value =>
    rw [found] at read
    obtain ⟨items, rfl, each⟩ := readExterns_eq_ok read
    exact .inl ⟨items, found, each⟩

theorem readBasesTable_eq_ok {root : List (String × Json)} {bases : List (String × Json)}
    (read : readBasesTable root = .ok bases) : ObjectAt root "bases" bases := by
  unfold readBasesTable at read
  cases found : Json.lookup "bases" root with
  | none =>
    rw [found] at read
    cases read
    exact .inr ⟨found, rfl⟩
  | some value =>
    rw [found] at read
    cases value with
    | object entries =>
      cases read
      exact .inl found
    | _ => cases read

theorem readParts_eq_ok {value : Json} {parts : DocumentParts} (read : readParts value = .ok parts) :
    ∃ root, value = .object root ∧ Json.lookup "nodes" root = some (.object parts.nodes) ∧
      ObjectAt root "bases" parts.bases ∧ ExternsAt root parts.externs := by
  cases value with
  | object root =>
    simp only [readParts] at read
    split at read
    · cases read
    · split at read
      · cases read
      · rename_i nodes nodesFound
        obtain ⟨options, _, rest⟩ := bind_eq_ok.1 read
        obtain ⟨externs, externsRead, rest⟩ := bind_eq_ok.1 rest
        obtain ⟨bases, basesRead, stored⟩ := bind_eq_ok.1 rest
        cases stored
        exact ⟨root, rfl, nodesFound, readBasesTable_eq_ok basesRead,
          readExternsList_eq_ok externsRead⟩
      · cases read
  | _ => cases read

/-! ### The tables of a loaded schema -/

theorem Declares.keys_of_empty {decls : List (String × DeclKind)} {names : NameTable}
    (run : Declares {} decls names) : names.entries.keys = (decls.map Prod.fst).eraseDups := by
  rw [run.order, NameTable.keys_empty, foldl_appendNew_nil]

theorem loadParts_orders {parts : DocumentParts} {s : Schema} (loaded : loadParts parts = .ok s) :
    s.unions.entries = unionEntries (documentUnions parts.nodes) ∧
      s.leaves.values.map LeafNode.place = documentPlaces parts.nodes ∧
      s.bases.keys = parts.bases.map Prod.fst ∧ s.externs.values = parts.externs ∧
      s.names.entries.keys = ((documentDecls parts.bases parts.externs parts.nodes).map Prod.fst).eraseDups ∧
      ∀ n, s.names.kinds n = kindsIn (documentDecls parts.bases parts.externs parts.nodes) n := by
  obtain ⟨names, namesRead, rest⟩ := bind_eq_ok.1 loaded
  obtain ⟨b₁, basesRead, rest⟩ := bind_eq_ok.1 rest
  obtain ⟨b₂, nodesRead, stored⟩ := bind_eq_ok.1 rest
  cases stored
  have declared := collectNames_declares namesRead
  obtain ⟨basesNodup, externsNodup, treeNodup⟩ := documentDecls_nodup declared.nodup
  have basesDistinct : ((Table.empty : Table BaseNode).keys ++ parts.bases.map Prod.fst).Nodup := by
    simpa using basesNodup
  have externsDistinct : ((Table.empty : Table ExternalNode).keys ++
      parts.externs.map (·.symbol)).Nodup := by
    simpa using externsNodup
  obtain ⟨leavesEmpty, unionsEmpty, baseKeys, -⟩ :=
    walkBases_spec parts.bases basesDistinct (by simp) basesRead
  have fresh : Fresh b₁ (parts.nodes.flatMap fun e => nodeDecls e.1 e.2) :=
    ⟨treeNodup, by intro n _; rw [leavesEmpty]; simp, by intro n _; rw [unionsEmpty]; simp⟩
  obtain ⟨-, leaves, unions⟩ := walkNodes_tree parts.nodes fresh nodesRead
  have walked := walkNodes_walked parts.nodes fresh nodesRead
  refine ⟨?_, ?_, ?_, ?_, declared.keys_of_empty, fun n => ?_⟩
  · show b₂.unions.entries = _
    rw [unions, unionsEmpty]
    rfl
  · show b₂.leaves.values.map LeafNode.place = _
    rw [leaves, leavesEmpty]
    rfl
  · show b₂.bases.keys = _
    rw [walked.bases, baseKeys, Table.keys_empty, List.nil_append]
  · show (parts.externs.foldl (fun t e => t.insert e.symbol e) (Table.empty : Table ExternalNode)).values = _
    unfold Table.values
    rw [Table.entries_foldl_insert _ _ _ externsDistinct]
    simp [Table.empty, Function.comp_def]
  · rw [declared.kinds, NameTable.kinds_empty, List.nil_append]

/-! ### Assembly -/

theorem build_lists_nodes {s : Schema} {ir : Ir} (built : Ir.build s = .ok ir) :
    ∃ unions : List FlatUnion, unions.map (·.decl) = s.unions.values ∧
      ir.nodes.values = s.externs.values.map .external ++ unions.map .union ++
        s.bases.values.map .base ++ s.leaves.values.map .leaf := by
  obtain ⟨unions, assembled⟩ := Ir.build_assembled built
  exact ⟨unions, assembled.decls, assembled.values⟩

/-! ### The orders of a loaded schema -/

/-- A schema lists its declarations as the document `value` writes them: the unions of the node
tree in pre-order, each with its summed and excluded members in key order; the leaves in the same
depth-first order; the bases in the key order of the bases object; the external types in the
order of the externs array; every name where it is first declared (bases, external symbols, then
the node tree in pre-order) with its kinds in declaration order. Assembly lists the external
types, the unions, the bases and the leaves, each group in that order. -/
def Schema.WrittenAs (s : Schema) (value : Json) : Prop :=
  ∃ root nodes bases externs, value = .object root ∧
    Json.lookup "nodes" root = some (.object nodes) ∧ ObjectAt root "bases" bases ∧
    ExternsAt root externs ∧
    s.unions.entries = unionEntries (documentUnions nodes) ∧
    s.leaves.keys = (documentPlaces nodes).map (·.name) ∧
    s.bases.keys = bases.map Prod.fst ∧
    s.externs.values = externs ∧
    s.names.entries.keys = ((documentDecls bases externs nodes).map Prod.fst).eraseDups ∧
    (∀ n, s.names.kinds n = kindsIn (documentDecls bases externs nodes) n) ∧
    ∀ ir, Ir.build s = .ok ir → ∃ unions : List FlatUnion, unions.map (·.decl) = s.unions.values ∧
      ir.nodes.values = s.externs.values.map .external ++ unions.map .union ++
        s.bases.values.map .base ++ s.leaves.values.map .leaf

/-- A loaded schema lists its declarations as its document writes them. -/
theorem Schema.load_follows_document {value : Json} {s : Schema} (loaded : Schema.load value = .ok s) :
    s.WrittenAs value := by
  obtain ⟨parts, partsRead, passes⟩ := bind_eq_ok.1 loaded
  obtain ⟨root, rfl, nodesFound, basesAt, externsAt⟩ := readParts_eq_ok partsRead
  obtain ⟨unions, leaves, bases, externs, names, kinds⟩ := loadParts_orders passes
  have leafKeys : s.leaves.keys = (documentPlaces parts.nodes).map (·.name) := by
    rw [← Table.values_map_of_keyed (Schema.load_keyedByName loaded).leaves, ← leaves, List.map_map]
    rfl
  exact ⟨root, parts.nodes, parts.bases, parts.externs, rfl, nodesFound, basesAt, externsAt,
    unions, leafKeys, bases, externs, names, kinds, fun _ built => build_lists_nodes built⟩

theorem Schema.load_expressionsDocument_written :
    ∃ s, Schema.load expressionsDocument = .ok s ∧ s.WrittenAs expressionsDocument := by
  obtain ⟨s, loaded⟩ := expressionsDocument_loads
  exact ⟨s, loaded, Schema.load_follows_document loaded⟩

end NodeSchema
