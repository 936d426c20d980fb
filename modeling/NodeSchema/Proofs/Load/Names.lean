import Mathlib.Data.List.Nodup
import NodeSchema.Schema.Load
import NodeSchema.Proofs.Tables

set_option autoImplicit false

/-! The first pass of loading, read as the list of declarations a document makes. Every base
key, every external symbol and every node of the node tree declares one name with one kind; the
node tree is read in pre-order, a union before its members, and a member's name is its key less
the exclusion marker. `Declares names decls names'` says that declaring `decls` in order took
the table `names` to `names'` with every declaration accepted: each name declarable, no pair
given twice, no kind given to a name that carried it already, each new name listed last. A
successful first pass is such a run from the empty table over the document's declarations, so
the table it builds records exactly those pairs, the names in order of first declaration. -/

namespace NodeSchema

/-- Whether a name may be declared: a valid name that is neither a built-in type nor a reserved
word. -/
def isDeclarable (name : String) : Bool :=
  Text.isIdentifier name && !isBuiltin name && !TypeScript.isReserved name

mutual

/-- The declarations of the node `name` with content `content`, in document pre-order. -/
def nodeDecls (name : String) : Json → List (String × DeclKind)
  | .array _ => [(name, .leaf)]
  | .object members => (name, .union) :: memberDecls members
  | _ => []

/-- The declarations of the members of a union, in document pre-order. -/
def memberDecls : List (String × Json) → List (String × DeclKind)
  | [] => []
  | (key, child) :: rest => nodeDecls (memberName key).2 child ++ memberDecls rest

end

mutual

theorem nodeDecls_kind {name : String} :
    (content : Json) → ∀ d ∈ nodeDecls name content, d.2 = .leaf ∨ d.2 = .union
  | .array _ => by simp [nodeDecls]
  | .object members => by
    intro d member
    simp only [nodeDecls, List.mem_cons] at member
    rcases member with rfl | inner
    · exact Or.inr rfl
    · exact memberDecls_kind members d inner
  | .null | .bool _ | .number _ | .string _ => by simp [nodeDecls]

theorem memberDecls_kind :
    (members : List (String × Json)) → ∀ d ∈ memberDecls members, d.2 = .leaf ∨ d.2 = .union
  | [] => by simp [memberDecls]
  | (key, child) :: rest => by
    intro d member
    simp only [memberDecls, List.mem_append] at member
    rcases member with here | later
    · exact nodeDecls_kind child d here
    · exact memberDecls_kind rest d later

end

/-- The declarations of a document: its bases, its external symbols, then its node tree. -/
def documentDecls (bases : List (String × Json)) (externs : List ExternalNode)
    (nodes : List (String × Json)) : List (String × DeclKind) :=
  bases.map (fun e => (e.1, .base)) ++ externs.map (fun e => (e.symbol, .external)) ++
    nodes.flatMap fun e => nodeDecls e.1 e.2

theorem documentDecls_nodup {bases : List (String × Json)} {externs : List ExternalNode}
    {nodes : List (String × Json)} (distinct : (documentDecls bases externs nodes).Nodup) :
    (bases.map Prod.fst).Nodup ∧ (externs.map (·.symbol)).Nodup ∧
      (nodes.flatMap fun e => nodeDecls e.1 e.2).Nodup := by
  rw [documentDecls, List.nodup_append, List.nodup_append] at distinct
  obtain ⟨⟨basesNodup, externsNodup, -⟩, treeNodup, -⟩ := distinct
  refine ⟨List.Nodup.of_map (fun n => (n, DeclKind.base)) ?_,
    List.Nodup.of_map (fun n => (n, DeclKind.external)) ?_, treeNodup⟩
  · simpa [Function.comp_def] using basesNodup
  · simpa [Function.comp_def] using externsNodup

/-- The kinds a list of declarations gives a name, in order. -/
def kindsIn (decls : List (String × DeclKind)) (name : String) : List DeclKind :=
  (decls.filter (·.1 == name)).map (·.2)

theorem mem_kindsIn {decls : List (String × DeclKind)} {name : String} {kind : DeclKind} :
    kind ∈ kindsIn decls name ↔ (name, kind) ∈ decls := by
  simp only [kindsIn, List.mem_map, List.mem_filter, beq_iff_eq]
  constructor
  · rintro ⟨⟨n, k⟩, ⟨member, same⟩, rfl⟩
    simp only at same
    subst same
    exact member
  · intro member
    exact ⟨(name, kind), ⟨member, rfl⟩, rfl⟩

@[simp]
theorem kindsIn_append (first second : List (String × DeclKind)) (name : String) :
    kindsIn (first ++ second) name = kindsIn first name ++ kindsIn second name := by
  simp [kindsIn, List.filter_append]

@[simp]
theorem kindsIn_nil (name : String) : kindsIn [] name = [] := rfl

theorem kindsIn_nodup {decls : List (String × DeclKind)} (distinct : decls.Nodup) (name : String) :
    (kindsIn decls name).Nodup := by
  unfold kindsIn
  refine (distinct.filter _).map_on ?_
  rintro ⟨n, k⟩ first ⟨n', k'⟩ second same
  simp only [List.mem_filter, beq_iff_eq] at first second
  simp only at same
  rw [same, first.2, second.2]

theorem kindsIn_ne_nil_iff {decls : List (String × DeclKind)} {name : String} :
    kindsIn decls name ≠ [] ↔ name ∈ decls.map Prod.fst := by
  rw [Ne, List.eq_nil_iff_forall_not_mem, not_forall]
  simp only [not_not, mem_kindsIn, List.mem_map]
  constructor
  · rintro ⟨k, member⟩
    exact ⟨(name, k), member, rfl⟩
  · rintro ⟨⟨n, k⟩, member, rfl⟩
    exact ⟨k, member⟩

/-- The names a list of declarations declares with one kind, in order. -/
def namesOfKind (kind : DeclKind) (decls : List (String × DeclKind)) : List String :=
  (decls.filter (·.2 == kind)).map (·.1)

@[simp]
theorem namesOfKind_append (kind : DeclKind) (first second : List (String × DeclKind)) :
    namesOfKind kind (first ++ second) = namesOfKind kind first ++ namesOfKind kind second := by
  simp [namesOfKind, List.filter_append]

@[simp]
theorem namesOfKind_cons (kind : DeclKind) (d : String × DeclKind) (rest : List (String × DeclKind)) :
    namesOfKind kind (d :: rest) =
      if d.2 = kind then d.1 :: namesOfKind kind rest else namesOfKind kind rest := by
  by_cases same : d.2 = kind <;> simp [namesOfKind, same]

@[simp]
theorem namesOfKind_nil (kind : DeclKind) : namesOfKind kind [] = [] := rfl

theorem mem_namesOfKind {kind : DeclKind} {decls : List (String × DeclKind)} {name : String} :
    name ∈ namesOfKind kind decls ↔ (name, kind) ∈ decls := by
  simp only [namesOfKind, List.mem_map, List.mem_filter, beq_iff_eq]
  constructor
  · rintro ⟨⟨n, k⟩, ⟨member, same⟩, rfl⟩
    simp only at same
    subst same
    exact member
  · intro member
    exact ⟨(name, kind), ⟨member, rfl⟩, rfl⟩

/-- Declaring `decls` in order took `names` to `names'`, and every declaration was accepted. -/
structure Declares (names : NameTable) (decls : List (String × DeclKind)) (names' : NameTable) :
    Prop where
  declarable : ∀ d ∈ decls, isDeclarable d.1 = true
  nodup : decls.Nodup
  fresh : ∀ d ∈ decls, d.2 ∉ names.kinds d.1
  kinds : ∀ n, names'.kinds n = names.kinds n ++ kindsIn decls n
  keys : ∀ n, n ∈ names'.entries.keys ↔ n ∈ names.entries.keys ∨ n ∈ decls.map Prod.fst
  /-- A name is listed when it is first declared. -/
  order : names'.entries.keys = (decls.map Prod.fst).foldl appendNew names.entries.keys

namespace Declares

theorem refl (names : NameTable) : Declares names [] names where
  declarable := by simp
  nodup := List.nodup_nil
  fresh := by simp
  kinds := by simp
  keys := by simp
  order := rfl

theorem trans {first second : List (String × DeclKind)} {names middle names' : NameTable}
    (before : Declares names first middle) (after : Declares middle second names') :
    Declares names (first ++ second) names' where
  declarable := by
    intro d member
    rcases List.mem_append.1 member with early | late
    · exact before.declarable d early
    · exact after.declarable d late
  nodup := by
    refine List.nodup_append.2 ⟨before.nodup, after.nodup, ?_⟩
    rintro d early d' late rfl
    apply after.fresh d late
    rw [before.kinds]
    exact List.mem_append_right _ (mem_kindsIn.2 early)
  fresh := by
    intro d member
    rcases List.mem_append.1 member with early | late
    · exact before.fresh d early
    · intro present
      apply after.fresh d late
      rw [before.kinds]
      exact List.mem_append_left _ present
  kinds := by
    intro n
    rw [after.kinds, before.kinds, kindsIn_append, List.append_assoc]
  keys := by
    intro n
    rw [after.keys, before.keys, List.map_append, List.mem_append, or_assoc]
  order := by
    rw [after.order, before.order, List.map_append, List.foldl_append]

end Declares

theorem declareName_declares {names names' : NameTable} {name path : String} {kind : DeclKind}
    (declared : declareName names name kind path = .ok names') :
    Declares names [(name, kind)] names' := by
  unfold declareName at declared
  split at declared
  · cases declared
  · rename_i valid
    split at declared
    · rename_i accepted
      cases declared
      obtain ⟨absent, rfl⟩ := NameTable.declare_eq_true_iff.1 accepted
      refine ⟨?_, by simp, ?_, ?_, ?_, Table.keys_insert _ _ _⟩
      · intro d member
        simp only [List.mem_singleton] at member
        subst member
        simpa [isDeclarable] using valid
      · intro d member
        simp only [List.mem_singleton] at member
        subst member
        exact absent
      · intro n
        rw [NameTable.kinds_mk_insert]
        by_cases same : n = name
        · subst same
          simp [kindsIn]
        · simp [kindsIn, same, Ne.symm same]
      · intro n
        rw [Table.keys_insert]
        split <;> simp_all [or_comm]
    · cases declared

theorem foldlM_declares {β : Type} (step : NameTable → β → Except SchemaError NameTable)
    (declsOf : β → List (String × DeclKind))
    (stepDeclares : ∀ names x names', step names x = .ok names' → Declares names (declsOf x) names')
    (items : List β) {names names' : NameTable} (run : items.foldlM step names = .ok names') :
    Declares names (items.flatMap declsOf) names' := by
  induction items generalizing names with
  | nil =>
    cases run
    exact Declares.refl _
  | cons item rest ih =>
    obtain ⟨middle, first, later⟩ := bind_eq_ok.1 run
    exact (stepDeclares names item middle first).trans (ih later)

mutual

theorem collectNode_declares {names names' : NameTable} {name path : String} :
    (content : Json) → collectNode names name path content = .ok names' →
      Declares names (nodeDecls name content) names'
  | .array items, collected => by
    simp only [collectNode, nodeDecls] at collected ⊢
    exact declareName_declares collected
  | .object members, collected => by
    obtain ⟨middle, declared, rest⟩ := bind_eq_ok.1 collected
    simp only [nodeDecls]
    exact (declareName_declares declared).trans (collectMembers_declares members rest)
  | .null, collected | .bool _, collected | .number _, collected | .string _, collected => by
    simp [collectNode] at collected

theorem collectMembers_declares {names names' : NameTable} {path : String} :
    (members : List (String × Json)) → collectMembers names path members = .ok names' →
      Declares names (memberDecls members) names'
  | [], collected => by
    simp only [collectMembers, Except.ok.injEq] at collected
    subst collected
    exact Declares.refl names
  | (key, child) :: rest, collected => by
    obtain ⟨middle, first, later⟩ := bind_eq_ok.1 collected
    exact (collectNode_declares child first).trans (collectMembers_declares rest later)

end

theorem zipIdx_externDecls (externs : List ExternalNode) :
    (externs.zipIdx.flatMap fun e => [(e.1.symbol, DeclKind.external)]) =
      externs.map fun e => (e.symbol, DeclKind.external) := by
  rw [← List.map_eq_flatMap]
  conv => rhs; rw [← List.zipIdx_map_fst 0 externs, List.map_map]
  rfl

theorem collectNames_declares {bases : List (String × Json)} {externs : List ExternalNode}
    {nodes : List (String × Json)} {names : NameTable}
    (collected : collectNames bases externs nodes = .ok names) :
    Declares {} (documentDecls bases externs nodes) names := by
  unfold collectNames at collected
  obtain ⟨afterBases, basesRun, rest⟩ := bind_eq_ok.1 collected
  obtain ⟨afterExterns, externsRun, nodesRun⟩ := bind_eq_ok.1 rest
  have onBases : Declares {} (bases.map fun e => (e.1, DeclKind.base)) afterBases := by
    have run := foldlM_declares _ (fun e => [(e.1, DeclKind.base)])
      (fun _ ⟨_, _⟩ _ step => declareName_declares step) bases basesRun
    rwa [← List.map_eq_flatMap] at run
  have onExterns : Declares afterBases (externs.map fun e => (e.symbol, DeclKind.external))
      afterExterns := by
    have run := foldlM_declares _ (fun e => [(e.1.symbol, DeclKind.external)])
      (fun _ ⟨_, _⟩ _ step => declareName_declares step) externs.zipIdx externsRun
    rwa [zipIdx_externDecls] at run
  have onNodes := foldlM_declares _ (fun e => nodeDecls e.1 e.2)
    (fun _ ⟨_, _⟩ _ step => collectNode_declares _ step) nodes nodesRun
  exact (onBases.trans onExterns).trans onNodes

end NodeSchema
