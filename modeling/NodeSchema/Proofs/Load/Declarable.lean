import NodeSchema.Proofs.Json.Reorder
import NodeSchema.Proofs.Load.Tree

set_option autoImplicit false

/-! The first pass read as a condition on the document. Declaring the document's names one
after another succeeds exactly when every node of its tree is a field list or a union, every
declared name is declarable and no name is declared twice with one kind; the kinds the table
then gives a name are the kinds the document declares it with. Only the set of declarations
matters, not their order. A reordered document makes the same declarations in another order,
so its first pass succeeds exactly when the original's does, and the two tables answer every
question the second pass asks of them alike. -/

namespace NodeSchema

open Json (Reorders)

/-- Declarations the table `names` takes one after another: declarable names, no pair twice,
and no kind a name carries already. -/
structure Declarable (names : NameTable) (decls : List (String × DeclKind)) : Prop where
  declarable : ∀ d ∈ decls, isDeclarable d.1 = true
  nodup : decls.Nodup
  fresh : ∀ d ∈ decls, d.2 ∉ names.kinds d.1

namespace Declarable

variable {names : NameTable} {first second : List (String × DeclKind)}

theorem left (ok : Declarable names (first ++ second)) : Declarable names first where
  declarable d member := ok.declarable d (List.mem_append_left _ member)
  nodup := (List.nodup_append.1 ok.nodup).1
  fresh d member := ok.fresh d (List.mem_append_left _ member)

theorem after {middle : NameTable} (ok : Declarable names (first ++ second))
    (run : Declares names first middle) : Declarable middle second where
  declarable d member := ok.declarable d (List.mem_append_right _ member)
  nodup := (List.nodup_append.1 ok.nodup).2.1
  fresh d member := by
    rw [run.kinds, List.mem_append, not_or, mem_kindsIn]
    refine ⟨ok.fresh d (List.mem_append_right _ member), fun early => ?_⟩
    exact (List.nodup_append.1 ok.nodup).2.2 _ early _ member rfl

theorem perm {decls decls' : List (String × DeclKind)} (ok : Declarable names decls)
    (perm : decls.Perm decls') : Declarable names decls' where
  declarable d member := ok.declarable d (perm.mem_iff.2 member)
  nodup := perm.nodup_iff.1 ok.nodup
  fresh d member := ok.fresh d (perm.mem_iff.2 member)

theorem of_declares {decls : List (String × DeclKind)} {names' : NameTable}
    (run : Declares names decls names') : Declarable names decls :=
  ⟨run.declarable, run.nodup, run.fresh⟩

end Declarable

/-! ### The first pass succeeds on declarable documents -/

theorem declareName_ok {names : NameTable} {name : String} {kind : DeclKind} (path : String)
    (ok : Declarable names [(name, kind)]) : ∃ names', declareName names name kind path = .ok names' := by
  have valid := ok.declarable (name, kind) (List.mem_singleton_self _)
  have fresh := ok.fresh (name, kind) (List.mem_singleton_self _)
  simp only [isDeclarable, Bool.and_eq_true, Bool.not_eq_true'] at valid
  simp only at fresh
  unfold declareName NameTable.declare
  simp [valid, fresh]

mutual

theorem collectNode_ok {name : String} (path : String) :
    (content : Json) → NodeShaped content → ∀ {names : NameTable}, Declarable names (nodeDecls name content) →
      ∃ names', collectNode names name path content = .ok names'
  | .array _, _, _, ok => by
    simp only [collectNode]
    exact declareName_ok path ok
  | .object members, shaped, _, ok => by
    have split : nodeDecls name (.object members) = [(name, .union)] ++ memberDecls members := rfl
    rw [split] at ok
    obtain ⟨middle, declared⟩ := declareName_ok path ok.left
    obtain ⟨names', rest⟩ := collectMembers_ok path members shaped (ok.after (declareName_declares declared))
    refine ⟨names', ?_⟩
    simp only [collectNode, declared]
    exact rest
  | .null, shaped, _, _ | .bool _, shaped, _, _ | .number _, shaped, _, _ | .string _, shaped, _, _ =>
    shaped.elim

theorem collectMembers_ok (path : String) :
    (members : List (String × Json)) → MembersShaped members → ∀ {names : NameTable},
      Declarable names (memberDecls members) → ∃ names', collectMembers names path members = .ok names'
  | [], _, names, _ => ⟨names, rfl⟩
  | (key, child) :: rest, shaped, _, ok => by
    have split : memberDecls ((key, child) :: rest) = nodeDecls (memberName key).2 child ++ memberDecls rest := rfl
    rw [split] at ok
    obtain ⟨middle, first⟩ := collectNode_ok (path ++ "." ++ key) child shaped.1 ok.left
    obtain ⟨names', later⟩ := collectMembers_ok path rest shaped.2 (ok.after (collectNode_declares child first))
    refine ⟨names', ?_⟩
    simp only [collectMembers, first]
    exact later

end

theorem foldlM_declarable_ok {β : Type} (step : NameTable → β → Except SchemaError NameTable)
    (declsOf : β → List (String × DeclKind))
    (stepDeclares : ∀ names x names', step names x = .ok names' → Declares names (declsOf x) names') :
    ∀ (items : List β), (∀ x ∈ items, ∀ names, Declarable names (declsOf x) → ∃ names', step names x = .ok names') →
      ∀ {names : NameTable}, Declarable names (items.flatMap declsOf) → ∃ names', items.foldlM step names = .ok names'
  | [], _, names, _ => ⟨names, rfl⟩
  | x :: rest, stepOk, _, ok => by
    rw [List.flatMap_cons] at ok
    obtain ⟨middle, first⟩ := stepOk x List.mem_cons_self _ ok.left
    obtain ⟨names', later⟩ := foldlM_declarable_ok step declsOf stepDeclares rest
      (fun y listed => stepOk y (List.mem_cons_of_mem _ listed)) (ok.after (stepDeclares _ _ _ first))
    exact ⟨names', by rw [List.foldlM_cons, first]; exact later⟩

mutual

theorem collectNode_shaped {names names' : NameTable} {name path : String} :
    (content : Json) → collectNode names name path content = .ok names' → NodeShaped content
  | .array _, _ => trivial
  | .object members, collected => by
    obtain ⟨_, _, rest⟩ := bind_eq_ok.1 collected
    exact collectMembers_shaped members rest
  | .null, collected | .bool _, collected | .number _, collected | .string _, collected => by
    simp [collectNode] at collected

theorem collectMembers_shaped {names names' : NameTable} {path : String} :
    (members : List (String × Json)) → collectMembers names path members = .ok names' → MembersShaped members
  | [], _ => trivial
  | (_, child) :: rest, collected => by
    obtain ⟨_, first, later⟩ := bind_eq_ok.1 collected
    exact ⟨collectNode_shaped child first, collectMembers_shaped rest later⟩

end

theorem collectNames_ok_iff {bases : List (String × Json)} {externs : List ExternalNode}
    {nodes : List (String × Json)} :
    (∃ names, collectNames bases externs nodes = .ok names) ↔
      (∀ e ∈ nodes, NodeShaped e.2) ∧ Declarable {} (documentDecls bases externs nodes) := by
  constructor
  · rintro ⟨names, collected⟩
    refine ⟨?_, Declarable.of_declares (collectNames_declares collected)⟩
    obtain ⟨_, _, rest⟩ := bind_eq_ok.1 collected
    obtain ⟨_, _, nodesRun⟩ := bind_eq_ok.1 rest
    intro e listed
    obtain ⟨_, _, step⟩ := foldlM_ok_each nodesRun e listed
    exact collectNode_shaped e.2 step
  · rintro ⟨shaped, ok⟩
    unfold documentDecls at ok
    have onBases : Declarable {} (bases.flatMap fun e => [(e.1, DeclKind.base)]) := by
      rw [← List.map_eq_flatMap]
      exact ok.left.left
    unfold collectNames
    refine bind_ok_of_ok (foldlM_declarable_ok _ (fun e => [(e.1, DeclKind.base)])
      (fun _ ⟨_, _⟩ _ step => declareName_declares step) bases
      (fun ⟨_, _⟩ _ _ fresh => declareName_ok _ fresh) onBases) (fun afterBases basesRun => ?_)
    have basesDeclared := foldlM_declares _ (fun e => [(e.1, DeclKind.base)])
      (fun _ ⟨_, _⟩ _ step => declareName_declares step) bases basesRun
    rw [← List.map_eq_flatMap] at basesDeclared
    have onExterns := ok.left.after basesDeclared
    rw [← zipIdx_externDecls] at onExterns
    refine bind_ok_of_ok (foldlM_declarable_ok _ (fun e => [(e.1.symbol, DeclKind.external)])
      (fun _ ⟨_, _⟩ _ step => declareName_declares step) externs.zipIdx
      (fun ⟨_, _⟩ _ _ fresh => declareName_ok _ fresh) onExterns) (fun afterExterns externsRun => ?_)
    have externsDeclared := foldlM_declares _ (fun e => [(e.1.symbol, DeclKind.external)])
      (fun _ ⟨_, _⟩ _ step => declareName_declares step) externs.zipIdx externsRun
    rw [zipIdx_externDecls] at externsDeclared
    exact foldlM_declarable_ok _ (fun e => nodeDecls e.1 e.2)
      (fun _ ⟨_, _⟩ _ step => collectNode_declares _ step) nodes
      (fun ⟨_, content⟩ listed _ fresh => collectNode_ok _ content (shaped _ listed) fresh)
      (ok.after (basesDeclared.trans externsDeclared))

/-! ### A reordered document declares the same names -/

theorem membersShaped_iff {entries : List (String × Json)} :
    MembersShaped entries ↔ ∀ e ∈ entries, NodeShaped e.2 := by
  induction entries with
  | nil => simp [MembersShaped]
  | cons e rest ih =>
    obtain ⟨key, child⟩ := e
    simp only [MembersShaped, List.mem_cons, forall_eq_or_imp]
    rw [ih]

theorem memberDecls_eq_flatMap (entries : List (String × Json)) :
    memberDecls entries = entries.flatMap fun e => nodeDecls (memberName e.1).2 e.2 := by
  induction entries with
  | nil => rfl
  | cons e rest ih =>
    obtain ⟨key, child⟩ := e
    rw [memberDecls, ih, List.flatMap_cons]

mutual

theorem NodeShaped.reorders : (c : Json) → ∀ {c' : Json}, Reorders c c' → NodeShaped c → NodeShaped c'
  | .array _, _, .array _, _ => trivial
  | .object entries, _, .object _ values perm, shaped => by
    rw [NodeShaped, membersShaped_iff] at shaped ⊢
    have moved := valuesShaped_of_reorders entries values (membersShaped_iff.2 shaped)
    intro e listed
    exact moved e.2 (List.mem_map_of_mem (perm.symm.subset listed))
  | .null, _, .null, shaped | .bool _, _, .bool _, shaped | .number _, _, .number _, shaped
  | .string _, _, .string _, shaped => shaped

theorem valuesShaped_of_reorders : (entries : List (String × Json)) → ∀ {values : List Json},
    List.Forall₂ Reorders (entries.map Prod.snd) values → MembersShaped entries → ∀ v ∈ values, NodeShaped v
  | [], _, .nil, _ => by simp
  | (_, child) :: rest, _, .cons here later, shaped => by
    intro v listed
    rcases List.mem_cons.1 listed with rfl | inRest
    · exact NodeShaped.reorders child here shaped.1
    · exact valuesShaped_of_reorders rest later shaped.2 v inRest

end

mutual

theorem nodeDecls_perm {name : String} : (c : Json) → ∀ {c' : Json}, Reorders c c' →
    (nodeDecls name c).Perm (nodeDecls name c')
  | .array _, _, .array _ => .refl _
  | .object entries, _, .object keys values perm => by
    simp only [nodeDecls, memberDecls_eq_flatMap]
    refine List.Perm.cons _ (List.Perm.trans ?_ (perm.flatMap_right _))
    rw [← memberDecls_eq_flatMap, ← memberDecls_eq_flatMap]
    exact memberDecls_perm entries (Json.entriesReorder_iff.2 ⟨keys, values⟩)
  | .null, _, .null | .bool _, _, .bool _ | .number _, _, .number _ | .string _, _, .string _ => .refl _

theorem memberDecls_perm : (entries : List (String × Json)) → ∀ {moved : List (String × Json)},
    Json.EntriesReorder entries moved → (memberDecls entries).Perm (memberDecls moved)
  | [], [], .nil => .refl _
  | (key, child) :: rest, (key', child') :: rest', .cons here later => by
    obtain ⟨same, related⟩ := here
    simp only at same related
    subst same
    exact (nodeDecls_perm child related).append (memberDecls_perm rest later)

end

theorem documentDecls_perm {bases bases' nodes nodes' : List (String × Json)} (externs : List ExternalNode)
    (basesReordered : Reorders (.object bases) (.object bases'))
    (nodesReordered : Reorders (.object nodes) (.object nodes')) :
    (documentDecls bases externs nodes).Perm (documentDecls bases' externs nodes') := by
  unfold documentDecls
  refine List.Perm.append (List.Perm.append ?_ (.refl _)) ?_
  · have keys := Json.keys_perm_of_reorders basesReordered
    have tagged := keys.map fun n => (n, DeclKind.base)
    simpa only [List.map_map, Function.comp_def] using tagged
  · obtain ⟨moved, matched, perm⟩ := Json.reorders_object_iff.1 nodesReordered
    refine List.Perm.trans ?_ (perm.flatMap_right _)
    clear perm nodesReordered
    induction matched with
    | nil => exact .refl _
    | cons here _ ih =>
      obtain ⟨same, related⟩ := here
      rw [List.flatMap_cons, List.flatMap_cons, same]
      exact (nodeDecls_perm _ related).append ih

theorem Declares.agree_of_perm {decls decls' : List (String × DeclKind)} {names names' : NameTable}
    (run : Declares {} decls names) (run' : Declares {} decls' names') (perm : decls.Perm decls') (n : String) :
    (names.kinds n).Perm (names'.kinds n) ∧ names'.contains n = names.contains n := by
  constructor
  · rw [run.kinds, run'.kinds]
    exact ((perm.filter _).map _).append_left _
  · rw [Bool.eq_iff_iff, NameTable.contains_iff, NameTable.contains_iff, run.keys, run'.keys]
    simp only [Table.keys_empty, List.not_mem_nil, false_or]
    exact (perm.map Prod.fst).mem_iff.symm

theorem collectNames_reorders {bases bases' nodes nodes' : List (String × Json)} {externs : List ExternalNode}
    {names : NameTable} (basesReordered : Reorders (.object bases) (.object bases'))
    (nodesReordered : Reorders (.object nodes) (.object nodes'))
    (collected : collectNames bases externs nodes = .ok names) :
    ∃ names', collectNames bases' externs nodes' = .ok names' ∧
      ∀ n, (names.kinds n).Perm (names'.kinds n) ∧ names'.contains n = names.contains n := by
  have perm := documentDecls_perm externs basesReordered nodesReordered
  obtain ⟨shaped, ok⟩ := collectNames_ok_iff.1 ⟨names, collected⟩
  have shaped' : ∀ e ∈ nodes', NodeShaped e.2 := by
    have all : NodeShaped (.object nodes) := membersShaped_iff.2 shaped
    exact membersShaped_iff.1 (NodeShaped.reorders _ nodesReordered all)
  obtain ⟨names', collected'⟩ := collectNames_ok_iff.2 ⟨shaped', ok.perm perm⟩
  exact ⟨names', collected', Declares.agree_of_perm (collectNames_declares collected)
    (collectNames_declares collected') perm⟩

end NodeSchema
