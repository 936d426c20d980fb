import NodeSchema.Proofs.TypeScript.Layout
import NodeSchema.Proofs.TypeScript.Dispatch
import Mathlib.Tactic.SplitIfs

set_option autoImplicit false

/-! Every section code generation writes is a block. The text the generator spells out is
printable, and so are the names it writes as they are, provided they are safe: type, field and
base names, the discriminant, the roots of leaves and the symbols of external types. Tags and
sources are written as string literals, which are safe whatever they hold. Blank lines stand
only between blocks: inside a leaf's code between its interface, helper class and constructor,
inside a union's code between its sum type and its namespace. -/

namespace NodeSchema.TypeScript

/-! ### Names written as they are -/

/-- The names a value type writes as they are: its built-in or declared types; tags are written
as literals. -/
def KindSafe : ValueKind → Prop
  | .builtin types => ∀ t ∈ types, SafeText t
  | .node types => ∀ t ∈ types, SafeText t
  | .enum _ => True

/-- A record whose name, base names, field names and field types are safe. -/
structure RecordSafe (r : Record) : Prop where
  name : SafeText r.name
  bases : ∀ b ∈ r.bases, SafeText b
  fields : ∀ e ∈ r.fields.entries, SafeText e.1 ∧ KindSafe e.2.kind

def FieldSafe (f : ResolvedField) : Prop := SafeText f.name ∧ KindSafe f.descriptor.kind

theorem safeChar_of_between {a b c : Char} (low : a ≤ c) (high : c ≤ b) (bottom : 32 ≤ a.toNat)
    (top : b.toNat < 127) : safeChar c = true := by
  rw [Char.le_def, UInt32.le_iff_toNat_le] at low high
  have printable : 32 ≤ c.toNat ∧ c.toNat < 127 := ⟨Nat.le_trans bottom low, Nat.lt_of_le_of_lt high top⟩
  simp only [safeChar, isControl]
  simp
  omega

theorem safeChar_of_isNamePart {c : Char} (part : Text.isNamePart c = true) : safeChar c = true := by
  simp only [Text.isNamePart, Text.isNameStart, Text.isAsciiLetter, Bool.or_eq_true, Bool.and_eq_true,
    decide_eq_true_eq] at part
  rcases part with (((⟨low, high⟩ | ⟨low, high⟩) | rfl) | rfl) | ⟨low, high⟩
  · exact safeChar_of_between low high (by decide) (by decide)
  · exact safeChar_of_between low high (by decide) (by decide)
  · decide
  · decide
  · exact safeChar_of_between low high (by decide) (by decide)

theorem safeText_of_isIdentifier {s : String} (valid : Text.isIdentifier s = true) : SafeText s := by
  unfold Text.isIdentifier at valid
  intro c listed
  split at valid
  · cases valid
  · rename_i first rest spelled
    rw [spelled] at listed
    simp only [Bool.and_eq_true, List.all_eq_true] at valid
    rcases List.mem_cons.1 listed with rfl | later
    · exact safeChar_of_isNamePart (by simp [Text.isNamePart, valid.1])
    · exact safeChar_of_isNamePart (valid.2 c later)

theorem safeText_typeName {kind : ValueKind} (safe : KindSafe kind) : SafeText (typeName kind) := by
  have bar : SafeText " | " := safeText_of_ofList rfl (by decide)
  cases kind with
  | builtin types => exact safeText_intercalate bar safe
  | node types => exact safeText_intercalate bar safe
  | enum tags =>
    apply safeText_intercalate bar
    intro written listed
    obtain ⟨t, _, rfl⟩ := List.mem_map.1 listed
    exact safeText_stringLiteral t

theorem safeText_fieldType {field : FieldDescriptor} (options : Options) (position : Position)
    (safe : KindSafe field.kind) : SafeText (fieldType field options position) := by
  have name := safeText_typeName safe
  unfold fieldType
  dsimp only
  repeat' split
  all_goals simp only [safeText_append, name, and_true, true_and]
  all_goals and_intros
  all_goals exact safeText_of_ofList rfl (by decide)

theorem safeText_fieldKey {name : String} (field : FieldDescriptor) (options : Options)
    (safe : SafeText name) : SafeText (fieldKey name field options) := by
  unfold fieldKey
  split
  · exact safeText_append.2 ⟨safe, safeText_of_ofList rfl (by decide)⟩
  · exact safe

theorem safeText_childExpr {var name : String} (field : FieldDescriptor) (options : Options)
    (safeVar : SafeText var) (safeName : SafeText name) :
    SafeText (childExpr var name field options) := by
  unfold childExpr
  dsimp only
  repeat' split
  all_goals simp only [safeText_append, safeVar, safeName, and_true, true_and]
  all_goals and_intros
  all_goals exact safeText_of_ofList rfl (by decide)

/-! ### Interfaces -/

theorem block_interface (options : Options) (node : Record) (tag : Option String)
    (tagSafe : SafeText options.tagName) (safe : RecordSafe node) :
    Block (interface options node tag) := by
  have nameSafe := safe.name
  have what : SafeText (if tag.isSome = true then "leaf" else "interface") :=
    safeText_ite (safeText_of_ofList rfl (by decide)) (safeText_of_ofList rfl (by decide))
  have extendsSafe : SafeText
      (if node.bases.isEmpty = true then "" else " extends " ++ ", ".intercalate node.bases) :=
    safeText_ite safeText_empty (safeText_append.2 ⟨safeText_of_ofList rfl (by decide),
      safeText_intercalate (safeText_of_ofList rfl (by decide)) safe.bases⟩)
  unfold interface
  dsimp only
  apply block_lines (by simp)
  intro part listed
  simp only [List.mem_append, List.mem_cons, List.not_mem_nil, or_false, List.mem_map] at listed
  rcases listed with (((heading | opening) | tagged) | ⟨⟨name, field⟩, stored, rfl⟩) | closing
  · subst heading
    apply block_indentedComment safeText_empty
    intro line listed
    simp only [List.mem_cons, List.not_mem_nil, or_false] at listed
    rcases listed with rfl | rfl
    · exact safeText_of_ofList rfl (by decide)
    · simp only [safeText_append, what, nameSafe, and_true]
      all_goals and_intros
      all_goals exact safeText_of_ofList rfl (by decide)
  · subst opening
    refine block_of_safeText (by simp) ?_
    simp only [safeText_append, nameSafe, extendsSafe, and_true]
    all_goals and_intros
    all_goals exact safeText_of_ofList rfl (by decide)
  · cases tag with
    | none => cases tagged
    | some t =>
      rw [List.mem_singleton.1 tagged]
      refine block_of_safeText (by simp) ?_
      simp only [safeText_append, tagSafe, safeText_stringLiteral, and_true]
      all_goals and_intros
      all_goals exact safeText_of_ofList rfl (by decide)
  · obtain ⟨keySafe, kindSafe⟩ := safe.fields _ stored
    have key := safeText_fieldKey field options keySafe
    have type := safeText_fieldType options .property kindSafe
    refine block_of_safeText (by simp) ?_
    simp only [safeText_append, key, type, and_true]
    all_goals and_intros
    all_goals exact safeText_of_ofList rfl (by decide)
  · subst closing
    exact block_of_safeText (by simp [rbrace]) (safeText_of_ofList rfl (by decide))

/-! ### Leaves -/

theorem block_helperClass (options : Options) (leaf : LeafNode) {fields children : List ResolvedField}
    (tagSafe : SafeText options.tagName) (nameSafe : SafeText leaf.name)
    (rootSafe : SafeText leaf.rootUnion) (childrenSafe : ∀ f ∈ children, FieldSafe f) :
    Block (helperClass options leaf fields children) := by
  have tag := safeText_stringLiteral leaf.tag
  have tagNameLiteral := safeText_stringLiteral options.tagName
  have indent : SafeText "    " := safeText_of_ofList rfl (by decide)
  have allowed : SafeText (", ".intercalate
      (List.map stringLiteral (options.tagName :: List.map (fun x => x.name) fields))) := by
    apply safeText_intercalate (safeText_of_ofList rfl (by decide))
    intro written listed
    obtain ⟨t, _, rfl⟩ := List.mem_map.1 listed
    exact safeText_stringLiteral t
  have exprs : SafeText (", ".intercalate
      (List.map (fun f => childExpr "x" f.name f.descriptor options) children)) := by
    apply safeText_intercalate (safeText_of_ofList rfl (by decide))
    intro written listed
    obtain ⟨f, child, rfl⟩ := List.mem_map.1 listed
    exact safeText_childExpr f.descriptor options (safeText_of_ofList rfl (by decide))
      (childrenSafe f child).1
  unfold helperClass
  dsimp only
  apply block_lines (by simp)
  simp only [List.forall_mem_append, List.forall_mem_cons, List.forall_mem_map, List.not_mem_nil,
    false_implies, implies_true, and_true]
  and_intros
  · exact block_of_safeText (by simp) (by
      simp only [safeText_append, nameSafe, and_true]
      all_goals and_intros
      all_goals exact safeText_of_ofList rfl (by decide))
  · exact block_indentedComment indent (by
      simp only [List.forall_mem_cons, List.not_mem_nil, false_implies, implies_true, and_true,
        safeText_append, nameSafe]
      exact safeText_of_ofList rfl (by decide))
  · exact block_of_safeText (by simp) (by
      simp only [safeText_append, nameSafe, and_true]
      all_goals and_intros
      all_goals exact safeText_of_ofList rfl (by decide))
  · exact block_of_safeText (by simp) (safeText_of_ofList rfl (by decide))
  · exact block_of_safeText (by simp) (safeText_of_ofList rfl (by decide))
  · exact block_of_safeText (by simp) (safeText_of_ofList rfl (by decide))
  · intro f _
    exact block_of_safeText (by simp) (by
      simp only [safeText_append, safeText_stringLiteral, and_true]
      all_goals and_intros
      all_goals exact safeText_of_ofList rfl (by decide))
  · exact block_of_safeText (by simp) (by
      simp only [safeText_append, tagNameLiteral, and_true]
      all_goals and_intros
      all_goals exact safeText_of_ofList rfl (by decide))
  · exact block_of_safeText (by simp) (by
      simp only [safeText_append, allowed, and_true]
      all_goals and_intros
      all_goals exact safeText_of_ofList rfl (by decide))
  · exact block_of_safeText (by simp) (by
      simp only [safeText_append, tagSafe, tag, and_true]
      all_goals and_intros
      all_goals exact safeText_of_ofList rfl (by decide))
  · exact block_of_safeText (by simp) (by
      simp only [safeText_append, indent, true_and]
      all_goals and_intros
      all_goals exact safeText_of_ofList rfl (by decide))
  · exact block_indentedComment indent (by
      simp only [List.forall_mem_cons, List.not_mem_nil, false_implies, implies_true, and_true,
        safeText_append, nameSafe, rootSafe]
      all_goals and_intros
      all_goals exact safeText_of_ofList rfl (by decide))
  · exact block_of_safeText (by simp) (by
      simp only [safeText_append, nameSafe, rootSafe, tagSafe, tag, and_true]
      all_goals and_intros
      all_goals exact safeText_of_ofList rfl (by decide))
  · exact block_indentedComment indent (by
      simp only [List.forall_mem_cons, List.not_mem_nil, false_implies, implies_true, and_true,
        safeText_append, nameSafe, rootSafe]
      all_goals and_intros
      all_goals exact safeText_of_ofList rfl (by decide))
  · exact block_of_safeText (by simp) (by
      simp only [safeText_append, nameSafe, exprs, and_true]
      all_goals and_intros
      all_goals exact safeText_of_ofList rfl (by decide))
  · exact block_indentedComment indent (by
      simp only [List.forall_mem_cons, List.not_mem_nil, false_implies, implies_true, and_true,
        safeText_append, nameSafe]
      exact safeText_of_ofList rfl (by decide))
  · exact block_of_safeText (by simp) (by
      simp only [safeText_append, tag, and_true]
      all_goals and_intros
      all_goals exact safeText_of_ofList rfl (by decide))
  · exact block_of_safeText (by simp [rbrace]) (safeText_of_ofList rfl (by decide))

theorem safeText_paramName {field : String} (taken : List String) (safe : SafeText field) :
    SafeText (paramName field taken).1 := by
  unfold paramName
  split
  · exact safe
  · exact safeText_freshName safe

theorem positionalParts_safe (options : Options) {fields : List ResolvedField}
    (fieldsSafe : ∀ f ∈ fields, FieldSafe f) :
    (∀ p ∈ (positionalParts options fields).1, SafeText p) ∧
      ∀ e ∈ (positionalParts options fields).2, SafeText e := by
  unfold positionalParts
  dsimp only
  refine foldl_keeps (fun acc : List String × List String × List String =>
    (∀ p ∈ acc.1, SafeText p) ∧ ∀ e ∈ acc.2.1, SafeText e) _ fields _ ?_ (by simp)
  intro acc f listed ⟨paramsSafe, entriesSafe⟩
  obtain ⟨nameSafe, kindSafe⟩ := fieldsSafe f listed
  have param := safeText_paramName acc.2.2 nameSafe
  have type := safeText_fieldType options .argument kindSafe
  have colon : SafeText ": " := safeText_of_ofList rfl (by decide)
  constructor
  · intro p inParams
    simp only [List.mem_append, List.mem_singleton] at inParams
    rcases inParams with old | rfl
    · exact paramsSafe p old
    · simp only [safeText_append, param, colon, type, and_self]
  · intro e inEntries
    simp only [List.mem_append, List.mem_singleton] at inEntries
    rcases inEntries with old | rfl
    · exact entriesSafe e old
    · exact safeText_ite param (by simp only [safeText_append, nameSafe, colon, param, and_self])

theorem block_constructorFunction (options : Options) (leaf : LeafNode)
    {fields : List ResolvedField} {ctor : String} (tagSafe : SafeText options.tagName)
    (nameSafe : SafeText leaf.name) (fieldsSafe : ∀ f ∈ fields, FieldSafe f) (ctorSafe : SafeText ctor) :
    Block (constructorFunction options leaf fields ctor) := by
  have tag := safeText_stringLiteral leaf.tag
  have tagNameLiteral := safeText_stringLiteral options.tagName
  have parts := positionalParts_safe options fieldsSafe
  have params : SafeText (", ".intercalate (positionalParts options fields).1) :=
    safeText_intercalate (safeText_of_ofList rfl (by decide)) parts.1
  have entries : SafeText (", ".intercalate
      ((options.tagName ++ ": " ++ stringLiteral leaf.tag) :: (positionalParts options fields).2)) := by
    apply safeText_intercalate (safeText_of_ofList rfl (by decide))
    intro e listed
    rcases List.mem_cons.1 listed with rfl | later
    · simp only [safeText_append, tagSafe, tag, and_true, true_and]
      exact safeText_of_ofList rfl (by decide)
    · exact parts.2 e later
  unfold constructorFunction
  dsimp only
  apply block_lines (by simp)
  simp only [List.forall_mem_cons, List.not_mem_nil, false_implies, implies_true, and_true]
  constructor
  · exact block_indentedComment safeText_empty (by
      simp only [List.forall_mem_cons, List.not_mem_nil, false_implies, implies_true, and_true,
        safeText_append, nameSafe]
      exact safeText_of_ofList rfl (by decide))
  · -- the signature, the returned object and the closing brace
    split
    all_goals
      apply block_lines (by simp)
      simp only [List.forall_mem_cons, List.not_mem_nil, false_implies, implies_true, and_true]
      refine ⟨block_of_safeText (by simp) ?_, block_of_safeText (by simp) ?_,
        block_of_safeText (by simp [rbrace]) (safeText_of_ofList rfl (by decide))⟩
      all_goals
        simp only [safeText_append, nameSafe, ctorSafe, tagSafe, tag, tagNameLiteral, params, entries,
          and_true]
        all_goals and_intros
        all_goals exact safeText_of_ofList rfl (by decide)

theorem lines_two_blanks (a b c : String) : lines [a, "", b, "", c] = a ++ "\n\n" ++ (b ++ "\n\n" ++ c) := by
  simp only [lines, String.intercalate_cons_cons, String.intercalate_singleton, String.append_assoc,
    String.empty_append]
  rfl

theorem block_renderLeaf {ir : Ir} {leaf : LeafNode} {ctor code : String}
    (rendered : renderLeaf ir leaf ctor = .ok code) (tagSafe : SafeText ir.options.tagName)
    (leafSafe : RecordSafe leaf.toRecord) (rootSafe : SafeText leaf.rootUnion)
    (fieldsSafe : ∀ fields, resolveFields ir.declarations leaf.toRecord = .ok fields →
      ∀ f ∈ fields, FieldSafe f)
    (ctorSafe : SafeText ctor) : Block code := by
  unfold renderLeaf at rendered
  obtain ⟨fields, resolved, rest⟩ := bind_eq_ok.1 rendered
  obtain ⟨children, childrenResolved, built⟩ := bind_eq_ok.1 rest
  rw [mapError_eq_ok] at resolved childrenResolved
  obtain rfl := Except.ok.inj built
  have flat := fieldsSafe fields resolved
  have childrenSafe : ∀ f ∈ children, FieldSafe f := by
    unfold resolveChildFields at childrenResolved
    rw [resolved] at childrenResolved
    cases childrenResolved
    intro f listed
    simp only [List.mem_mergeSort, List.mem_filter] at listed
    exact flat f listed.1
  rw [lines_two_blanks]
  exact (block_interface _ _ _ tagSafe leafSafe).blank
    ((block_helperClass _ _ tagSafe leafSafe.name rootSafe childrenSafe).blank
      (block_constructorFunction _ _ tagSafe leafSafe.name flat ctorSafe))

/-! ### Unions -/

section Union

variable {tagName : String} {leaves : List LeafNode}

theorem safeText_handlers (names : ∀ l ∈ leaves, SafeText l.name) {ret : String}
    (retSafe : SafeText ret) : SafeText (handlers leaves ret) := by
  have entries : SafeText ("; ".intercalate (leaves.map (handlerEntry ret))) := by
    apply safeText_intercalate (safeText_of_ofList rfl (by decide))
    intro e listed
    obtain ⟨l, inLeaves, rfl⟩ := List.mem_map.1 listed
    unfold handlerEntry
    simp only [safeText_append, names l inLeaves, retSafe, and_true, true_and]
    all_goals and_intros
    all_goals exact safeText_of_ofList rfl (by decide)
  unfold handlers
  simp only [safeText_append, entries, and_true]
  all_goals and_intros
  all_goals exact safeText_of_ofList rfl (by decide)

theorem block_exhaustiveSwitch (union : String) (tagSafe : SafeText tagName)
    (names : ∀ l ∈ leaves, SafeText l.name) : Block (exhaustiveSwitch union tagName leaves) := by
  have message := safeText_stringLiteral
    ("impossible variant of " ++ union ++ ", unexpected " ++ tagName ++ ": ")
  unfold exhaustiveSwitch
  apply block_lines (by simp)
  simp only [List.forall_mem_append, List.forall_mem_cons, List.forall_mem_map, List.not_mem_nil,
    false_implies, implies_true, and_true]
  and_intros
  · exact block_of_safeText (by simp) (by
      simp only [safeText_append, tagSafe, and_true]
      all_goals and_intros
      all_goals exact safeText_of_ofList rfl (by decide))
  · intro l inLeaves
    unfold caseLine
    exact block_of_safeText (by simp) (by
      simp only [safeText_append, safeText_stringLiteral, names l inLeaves, and_true]
      all_goals and_intros
      all_goals exact safeText_of_ofList rfl (by decide))
  · exact block_of_safeText (by simp) (by
      simp only [safeText_append]
      all_goals and_intros
      all_goals exact safeText_of_ofList rfl (by decide))
  · exact block_of_safeText (by simp) (safeText_of_ofList rfl (by decide))
  · exact block_of_safeText (by simp) (by
      simp only [safeText_append, message, tagSafe, and_true]
      all_goals and_intros
      all_goals exact safeText_of_ofList rfl (by decide))
  · exact block_of_safeText (by simp) (by
      simp only [safeText_append]
      all_goals and_intros
      all_goals exact safeText_of_ofList rfl (by decide))
  · exact block_of_safeText (by simp) (by
      simp only [safeText_append]
      all_goals and_intros
      all_goals exact safeText_of_ofList rfl (by decide))

theorem block_partialChecks (tagSafe : SafeText tagName) (names : ∀ l ∈ leaves, SafeText l.name)
    (filled : leaves ≠ []) : Block (partialChecks tagName leaves) := by
  unfold partialChecks
  apply block_lines (by simpa using filled)
  intro line listed
  obtain ⟨l, inLeaves, rfl⟩ := List.mem_map.1 listed
  unfold checkLine
  exact block_of_safeText (by simp) (by
    simp only [safeText_append, tagSafe, safeText_stringLiteral, names l inLeaves, and_true]
    all_goals and_intros
    all_goals exact safeText_of_ofList rfl (by decide))

theorem block_unionCode (decl : UnionNode) (tagSafe : SafeText tagName)
    (nameSafe : SafeText decl.name) (membersSafe : ∀ m ∈ decl.members, SafeText m)
    (names : ∀ l ∈ leaves, SafeText l.name) (filled : leaves ≠ []) :
    Block (unionCode decl tagName leaves) := by
  have indent : SafeText "    " := safeText_of_ofList rfl (by decide)
  have members : SafeText (" | ".intercalate decl.members) :=
    safeText_intercalate (safeText_of_ofList rfl (by decide)) membersSafe
  have returning := safeText_handlers names (safeText_of_ofList rfl (by decide) : SafeText "R")
  have acting := safeText_handlers names (safeText_of_ofList rfl (by decide) : SafeText "void")
  have switch := block_exhaustiveSwitch decl.name tagSafe names
  have checks := block_partialChecks tagSafe names filled
  unfold unionCode
  dsimp only
  simp only [List.append_assoc, List.cons_append]
  refine block_lines_blank ?_ (by simp) ?_
  · -- the comment and the sum type
    apply block_lines (by simp)
    simp only [List.forall_mem_cons, List.not_mem_nil, false_implies, implies_true, and_true]
    constructor
    · exact block_indentedComment safeText_empty (by
        simp only [List.forall_mem_cons, List.not_mem_nil, false_implies, implies_true, and_true,
          safeText_append, nameSafe]
        all_goals and_intros
        all_goals exact safeText_of_ofList rfl (by decide))
    · exact block_of_safeText (by simp) (by
        simp only [safeText_append, nameSafe, members, and_true]
        all_goals and_intros
        all_goals exact safeText_of_ofList rfl (by decide))
  · -- the namespace: its comments, its lines, and per leaf one line of each loop
    apply block_lines (by simp)
    simp only [List.forall_mem_append, List.forall_mem_cons, List.forall_mem_map, List.not_mem_nil,
      false_implies, implies_true, and_true, true_and, switch, checks, namespaceDoc]
    refine ⟨?opening, ?anyDoc, ?anyHead, ?anyLeaf, ?anyFalse, ?anyClose, ?childrenDoc, ?childrenHead,
      ?childrenLeaf, ?childrenClose, ?mapDoc, ?mapHead, ?mapClose, ?partialMapDoc, ?partialMapHead,
      ?partialMapOrElse, ?partialMapClose, ?matchDoc, ?matchHead, ?matchClose, ?partialMatchDoc,
      ?partialMatchHead, ?partialMatchOrElse, ?partialMatchClose, ?closing⟩
    case anyDoc | childrenDoc | mapDoc | partialMapDoc | matchDoc | partialMatchDoc =>
      exact block_indentedComment indent (by
        simp only [List.forall_mem_cons, List.not_mem_nil, false_implies, implies_true, and_true,
          safeText_append, nameSafe]
        all_goals and_intros
        all_goals exact safeText_of_ofList rfl (by decide))
    case anyLeaf | childrenLeaf =>
      intro l inLeaves
      exact block_of_safeText (by simp) (by
        simp only [safeText_append, names l inLeaves, nameSafe, and_true]
        all_goals and_intros
        all_goals exact safeText_of_ofList rfl (by decide))
    case anyFalse | partialMapOrElse | partialMatchOrElse | closing =>
      exact block_of_safeText (by simp [rbrace]) (safeText_of_ofList rfl (by decide))
    case opening | anyHead | anyClose | childrenHead | childrenClose | mapHead | mapClose |
        partialMapHead | partialMapClose | matchHead | matchClose | partialMatchHead | partialMatchClose =>
      exact block_of_safeText (by simp) (by
        simp only [safeText_append, nameSafe, returning, acting, and_true]
        all_goals and_intros
        all_goals exact safeText_of_ofList rfl (by decide))

end Union

/-! ### Imports and the header -/

/-- Import groups whose symbols are all safe; sources are written as literals. -/
def GroupsSafe (groups : List (String × List String)) : Prop := ∀ g ∈ groups, ∀ x ∈ g.2, SafeText x

theorem groupsSafe_addImport {groups : List (String × List String)} (safe : GroupsSafe groups)
    (source : String) {symbol : String} (symbolSafe : SafeText symbol) :
    GroupsSafe (addImport groups source symbol) := by
  unfold addImport
  split
  · intro g listed
    rcases List.mem_append.1 listed with old | new
    · exact safe g old
    · rw [List.mem_singleton.1 new]
      simpa using symbolSafe
  · split
    · exact safe
    · -- the group of the source gains the symbol, the others stay
      intro g listed
      obtain ⟨⟨s, syms⟩, inGroups, rfl⟩ := List.mem_map.1 listed
      dsimp only
      split
      · intro x added
        rcases List.mem_append.1 added with old | new
        · exact safe _ inGroups x old
        · rw [List.mem_singleton.1 new]
          exact symbolSafe
      · exact safe _ inGroups

theorem groupsSafe_foldl_addImport {externals : List ExternalNode}
    (symbolsSafe : ∀ e ∈ externals, SafeText e.symbol) :
    GroupsSafe (externals.foldl (fun groups e => addImport groups e.source e.symbol) []) := by
  refine foldl_keeps GroupsSafe _ externals [] ?_ (by simp [GroupsSafe])
  intro groups e listed safe
  exact groupsSafe_addImport safe e.source (symbolsSafe e listed)

theorem groupsSafe_importGroups {ir : Ir} (symbolsSafe : ∀ e ∈ ir.externals, SafeText e.symbol) :
    GroupsSafe (importGroups ir) := by
  have referenced := fun (keep : ExternalNode → Bool) =>
    @groupsSafe_foldl_addImport (ir.externals.filter keep)
      fun e listed => symbolsSafe e (List.mem_filter.1 listed).1
  unfold importGroups
  dsimp only
  split
  · exact groupsSafe_addImport (referenced _) maybeSource (safeText_of_ofList rfl (by decide))
  · exact referenced _

theorem block_renderImports {ir : Ir} (symbolsSafe : ∀ e ∈ ir.externals, SafeText e.symbol)
    (filled : (renderImports ir).isEmpty = false) : Block (renderImports ir) := by
  have safe := groupsSafe_importGroups symbolsSafe
  unfold renderImports at filled ⊢
  apply block_lines
  · intro empty
    rw [empty] at filled
    cases filled
  · intro line listed
    obtain ⟨g, inGroups, rfl⟩ := List.mem_map.1 listed
    have symbols : SafeText (", ".intercalate g.2) :=
      safeText_intercalate (safeText_of_ofList rfl (by decide)) (safe g inGroups)
    unfold importLine
    exact block_of_safeText (by simp) (by
      simp only [safeText_append, symbols, safeText_stringLiteral, and_true]
      all_goals and_intros
      all_goals exact safeText_of_ofList rfl (by decide))

theorem block_header : Block (comment header) := by
  apply block_indentedComment safeText_empty
  simp only [header, List.forall_mem_cons, List.not_mem_nil, false_implies, implies_true, and_true]
  and_intros
  all_goals exact safeText_of_ofList rfl (by decide)

end NodeSchema.TypeScript
