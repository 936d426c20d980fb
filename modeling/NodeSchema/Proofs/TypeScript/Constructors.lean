import NodeSchema.Proofs.TypeScript.Fresh
import NodeSchema.TypeScript.Module

set_option autoImplicit false

/-! The names generated constructors are written under. Each leaf's constructor is named by
its type name in lower camel case, escaped past every declared name and every constructor name
handed out before it; two type names can lower to the same name (`IO` and `io`), and a lowered
name can be another declared type's name, so the escapes differ from leaf to leaf. A parameter of
a positional constructor is named by its field unless the field's name is reserved; then it is
escaped past every field name and the parameters escaped before it. Non-reserved names are not
added to the taken names, which is safe because every field name is taken from the start.

Main statements: the constructor names are distinct, never reserved, never a declared name, and
each is the fewest underscores past what was taken before it; the parameters are distinct, never
reserved, a field's own name where that is not reserved, and the fewest underscores past the
fields and earlier parameters where it is. -/

namespace NodeSchema.TypeScript

open Text (isIdentifier isNameStart isNamePart isAsciiLetter)

/-! ### Names that stay identifiers -/

theorem toLower_eq_or_small (c : Char) :
    c.toLower = c ∨ (97 ≤ c.toLower.toNat ∧ c.toLower.toNat ≤ 122) := by
  unfold Char.toLower
  split
  · rename_i capital
    right
    have bounds : 65 ≤ c.toNat ∧ c.toNat ≤ 90 := by
      simp only [ge_iff_le, UInt32.le_iff_toNat_le] at capital
      exact capital
    have lowered : (c.val + ('a'.val - 'A'.val)).toNat = c.toNat + 32 := by
      rw [UInt32.toNat_add, show ('a'.val - 'A'.val).toNat = 32 from rfl]
      exact Nat.mod_eq_of_lt (by simp only [Char.toNat] at bounds; omega)
    simp only [Char.toNat_mk, lowered]
    omega
  · exact .inl rfl

theorem isAsciiLetter_of_small {c : Char} (low : 97 ≤ c.toNat) (high : c.toNat ≤ 122) :
    isAsciiLetter c = true := by
  simp only [isAsciiLetter, Bool.or_eq_true, Bool.and_eq_true, decide_eq_true_eq, Char.le_def,
    UInt32.le_iff_toNat_le]
  exact .inl ⟨low, high⟩

theorem isNameStart_toLower {c : Char} (start : isNameStart c = true) : isNameStart c.toLower = true := by
  rcases toLower_eq_or_small c with same | ⟨low, high⟩
  · rw [same]
    exact start
  · simp [isNameStart, isAsciiLetter_of_small low high]

theorem isNamePart_toLower {c : Char} (part : isNamePart c = true) : isNamePart c.toLower = true := by
  rcases toLower_eq_or_small c with same | ⟨low, high⟩
  · rw [same]
    exact part
  · simp [isNamePart, isNameStart, isAsciiLetter_of_small low high]

theorem isIdentifier_iff {s : String} :
    isIdentifier s = true ↔ ∃ c rest, s.toList = c :: rest ∧ isNameStart c = true ∧ ∀ d ∈ rest, isNamePart d = true := by
  unfold isIdentifier
  cases s.toList with
  | nil => simp
  | cons c rest => simp

theorem constructorName_eq_lowered (name : String) : ∃ lowered : Nat,
    constructorName name =
      String.ofList (name.toList.zipIdx.map fun p => if p.2 < lowered then p.1.toLower else p.1) :=
  ⟨_, rfl⟩

theorem isIdentifier_lowered (lowered : Nat) {name : String} (valid : isIdentifier name = true) :
    isIdentifier (String.ofList
      (name.toList.zipIdx.map fun p => if p.2 < lowered then p.1.toLower else p.1)) = true := by
  obtain ⟨c, rest, spelled, start, parts⟩ := isIdentifier_iff.1 valid
  rw [spelled, List.zipIdx_cons, List.map_cons]
  refine isIdentifier_iff.2 ⟨_, _, String.toList_ofList, ?_, ?_⟩
  · split
    · exact isNameStart_toLower start
    · exact start
  · intro d listed
    obtain ⟨⟨e, i⟩, indexed, rfl⟩ := List.mem_map.1 listed
    have part := parts e (List.fst_mem_of_mem_zipIdx indexed)
    split
    · exact isNamePart_toLower part
    · exact part

theorem isIdentifier_constructorName {name : String} (valid : isIdentifier name = true) :
    isIdentifier (constructorName name) = true := by
  obtain ⟨lowered, spelled⟩ := constructorName_eq_lowered name
  rw [spelled]
  exact isIdentifier_lowered lowered valid

theorem isIdentifier_pad {name : String} (valid : isIdentifier name = true) (k : Nat) :
    isIdentifier (pad name k) = true := by
  obtain ⟨c, rest, spelled, start, parts⟩ := isIdentifier_iff.1 valid
  refine isIdentifier_iff.2 ⟨c, rest ++ List.replicate k '_', by rw [toList_pad, spelled]; rfl, start, ?_⟩
  intro d listed
  rcases List.mem_append.1 listed with early | underscore
  · exact parts d early
  · rw [List.eq_of_mem_replicate underscore]
    rfl

/-! ### Constructor names -/

/-- The constructor names handed out for type names in order, each escaped past `taken` and the
names handed out before it. -/
def handOut : List String → List String → List String
  | _, [] => []
  | taken, typeName :: rest =>
    let ctor := freshName taken (constructorName typeName)
    ctor :: handOut (taken ++ [ctor]) rest

/-- The constructor names of assembled nodes: one per leaf in order, handed out past every
declared name. -/
def constructorNames (ir : Ir) : List String := handOut ir.nodes.keys (ir.leaves.map (·.name))

theorem length_handOut : ∀ (taken typeNames : List String),
    (handOut taken typeNames).length = typeNames.length
  | _, [] => rfl
  | taken, _ :: rest => by
    rw [handOut, List.length_cons, length_handOut _ rest, List.length_cons]

theorem handOut_escapes : ∀ (taken typeNames : List String) (i : Nat) (typeName : String),
    typeNames[i]? = some typeName → ∃ c, (handOut taken typeNames)[i]? = some c ∧
      Escapes (taken ++ (handOut taken typeNames).take i) (constructorName typeName) c
  | _, [], _, _, listed => by cases listed
  | taken, first :: rest, 0, typeName, listed => by
    cases listed
    refine ⟨_, rfl, ?_⟩
    simpa using freshName_escapes taken (constructorName first)
  | taken, first :: rest, i + 1, typeName, listed => by
    obtain ⟨c, found, escapes⟩ := handOut_escapes _ rest i typeName listed
    refine ⟨c, found, ?_⟩
    simpa [handOut] using escapes

theorem handOut_fresh : ∀ (taken typeNames : List String),
    (handOut taken typeNames).Nodup ∧ ∀ c ∈ handOut taken typeNames, isReserved c = false ∧ c ∉ taken
  | _, [] => ⟨List.nodup_nil, by simp [handOut]⟩
  | taken, first :: rest => by
    have escapes := freshName_escapes taken (constructorName first)
    obtain ⟨distinct, later⟩ := handOut_fresh (taken ++ [freshName taken (constructorName first)]) rest
    refine ⟨List.nodup_cons.2 ⟨fun listed => ?_, distinct⟩, ?_⟩
    · -- a later name avoids every name taken before it, this one included
      exact (later _ listed).2 (List.mem_append_right _ List.mem_cons_self)
    · intro c listed
      rcases List.mem_cons.1 listed with rfl | inRest
      · exact ⟨escapes.not_reserved, escapes.not_mem⟩
      · exact ⟨(later c inRest).1, fun held => (later c inRest).2 (List.mem_append_left _ held)⟩

theorem emitLeaves_eq_foldlM (ir : Ir) : ∀ (leaves : List LeafNode) (out : String) (taken : List String),
    emitLeaves ir leaves out taken =
      (leaves.zip (handOut taken (leaves.map (·.name)))).foldlM
        (fun out p => (renderLeaf ir p.1 p.2).map (pushSection out)) out
  | [], _, _ => rfl
  | leaf :: rest, out, taken => by
    rw [emitLeaves, List.map_cons, handOut, List.zip_cons_cons, List.foldlM_cons]
    cases renderLeaf ir leaf (freshName taken (constructorName leaf.name)) with
    | error e => rfl
    | ok code => exact emitLeaves_eq_foldlM ir rest (pushSection out code) _

/-- Code generation names the constructors of the leaves, in order, by the lowered type names,
each followed by the fewest underscores that make it neither reserved, nor a declared name, nor
a name given to an earlier leaf. The names are distinct, never reserved, never declared, and
identifiers wherever the type names are. -/
theorem emitLeaves_constructorNames (ir : Ir) :
    (∀ out, emitLeaves ir ir.leaves out ir.nodes.keys =
      (ir.leaves.zip (constructorNames ir)).foldlM
        (fun out p => (renderLeaf ir p.1 p.2).map (pushSection out)) out) ∧
    (constructorNames ir).length = ir.leaves.length ∧
    (constructorNames ir).Nodup ∧
    (∀ c ∈ constructorNames ir, isReserved c = false ∧ c ∉ ir.nodes.keys) ∧
    ∀ i leaf, ir.leaves[i]? = some leaf → ∃ c, (constructorNames ir)[i]? = some c ∧
      Escapes (ir.nodes.keys ++ (constructorNames ir).take i) (constructorName leaf.name) c ∧
      (isIdentifier leaf.name = true → isIdentifier c = true) := by
  obtain ⟨distinct, fresh⟩ := handOut_fresh ir.nodes.keys (ir.leaves.map (·.name))
  refine ⟨fun out => emitLeaves_eq_foldlM ir ir.leaves out ir.nodes.keys, ?_, distinct, fresh, ?_⟩
  · rw [constructorNames, length_handOut, List.length_map]
  · intro i leaf listed
    have named : (ir.leaves.map (·.name))[i]? = some leaf.name := by
      rw [List.getElem?_map, listed]
      rfl
    obtain ⟨c, found, escapes⟩ := handOut_escapes ir.nodes.keys _ i leaf.name named
    refine ⟨c, found, escapes, fun valid => ?_⟩
    obtain ⟨k, rfl, -⟩ := escapes
    exact isIdentifier_pad (isIdentifier_constructorName valid) k

/-- Lowering sends `IO` and `io` to one name and `New` and `Return` to reserved words; the
escapes keep the four constructors apart and off the declared names. -/
example : handOut ["Stmt", "New", "Return", "IO", "io"] ["New", "Return", "IO", "io"] =
    ["new_", "return_", "io_", "io__"] := by decide

/-! ### Parameter names -/

/-- The parameter names of the fields named `names`, with `taken` threaded through
`paramName`. -/
def paramNames : List String → List String → List String
  | _, [] => []
  | taken, field :: rest => (paramName field taken).1 :: paramNames (paramName field taken).2 rest

/-- The parameter names of a positional constructor: every field name is taken from the start. -/
def fieldParams (fields : List ResolvedField) : List String :=
  paramNames (fields.map (·.name)) (fields.map (·.name))

theorem paramName_of_free {field : String} (free : isReserved field = false) (taken : List String) :
    paramName field taken = (field, taken) := by
  simp [paramName, free]

theorem paramName_of_reserved {field : String} (reserved : isReserved field = true) (taken : List String) :
    paramName field taken = (freshName taken field, taken ++ [freshName taken field]) := by
  simp [paramName, reserved]

theorem foldl_positionalStep (options : Options)
    (step : List String × List String × List String → ResolvedField → List String × List String × List String)
    (stepped : ∀ params entries taken f, step (params, entries, taken) f =
      (params ++ [(paramName f.name taken).1 ++ ": " ++ fieldType f.descriptor options .argument],
        entries ++ [if (paramName f.name taken).1 == f.name then (paramName f.name taken).1
          else f.name ++ ": " ++ (paramName f.name taken).1],
        (paramName f.name taken).2)) :
    ∀ (fields : List ResolvedField) (params entries taken : List String),
      (fields.foldl step (params, entries, taken)).1 =
          params ++ List.zipWith (fun f p => p ++ ": " ++ fieldType f.descriptor options .argument)
            fields (paramNames taken (fields.map (·.name))) ∧
        (fields.foldl step (params, entries, taken)).2.1 =
          entries ++ List.zipWith (fun f p => if p == f.name then p else f.name ++ ": " ++ p)
            fields (paramNames taken (fields.map (·.name)))
  | [], params, entries, _ => by simp [paramNames]
  | f :: rest, params, entries, taken => by
    rw [List.foldl_cons, stepped]
    obtain ⟨paramsAfter, entriesAfter⟩ := foldl_positionalStep options step stepped rest _ _ _
    rw [paramsAfter, entriesAfter]
    simp [paramNames]

theorem foldl_positionalStep_eq {options : Options}
    {step : List String × List String × List String → ResolvedField → List String × List String × List String}
    {fields : List ResolvedField} {params entries taken params' entries' taken' : List String}
    (folded : fields.foldl step (params, entries, taken) = (params', entries', taken'))
    (stepped : ∀ params entries taken f, step (params, entries, taken) f =
      (params ++ [(paramName f.name taken).1 ++ ": " ++ fieldType f.descriptor options .argument],
        entries ++ [if (paramName f.name taken).1 == f.name then (paramName f.name taken).1
          else f.name ++ ": " ++ (paramName f.name taken).1],
        (paramName f.name taken).2)) :
    params' = params ++ List.zipWith (fun f p => p ++ ": " ++ fieldType f.descriptor options .argument)
        fields (paramNames taken (fields.map (·.name))) ∧
      entries' = entries ++ List.zipWith (fun f p => if p == f.name then p else f.name ++ ": " ++ p)
        fields (paramNames taken (fields.map (·.name))) := by
  have parts := foldl_positionalStep options step stepped fields params entries taken
  rw [folded] at parts
  exact parts

theorem positionalParts_eq (options : Options) (fields : List ResolvedField) :
    positionalParts options fields =
      (List.zipWith (fun f p => p ++ ": " ++ fieldType f.descriptor options .argument) fields (fieldParams fields),
        List.zipWith (fun f p => if p == f.name then p else f.name ++ ": " ++ p) fields (fieldParams fields)) := by
  unfold positionalParts
  dsimp only
  generalize folded : List.foldl _ ([], [], fields.map (·.name)) fields = result
  obtain ⟨params, entries, taken⟩ := result
  obtain ⟨rfl, rfl⟩ := foldl_positionalStep_eq folded fun _ _ _ _ => rfl
  rfl

theorem length_paramNames : ∀ (taken names : List String), (paramNames taken names).length = names.length
  | _, [] => rfl
  | taken, _ :: rest => by
    rw [paramNames, List.length_cons, length_paramNames _ rest, List.length_cons]

theorem Escapes.congr {taken taken' : List String} {name c : String}
    (same : ∀ x, x ∈ taken ↔ x ∈ taken') (escapes : Escapes taken name c) : Escapes taken' name c := by
  obtain ⟨k, spelled, free, absent, before⟩ := escapes
  refine ⟨k, spelled, free, fun held => absent ((same c).2 held), fun j below => ?_⟩
  rcases before j below with reserved | held
  · exact .inl reserved
  · exact .inr ((same _).1 held)

theorem paramNames_escapes : ∀ {taken names : List String}, (∀ x ∈ names, x ∈ taken) →
    ∀ (i : Nat) (field : String), names[i]? = some field → ∃ p, (paramNames taken names)[i]? = some p ∧
      (isReserved field = false → p = field) ∧
      (isReserved field = true → Escapes (taken ++ (paramNames taken names).take i) field p)
  | _, [], _, _, _, listed => by cases listed
  | taken, first :: rest, held, 0, field, listed => by
    cases listed
    refine ⟨_, rfl, fun free => by rw [paramName_of_free free], fun reserved => ?_⟩
    rw [paramName_of_reserved reserved]
    simpa using freshName_escapes taken first
  | taken, first :: rest, held, i + 1, field, listed => by
    have restHeld : ∀ x ∈ rest, x ∈ (paramName first taken).2 := by
      intro x inRest
      by_cases reserved : isReserved first = true
      · rw [paramName_of_reserved reserved]
        exact List.mem_append_left _ (held x (List.mem_cons_of_mem _ inRest))
      · rw [paramName_of_free (by simpa using reserved)]
        exact held x (List.mem_cons_of_mem _ inRest)
    obtain ⟨p, found, kept, escapes⟩ := @paramNames_escapes _ rest restHeld i field listed
    refine ⟨p, found, kept, fun reserved => (escapes reserved).congr fun x => ?_⟩
    -- the first parameter is added to the taken names exactly when it was escaped; otherwise it
    -- is the first field's name, taken already
    by_cases firstReserved : isReserved first = true
    · simp [paramNames, paramName_of_reserved firstReserved]
    · have firstHeld := held first List.mem_cons_self
      simp only [paramNames, paramName_of_free (by simpa using firstReserved), List.take_succ_cons,
        List.mem_append, List.mem_cons]
      constructor
      · rintro (old | later)
        · exact .inl old
        · exact .inr (.inr later)
      · rintro (old | rfl | later)
        · exact .inl old
        · exact .inl firstHeld
        · exact .inr later

theorem paramNames_fresh : ∀ {taken names : List String}, names.Nodup → (∀ x ∈ names, x ∈ taken) →
    (paramNames taken names).Nodup ∧
      ∀ p ∈ paramNames taken names, isReserved p = false ∧ (p ∈ names ∨ p ∉ taken)
  | _, [], _, _ => ⟨List.nodup_nil, by simp [paramNames]⟩
  | taken, first :: rest, distinct, held => by
    obtain ⟨firstNew, restDistinct⟩ := List.nodup_cons.1 distinct
    by_cases reserved : isReserved first = true
    · -- an escaped parameter is taken afterwards, and avoids every field name
      have escapes := freshName_escapes taken first
      have restHeld : ∀ x ∈ rest, x ∈ taken ++ [freshName taken first] :=
        fun x inRest => List.mem_append_left _ (held x (List.mem_cons_of_mem _ inRest))
      obtain ⟨laterDistinct, later⟩ := @paramNames_fresh (taken ++ [freshName taken first]) rest
        restDistinct restHeld
      simp only [paramNames, paramName_of_reserved reserved]
      refine ⟨List.nodup_cons.2 ⟨fun listed => ?_, laterDistinct⟩, ?_⟩
      · rcases (later _ listed).2 with field | absent
        · exact escapes.not_mem (held _ (List.mem_cons_of_mem _ field))
        · exact absent (List.mem_append_right _ List.mem_cons_self)
      · intro p listed
        rcases List.mem_cons.1 listed with rfl | inRest
        · exact ⟨escapes.not_reserved, .inr escapes.not_mem⟩
        · obtain ⟨free, field | absent⟩ := later p inRest
          · exact ⟨free, .inl (List.mem_cons_of_mem _ field)⟩
          · exact ⟨free, .inr fun held' => absent (List.mem_append_left _ held')⟩
    · -- a free field name is its own parameter, and is taken already
      have free : isReserved first = false := by simpa using reserved
      obtain ⟨laterDistinct, later⟩ := @paramNames_fresh taken rest restDistinct
        fun x inRest => held x (List.mem_cons_of_mem _ inRest)
      simp only [paramNames, paramName_of_free free]
      refine ⟨List.nodup_cons.2 ⟨fun listed => ?_, laterDistinct⟩, ?_⟩
      · rcases (later _ listed).2 with field | absent
        · exact firstNew field
        · exact absent (held first List.mem_cons_self)
      · intro p listed
        rcases List.mem_cons.1 listed with rfl | inRest
        · exact ⟨free, .inl List.mem_cons_self⟩
        · obtain ⟨free', field | absent⟩ := later p inRest
          · exact ⟨free', .inl (List.mem_cons_of_mem _ field)⟩
          · exact ⟨free', .inr absent⟩

/-- Over fields with distinct names a positional constructor names its parameters apart and off
the reserved words: a field keeps its name when that is not reserved, and otherwise takes it
followed by the fewest underscores that make it neither reserved, nor a field name, nor an
earlier parameter. The object it returns lists the discriminant, then per field either the
parameter alone, when it is the field's name, or the field's name bound to the parameter. -/
theorem positionalParts_fieldParams (options : Options) (fields : List ResolvedField)
    (distinct : (fields.map (·.name)).Nodup) :
    positionalParts options fields =
        (List.zipWith (fun f p => p ++ ": " ++ fieldType f.descriptor options .argument) fields (fieldParams fields),
          List.zipWith (fun f p => if p == f.name then p else f.name ++ ": " ++ p) fields (fieldParams fields)) ∧
      (fieldParams fields).length = fields.length ∧
      (fieldParams fields).Nodup ∧
      (∀ p ∈ fieldParams fields, isReserved p = false) ∧
      (∀ i f, fields[i]? = some f → ∃ p, (fieldParams fields)[i]? = some p ∧
        (isReserved f.name = false → p = f.name) ∧
        (isReserved f.name = true → Escapes (fields.map (·.name) ++ (fieldParams fields).take i) f.name p)) ∧
      (options.constructor = .positionalArgs → ∀ (leaf : LeafNode) (ctor : String), ∃ doc,
        constructorFunction options leaf fields ctor = lines [doc, lines [
          "export function " ++ ctor ++ "(" ++ ", ".intercalate (List.zipWith
            (fun f p => p ++ ": " ++ fieldType f.descriptor options .argument) fields (fieldParams fields)) ++
              "): " ++ leaf.name ++ " " ++ lbrace,
          "    return " ++ lbrace ++ " " ++ ", ".intercalate ((options.tagName ++ ": " ++ stringLiteral leaf.tag) ::
            List.zipWith (fun f p => if p == f.name then p else f.name ++ ": " ++ p) fields (fieldParams fields)) ++
              " " ++ rbrace ++ ";",
          rbrace]]) := by
  have held : ∀ x ∈ fields.map (·.name), x ∈ fields.map (·.name) := fun _ listed => listed
  obtain ⟨paramsDistinct, fresh⟩ := paramNames_fresh distinct held
  have parts := positionalParts_eq options fields
  refine ⟨parts, ?_, paramsDistinct, fun p listed => (fresh p listed).1, ?_, ?_⟩
  · rw [fieldParams, length_paramNames, List.length_map]
  · intro i f listed
    have named : (fields.map (·.name))[i]? = some f.name := by
      rw [List.getElem?_map, listed]
      rfl
    exact paramNames_escapes held i f.name named
  · intro positional leaf ctor
    refine ⟨indentedComment "" ["This function can be invoked to create a new instance of " ++ leaf.name], ?_⟩
    unfold constructorFunction
    rw [positional]
    dsimp only
    rw [parts]

/-- A field `in` and a field `in_`, as a record declaring both flattens to. -/
def shadowedFields : List ResolvedField :=
  [⟨"in", ⟨.scalar, .builtin ["string"]⟩, "Decl"⟩, ⟨"in_", ⟨.scalar, .builtin ["number"]⟩, "Decl"⟩]

theorem positionalParts_fieldParams_shadowed :
    (shadowedFields.map (·.name)).Nodup ∧ fieldParams shadowedFields = ["in__", "in_"] ∧
      ∀ options : Options, (positionalParts options shadowedFields).2 = ["in: in__", "in_"] := by
  have distinct : (shadowedFields.map (·.name)).Nodup := by decide
  have params : fieldParams shadowedFields = ["in__", "in_"] := by decide
  refine ⟨distinct, params, fun options => ?_⟩
  rw [(positionalParts_fieldParams options shadowedFields distinct).1, params]
  rfl

end NodeSchema.TypeScript
