import NodeSchema.Proofs.Load.Names

set_option autoImplicit false

/-! What the second pass guarantees of a field list. Every base it adds is declared as a base
and added once; every field it declares has a valid name other than the discriminant, and a
descriptor whose node types are declared names and whose built-in types are built-in. These
facts hold item by item, so they hold of every field list the second pass reads, and of every
base and leaf it builds. -/

namespace NodeSchema

/-- A descriptor agrees with the declared names: its node types are declared and its built-in
types are built-in. -/
def DescriptorSound (names : NameTable) (d : FieldDescriptor) : Prop :=
  match d.kind with
  | .builtin types => ∀ t ∈ types, isBuiltin t = true
  | .node types => ∀ t ∈ types, names.contains t = true
  | .enum _ => True

/-- A base list and a field table as the second pass leaves them: bases declared and distinct,
fields validly named, apart from the discriminant, and soundly described. -/
structure FieldsSound (ctx : Context) (bases : List String) (fields : Table FieldDescriptor) :
    Prop where
  bases_declared : ∀ x ∈ bases, ctx.names.hasKind x .base = true
  bases_nodup : bases.Nodup
  field_names : ∀ f ∈ fields.keys, Text.isIdentifier f = true ∧ f ≠ ctx.tagName
  descriptors : ∀ d ∈ fields.values, DescriptorSound ctx.names d

theorem FieldsSound.empty (ctx : Context) : FieldsSound ctx [] .empty where
  bases_declared := by simp
  bases_nodup := List.nodup_nil
  field_names := by simp
  descriptors := by simp [Table.values, Table.empty]

theorem parseField_sound {path field text : String} {names : NameTable} {d : FieldDescriptor}
    (parsed : parseField path field text names = .ok d) : DescriptorSound names d := by
  unfold parseField at parsed
  split at parsed
  split at parsed
  · cases parsed
  · split at parsed
    · rename_i allBuiltin
      cases parsed
      simpa [DescriptorSound] using allBuiltin
    · split at parsed
      · dsimp only at parsed
        split at parsed
        · cases parsed
        · cases parsed
          simp [DescriptorSound]
      · split at parsed
        · split at parsed
          · cases parsed
          · split at parsed
            · cases parsed
            · rename_i noneUnknown
              cases parsed
              simpa [DescriptorSound] using noneUnknown
        · cases parsed

theorem descriptorOf_sound {ctx : Context} {key path : String} {item value : Json}
    {d : FieldDescriptor} (read : descriptorOf ctx key path item value = .ok d) :
    DescriptorSound ctx.names d := by
  unfold descriptorOf at read
  split at read
  · exact parseField_sound read
  · split at read
    · cases read
      simp [DescriptorSound, FieldDescriptor.ofTags]
    · cases read
  · cases read

theorem addBases_sound {ctx : Context} {owner path : String} {list list' : FieldList}
    (names : List String) (sound : FieldsSound ctx list.bases list.fields)
    (added : addBases ctx owner path list names = .ok list') :
    FieldsSound ctx list'.bases list'.fields := by
  induction names generalizing list with
  | nil =>
    simp only [addBases, Except.ok.injEq] at added
    subst added
    exact sound
  | cons base rest ih =>
    simp only [addBases] at added
    split at added
    · cases added
    · rename_i declared
      split at added
      · cases added
      · rename_i fresh
        refine ih ?_ added
        refine ⟨?_, ?_, sound.field_names, sound.descriptors⟩
        · intro x member
          rcases List.mem_append.1 member with old | new
          · exact sound.bases_declared x old
          · simp only [List.mem_singleton] at new
            subst new
            simpa using declared
        · exact List.nodup_append.2 ⟨sound.bases_nodup, List.nodup_cons.2 ⟨by simp, List.nodup_nil⟩,
            by rintro x old y new rfl; simp only [List.mem_singleton] at new; subst new; exact fresh old⟩

theorem walkItem_sound {ctx : Context} {owner path : String} {isLeaf : Bool} {list list' : FieldList}
    {item : Json} (sound : FieldsSound ctx list.bases list.fields)
    (read : walkItem ctx owner isLeaf list path item = .ok list') :
    FieldsSound ctx list'.bases list'.fields := by
  unfold walkItem at read
  split at read
  · rename_i key value
    split at read
    · obtain ⟨names, _, added⟩ := bind_eq_ok.1 read
      exact addBases_sound names sound added
    · split at read
      · split at read
        · split at read
          · cases read
            exact sound
          · cases read
        · cases read
      · split at read
        · cases read
        · split at read
          · cases read
          · split at read
            · cases read
            · rename_i valid notTag absent
              obtain ⟨d, described, stored⟩ := bind_eq_ok.1 read
              cases stored
              have fresh : key ∉ list.fields.keys := by simpa using absent
              refine ⟨sound.bases_declared, sound.bases_nodup, ?_, ?_⟩
              · intro f member
                rw [Table.keys_insert_of_not_mem _ fresh] at member
                rcases List.mem_append.1 member with old | new
                · exact sound.field_names f old
                · simp only [List.mem_singleton] at new
                  subst new
                  exact ⟨by simpa using valid, notTag⟩
              · intro d' member
                obtain ⟨k, found⟩ := Table.mem_values_iff.1 member
                rw [Table.get?_insert] at found
                split at found
                · cases found
                  exact descriptorOf_sound described
                · exact sound.descriptors d' (Table.mem_values_of_get? found)
  · cases read

theorem walkFields_sound {ctx : Context} {owner path : String} {items : List Json} {isLeaf : Bool}
    {list : FieldList} (read : walkFields ctx owner items path isLeaf = .ok list) :
    FieldsSound ctx list.bases list.fields := by
  unfold walkFields at read
  refine foldlM_keeps (fun list : FieldList => FieldsSound ctx list.bases list.fields) _ ?_ _ {}
    list (FieldsSound.empty ctx) read
  rintro before ⟨item, i⟩ after sound stepped
  exact walkItem_sound sound stepped

/-! ### The tags of an enumeration

A field of tags is written either as a descriptor text of dotted parts or as a list of tag
strings. The text form keeps each part once and refuses an empty tag; the list form keeps the
strings as they are given. -/

theorem splitParts_distinct {core : String} {parts : List String} (split : splitParts core = some parts) :
    parts.Nodup ∧ parts ≠ [] := by
  unfold splitParts at split
  dsimp only at split
  split at split
  · cases split
  · cases split
    refine ⟨nodup_eraseDups _, ?_⟩
    obtain ⟨first, rest, pieces⟩ := List.exists_cons_of_ne_nil (List.splitOn_ne_nil '|' core.toList)
    simp [pieces, List.eraseDups_cons]

theorem dropDot_injective {x y : String} (dottedX : x.toList.head? = some '.')
    (dottedY : y.toList.head? = some '.')
    (same : String.ofList (x.toList.drop 1) = String.ofList (y.toList.drop 1)) : x = y := by
  have rests : x.toList.tail = y.toList.tail := by
    simpa [List.drop_one] using congrArg String.toList same
  rw [← String.toList_inj, List.eq_cons_of_mem_head? dottedX, List.eq_cons_of_mem_head? dottedY,
    rests]

theorem parseField_enum {path field text : String} {names : NameTable} {c : Structure}
    {tags : List String} (parsed : parseField path field text names = .ok ⟨c, .enum tags⟩) :
    tags ≠ [] ∧ tags.Nodup ∧ "" ∉ tags := by
  unfold parseField at parsed
  split at parsed
  split at parsed
  · cases parsed
  · rename_i parts split
    obtain ⟨distinct, filled⟩ := splitParts_distinct split
    split at parsed
    · cases parsed
    · split at parsed
      · rename_i dotted
        dsimp only at parsed
        split at parsed
        · cases parsed
        · rename_i noneEmpty
          cases parsed
          have dottedOf : ∀ p ∈ parts, p.toList.head? = some '.' := fun p listed => by
            simpa using List.all_eq_true.1 dotted p listed
          refine ⟨by simpa using filled, distinct.map_on fun x listedX y listedY same => ?_, ?_⟩
          · exact dropDot_injective (dottedOf x listedX) (dottedOf y listedY) same
          · intro empty
            exact noneEmpty (List.any_eq_true.2 ⟨"", empty, rfl⟩)
      · split at parsed
        · split at parsed
          · cases parsed
          · split at parsed <;> cases parsed
        · cases parsed

theorem mapM_string?_eq_some : ∀ {items : List Json} {strings : List String},
    items.mapM Json.string? = some strings → items = strings.map .string
  | [], strings, read => by
    cases read
    rfl
  | item :: rest, strings, read => by
    cases item with
    | string text =>
      simp only [List.mapM_cons, Json.string?] at read
      cases restRead : rest.mapM Json.string? with
      | none => simp [restRead] at read
      | some more =>
        simp [restRead] at read
        subst read
        rw [mapM_string?_eq_some restRead]
        rfl
    | _ => simp [Json.string?] at read

/-- A field of tags has at least one tag. Written as a descriptor text its tags are distinct and
non-empty; written as a list it is a scalar field of exactly the strings of the list. -/
theorem descriptorOf_enum {ctx : Context} {key path : String} {item value : Json} {c : Structure}
    {tags : List String} (read : descriptorOf ctx key path item value = .ok ⟨c, .enum tags⟩) :
    tags ≠ [] ∧ ((∃ text, value = .string text ∧ tags.Nodup ∧ "" ∉ tags) ∨
      (c = .scalar ∧ value = .array (tags.map .string))) := by
  unfold descriptorOf at read
  split at read
  · rename_i text
    obtain ⟨filled, distinct, nonEmpty⟩ := parseField_enum read
    exact ⟨filled, .inl ⟨text, rfl, distinct, nonEmpty⟩⟩
  · rename_i first more
    split at read
    · rename_i strings listed
      cases read
      have written := mapM_string?_eq_some listed
      refine ⟨?_, .inr ⟨rfl, congrArg Json.array written⟩⟩
      rintro rfl
      cases written
    · cases read
  · cases read

end NodeSchema
