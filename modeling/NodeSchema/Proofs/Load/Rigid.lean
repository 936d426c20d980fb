import NodeSchema.Proofs.Json.Reorder
import NodeSchema.Proofs.Tables
import NodeSchema.Schema.Load

set_option autoImplicit false

/-! Field lists are read the same from a reordered document. A field list is an array, which
keeps its order, of objects of one key, whose values are a descriptor text, a list of tags or
base names, or one base name: none of them can be reordered. Reading a field list asks the
name table only whether a name is declared and which kinds it carries, and asks the context
for the discriminant name, so two contexts that answer these alike read every field list
alike. -/

namespace NodeSchema

open Json (Reorders)

/-- Two contexts that answer every question the second pass asks alike: the same
discriminant name, the same kinds for every name, and the same declared names. -/
structure Context.Agree (ctx ctx' : Context) : Prop where
  tagName : ctx'.tagName = ctx.tagName
  hasKind : ∀ n k, ctx'.names.hasKind n k = ctx.names.hasKind n k
  contains : ∀ n, ctx'.names.contains n = ctx.names.contains n

theorem Context.Agree.symm {ctx ctx' : Context} (agree : ctx.Agree ctx') : ctx'.Agree ctx where
  tagName := agree.tagName.symm
  hasKind n k := (agree.hasKind n k).symm
  contains n := (agree.contains n).symm

/-! ### Reading against agreeing contexts -/

section Agree

variable {ctx ctx' : Context} (agree : ctx.Agree ctx')
include agree

theorem parseField_congr (path field text : String) :
    parseField path field text ctx'.names = parseField path field text ctx.names := by
  have same : ctx'.names.contains = ctx.names.contains := funext agree.contains
  simp only [parseField, same]

theorem addBases_congr (owner path : String) :
    ∀ (list : FieldList) (bases : List String),
      addBases ctx' owner path list bases = addBases ctx owner path list bases
  | _, [] => rfl
  | list, base :: rest => by
    simp only [addBases, agree.hasKind, addBases_congr owner path _ rest]

theorem descriptorOf_congr (key path : String) (item value : Json) :
    descriptorOf ctx' key path item value = descriptorOf ctx key path item value := by
  simp only [descriptorOf, parseField_congr agree]

theorem walkItem_congr (owner : String) (isLeaf : Bool) (list : FieldList) (path : String) (item : Json) :
    walkItem ctx' owner isLeaf list path item = walkItem ctx owner isLeaf list path item := by
  simp only [walkItem, agree.tagName, addBases_congr agree, descriptorOf_congr agree]

theorem walkFields_congr (owner : String) (items : List Json) (path : String) (isLeaf : Bool) :
    walkFields ctx' owner items path isLeaf = walkFields ctx owner items path isLeaf := by
  simp only [walkFields, walkItem_congr agree]

end Agree

/-! ### What a field list accepts cannot be reordered -/

theorem baseNamesOf_rigid {value value' : Json} {path : String} {names : List String}
    (read : baseNamesOf value path = .ok names) (reordered : Reorders value value') : value' = value := by
  unfold baseNamesOf at read
  split at read
  · exact reordered.string_left
  · split at read
    · rename_i strings
      obtain ⟨items', rfl, related⟩ := reordered.array_left
      rw [Json.strings_of_reorders related strings]
    · cases read
  · cases read

theorem descriptorOf_rigid {ctx : Context} {key path : String} {item value value' : Json}
    {d : FieldDescriptor} (read : descriptorOf ctx key path item value = .ok d)
    (reordered : Reorders value value') : value' = value := by
  unfold descriptorOf at read
  split at read
  · exact reordered.string_left
  · split at read
    · rename_i strings
      obtain ⟨items', rfl, related⟩ := reordered.array_left
      rw [Json.strings_of_reorders related strings]
    · cases read
  · cases read

theorem walkItem_rigid {ctx : Context} {owner path : String} {isLeaf : Bool} {list list' : FieldList}
    {item item' : Json} (read : walkItem ctx owner isLeaf list path item = .ok list')
    (reordered : Reorders item item') : item' = item := by
  unfold walkItem at read
  split at read
  · rename_i key value
    obtain ⟨w, rfl, related⟩ := reordered.single_left
    suffices same : w = value by rw [same]
    split at read
    · obtain ⟨names, named, _⟩ := bind_eq_ok.1 read
      exact baseNamesOf_rigid named related
    · split at read
      · split at read
        · exact related.string_left
        · cases read
      · split at read
        · cases read
        · split at read
          · cases read
          · split at read
            · cases read
            · obtain ⟨d, described, _⟩ := bind_eq_ok.1 read
              exact descriptorOf_rigid described related
  · cases read

theorem walkFields_reorders {ctx ctx' : Context} {owner path : String} {items items' : List Json}
    {isLeaf : Bool} {list : FieldList} (agree : ctx.Agree ctx')
    (read : walkFields ctx owner items path isLeaf = .ok list) (related : List.Forall₂ Reorders items items') :
    walkFields ctx' owner items' path isLeaf = .ok list := by
  rw [walkFields_congr agree]
  unfold walkFields at read ⊢
  refine foldlM_ok_of_forall₂ ?_ (forall₂_zipIdx related 0) read
  rintro ⟨item, i⟩ ⟨item', i'⟩ before after ⟨reorderedItem, sameIndex⟩ step
  simp only at reorderedItem sameIndex step ⊢
  rw [← sameIndex, walkItem_rigid step reorderedItem]
  exact step

end NodeSchema
