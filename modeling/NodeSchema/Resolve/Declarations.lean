import NodeSchema.Schema.Basic

set_option autoImplicit false

/-! Name-indexed lookup of declarations, the one interface both a loaded schema and an
assembled set of nodes offer to inheritance and union flattening. Besides the three lookups
it lists finitely many names that every found base and every found union is known under:
flattening visits each of them at most once along a path, which is why it ends. -/

namespace NodeSchema

/-- Lookup of bases, leaves and unions by name, with finite lists of the base names and union
names that can be found. -/
structure Declarations where
  base? : String → Option BaseNode
  leaf? : String → Option LeafNode
  union? : String → Option UnionNode
  /-- Every name under which a base is found. -/
  baseNames : List String
  /-- The name of every union that is found. -/
  unionNames : List String
  base?_mem : ∀ {name : String} {b : BaseNode}, base? name = some b → name ∈ baseNames
  union?_mem : ∀ {name : String} {u : UnionNode}, union? name = some u → u.name ∈ unionNames

namespace Declarations

/-- How many of the listed base names are not on a path. -/
def unvisitedBases (d : Declarations) (visiting : List String) : Nat :=
  d.baseNames.countP fun n => n ∉ visiting

/-- How many of the listed union names are not yet seen. -/
def unseenUnions (d : Declarations) (seen : List String) : Nat :=
  d.unionNames.countP fun n => n ∉ seen

end Declarations

theorem countP_not_mem_le (names : List String) {small large : List String}
    (grows : small ⊆ large) :
    names.countP (fun n => n ∉ large) ≤ names.countP (fun n => n ∉ small) :=
  List.countP_mono_left fun x _ absent => by
    simp only [decide_eq_true_eq] at absent ⊢
    exact fun present => absent (grows present)

theorem countP_lt_of_imp {α : Type} {l : List α} {p q : α → Bool} (implies : ∀ x ∈ l, q x → p x)
    {a : α} (member : a ∈ l) (holds : p a) (fails : ¬q a) : l.countP q < l.countP p := by
  induction l with
  | nil => simp at member
  | cons x xs ih =>
    simp only [List.countP_cons]
    have rest : ∀ y ∈ xs, q y → p y := fun y hy => implies y (List.mem_cons_of_mem x hy)
    have mono : xs.countP q ≤ xs.countP p := List.countP_mono_left rest
    rcases List.mem_cons.1 member with same | later
    · subst same
      rw [if_pos holds, if_neg fails]
      omega
    · have lt := ih rest later
      by_cases qx : q x = true
      · simp [qx, implies x List.mem_cons_self qx]; omega
      · by_cases px : p x = true <;> simp [qx, px] <;> omega

theorem countP_not_mem_cons_lt {names : List String} {name : String} {seen : List String}
    (listed : name ∈ names) (fresh : name ∉ seen) :
    names.countP (fun n => n ∉ name :: seen) < names.countP (fun n => n ∉ seen) :=
  countP_lt_of_imp (fun x _ h => by simp_all) listed (by simpa using fresh) (by simp)

/-- The declarations of a loaded schema: its base, leaf and union tables. -/
def Schema.declarations (s : Schema) : Declarations where
  base? := s.bases.get?
  leaf? := s.leaves.get?
  union? := s.unions.get?
  baseNames := s.bases.keys
  unionNames := s.unions.values.map UnionNode.name
  base?_mem := Table.mem_keys_of_get?
  union?_mem := fun found => List.mem_map_of_mem (Table.mem_values_of_get? found)

end NodeSchema
