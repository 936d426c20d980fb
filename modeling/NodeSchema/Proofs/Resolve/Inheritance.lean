import NodeSchema.Proofs.Resolve.Fields

set_option autoImplicit false

/-! Inheritance flattening against its reference. The reference list of a record is the
reference lists of its bases, in base order, followed by its own fields: an unfolding of the
record itself (not of what its name finds), which exists exactly when every base reached is
found and no base reached reaches itself. Flattening succeeds exactly when, besides, the
reference list repeats no field name, and then it returns that list: on such a record the walk
is the reference list checked entry by entry. The walk only ever stacks bases, so a leaf named
like a base it inherits is no cycle. -/

namespace NodeSchema

def Record.ownFields (x : Record) : List ResolvedField :=
  x.fields.entries.map fun e => ⟨e.1, e.2, x.name⟩

/-- Appends fields one by one, refusing the first whose name was collected already. -/
def appendDistinct : List ResolvedField → List ResolvedField → Except ResolveError (List ResolvedField)
  | out, [] => .ok out
  | out, f :: fs =>
    if out.any (·.name == f.name) then .error (.duplicateField f.declaredIn f.name)
    else appendDistinct (out ++ [f]) fs

namespace Declarations

/-- A base reached from `x` through the base lists of `x` and of the bases found. -/
inductive ReachesBase (d : Declarations) (x : Record) : String → Prop
  | listed {b : String} : b ∈ x.bases → ReachesBase d x b
  | inherited {c b : String} {base : BaseNode} :
      ReachesBase d x c → d.base? c = some base → b ∈ base.bases → ReachesBase d x b

def BasesFound (d : Declarations) (x : Record) : Prop :=
  ∀ b, d.ReachesBase x b → ∃ base, d.base? b = some base

def NoCycle (d : Declarations) (x : Record) : Prop :=
  ∀ b base, d.ReachesBase x b → d.base? b = some base → ¬d.ReachesBase base.toRecord b

/-- No base reached from `x` is on the path `visiting`. -/
def Clear (d : Declarations) (visiting : List String) (x : Record) : Prop :=
  ∀ b, d.ReachesBase x b → b ∉ visiting

mutual

/-- The reference list of a record: those of its bases in order, then its own fields. -/
inductive Flattens (d : Declarations) : Record → List ResolvedField → Prop
  | mk {x : Record} {inherited : List ResolvedField} :
      BasesFlatten d x.bases inherited → Flattens d x (inherited ++ x.ownFields)

/-- The reference lists of a list of bases, one after another. -/
inductive BasesFlatten (d : Declarations) : List String → List ResolvedField → Prop
  | nil : BasesFlatten d [] []
  | cons {b : String} {bs : List String} {base : BaseNode} {first rest : List ResolvedField} :
      d.base? b = some base → Flattens d base.toRecord first → BasesFlatten d bs rest →
      BasesFlatten d (b :: bs) (first ++ rest)

end

end Declarations

/-! ### Appending distinct fields -/

theorem appendDistinct_append : ∀ (xs ys out : List ResolvedField),
    appendDistinct out (xs ++ ys) = appendDistinct out xs >>= fun o => appendDistinct o ys
  | [], _, _ => rfl
  | f :: fs, ys, out => by
    rw [List.cons_append, appendDistinct, appendDistinct]
    split
    · rfl
    · exact appendDistinct_append fs ys _

theorem addOwnFields_eq_appendDistinct (owner : String) :
    ∀ (fields : List (String × FieldDescriptor)) (out : List ResolvedField),
      addOwnFields owner fields out = appendDistinct out (fields.map fun e => ⟨e.1, e.2, owner⟩)
  | [], _ => rfl
  | (name, descriptor) :: rest, out => by
    rw [addOwnFields, List.map_cons, appendDistinct]
    split
    · rfl
    · exact addOwnFields_eq_appendDistinct owner rest _

theorem names_nodup_append_of_absent {out : List ResolvedField} {f : ResolvedField}
    (distinct : (out.map (·.name)).Nodup) (absent : ¬out.any (·.name == f.name) = true) :
    ((out ++ [f]).map (·.name)).Nodup := by
  rw [List.map_append, List.nodup_append]
  refine ⟨distinct, by simp, ?_⟩
  intro a old b new same
  simp only [List.map_cons, List.map_nil, List.mem_singleton] at new
  subst new same
  obtain ⟨g, listed, named⟩ := List.mem_map.1 old
  exact absent (List.any_eq_true.2 ⟨g, listed, by simp [named]⟩)

theorem appendDistinct_eq_ok_iff : ∀ {out xs r : List ResolvedField}, (out.map (·.name)).Nodup →
    (appendDistinct out xs = .ok r ↔ r = out ++ xs ∧ ((out ++ xs).map (·.name)).Nodup)
  | out, [], r, distinct => by
    rw [appendDistinct, List.append_nil]
    exact ⟨fun same => ⟨(Except.ok.inj same).symm, distinct⟩, fun both => both.1 ▸ rfl⟩
  | out, f :: fs, r, distinct => by
    rw [appendDistinct]
    by_cases present : out.any (·.name == f.name)
    · -- the name of `f` is collected already, so the whole list repeats it
      rw [if_pos present]
      have repeated : ¬((out ++ f :: fs).map (·.name)).Nodup := by
        obtain ⟨g, listed, same⟩ := List.any_eq_true.1 present
        rw [List.map_append, List.nodup_append]
        rintro ⟨-, -, apart⟩
        exact apart _ (List.mem_map_of_mem listed) _ List.mem_cons_self (by simpa using same)
      constructor
      · intro failed
        cases failed
      · intro both
        exact absurd both.2 repeated
    · rw [if_neg present]
      have fresh := names_nodup_append_of_absent distinct present
      rw [appendDistinct_eq_ok_iff fresh, List.append_assoc, List.singleton_append]

/-! ### Reaching bases -/

namespace Declarations

variable {d : Declarations}

theorem ReachesBase.through {x : Record} {c b : String} {base : BaseNode} (listed : c ∈ x.bases)
    (found : d.base? c = some base) (reach : d.ReachesBase base.toRecord b) : d.ReachesBase x b := by
  induction reach with
  | listed inBases => exact .inherited (.listed listed) found inBases
  | inherited _ found' inBases ih => exact .inherited ih found' inBases

theorem ReachesBase.head {x : Record} {b : String} (reach : d.ReachesBase x b) :
    b ∈ x.bases ∨ ∃ c ∈ x.bases, ∃ base, d.base? c = some base ∧ d.ReachesBase base.toRecord b := by
  induction reach with
  | listed inBases => exact .inl inBases
  | inherited _ found inBases ih =>
    rcases ih with direct | ⟨c', listed, base', found', reach⟩
    · exact .inr ⟨_, direct, _, found, .listed inBases⟩
    · exact .inr ⟨c', listed, base', found', .inherited reach found inBases⟩

/-- A walk from `y` on the path `visiting` meets no missing base and no cycle: every base it
reaches is found, none is on the path, and none reaches itself. -/
structure Walkable (d : Declarations) (visiting : List String) (y : Record) : Prop where
  found : d.BasesFound y
  clear : d.Clear visiting y
  acyclic : d.NoCycle y

section Step

variable {visiting : List String} {y : Record} {b : String} {base : BaseNode}

theorem Walkable.not_mem (walkable : d.Walkable visiting y) (listed : b ∈ y.bases) : b ∉ visiting :=
  walkable.clear b (.listed listed)

theorem Walkable.enter (walkable : d.Walkable visiting y) (listed : b ∈ y.bases)
    (found : d.base? b = some base) : d.Walkable (b :: visiting) base.toRecord where
  found c reach := walkable.found c (reach.through listed found)
  clear c reach onPath := by
    rcases List.mem_cons.1 onPath with rfl | older
    · -- back at `c` itself: a base reached from `y` that reaches itself
      exact walkable.acyclic c base (.listed listed) found reach
    · exact walkable.clear c (reach.through listed found) older
  acyclic c base' reach := walkable.acyclic c base' (reach.through listed found)

theorem walkable_of_bases
    (each : ∀ b ∈ y.bases, ∃ base, d.base? b = some base ∧ b ∉ visiting ∧
      d.Walkable (b :: visiting) base.toRecord) : d.Walkable visiting y where
  found b reach := by
    rcases reach.head with direct | ⟨c, listed, base, found, reach⟩
    · obtain ⟨base, found, _⟩ := each b direct
      exact ⟨base, found⟩
    · obtain ⟨base', found', _, walkable⟩ := each c listed
      rw [found] at found'
      cases found'
      exact walkable.found b reach
  clear b reach := by
    rcases reach.head with direct | ⟨c, listed, base, found, reach⟩
    · exact (each b direct).choose_spec.2.1
    · obtain ⟨base', found', _, walkable⟩ := each c listed
      rw [found] at found'
      cases found'
      exact fun onPath => walkable.clear b reach (List.mem_cons_of_mem _ onPath)
  acyclic b base reach found cycle := by
    rcases reach.head with direct | ⟨c, listed, base', found', reach⟩
    · -- the base is on the path of its own walk, which reaches it
      obtain ⟨base', found', _, walkable⟩ := each b direct
      rw [found] at found'
      cases found'
      exact walkable.clear b cycle List.mem_cons_self
    · obtain ⟨base'', found'', _, walkable⟩ := each c listed
      rw [found'] at found''
      cases found''
      exact walkable.acyclic b base reach found cycle

end Step

end Declarations

/-! ### The walk against the reference -/

section Walk

variable {d : Declarations}

open Declarations

theorem collectFields_walkable : ∀ (visiting : List String) (y : Record) (out r : List ResolvedField),
    collectFields d visiting y out = .ok r → d.Walkable visiting y := by
  intro visiting y out
  induction visiting, y, out using collectFields.induct d with
  | case1 visiting y out basesWalkable =>
    intro r collected
    rw [collectFields_eq] at collected
    obtain ⟨mid, basesCollected, _⟩ := bind_eq_ok.1 collected
    refine walkable_of_bases fun b listed => ?_
    obtain ⟨o, o', stepped⟩ := foldlM_ok_each basesCollected b listed
    obtain ⟨base, found, offPath, walked⟩ := baseStep_ok stepped
    exact ⟨base, found, offPath, basesWalkable o b base found offPath o' walked⟩

theorem flattens_of_walkable {visiting : List String} {y : Record} (walkable : d.Walkable visiting y) :
    ∃ fl, d.Flattens y fl := by
  revert walkable
  -- the walk's recursion, its collected fields left aside
  generalize ([] : List ResolvedField) = out
  induction visiting, y, out using collectFields.induct d with
  | case1 visiting y out basesFlatten =>
    intro walkable
    have bases : ∀ bs : List String, (∀ b ∈ bs, b ∈ y.bases) → ∃ inherited, d.BasesFlatten bs inherited := by
      intro bs
      induction bs with
      | nil => exact fun _ => ⟨[], .nil⟩
      | cons b bs ih =>
        intro listed
        have here := listed b List.mem_cons_self
        obtain ⟨base, found⟩ := walkable.found b (.listed here)
        obtain ⟨first, flat⟩ := basesFlatten [] b base found (walkable.not_mem here)
          (walkable.enter here found)
        obtain ⟨rest, flats⟩ := ih fun b' later => listed b' (List.mem_cons_of_mem _ later)
        exact ⟨first ++ rest, .cons found flat flats⟩
    obtain ⟨inherited, flats⟩ := bases y.bases fun _ listed => listed
    exact ⟨_, .mk flats⟩

theorem collectFields_eq_appendDistinct : ∀ (visiting : List String) (y : Record) (out : List ResolvedField),
    ∀ fl, d.Flattens y fl → d.Walkable visiting y → collectFields d visiting y out = appendDistinct out fl := by
  intro visiting y out
  induction visiting, y, out using collectFields.induct d with
  | case1 visiting y out basesAgree =>
    intro fl flat walkable
    cases flat with
    | mk flats =>
      have bases : ∀ (bs : List String) (inherited : List ResolvedField), d.BasesFlatten bs inherited →
          (∀ b ∈ bs, b ∈ y.bases) → ∀ o, bs.foldlM (baseStep d visiting y.name) o = appendDistinct o inherited := by
        intro bs
        induction bs with
        | nil =>
          intro inherited flats _ o
          cases flats
          rfl
        | cons b bs ih =>
          intro inherited flats listed o
          cases flats with
          | @cons _ _ base first restFields found flat rest =>
            have here := listed b List.mem_cons_self
            have step : baseStep d visiting y.name o b = appendDistinct o first := by
              unfold baseStep
              simp only [found, if_neg (walkable.not_mem here)]
              exact basesAgree o b _ found (walkable.not_mem here) _ flat (walkable.enter here found)
            rw [List.foldlM_cons, appendDistinct_append, step]
            congr 1
            funext o'
            exact ih _ rest (fun b' later => listed b' (List.mem_cons_of_mem _ later)) o'
      rw [collectFields_eq, appendDistinct_append, bases y.bases _ flats (fun _ listed => listed) out]
      congr 1
      funext o
      exact addOwnFields_eq_appendDistinct y.name y.fields.entries o

end Walk

/-! ### The fields of a record -/

theorem Declarations.walkable_nil_iff {d : Declarations} {x : Record} :
    d.Walkable [] x ↔ d.BasesFound x ∧ d.NoCycle x := by
  constructor
  · intro walkable
    exact ⟨walkable.found, walkable.acyclic⟩
  · intro both
    exact ⟨both.1, fun _ _ onPath => List.not_mem_nil onPath, both.2⟩

open Declarations in
theorem resolveFields_eq_ok_iff (d : Declarations) (x : Record) (out : List ResolvedField) :
    resolveFields d x = .ok out ↔
      d.BasesFound x ∧ d.NoCycle x ∧ d.Flattens x out ∧ (out.map (·.name)).Nodup := by
  have empty : (([] : List ResolvedField).map (·.name)).Nodup := List.nodup_nil
  constructor
  · intro resolved
    have walkable := collectFields_walkable [] x [] out resolved
    obtain ⟨fl, flat⟩ := flattens_of_walkable walkable
    rw [resolveFields, collectFields_eq_appendDistinct [] x [] fl flat walkable,
      appendDistinct_eq_ok_iff empty] at resolved
    obtain ⟨same, distinct⟩ := resolved
    rw [List.nil_append] at same distinct
    subst same
    exact ⟨walkable.found, walkable.acyclic, flat, distinct⟩
  · intro holds
    obtain ⟨found, acyclic, flat, distinct⟩ := holds
    rw [resolveFields, collectFields_eq_appendDistinct [] x [] out flat
      (walkable_nil_iff.2 ⟨found, acyclic⟩), appendDistinct_eq_ok_iff empty]
    exact ⟨rfl, distinct⟩

end NodeSchema
