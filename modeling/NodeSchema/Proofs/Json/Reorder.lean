import Mathlib.Data.List.Forall2
import Mathlib.Data.List.Perm.Basic
import NodeSchema.Json.Value

set_option autoImplicit false

/-! Reordering the entries of objects. A document may be given with the keys of any of its
objects, at any depth, in another order, while arrays keep theirs. Reading a reordered value
sees the same keys with reordered values under them; where an object's keys are distinct, as
a JSON reader makes them, a key finds a reordered value in either. A value built from strings,
`null` and objects of one entry cannot be reordered at all. -/

namespace NodeSchema.Json

/-- `v'` is `v` with the entries of any of its objects, at any depth, in another order; arrays
keep theirs. An object's entries are first matched one for one, key for key, with reordered
values, then permuted. -/
inductive Reorders : Json → Json → Prop
  | null : Reorders .null .null
  | bool (b : Bool) : Reorders (.bool b) (.bool b)
  | number (n : JsonNumber) : Reorders (.number n) (.number n)
  | string (s : String) : Reorders (.string s) (.string s)
  | array {items items' : List Json} : List.Forall₂ Reorders items items' → Reorders (.array items) (.array items')
  | object {entries entries' moved : List (String × Json)} :
      entries.map Prod.fst = moved.map Prod.fst →
      List.Forall₂ Reorders (entries.map Prod.snd) (moved.map Prod.snd) → moved.Perm entries' →
      Reorders (.object entries) (.object entries')

/-- Entries matched one for one: the same key, and a reordered value. -/
def EntriesReorder (entries moved : List (String × Json)) : Prop :=
  List.Forall₂ (fun e e' => e.1 = e'.1 ∧ Reorders e.2 e'.2) entries moved

mutual

/-- Whether every object within a value has distinct keys, as a JSON reader gives them. -/
def keysDistinct : Json → Bool
  | .array items => itemsKeysDistinct items
  | .object entries => decide (entries.map Prod.fst).Nodup && entriesKeysDistinct entries
  | _ => true

/-- Whether every object within a list of values has distinct keys. -/
def itemsKeysDistinct : List Json → Bool
  | [] => true
  | v :: vs => keysDistinct v && itemsKeysDistinct vs

/-- Whether every object within the values of entries has distinct keys. -/
def entriesKeysDistinct : List (String × Json) → Bool
  | [] => true
  | (_, v) :: rest => keysDistinct v && entriesKeysDistinct rest

end

variable {entries moved entries' : List (String × Json)}

theorem entriesReorder_iff :
    EntriesReorder entries moved ↔
      entries.map Prod.fst = moved.map Prod.fst ∧
        List.Forall₂ Reorders (entries.map Prod.snd) (moved.map Prod.snd) := by
  induction entries generalizing moved with
  | nil =>
    cases moved with
    | nil => simp [EntriesReorder]
    | cons e rest => simp [EntriesReorder]
  | cons e rest ih =>
    cases moved with
    | nil => simp [EntriesReorder]
    | cons e' rest' =>
      simp only [EntriesReorder, List.forall₂_cons, List.map_cons, List.cons.injEq] at ih ⊢
      rw [ih]
      tauto

theorem reorders_object_iff :
    Reorders (.object entries) (.object entries') ↔ ∃ moved, EntriesReorder entries moved ∧ moved.Perm entries' := by
  constructor
  · intro reordered
    cases reordered with
    | object keys values perm => exact ⟨_, entriesReorder_iff.2 ⟨keys, values⟩, perm⟩
  · rintro ⟨moved, matched, perm⟩
    obtain ⟨keys, values⟩ := entriesReorder_iff.1 matched
    exact .object keys values perm

/-! ### Every value reorders itself, and reordering goes both ways -/

mutual

theorem Reorders.refl : (v : Json) → Reorders v v
  | .null => .null
  | .bool b => .bool b
  | .number n => .number n
  | .string s => .string s
  | .array items => .array (itemsReorder_refl items)
  | .object entries => .object rfl (valuesReorder_refl entries) (List.Perm.refl _)

theorem itemsReorder_refl : (items : List Json) → List.Forall₂ Reorders items items
  | [] => .nil
  | v :: vs => .cons (Reorders.refl v) (itemsReorder_refl vs)

theorem valuesReorder_refl : (entries : List (String × Json)) →
    List.Forall₂ Reorders (entries.map Prod.snd) (entries.map Prod.snd)
  | [] => .nil
  | (_, v) :: rest => .cons (Reorders.refl v) (valuesReorder_refl rest)

end

mutual

theorem Reorders.symm : (v : Json) → ∀ {v' : Json}, Reorders v v' → Reorders v' v
  | .null, _, .null => .null
  | .bool _, _, .bool b => .bool b
  | .number _, _, .number n => .number n
  | .string _, _, .string s => .string s
  | .array items, _, .array related => .array (itemsReorder_symm items related)
  | .object entries, _, .object keys values perm => by
    have back : List.Forall₂ (fun (e e' : String × Json) => e.1 = e'.1 ∧ Reorders e.2 e'.2) _ entries :=
      entriesReorder_iff.2 ⟨keys.symm, valuesReorder_symm entries values⟩
    obtain ⟨moved', matched, perm'⟩ := List.perm_comp_forall₂ perm.symm back
    obtain ⟨keys', values'⟩ := entriesReorder_iff.1 matched
    exact .object keys' values' perm'

theorem itemsReorder_symm : (items : List Json) → ∀ {items' : List Json},
    List.Forall₂ Reorders items items' → List.Forall₂ Reorders items' items
  | [], _, .nil => .nil
  | v :: vs, _, .cons here rest => .cons (Reorders.symm v here) (itemsReorder_symm vs rest)

theorem valuesReorder_symm : (entries : List (String × Json)) → ∀ {values : List Json},
    List.Forall₂ Reorders (entries.map Prod.snd) values → List.Forall₂ Reorders values (entries.map Prod.snd)
  | [], _, .nil => .nil
  | (_, v) :: rest, _, .cons here later => .cons (Reorders.symm v here) (valuesReorder_symm rest later)

end

/-! ### What reading sees of a reordered value -/

theorem Reorders.object_left {v' : Json} (reordered : Reorders (.object entries) v') :
    ∃ entries' moved, v' = .object entries' ∧ EntriesReorder entries moved ∧ moved.Perm entries' := by
  cases reordered with
  | object keys values perm => exact ⟨_, _, rfl, entriesReorder_iff.2 ⟨keys, values⟩, perm⟩

theorem Reorders.array_left {items : List Json} {v' : Json} (reordered : Reorders (.array items) v') :
    ∃ items', v' = .array items' ∧ List.Forall₂ Reorders items items' := by
  cases reordered with
  | array related => exact ⟨_, rfl, related⟩

theorem Reorders.string_left {s : String} {v' : Json} (reordered : Reorders (.string s) v') : v' = .string s := by
  cases reordered
  rfl

theorem Reorders.null_left {v' : Json} (reordered : Reorders .null v') : v' = .null := by
  cases reordered
  rfl

theorem Reorders.single_left {key : String} {v v' : Json} (reordered : Reorders (.object [(key, v)]) v') :
    ∃ w, v' = .object [(key, w)] ∧ Reorders v w := by
  obtain ⟨entries', moved, rfl, matched, perm⟩ := reordered.object_left
  cases matched with
  | cons here rest =>
    cases rest
    rename_i e
    obtain ⟨k, w⟩ := e
    obtain ⟨rfl, related⟩ := here
    rw [List.perm_singleton.1 perm.symm]
    exact ⟨w, rfl, related⟩

theorem strings_of_reorders : ∀ {items items' : List Json} {names : List String},
    List.Forall₂ Reorders items items' → items.mapM string? = some names → items' = items
  | [], [], _, .nil, _ => rfl
  | v :: vs, _ :: _, names, .cons here rest, read => by
    cases v with
    | string s =>
      rw [here.string_left]
      obtain ⟨more, readRest, -⟩ : ∃ more, vs.mapM string? = some more ∧ names = s :: more := by
        simp only [List.mapM_cons, string?] at read
        cases readRest : vs.mapM string? with
        | none => simp [readRest] at read
        | some more => exact ⟨more, rfl, by simp [readRest] at read; exact read.symm⟩
      rw [strings_of_reorders rest readRest]
    | _ => simp [string?] at read

theorem EntriesReorder.keys (matched : EntriesReorder entries moved) : entries.map Prod.fst = moved.map Prod.fst :=
  (entriesReorder_iff.1 matched).1

theorem keys_perm_of_reorders (reordered : Reorders (.object entries) (.object entries')) :
    (entries.map Prod.fst).Perm (entries'.map Prod.fst) := by
  obtain ⟨moved, matched, perm⟩ := reorders_object_iff.1 reordered
  rw [matched.keys]
  exact perm.map Prod.fst

theorem lookup_eq_some_iff (distinct : (entries.map Prod.fst).Nodup) {key : String} {v : Json} :
    lookup key entries = some v ↔ (key, v) ∈ entries := by
  induction entries with
  | nil => simp [lookup]
  | cons e rest ih =>
    obtain ⟨k, w⟩ := e
    have fresh : k ∉ rest.map Prod.fst := (List.nodup_cons.1 distinct).1
    by_cases same : k = key
    · subst same
      simp only [lookup, if_true, Option.some.injEq, List.mem_cons, Prod.mk.injEq, true_and]
      constructor
      · exact fun found => Or.inl found.symm
      · rintro (found | later)
        · exact found.symm
        · exact absurd (List.mem_map_of_mem (f := Prod.fst) later) fresh
    · simp only [lookup, if_neg same, List.mem_cons, Prod.mk.injEq]
      rw [ih (List.nodup_cons.1 distinct).2]
      constructor
      · exact Or.inr
      · rintro (⟨rfl, _⟩ | later)
        · exact absurd rfl same
        · exact later

theorem lookup_perm (distinct : (entries.map Prod.fst).Nodup) (perm : entries.Perm entries') (key : String) :
    lookup key entries = lookup key entries' :=
  Option.ext fun v => by
    rw [lookup_eq_some_iff distinct, lookup_eq_some_iff ((perm.map Prod.fst).nodup_iff.1 distinct), perm.mem_iff]

theorem lookup_entriesReorder (key : String) : ∀ {entries moved : List (String × Json)},
    EntriesReorder entries moved → Option.Rel Reorders (lookup key entries) (lookup key moved)
  | [], [], .nil => .none
  | (k, v) :: _, (k', v') :: _, .cons here later => by
    obtain ⟨same, related⟩ := here
    simp only at same related
    subst same
    by_cases hit : k = key
    · simp only [lookup, if_pos hit]
      exact .some related
    · simp only [lookup, if_neg hit]
      exact lookup_entriesReorder key later

theorem lookup_reorders (distinct : (entries.map Prod.fst).Nodup)
    (reordered : Reorders (.object entries) (.object entries')) (key : String) :
    Option.Rel Reorders (lookup key entries) (lookup key entries') := by
  obtain ⟨moved, matched, perm⟩ := reorders_object_iff.1 reordered
  rw [← lookup_perm (matched.keys ▸ distinct) perm]
  exact lookup_entriesReorder key matched

theorem lookup_some_of_reorders (distinct : (entries.map Prod.fst).Nodup)
    (reordered : Reorders (.object entries) (.object entries')) {key : String} {v : Json}
    (found : lookup key entries = some v) : ∃ v', lookup key entries' = some v' ∧ Reorders v v' := by
  have related := lookup_reorders distinct reordered key
  rw [found] at related
  cases moved : lookup key entries' with
  | none => rw [moved] at related; cases related
  | some v' => rw [moved] at related; exact ⟨v', rfl, Option.rel_some_some.1 related⟩

theorem lookup_none_of_reorders (distinct : (entries.map Prod.fst).Nodup)
    (reordered : Reorders (.object entries) (.object entries')) {key : String}
    (missing : lookup key entries = none) : lookup key entries' = none := by
  have related := lookup_reorders distinct reordered key
  rw [missing] at related
  cases moved : lookup key entries' with
  | none => rfl
  | some v' => rw [moved] at related; cases related

theorem find?_key_eq_none_of_reorders (reordered : Reorders (.object entries) (.object entries'))
    (p : String → Bool) (missing : entries.find? (fun e => p e.1) = none) :
    entries'.find? (fun e => p e.1) = none := by
  rw [List.find?_eq_none] at missing ⊢
  intro e listed
  have key : e.1 ∈ entries'.map Prod.fst := List.mem_map_of_mem listed
  obtain ⟨e₀, original, same⟩ := List.mem_map.1 ((keys_perm_of_reorders reordered).symm.subset key)
  rw [← same]
  exact missing e₀ original

theorem mem_of_reorders (reordered : Reorders (.object entries) (.object entries')) {key : String} {v : Json}
    (listed : (key, v) ∈ entries) : ∃ v', (key, v') ∈ entries' ∧ Reorders v v' := by
  obtain ⟨moved, matched, perm⟩ := reorders_object_iff.1 reordered
  suffices found : ∃ v', (key, v') ∈ moved ∧ Reorders v v' by
    obtain ⟨v', member, related⟩ := found
    exact ⟨v', perm.subset member, related⟩
  clear perm reordered
  induction matched with
  | nil => cases listed
  | @cons e e' _ _ here _ ih =>
    rcases List.mem_cons.1 listed with rfl | later
    · obtain ⟨same, related⟩ := here
      exact ⟨e'.2, by rw [show e' = (key, e'.2) from Prod.ext same.symm rfl]; exact List.mem_cons_self, related⟩
    · obtain ⟨v', member, related⟩ := ih later
      exact ⟨v', List.mem_cons_of_mem _ member, related⟩

/-! ### Distinct keys stay distinct -/

theorem entriesKeysDistinct_iff : ∀ {entries : List (String × Json)},
    entriesKeysDistinct entries = true ↔ ∀ e ∈ entries, keysDistinct e.2 = true
  | [] => by simp [entriesKeysDistinct]
  | (_, v) :: rest => by
    simp only [entriesKeysDistinct, Bool.and_eq_true, List.mem_cons, forall_eq_or_imp]
    rw [entriesKeysDistinct_iff]

theorem keysDistinct_object {entries : List (String × Json)} :
    keysDistinct (.object entries) = true ↔
      (entries.map Prod.fst).Nodup ∧ ∀ e ∈ entries, keysDistinct e.2 = true := by
  rw [keysDistinct, Bool.and_eq_true, decide_eq_true_eq, entriesKeysDistinct_iff]

theorem itemsKeysDistinct_iff : ∀ {items : List Json},
    itemsKeysDistinct items = true ↔ ∀ v ∈ items, keysDistinct v = true
  | [] => by simp [itemsKeysDistinct]
  | v :: rest => by
    simp only [itemsKeysDistinct, Bool.and_eq_true, List.mem_cons, forall_eq_or_imp]
    rw [itemsKeysDistinct_iff]

theorem keysDistinct_array {items : List Json} :
    keysDistinct (.array items) = true ↔ ∀ v ∈ items, keysDistinct v = true := by
  rw [keysDistinct, itemsKeysDistinct_iff]

theorem keysDistinct_of_lookup {key : String} {v : Json} (distinct : keysDistinct (.object entries) = true)
    (found : lookup key entries = some v) : keysDistinct v = true := by
  rw [keysDistinct_object] at distinct
  exact distinct.2 (key, v) ((lookup_eq_some_iff distinct.1).1 found)

mutual

theorem keysDistinct_of_reorders : (v : Json) → ∀ {v' : Json}, Reorders v v' →
    keysDistinct v = true → keysDistinct v' = true
  | .null, _, .null, _ | .bool _, _, .bool _, _ | .number _, _, .number _, _ | .string _, _, .string _, _ => rfl
  | .array items, _, .array related, distinct => itemsKeysDistinct_of_reorders items related distinct
  | .object entries, _, .object keys values perm, distinct => by
    rw [keysDistinct_object] at distinct ⊢
    have later := valuesKeysDistinct_of_reorders entries values distinct.2
    refine ⟨(perm.map Prod.fst).nodup_iff.1 (keys ▸ distinct.1), fun e listed => ?_⟩
    exact later e.2 (List.mem_map_of_mem (perm.symm.subset listed))

theorem itemsKeysDistinct_of_reorders : (items : List Json) → ∀ {items' : List Json},
    List.Forall₂ Reorders items items' → itemsKeysDistinct items = true → itemsKeysDistinct items' = true
  | [], _, .nil, _ => rfl
  | v :: vs, _, .cons here rest, distinct => by
    simp only [itemsKeysDistinct, Bool.and_eq_true] at distinct ⊢
    exact ⟨keysDistinct_of_reorders v here distinct.1, itemsKeysDistinct_of_reorders vs rest distinct.2⟩

theorem valuesKeysDistinct_of_reorders : (entries : List (String × Json)) → ∀ {values : List Json},
    List.Forall₂ Reorders (entries.map Prod.snd) values → (∀ e ∈ entries, keysDistinct e.2 = true) →
      ∀ v ∈ values, keysDistinct v = true
  | [], _, .nil, _ => by simp
  | (_, v) :: rest, _, .cons here later, distinct => by
    intro w listed
    rcases List.mem_cons.1 listed with rfl | inRest
    · exact keysDistinct_of_reorders v here (distinct _ List.mem_cons_self)
    · exact valuesKeysDistinct_of_reorders rest later
        (fun e member => distinct e (List.mem_cons_of_mem _ member)) w inRest

end

end NodeSchema.Json
