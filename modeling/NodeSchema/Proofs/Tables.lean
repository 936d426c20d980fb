import Mathlib.Data.List.Forall2
import Mathlib.Data.List.Nodup
import NodeSchema.Schema.Names

set_option autoImplicit false

/-! Lookups through the entries of a table, and the kinds a name table records. The keys of a
table are distinct, so a key finds exactly the value stored beside it; inserting under a new
key appends the key, and inserting under a present key leaves the key order as it was. A name
table keeps, for each declared name, the kinds it was declared as, and a declaration that
succeeds adds its kind last.

The last section peels `Except` computations apart: the loader, the assembly and the code
generator are all written in that monad, and their lemmas take a successful run to pieces. -/

namespace NodeSchema

/-! ### Reading `Except` computations -/

theorem bind_eq_ok {ε α β : Type} {x : Except ε α} {f : α → Except ε β} {b : β} :
    x >>= f = .ok b ↔ ∃ a, x = .ok a ∧ f a = .ok b := by
  cases x with
  | error e => simp [bind, Except.bind]
  | ok a => simp [bind, Except.bind]

theorem bind_ok_of_ok {ε α β : Type} {x : Except ε α} {f : α → Except ε β} (first : ∃ a, x = .ok a)
    (rest : ∀ a, x = .ok a → ∃ b, f a = .ok b) : ∃ b, x >>= f = .ok b := by
  obtain ⟨a, ran⟩ := first
  obtain ⟨b, later⟩ := rest a ran
  exact ⟨b, bind_eq_ok.2 ⟨a, ran, later⟩⟩

theorem bind_eq_error {ε α β : Type} {x : Except ε α} {f : α → Except ε β} {e : ε} :
    x >>= f = .error e ↔ x = .error e ∨ ∃ a, x = .ok a ∧ f a = .error e := by
  cases x with
  | error e' => simp [bind, Except.bind]
  | ok a => simp [bind, Except.bind]

theorem foldlM_error_step {ε α β : Type} {f : β → α → Except ε β} {e : ε} :
    ∀ {l : List α} {b : β}, l.foldlM f b = .error e → ∃ a ∈ l, ∃ c, f c a = .error e
  | [], _, folded => by cases folded
  | a :: rest, b, folded => by
    rw [List.foldlM_cons] at folded
    rcases bind_eq_error.1 folded with first | ⟨mid, _, later⟩
    · exact ⟨a, List.mem_cons_self, b, first⟩
    · obtain ⟨a', listed, c, failed⟩ := foldlM_error_step later
      exact ⟨a', List.mem_cons_of_mem _ listed, c, failed⟩

theorem mapM_eq_ok_inverse {ε α β : Type} {f : α → Except ε β} (g : β → α)
    (inverse : ∀ x y, f x = .ok y → g y = x) :
    ∀ {xs : List α} {ys : List β}, xs.mapM f = .ok ys → ys.map g = xs ∧ ∀ y ∈ ys, f (g y) = .ok y
  | [], ys, mapped => by
    cases mapped
    exact ⟨rfl, by simp⟩
  | x :: xs, ys, mapped => by
    rw [List.mapM_cons] at mapped
    obtain ⟨y, first, rest⟩ := bind_eq_ok.1 mapped
    obtain ⟨ys', later, stored⟩ := bind_eq_ok.1 rest
    cases stored
    obtain ⟨restMap, restOk⟩ := mapM_eq_ok_inverse g inverse later
    have back := inverse x y first
    refine ⟨by rw [List.map_cons, back, restMap], ?_⟩
    intro z member
    rcases List.mem_cons.1 member with rfl | later
    · rw [back]
      exact first
    · exact restOk z later

theorem forall₂_of_mapM_eq_ok {ε α β : Type} {f : α → Except ε β} :
    ∀ {xs : List α} {ys : List β}, xs.mapM f = .ok ys → List.Forall₂ (fun x y => f x = .ok y) xs ys
  | [], ys, mapped => by
    cases mapped
    exact .nil
  | x :: xs, ys, mapped => by
    rw [List.mapM_cons] at mapped
    obtain ⟨y, first, rest⟩ := bind_eq_ok.1 mapped
    obtain ⟨ys', later, stored⟩ := bind_eq_ok.1 rest
    cases stored
    exact .cons first (forall₂_of_mapM_eq_ok later)

theorem forM_eq_ok {ε α : Type} {f : α → Except ε PUnit} :
    ∀ {xs : List α}, xs.forM f = .ok () ↔ ∀ x ∈ xs, f x = .ok ()
  | [] => by simp [List.forM, pure, Except.pure]
  | x :: xs => by
    rw [List.forM.eq_2, bind_eq_ok, List.forall_mem_cons, ← forM_eq_ok]
    constructor
    · rintro ⟨⟨⟩, first, rest⟩
      exact ⟨first, rest⟩
    · rintro ⟨first, rest⟩
      exact ⟨(), first, rest⟩

theorem foldlM_keeps {ε α β : Type} (inv : β → Prop) (f : β → α → Except ε β)
    (step : ∀ b a b', inv b → f b a = .ok b' → inv b') :
    ∀ (l : List α) (b b' : β), inv b → l.foldlM f b = .ok b' → inv b'
  | [], b, b', holds, folded => by
    cases folded
    exact holds
  | a :: rest, b, b', holds, folded => by
    rw [List.foldlM_cons] at folded
    obtain ⟨mid, first, later⟩ := bind_eq_ok.1 folded
    exact foldlM_keeps inv f step rest mid b' (step b a mid holds first) later

theorem foldl_keeps {α β : Type} (inv : β → Prop) (f : β → α → β) :
    ∀ (l : List α) (b : β), (∀ b a, a ∈ l → inv b → inv (f b a)) → inv b → inv (l.foldl f b)
  | [], _, _, holds => holds
  | a :: rest, b, step, holds =>
    foldl_keeps inv f rest (f b a) (fun b' a' listed => step b' a' (List.mem_cons_of_mem _ listed))
      (step b a List.mem_cons_self holds)

theorem foldlM_ok_each {ε α β : Type} {f : β → α → Except ε β} :
    ∀ {l : List α} {b b' : β}, l.foldlM f b = .ok b' → ∀ a ∈ l, ∃ c c', f c a = .ok c'
  | [], _, _, _ => by simp
  | x :: rest, b, b', folded => by
    rw [List.foldlM_cons] at folded
    obtain ⟨mid, first, later⟩ := bind_eq_ok.1 folded
    intro a listed
    rcases List.mem_cons.1 listed with rfl | inRest
    · exact ⟨b, mid, first⟩
    · exact foldlM_ok_each later a inRest

theorem foldlM_ok_each_from {ε α β : Type} {f : β → α → Except ε β} :
    ∀ {l : List α} {b b' : β}, l.foldlM f b = .ok b' →
      ∀ a ∈ l, ∃ c c', ∃ rest : List α, f c a = .ok c' ∧ rest.foldlM f c' = .ok b'
  | [], _, _, _ => by simp
  | x :: rest, b, b', folded => by
    rw [List.foldlM_cons] at folded
    obtain ⟨mid, first, later⟩ := bind_eq_ok.1 folded
    intro a listed
    rcases List.mem_cons.1 listed with rfl | inRest
    · exact ⟨b, mid, rest, first, later⟩
    · exact foldlM_ok_each_from later a inRest

theorem foldlM_keeps_of_mem {ε α β : Type} (inv : β → Prop) (f : β → α → Except ε β) :
    ∀ (l : List α) (b b' : β), (∀ c a c', a ∈ l → inv c → f c a = .ok c' → inv c') → inv b →
      l.foldlM f b = .ok b' → inv b'
  | [], b, b', _, holds, folded => by
    cases folded
    exact holds
  | a :: rest, b, b', step, holds, folded => by
    rw [List.foldlM_cons] at folded
    obtain ⟨mid, first, later⟩ := bind_eq_ok.1 folded
    exact foldlM_keeps_of_mem inv f rest mid b'
      (fun c a' c' listed => step c a' c' (List.mem_cons_of_mem _ listed))
      (step b a mid List.mem_cons_self holds first) later

theorem foldlM_ok_of_each {ε α β : Type} {f : β → α → Except ε β} :
    ∀ {l : List α}, (∀ a ∈ l, ∀ b, ∃ b', f b a = .ok b') → ∀ b, ∃ b', l.foldlM f b = .ok b'
  | [], _, b => ⟨b, rfl⟩
  | x :: rest, each, b => by
    obtain ⟨mid, first⟩ := each x List.mem_cons_self b
    obtain ⟨b', later⟩ := foldlM_ok_of_each (fun a listed => each a (List.mem_cons_of_mem _ listed)) mid
    exact ⟨b', by rw [List.foldlM_cons, first]; exact later⟩

theorem foldlM_ok_of_forall₂ {ε α β : Type} {f : β → α → Except ε β} {S : α → α → Prop}
    (step : ∀ {a a' : α} {b b' : β}, S a a' → f b a = .ok b' → f b a' = .ok b')
    {l l' : List α} (related : List.Forall₂ S l l') :
    ∀ {b b' : β}, l.foldlM f b = .ok b' → l'.foldlM f b = .ok b' := by
  induction related with
  | nil => exact fun folded => folded
  | cons here _ ih =>
    intro b b' folded
    rw [List.foldlM_cons] at folded ⊢
    obtain ⟨mid, first, later⟩ := bind_eq_ok.1 folded
    rw [step here first]
    exact ih later

theorem foldlM_ok_of_perm {ε α β : Type} {f : β → α → Except ε β} {R : α → α → Prop}
    (symm : ∀ {a a' : α}, R a a' → R a' a)
    (swap : ∀ {a a' : α} {b b' : β}, R a a' → (f b a >>= fun mid => f mid a') = .ok b' →
      (f b a' >>= fun mid => f mid a) = .ok b') :
    ∀ {l l' : List α}, l.Perm l' → l.Pairwise R → ∀ {b b' : β}, l.foldlM f b = .ok b' →
      l'.foldlM f b = .ok b' := by
  intro l l' perm
  induction perm with
  | nil => exact fun _ _ _ folded => folded
  | cons x _ ih =>
    intro apart b b' folded
    rw [List.foldlM_cons] at folded ⊢
    obtain ⟨mid, first, later⟩ := bind_eq_ok.1 folded
    rw [first]
    exact ih (List.pairwise_cons.1 apart).2 later
  | swap x y rest =>
    intro apart b b' folded
    have related : R y x := (List.pairwise_cons.1 apart).1 x List.mem_cons_self
    simp only [List.foldlM_cons] at folded ⊢
    obtain ⟨mid, first, later⟩ := bind_eq_ok.1 folded
    obtain ⟨mid', second, last⟩ := bind_eq_ok.1 later
    have pair : (f b y >>= fun mid => f mid x) = .ok mid' := by rw [first]; exact second
    obtain ⟨mid'', first', second'⟩ := bind_eq_ok.1 (swap related pair)
    rw [first']
    show (f mid'' y >>= fun mid => rest.foldlM f mid) = .ok b'
    rw [second']
    exact last
  | trans first _ ih₁ ih₂ =>
    intro apart b b' folded
    exact ih₂ ((first.pairwise_iff symm).1 apart) (ih₁ apart folded)

theorem mapM_ok_of_forall₂ {ε α β : Type} {f : α → Except ε β} {S : α → α → Prop}
    (step : ∀ {a a' : α} {b : β}, S a a' → f a = .ok b → f a' = .ok b)
    {l l' : List α} (related : List.Forall₂ S l l') :
    ∀ {bs : List β}, l.mapM f = .ok bs → l'.mapM f = .ok bs := by
  induction related with
  | nil => exact fun mapped => mapped
  | cons here _ ih =>
    intro bs mapped
    rw [List.mapM_cons] at mapped ⊢
    obtain ⟨b, first, rest⟩ := bind_eq_ok.1 mapped
    obtain ⟨more, later, stored⟩ := bind_eq_ok.1 rest
    rw [step here first, ih later]
    exact stored

theorem map_eq_ok {ε α β : Type} {x : Except ε α} {f : α → β} {b : β} :
    x.map f = .ok b ↔ ∃ a, x = .ok a ∧ f a = b := by
  cases x <;> simp [Except.map]

theorem map_eq_error {ε α β : Type} {x : Except ε α} {f : α → β} {e : ε} :
    x.map f = .error e ↔ x = .error e := by
  cases x <;> simp [Except.map]

theorem mapM_ok_of_each {ε α β : Type} {f : α → Except ε β} :
    ∀ {l : List α}, (∀ a ∈ l, ∃ b, f a = .ok b) → ∃ bs, l.mapM f = .ok bs
  | [], _ => ⟨[], rfl⟩
  | a :: rest, each => by
    obtain ⟨b, first⟩ := each a List.mem_cons_self
    obtain ⟨bs, later⟩ := mapM_ok_of_each fun x listed => each x (List.mem_cons_of_mem a listed)
    refine ⟨b :: bs, ?_⟩
    rw [List.mapM_cons, first, later]
    rfl

theorem forall₂_zip {α γ : Type} {S : α → α → Prop} {l l' : List α} (related : List.Forall₂ S l l') :
    ∀ (m : List γ), List.Forall₂ (fun p p' => S p.1 p'.1 ∧ p.2 = p'.2) (l.zip m) (l'.zip m) := by
  induction related with
  | nil => intro m; simp
  | cons here _ ih =>
    intro m
    cases m with
    | nil => simp
    | cons c cs => exact .cons ⟨here, rfl⟩ (ih cs)

theorem forall₂_zipIdx {α : Type} {S : α → α → Prop} {l l' : List α} (related : List.Forall₂ S l l') :
    ∀ (n : Nat), List.Forall₂ (fun p p' => S p.1 p'.1 ∧ p.2 = p'.2) (l.zipIdx n) (l'.zipIdx n) := by
  induction related with
  | nil => intro n; simp
  | cons here _ ih =>
    intro n
    exact .cons ⟨here, rfl⟩ (ih (n + 1))

@[simp]
theorem mapError_ok {ε ε' α : Type} (g : ε → ε') (a : α) :
    (Except.ok a : Except ε α).mapError g = .ok a := rfl

@[simp]
theorem mapError_error {ε ε' α : Type} (g : ε → ε') (e : ε) :
    (Except.error e : Except ε α).mapError g = .error (g e) := rfl

@[simp]
theorem mapError_eq_ok {ε ε' α : Type} {x : Except ε α} {g : ε → ε'} {a : α} :
    x.mapError g = .ok a ↔ x = .ok a := by
  cases x <;> simp

/-! ### Tables -/

theorem find?_key_of_mem {α : Type} {entries : List (String × α)}
    (distinct : (entries.map Prod.fst).Nodup) {key : String} {value : α}
    (member : (key, value) ∈ entries) :
    (entries.find? (fun e => e.1 == key)).map Prod.snd = some value := by
  induction entries with
  | nil => cases member
  | cons head rest ih =>
    obtain ⟨k, v⟩ := head
    have headFresh : k ∉ rest.map Prod.fst := (List.nodup_cons.1 distinct).1
    rcases List.mem_cons.1 member with same | later
    · cases same
      simp
    · have differ : k ≠ key := by
        rintro rfl
        exact headFresh (List.mem_map_of_mem later)
      have skip : (k == key) = false := by simp [differ]
      simp only [List.find?_cons, skip]
      exact ih (List.nodup_cons.1 distinct).2 later

namespace Table

variable {α : Type}

theorem nodup_keys (t : Table α) : t.keys.Nodup := t.keys_nodup

theorem get?_eq_some_iff {t : Table α} {key : String} {value : α} :
    t.get? key = some value ↔ (key, value) ∈ t.entries :=
  ⟨mem_of_get?, find?_key_of_mem t.keys_nodup⟩

theorem get?_eq_none_iff {t : Table α} {key : String} :
    t.get? key = none ↔ key ∉ t.keys := by
  constructor
  · intro absent present
    obtain ⟨⟨k, v⟩, member, same⟩ := List.mem_map.1 present
    simp only at same
    subst same
    rw [get?_eq_some_iff.2 member] at absent
    cases absent
  · intro absent
    cases found : t.get? key with
    | none => rfl
    | some v => exact absurd (mem_keys_of_get? found) absent

theorem mem_keys_iff {t : Table α} {key : String} :
    key ∈ t.keys ↔ ∃ value, t.get? key = some value := by
  constructor
  · intro present
    cases found : t.get? key with
    | none => exact absurd present (get?_eq_none_iff.1 found)
    | some v => exact ⟨v, rfl⟩
  · rintro ⟨v, found⟩
    exact mem_keys_of_get? found

theorem get?_eq_of_perm {t t' : Table α} (perm : t.entries.Perm t'.entries) (key : String) :
    t.get? key = t'.get? key :=
  Option.ext fun value => by rw [get?_eq_some_iff, get?_eq_some_iff, perm.mem_iff]

theorem nodup_entries (t : Table α) : t.entries.Nodup :=
  List.Nodup.of_map Prod.fst t.keys_nodup

theorem entries_perm_of_mem_iff {t t' : Table α} (same : ∀ e, e ∈ t.entries ↔ e ∈ t'.entries) :
    t.entries.Perm t'.entries :=
  (List.perm_ext_iff_of_nodup t.nodup_entries t'.nodup_entries).2 same

theorem mem_values_iff {t : Table α} {value : α} :
    value ∈ t.values ↔ ∃ key, t.get? key = some value := by
  simp only [values, List.mem_map, get?_eq_some_iff]
  constructor
  · rintro ⟨⟨k, v⟩, member, rfl⟩
    exact ⟨k, member⟩
  · rintro ⟨k, member⟩
    exact ⟨(k, value), member, rfl⟩

@[simp]
theorem contains_iff {t : Table α} {key : String} : t.contains key = true ↔ key ∈ t.keys := by
  simp [contains]

theorem keys_insert_of_not_mem {t : Table α} {key : String} (value : α) (fresh : key ∉ t.keys) :
    (t.insert key value).keys = t.keys ++ [key] := by
  rw [keys_insert, if_neg fresh]

theorem keys_insert_of_mem {t : Table α} {key : String} (value : α) (present : key ∈ t.keys) :
    (t.insert key value).keys = t.keys := by
  rw [keys_insert, if_pos present]

@[simp]
theorem keys_empty : (empty : Table α).keys = [] := rfl

private theorem upsertEntry_of_not_mem (key : String) (value : α) :
    ∀ {entries : List (String × α)}, key ∉ entries.map Prod.fst →
      upsertEntry key value entries = entries ++ [(key, value)]
  | [], _ => rfl
  | (k, v) :: rest, absent => by
    have differ : k ≠ key := fun same => absent (by simp [same])
    simp only [upsertEntry, if_neg differ, List.cons_append]
    rw [upsertEntry_of_not_mem key value (fun present => absent (List.mem_cons_of_mem _ present))]

theorem entries_insert_of_not_mem {t : Table α} {key : String} (value : α) (fresh : key ∉ t.keys) :
    (t.insert key value).entries = t.entries ++ [(key, value)] :=
  upsertEntry_of_not_mem key value fresh

theorem entries_insert_of_split {t : Table α} {key : String} {before after : List (String × α)}
    {old : α} (value : α) (split : t.entries = before ++ (key, old) :: after)
    (first : key ∉ before.map Prod.fst) :
    (t.insert key value).entries = before ++ (key, value) :: after := by
  show upsertEntry key value t.entries = _
  rw [split]
  clear split
  induction before with
  | nil => simp [upsertEntry]
  | cons head rest ih =>
    obtain ⟨k, v⟩ := head
    have differ : k ≠ key := fun same => first (by simp [same])
    simp only [List.cons_append, upsertEntry, if_neg differ]
    rw [ih (fun present => first (List.mem_cons_of_mem _ present))]

section Keyed

variable {t : Table α} {keyOf : α → String}

theorem get?_eq_some_iff_of_keyed (keyed : ∀ k v, t.get? k = some v → keyOf v = k)
    {key : String} {value : α} :
    t.get? key = some value ↔ value ∈ t.values ∧ keyOf value = key := by
  constructor
  · intro found
    exact ⟨mem_values_of_get? found, keyed key value found⟩
  · rintro ⟨stored, rfl⟩
    obtain ⟨k, found⟩ := mem_values_iff.1 stored
    rw [← keyed k value found] at found
    exact found

theorem values_map_of_keyed (keyed : ∀ k v, t.get? k = some v → keyOf v = k) :
    t.values.map keyOf = t.keys := by
  unfold values keys
  rw [List.map_map]
  apply List.map_congr_left
  intro e member
  exact keyed e.1 e.2 (get?_eq_some_iff.2 member)

theorem key_mem_keys_of_keyed (keyed : ∀ k v, t.get? k = some v → keyOf v = k) {value : α}
    (stored : value ∈ t.values) : keyOf value ∈ t.keys := by
  rw [← values_map_of_keyed keyed]
  exact List.mem_map_of_mem stored

end Keyed

theorem entries_foldl_insert (keyOf : α → String) (values : List α) (t : Table α)
    (distinct : (t.keys ++ values.map keyOf).Nodup) :
    (values.foldl (fun t v => t.insert (keyOf v) v) t).entries =
      t.entries ++ values.map fun v => (keyOf v, v) := by
  induction values generalizing t with
  | nil => simp
  | cons head rest ih =>
    have fresh : keyOf head ∉ t.keys := by
      intro present
      simp only [List.map_cons] at distinct
      exact (List.nodup_append.1 distinct).2.2 _ present _ List.mem_cons_self rfl
    have restDistinct : ((t.insert (keyOf head) head).keys ++ rest.map keyOf).Nodup := by
      rw [keys_insert_of_not_mem head fresh]
      simpa using distinct
    rw [List.foldl_cons, ih _ restDistinct, entries_insert_of_not_mem head fresh]
    simp

theorem foldl_insert_spec (keyOf : α → String) (values : List α) (t : Table α)
    (distinct : (t.keys ++ values.map keyOf).Nodup) :
    (values.foldl (fun t v => t.insert (keyOf v) v) t).keys = t.keys ++ values.map keyOf ∧
      ∀ k v, (values.foldl (fun t v => t.insert (keyOf v) v) t).get? k = some v →
        t.get? k = some v ∨ keyOf v = k := by
  have entries := entries_foldl_insert keyOf values t distinct
  refine ⟨by simp [keys, entries, Function.comp_def], fun k v found => ?_⟩
  rw [get?_eq_some_iff, entries, List.mem_append] at found
  rcases found with earlier | inserted
  · exact .inl (get?_eq_some_iff.2 earlier)
  · obtain ⟨w, _, same⟩ := List.mem_map.1 inserted
    simp only [Prod.mk.injEq] at same
    obtain ⟨rfl, rfl⟩ := same
    exact .inr rfl

end Table

/-! ### Appending what is new -/

def appendNew (names : List String) (name : String) : List String :=
  if name ∈ names then names else names ++ [name]

theorem foldl_appendNew : ∀ (xs acc : List String),
    xs.foldl appendNew acc = acc ++ (xs.removeAll acc).eraseDups
  | [], acc => by simp
  | x :: xs, acc => by
    rw [List.foldl_cons, foldl_appendNew xs]
    unfold appendNew
    by_cases present : x ∈ acc
    · have dropped : (x :: xs).removeAll acc = xs.removeAll acc := by
        simp [List.cons_removeAll, present]
      rw [if_pos present, dropped]
    · have kept : (x :: xs).removeAll acc = x :: xs.removeAll acc := by
        simp [List.cons_removeAll, present]
      have later : xs.removeAll (acc ++ [x]) = (xs.removeAll acc).filter fun y => !y == x := by
        simp only [List.removeAll, List.filter_filter]
        apply List.filter_congr
        intro y _
        by_cases same : y = x <;> simp [same]
      rw [if_neg present, kept, List.eraseDups_cons, later]
      simp

theorem foldl_appendNew_nil (xs : List String) : xs.foldl appendNew [] = xs.eraseDups := by
  simp [foldl_appendNew]

theorem eraseDups_append_singleton (l : List String) (a : String) :
    (l ++ [a]).eraseDups = appendNew l.eraseDups a := by
  rw [← foldl_appendNew_nil, ← foldl_appendNew_nil, List.foldl_append]
  rfl

theorem mem_foldl_appendNew {xs acc : List String} {y : String} :
    y ∈ xs.foldl appendNew acc ↔ y ∈ acc ∨ y ∈ xs := by
  rw [foldl_appendNew, List.mem_append, List.mem_eraseDups]
  by_cases present : y ∈ acc <;> simp [List.removeAll, present]

theorem nodup_foldl_appendNew : ∀ (xs : List String) {acc : List String}, acc.Nodup →
    (xs.foldl appendNew acc).Nodup
  | [], _, distinct => distinct
  | x :: xs, acc, distinct => by
    rw [List.foldl_cons]
    refine nodup_foldl_appendNew xs ?_
    unfold appendNew
    split
    · exact distinct
    · rename_i fresh
      refine List.nodup_append.2 ⟨distinct, by simp, ?_⟩
      intro a present b single same
      rw [List.mem_singleton.1 single] at same
      exact fresh (same ▸ present)

theorem nodup_eraseDups (xs : List String) : xs.eraseDups.Nodup := by
  rw [← foldl_appendNew_nil]
  exact nodup_foldl_appendNew xs List.nodup_nil

theorem foldl_appendNew_of_subset {xs acc : List String} (covered : ∀ y ∈ xs, y ∈ acc) :
    xs.foldl appendNew acc = acc := by
  have gone : xs.removeAll acc = [] := by
    rw [List.removeAll, List.filter_eq_nil_iff]
    intro y listed
    simpa using covered y listed
  rw [foldl_appendNew, gone]
  simp

/-! ### Name tables -/

namespace NameTable

theorem kinds_mk_insert (t : Table (List DeclKind)) (name : String) (ks : List DeclKind)
    (query : String) :
    (NameTable.mk (t.insert name ks)).kinds query =
      if query = name then ks else (NameTable.mk t).kinds query := by
  simp only [kinds, Table.get?_insert]
  split <;> rfl

theorem declare_eq_true_iff {names names' : NameTable} {name : String} {kind : DeclKind} :
    names.declare name kind = (true, names') ↔
      kind ∉ names.kinds name ∧ names' = ⟨names.entries.insert name (names.kinds name ++ [kind])⟩ := by
  unfold declare
  by_cases present : kind ∈ names.kinds name
  · simp [present]
  · simp [present, eq_comm]

@[simp]
theorem hasKind_iff {names : NameTable} {name : String} {kind : DeclKind} :
    names.hasKind name kind = true ↔ kind ∈ names.kinds name := by
  simp [hasKind]

@[simp]
theorem contains_iff {names : NameTable} {name : String} :
    names.contains name = true ↔ name ∈ names.entries.keys := by
  simp [contains]

@[simp]
theorem kinds_empty (name : String) : ({} : NameTable).kinds name = [] := rfl

@[simp]
theorem keys_empty : ({} : NameTable).entries.keys = [] := rfl

end NameTable

end NodeSchema
