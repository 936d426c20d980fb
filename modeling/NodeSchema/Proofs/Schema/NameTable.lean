import NodeSchema.Proofs.Load.Names

set_option autoImplicit false

/-! A name table under any sequence of calls. A client may declare a name as a kind, ask
whether a name is declared, whether it carries a kind, how many names there are and whether
there are none. The reference a table is held to is a plain list: the distinct names declared
so far, in order of first declaration, each beside the distinct kinds declared for it, in order
of first declaration (`reference`). Main statement: from the empty table, every sequence of
calls leaves the table equal to the reference of its declarations, every call answers as the
reference says, and only an accepted declaration changes the table.

The induction runs over the calls. One call keeps "the entries are the reference of the
declarations so far" (`call_records`); the reference itself grows by one declaration as an
insertion does (`reference_append_single`), so a declaration that succeeds matches it, and one
that is refused finds its kind among the name's kinds, where the reference does not change. -/

namespace NodeSchema

namespace NameTable

/-- A call on a name table. -/
inductive Call where
  | declare (name : String) (kind : DeclKind)
  | contains (name : String)
  | hasKind (name : String) (kind : DeclKind)
  | len
  | isEmpty
  deriving DecidableEq, Repr

/-- What a call answers: a yes or no, or a number. -/
inductive Reply where
  | flag (value : Bool)
  | count (value : Nat)
  deriving DecidableEq, Repr

namespace Call

def declared : Call → List (String × DeclKind)
  | .declare name kind => [(name, kind)]
  | _ => []

/-- The answer a call gets from a list of names with their kinds. -/
def replyOn (ledger : List (String × List DeclKind)) : Call → Reply
  | .declare name kind => .flag (decide (kind ∉ (ledger.lookup name).getD []))
  | .contains name => .flag (decide (name ∈ ledger.map Prod.fst))
  | .hasKind name kind => .flag (decide (kind ∈ (ledger.lookup name).getD []))
  | .len => .count ledger.length
  | .isEmpty => .flag (decide (ledger.length = 0))

end Call

/-- Makes one call: its answer and the table after it. -/
def call (names : NameTable) : Call → Reply × NameTable
  | .declare name kind => (.flag (names.declare name kind).1, (names.declare name kind).2)
  | .contains name => (.flag (names.contains name), names)
  | .hasKind name kind => (.flag (names.hasKind name kind), names)
  | .len => (.count names.size, names)
  | .isEmpty => (.flag names.isEmpty, names)

def afterCalls (names : NameTable) (calls : List Call) : NameTable :=
  calls.foldl (fun t c => (t.call c).2) names

/-- The reference of a run of declarations: the distinct names in order of first declaration,
each with its distinct kinds in order of first declaration. -/
def reference (decls : List (String × DeclKind)) : List (String × List DeclKind) :=
  (decls.map Prod.fst).eraseDups.map fun name => (name, (kindsIn decls name).eraseDups)

/-- A table follows a list of names with their kinds: its entries are that list, a declared
name carries a kind, every call answers as the list says, and only an accepted declaration
changes the table. -/
structure Follows (names : NameTable) (ledger : List (String × List DeclKind)) : Prop where
  entries : names.entries.entries = ledger
  kinded : ∀ name, names.contains name = true → ∃ kind, names.hasKind name kind = true
  replies : ∀ c, (names.call c).1 = c.replyOn ledger
  keeps : ∀ c, (names.call c).2 = names ∨
    ∃ name kind, c = .declare name kind ∧ (names.call c).1 = .flag true

end NameTable

/-! ### Lists keyed by name -/

theorem eraseDups_concat {α : Type} [BEq α] [LawfulBEq α] (l : List α) (a : α) :
    (l ++ [a]).eraseDups = if a ∈ l then l.eraseDups else l.eraseDups ++ [a] := by
  rw [List.eraseDups_append]
  split
  · rename_i present
    simp [List.removeAll, present]
  · rename_i absent
    simp [List.removeAll, absent, List.eraseDups_cons]

theorem Table.get?_eq_lookup {α : Type} (t : Table α) (key : String) :
    t.get? key = t.entries.lookup key := by
  unfold Table.get?
  induction t.entries with
  | nil => rfl
  | cons e rest ih =>
    obtain ⟨k, v⟩ := e
    by_cases same : k = key
    · subst same
      simp [List.lookup_cons_self]
    · have differ : (key == k) = false := by simp [Ne.symm same]
      simp [List.lookup_cons, differ, same, ih]

theorem upsertEntry_graph {α : Type} (key : String) (value : α) (f : String → α) :
    ∀ {keys : List String}, keys.Nodup →
      upsertEntry key value (keys.map fun k => (k, f k)) =
        (if key ∈ keys then keys else keys ++ [key]).map
          fun k => (k, if k = key then value else f k)
  | [], _ => by simp [upsertEntry]
  | k :: rest, distinct => by
    obtain ⟨fresh, distinct⟩ := List.nodup_cons.1 distinct
    by_cases same : k = key
    · subst same
      have others : ∀ k' ∈ rest, (k', if k' = k then value else f k') = (k', f k') := by
        intro k' listed
        rw [if_neg (fun same : k' = k => fresh (same ▸ listed))]
      simp [upsertEntry, List.map_congr_left others]
    · have later := upsertEntry_graph key value f distinct
      simp only [List.map_cons, upsertEntry, same, if_false, later, List.mem_cons,
        Ne.symm same, false_or]
      split <;> simp [same]

namespace NameTable

/-! ### The reference -/

theorem lookup_reference (decls : List (String × DeclKind)) (name : String) :
    ((reference decls).lookup name).getD [] = (kindsIn decls name).eraseDups := by
  by_cases declared : name ∈ decls.map Prod.fst
  · unfold reference
    rw [List.lookup_graph _ (List.mem_eraseDups.2 declared), Option.getD_some]
  · have absent : kindsIn decls name = [] := by
      by_contra listed
      exact declared (kindsIn_ne_nil_iff.1 listed)
    have missing : (reference decls).lookup name = none := by
      rw [List.lookup_eq_none_iff]
      intro p listed
      obtain ⟨n, key, rfl⟩ := List.mem_map.1 listed
      have differ : name ≠ n := fun same => declared (same ▸ List.mem_eraseDups.1 key)
      simpa using differ
    rw [missing, absent]
    rfl

theorem reference_keys (decls : List (String × DeclKind)) :
    (reference decls).map Prod.fst = (decls.map Prod.fst).eraseDups := by
  simp [reference, Function.comp_def]

theorem reference_append_single (decls : List (String × DeclKind)) (name : String)
    (kind : DeclKind) :
    reference (decls ++ [(name, kind)]) =
      if kind ∈ kindsIn decls name then reference decls
      else upsertEntry name ((kindsIn decls name).eraseDups ++ [kind]) (reference decls) := by
  have names : ((decls ++ [(name, kind)]).map Prod.fst).eraseDups =
      if name ∈ decls.map Prod.fst then (decls.map Prod.fst).eraseDups
      else (decls.map Prod.fst).eraseDups ++ [name] := by
    rw [List.map_append, List.map_singleton, eraseDups_concat]
  have kinds : ∀ n, (kindsIn (decls ++ [(name, kind)]) n).eraseDups =
      if n = name then (kindsIn decls name ++ [kind]).eraseDups else (kindsIn decls n).eraseDups := by
    intro n
    by_cases same : n = name
    · subst same
      simp [kindsIn]
    · simp [kindsIn, Ne.symm same, same]
  unfold reference
  rw [names]
  simp only [kinds]
  by_cases present : kind ∈ kindsIn decls name
  · -- the name is listed already and its kinds absorb the repeat
    have declared : name ∈ decls.map Prod.fst := kindsIn_ne_nil_iff.1 (List.ne_nil_of_mem present)
    rw [if_pos declared, if_pos present]
    refine List.map_congr_left fun n _ => ?_
    by_cases same : n = name
    · subst same
      rw [if_pos rfl, eraseDups_concat, if_pos present]
    · rw [if_neg same]
  · rw [if_neg present, upsertEntry_graph _ _ _ (nodup_eraseDups _)]
    simp only [List.mem_eraseDups]
    refine List.map_congr_left fun n _ => ?_
    by_cases same : n = name
    · subst same
      rw [if_pos rfl, if_pos rfl, eraseDups_concat, if_neg present]
    · rw [if_neg same, if_neg same]

/-! ### One call, then a run of calls -/

variable {names : NameTable} {decls : List (String × DeclKind)}

theorem kinds_of_records (records : names.entries.entries = reference decls) (name : String) :
    names.kinds name = (kindsIn decls name).eraseDups := by
  rw [kinds, Table.get?_eq_lookup, records, lookup_reference]

theorem declare_records (records : names.entries.entries = reference decls) (name : String)
    (kind : DeclKind) :
    (names.declare name kind).1 = decide (kind ∉ kindsIn decls name) ∧
      (names.declare name kind).2.entries.entries = reference (decls ++ [(name, kind)]) := by
  have present : kind ∈ names.kinds name ↔ kind ∈ kindsIn decls name := by
    rw [kinds_of_records records, List.mem_eraseDups]
  rw [reference_append_single]
  unfold declare
  by_cases known : kind ∈ kindsIn decls name
  · simp [present.2 known, known, records]
  · have fresh : kind ∉ names.kinds name := fun h => known (present.1 h)
    simp only [fresh, known, if_false, decide_not, decide_false, Bool.not_false, true_and]
    show upsertEntry name _ names.entries.entries = _
    rw [records, kinds_of_records records]

theorem reply_of_records (records : names.entries.entries = reference decls) (c : Call) :
    (names.call c).1 = c.replyOn (reference decls) := by
  cases c with
  | declare name kind =>
    simp [call, Call.replyOn, (declare_records records name kind).1, lookup_reference,
      List.mem_eraseDups]
  | contains name => simp [call, Call.replyOn, contains, Table.contains, Table.keys, records]
  | hasKind name kind =>
    simp [call, Call.replyOn, hasKind, kinds_of_records records, lookup_reference,
      List.mem_eraseDups]
  | len => simp [call, Call.replyOn, size, Table.size, records]
  | isEmpty =>
    simp only [call, Call.replyOn, isEmpty, size, Table.size, records]
    rfl

theorem call_records (records : names.entries.entries = reference decls) (c : Call) :
    (names.call c).2.entries.entries = reference (decls ++ c.declared) := by
  cases c with
  | declare name kind => exact (declare_records records name kind).2
  | contains _ | hasKind _ _ | len | isEmpty => simpa [call, Call.declared] using records

theorem afterCalls_records (calls : List Call) :
    ∀ {names : NameTable} {decls : List (String × DeclKind)},
      names.entries.entries = reference decls →
        (names.afterCalls calls).entries.entries = reference (decls ++ calls.flatMap Call.declared) := by
  induction calls with
  | nil =>
    intro names decls records
    simpa [afterCalls] using records
  | cons c rest ih =>
    intro names decls records
    have run := ih (call_records records c)
    rw [List.flatMap_cons, ← List.append_assoc]
    exact run

theorem call_keeps (names : NameTable) (c : Call) :
    (names.call c).2 = names ∨ ∃ name kind, c = .declare name kind ∧ (names.call c).1 = .flag true := by
  cases c with
  | declare name kind =>
    unfold call declare
    by_cases known : kind ∈ names.kinds name
    · left
      simp [known]
    · right
      exact ⟨name, kind, rfl, by simp [known]⟩
  | contains _ | hasKind _ _ | len | isEmpty => exact .inl rfl

theorem hasKind_of_contains (records : names.entries.entries = reference decls) {name : String}
    (held : names.contains name = true) : ∃ kind, names.hasKind name kind = true := by
  have declared : name ∈ decls.map Prod.fst := by
    rw [contains_iff, Table.keys, records, reference_keys, List.mem_eraseDups] at held
    exact held
  obtain ⟨kind, listed⟩ := List.exists_mem_of_ne_nil _ (kindsIn_ne_nil_iff.2 declared)
  exact ⟨kind, by rw [hasKind_iff, kinds_of_records records, List.mem_eraseDups]; exact listed⟩

theorem follows_of_records (records : names.entries.entries = reference decls) :
    Follows names (reference decls) where
  entries := records
  kinded _ held := hasKind_of_contains records held
  replies := reply_of_records records
  keeps := call_keeps names

/-- From the empty table, any sequence of calls leaves a table that follows the reference of
the declarations made: its entries are the distinct declared names in order of first
declaration, each with its distinct kinds in order of first declaration; a declared name
carries a kind; the next call answers as that list says (a declaration is accepted exactly when
the name does not carry the kind yet, a name is declared when the list holds it, a count is the
number of listed names, and there are none exactly when it is zero); and only an accepted
declaration changes the table. -/
theorem afterCalls_follows_reference (calls : List Call) :
    Follows (({} : NameTable).afterCalls calls) (reference (calls.flatMap Call.declared)) := by
  have records := @afterCalls_records calls {} [] rfl
  rw [List.nil_append] at records
  exact follows_of_records records

/-- The same name and kind twice: the second declaration is refused, and a second kind is kept
beside the first. -/
example : (({} : NameTable).afterCalls
    [.declare "Expr" .union, .declare "Expr" .union, .declare "Expr" .leaf]).entries.entries =
      [("Expr", [.union, .leaf])] := by
  decide

end NameTable

end NodeSchema
