import NodeSchema.TypeScript.Imports
import NodeSchema.Proofs.Tables

set_option autoImplicit false

/-! What the import statements of assembled nodes say. An external type is imported when some own
field of a base or leaf holds it; `Maybe` is imported from its library when optional fields are
wrapped and some own field is optional. These requests, each a source with a symbol, are listed
in order: the referenced external types in declaration order, then `Maybe`. The statements group
them by source: one line per source, the sources in order of first request, each line naming
that source's symbols in order of first request and once each. So `Maybe` joins the line of its
library when a referenced external type comes from there, without repeating a symbol already on
it, and otherwise gets a line of its own, last.

Rendering builds the groups one request at a time; the main step is that adding a request to the
groups of some requests gives the groups of the longer list. -/

namespace NodeSchema

/-! ### Which types are imported -/

namespace Ir

/-- The records whose own fields can hold types: the bases, then the leaves. -/
def records (ir : Ir) : List Record := ir.bases.map (·.toRecord) ++ ir.leaves.map (·.toRecord)

/-- Some own field of a base or leaf holds the type `symbol` among its alternatives. -/
def Refers (ir : Ir) (symbol : String) : Prop :=
  ∃ r ∈ ir.records, ∃ d ∈ r.fields.values, ∃ types, d.kind = .node types ∧ symbol ∈ types

/-- Optional fields are wrapped, and some own field of a base or leaf is optional. -/
def WantsMaybe (ir : Ir) : Prop :=
  ir.options.optional = .monadicWrapper ∧ ∃ r ∈ ir.records, ∃ d ∈ r.fields.values, d.container = .optional

theorem any_ownFields_iff (ir : Ir) (p : FieldDescriptor → Bool) :
    (ir.bases.map (·.fields.values) ++ ir.leaves.map (·.fields.values)).flatten.any p = true ↔
      ∃ r ∈ ir.records, ∃ d ∈ r.fields.values, p d = true := by
  simp only [List.any_eq_true, List.mem_flatten, List.mem_append, List.mem_map, records]
  constructor
  · rintro ⟨d, ⟨values, (⟨b, listed, rfl⟩ | ⟨l, listed, rfl⟩), held⟩, holds⟩
    · exact ⟨b.toRecord, .inl ⟨b, listed, rfl⟩, d, held, holds⟩
    · exact ⟨l.toRecord, .inr ⟨l, listed, rfl⟩, d, held, holds⟩
  · rintro ⟨r, (⟨b, listed, rfl⟩ | ⟨l, listed, rfl⟩), d, held, holds⟩
    · exact ⟨d, ⟨_, .inl ⟨b, listed, rfl⟩, held⟩, holds⟩
    · exact ⟨d, ⟨_, .inr ⟨l, listed, rfl⟩, held⟩, holds⟩

theorem references_iff (d : FieldDescriptor) (symbol : String) :
    d.references symbol = true ↔ ∃ types, d.kind = .node types ∧ symbol ∈ types := by
  unfold FieldDescriptor.references
  cases d.kind <;> simp

theorem any_references_iff (ir : Ir) (symbol : String) :
    (ir.bases.map (·.fields.values) ++ ir.leaves.map (·.fields.values)).flatten.any
      (·.references symbol) = true ↔ ir.Refers symbol := by
  rw [any_ownFields_iff]
  simp only [references_iff]
  rfl

instance (ir : Ir) : DecidablePred ir.Refers := fun symbol =>
  decidable_of_iff _ (any_references_iff ir symbol)

theorem wantsMaybe_iff (ir : Ir) :
    (ir.options.optional == .monadicWrapper &&
      (ir.bases.map (·.fields.values) ++ ir.leaves.map (·.fields.values)).flatten.any
        (·.container == .optional)) = true ↔ ir.WantsMaybe := by
  rw [Bool.and_eq_true, any_ownFields_iff]
  simp [WantsMaybe]

instance (ir : Ir) : Decidable ir.WantsMaybe :=
  decidable_of_iff _ (wantsMaybe_iff ir)

end Ir

namespace TypeScript

/-- What assembled nodes import, as source and symbol: each referenced external type in
declaration order, then `Maybe` from its library when it is wanted. -/
def importRequests (ir : Ir) : List (String × String) :=
  ((ir.externals.filter fun e => ir.Refers e.symbol).map fun e => (e.source, e.symbol)) ++
    if ir.WantsMaybe then [(maybeSource, "Maybe")] else []

/-! ### Grouping requests by source -/

/-- The symbols requested from a source, each once, in order of first request. -/
def symbolsFrom (requests : List (String × String)) (source : String) : List String :=
  ((requests.filter (·.1 == source)).map Prod.snd).eraseDups

/-- Requests grouped by source: the sources in order of first request, each with its symbols. -/
def groupBySource (requests : List (String × String)) : List (String × List String) :=
  (requests.map Prod.fst).eraseDups.map fun source => (source, symbolsFrom requests source)

theorem lookup_map_pair {β : Type} (f : String → β) (keys : List String) (key : String) :
    (keys.map fun k => (k, f k)).lookup key = if key ∈ keys then some (f key) else none := by
  induction keys with
  | nil => simp
  | cons k rest ih =>
    rw [List.map_cons, List.lookup_cons, ih]
    by_cases same : key = k
    · subst same
      simp
    · have differ : (key == k) = false := by simp [same]
      simp [differ, same]

theorem symbolsFrom_append (requests : List (String × String)) (source symbol query : String) :
    symbolsFrom (requests ++ [(source, symbol)]) query =
      if query = source ∧ symbol ∉ symbolsFrom requests query then symbolsFrom requests query ++ [symbol]
      else symbolsFrom requests query := by
  unfold symbolsFrom
  by_cases same : query = source
  · subst same
    have appended : ((requests ++ [(query, symbol)]).filter (·.1 == query)).map Prod.snd =
        (requests.filter (·.1 == query)).map Prod.snd ++ [symbol] := by
      simp
    rw [appended, eraseDups_append_singleton, appendNew]
    by_cases present : symbol ∈ (requests.filter (·.1 == query)).map Prod.snd <;>
      simp [present, List.mem_eraseDups]
  · have other : (source == query) = false := by simp [Ne.symm same]
    simp [List.filter_append, other, same]

theorem symbolsFrom_of_not_mem {requests : List (String × String)} {source : String}
    (fresh : source ∉ requests.map Prod.fst) : symbolsFrom requests source = [] := by
  have none : requests.filter (·.1 == source) = [] :=
    List.filter_eq_nil_iff.2 fun p listed same =>
      fresh (List.mem_map.2 ⟨p, listed, by simpa using same⟩)
  simp [symbolsFrom, none]

/-- Adding a request to grouped requests: a new source gets a group of its own, last; a known
source gains the symbol at the end of its group unless the group has it. -/
theorem groupBySource_append (requests : List (String × String)) (source symbol : String) :
    groupBySource (requests ++ [(source, symbol)]) =
      if source ∈ requests.map Prod.fst then
        (groupBySource requests).map fun g =>
          if g.1 = source ∧ symbol ∉ g.2 then (g.1, g.2 ++ [symbol]) else g
      else groupBySource requests ++ [(source, [symbol])] := by
  unfold groupBySource
  rw [List.map_append, List.map_singleton, eraseDups_append_singleton]
  simp only [appendNew, List.mem_eraseDups]
  by_cases known : source ∈ requests.map Prod.fst
  · rw [if_pos known, if_pos known, List.map_map]
    refine List.map_congr_left fun query _ => ?_
    simp only [Function.comp_apply, symbolsFrom_append]
    split <;> simp_all
  · rw [if_neg known, if_neg known, List.map_append, List.map_singleton]
    congr 1
    · -- the other sources keep their symbols
      refine List.map_congr_left fun query listed => ?_
      have other : query ≠ source := fun same => known (same ▸ List.mem_eraseDups.1 listed)
      simp [symbolsFrom_append, other]
    · simp [symbolsFrom_append, symbolsFrom_of_not_mem known]

theorem lookup_groupBySource (requests : List (String × String)) (source : String) :
    (groupBySource requests).lookup source =
      if source ∈ requests.map Prod.fst then some (symbolsFrom requests source) else none := by
  simp only [groupBySource, lookup_map_pair, List.mem_eraseDups]

theorem mem_groupBySource {requests : List (String × String)} {g : String × List String}
    (listed : g ∈ groupBySource requests) : g.2 = symbolsFrom requests g.1 := by
  obtain ⟨source, _, rfl⟩ := List.mem_map.1 listed
  rfl

theorem addImport_groupBySource (requests : List (String × String)) (source symbol : String) :
    addImport (groupBySource requests) source symbol = groupBySource (requests ++ [(source, symbol)]) := by
  rw [groupBySource_append]
  unfold addImport
  rw [lookup_groupBySource]
  by_cases known : source ∈ requests.map Prod.fst
  · simp only [if_pos known, List.contains_iff_mem]
    by_cases present : symbol ∈ symbolsFrom requests source
    · rw [if_pos present]
      conv => lhs; rw [← List.map_id (groupBySource requests)]
      refine List.map_congr_left fun g listed => ?_
      have grouped := mem_groupBySource listed
      by_cases same : g.1 = source
      · have onIt : symbol ∈ g.2 := by rw [grouped, same]; exact present
        simp [same, onIt]
      · simp [same]
    · rw [if_neg present]
      refine List.map_congr_left fun g listed => ?_
      have grouped := mem_groupBySource listed
      by_cases same : g.1 = source
      · have offIt : symbol ∉ g.2 := by rw [grouped, same]; exact present
        simp [same, offIt]
      · simp [same]
  · simp only [if_neg known]

theorem foldl_addImport (externals : List ExternalNode) (requests : List (String × String)) :
    externals.foldl (fun groups e => addImport groups e.source e.symbol) (groupBySource requests) =
      groupBySource (requests ++ externals.map fun e => (e.source, e.symbol)) := by
  induction externals generalizing requests with
  | nil => simp
  | cons e rest ih =>
    rw [List.foldl_cons, addImport_groupBySource, ih]
    simp

theorem importGroups_eq (ir : Ir) : importGroups ir = groupBySource (importRequests ir) := by
  have referenced : (ir.externals.filter fun e =>
      (ir.bases.map (·.fields.values) ++ ir.leaves.map (·.fields.values)).flatten.any
        (·.references e.symbol)) = ir.externals.filter fun e => ir.Refers e.symbol :=
    List.filter_congr fun e _ =>
      Bool.eq_iff_iff.2 ((Ir.any_references_iff ir e.symbol).trans decide_eq_true_iff.symm)
  have wanted := Ir.wantsMaybe_iff ir
  have grouped := foldl_addImport (ir.externals.filter fun e => ir.Refers e.symbol) []
  rw [show groupBySource [] = [] from rfl, List.nil_append] at grouped
  unfold importGroups importRequests
  simp only [referenced]
  rw [grouped]
  by_cases wants : ir.WantsMaybe
  · rw [if_pos (wanted.2 wants), if_pos wants, addImport_groupBySource]
  · rw [if_neg (mt wanted.1 wants), if_neg wants, List.append_nil]

/-! ### The statements -/

theorem groupBySource_eq_nil_iff {requests : List (String × String)} :
    groupBySource requests = [] ↔ requests = [] := by
  unfold groupBySource
  cases requests with
  | nil => simp
  | cons r rest => simp [List.eraseDups_cons]

theorem importLine_ne_empty (g : String × List String) : importLine g ≠ "" := by
  unfold importLine
  simp [String.append_eq_empty_iff]

theorem lines_eq_empty_iff {parts : List String} (filled : ∀ p ∈ parts, p ≠ "") :
    lines parts = "" ↔ parts = [] := by
  unfold lines
  rcases parts with _ | ⟨p, _ | ⟨q, rest⟩⟩
  · simp [String.intercalate_nil]
  · have nonempty := filled p (by simp)
    simp [String.intercalate_singleton, nonempty]
  · -- the first line stands at the start of the text
    have nonempty := filled p (by simp)
    simp [String.intercalate_cons_cons, String.append_eq_empty_iff, nonempty]

/-- The import statements of assembled nodes are the requests grouped by source, one line per
source in order of first request, each naming that source's symbols in order of first request;
there are none exactly when nothing is requested. -/
theorem renderImports_groups_requests (ir : Ir) :
    renderImports ir = lines ((groupBySource (importRequests ir)).map importLine) ∧
      (renderImports ir = "" ↔ importRequests ir = []) := by
  have rendered : renderImports ir = lines ((groupBySource (importRequests ir)).map importLine) := by
    rw [renderImports, importGroups_eq]
  refine ⟨rendered, ?_⟩
  have filled : ∀ p ∈ (groupBySource (importRequests ir)).map importLine, p ≠ "" := by
    intro p listed
    obtain ⟨g, _, rfl⟩ := List.mem_map.1 listed
    exact importLine_ne_empty g
  rw [rendered, lines_eq_empty_iff filled, List.map_eq_nil_iff, groupBySource_eq_nil_iff]

example : groupBySource [("locations", "Span"), ("lexer", "Token"), ("locations", "Range"),
    ("locations", "Span"), (maybeSource, "Maybe")] =
    [("locations", ["Span", "Range"]), ("lexer", ["Token"]), (maybeSource, ["Maybe"])] := by
  decide

end TypeScript

end NodeSchema
