import NodeSchema.Proofs.Json.Reorder
import NodeSchema.Proofs.Tables
import NodeSchema.Schema.Load

set_option autoImplicit false

/-! The top-level parts of a document whose objects are given with their keys in another
order. A string, a variant name and a one-key variant object cannot be reordered at all, so
every value the options block and the externs list accept is read the same way after
reordering; the entries of an object are each read on their own, and two entries with
different keys write different fields, so the order in which an object's entries are met does
not change what is read. The root's key check and its lookups see the same keys. Hence
reading the parts of a reordered document succeeds whenever reading the original does, with
the same options and external types and with the bases and node tables reordered. -/

namespace NodeSchema

open Json (Reorders EntriesReorder PathStep Shaped)

/-! ### Values that cannot be reordered -/

namespace Json.Shape

theorem string_rigid {here : List PathStep} {v v' : Json} {s : String}
    (read : string here v = .ok s) (reordered : Reorders v v') : v' = v := by
  cases v with
  | string s => exact reordered.string_left
  | _ => cases read

theorem variant_rigid {α : Type} {here : List PathStep} {words : List (String × α)} {v v' : Json}
    {a : α} (read : variant here words v = .ok a) (reordered : Reorders v v') : v' = v := by
  unfold variant at read
  split at read
  · exact reordered.string_left
  · rename_i s value
    split at read
    · cases read
    · split at read
      · obtain ⟨w, rfl, inner⟩ := reordered.single_left
        rw [inner.null_left]
      · cases read
  · cases read
  · cases read

end Json.Shape

/-! ### The options block -/

namespace Options

section Set

variable (o : Options) (here : List PathStep) (v : Json)

theorem set_tagName : o.set here "tagName" v = (Json.Shape.string here v).map ({ o with tagName := · }) := by
  simp only [set]
  cases Json.Shape.string here v <;> rfl

theorem set_optional :
    o.set here "optional" v = (Json.Shape.variant here OptionalStyle.words v).map ({ o with optional := · }) := by
  simp only [set]
  cases Json.Shape.variant here OptionalStyle.words v <;> rfl

theorem set_maps : o.set here "maps" v = (Json.Shape.variant here MapStyle.words v).map ({ o with maps := · }) := by
  simp only [set]
  cases Json.Shape.variant here MapStyle.words v <;> rfl

theorem set_constructor :
    o.set here "constructor" v =
      (Json.Shape.variant here ConstructorStyle.words v).map ({ o with constructor := · }) := by
  simp only [set]
  cases Json.Shape.variant here ConstructorStyle.words v <;> rfl

end Set

theorem set_rigid {o o' : Options} {here : List PathStep} {key : String} {v v' : Json}
    (read : o.set here key v = .ok o') (reordered : Reorders v v') : v' = v := by
  unfold set at read
  split at read <;> obtain ⟨a, accepted, -⟩ := bind_eq_ok.1 read
  · exact Json.Shape.string_rigid accepted reordered
  all_goals exact Json.Shape.variant_rigid accepted reordered

theorem setEntry_of_mem {o : Options} {key : String} (v : Json) (known : key ∈ keys) :
    o.setEntry (key, v) = o.set [.key key] key v := by
  simp [setEntry, known]

theorem mem_keys_of_setEntry {o o' : Options} {e : String × Json} (read : o.setEntry e = .ok o') :
    e.1 ∈ keys := by
  unfold setEntry at read
  split at read
  · assumption
  · cases read

theorem setEntry_swap {o t : Options} {e e' : String × Json} (differ : e.1 ≠ e'.1)
    (both : (o.setEntry e >>= fun mid => mid.setEntry e') = .ok t) :
    (o.setEntry e' >>= fun mid => mid.setEntry e) = .ok t := by
  obtain ⟨k, v⟩ := e
  obtain ⟨k', v'⟩ := e'
  obtain ⟨mid, first, second⟩ := bind_eq_ok.1 both
  have known := mem_keys_of_setEntry first
  have known' := mem_keys_of_setEntry second
  simp only at differ known known'
  rw [setEntry_of_mem _ known] at first
  rw [setEntry_of_mem _ known'] at second
  simp only [setEntry_of_mem _ known, setEntry_of_mem _ known']
  simp only [keys, List.mem_cons, List.not_mem_nil, or_false] at known known'
  rcases known with rfl | rfl | rfl | rfl <;> rcases known' with rfl | rfl | rfl | rfl <;>
    simp only [ne_eq, not_true_eq_false] at differ <;>
    simp only [set_tagName, set_optional, set_maps, set_constructor] at first second ⊢ <;>
    obtain ⟨a, readA, rfl⟩ := map_eq_ok.1 first <;>
    obtain ⟨b, readB, rfl⟩ := map_eq_ok.1 second <;>
    simp [readA, readB, Except.map, bind, Except.bind]

theorem setEntry_rigid {o o' : Options} {e e' : String × Json} (matched : e.1 = e'.1 ∧ Reorders e.2 e'.2)
    (read : o.setEntry e = .ok o') : o.setEntry e' = .ok o' := by
  obtain ⟨k, v⟩ := e
  obtain ⟨k', v'⟩ := e'
  obtain ⟨same, reordered⟩ := matched
  simp only at same reordered
  subst same
  have known := mem_keys_of_setEntry read
  rw [setEntry_of_mem _ known] at read
  rw [setEntry_of_mem _ known, set_rigid read reordered]
  exact read

theorem shape_reorders {v v' : Json} {o : Options} (distinct : v.keysDistinct = true)
    (reordered : Reorders v v') (read : shape v = .ok o) : shape v' = .ok o := by
  cases reordered with
  | object keysMatch values perm =>
    rename_i entries entries' moved
    have matched : List.Forall₂ (fun (e e' : String × Json) => e.1 = e'.1 ∧ Reorders e.2 e'.2) entries moved :=
      Json.entriesReorder_iff.2 ⟨keysMatch, values⟩
    have apart : moved.Pairwise fun e e' => e.1 ≠ e'.1 := by
      have nodup := (Json.keysDistinct_object.1 distinct).1
      rw [keysMatch] at nodup
      exact List.pairwise_map.1 nodup
    have inOrder : moved.foldlM setEntry {} = .ok o := by
      refine foldlM_ok_of_forall₂ ?_ matched read
      exact setEntry_rigid
    refine foldlM_ok_of_perm Ne.symm ?_ perm apart inOrder
    exact setEntry_swap
  | array related =>
    rename_i items items'
    simp only [shape] at read ⊢
    obtain ⟨options, folded, checked⟩ := bind_eq_ok.1 read
    have numbered := forall₂_zipIdx (forall₂_zip related keys) 0
    have refolded : (items'.zip keys).zipIdx.foldlM
        (fun (o : Options) (e : (Json × String) × Nat) => o.set [.index e.2] e.1.2 e.1.1) {} = .ok options := by
      refine foldlM_ok_of_forall₂ ?_ numbered folded
      rintro ⟨⟨w, key⟩, i⟩ ⟨⟨w', key'⟩, i'⟩ b b' ⟨⟨reorderedItem, sameKey⟩, sameIndex⟩ step
      simp only at reorderedItem sameKey sameIndex step ⊢
      subst sameKey sameIndex
      rw [set_rigid step reorderedItem]
      exact step
    rw [refolded, ← related.length_eq]
    exact checked
  | _ => simp [shape, Json.Shape.fail] at read

theorem read_reorders {v v' : Json} {path : String} {o : Options} (distinct : v.keysDistinct = true)
    (reordered : Reorders v v') (read : Options.read v path = .ok o) : Options.read v' path = .ok o := by
  unfold Options.read at read ⊢
  cases shaped : shape v with
  | error e => rw [shaped] at read; cases read
  | ok options =>
    rw [shaped] at read
    rw [shape_reorders distinct reordered shaped]
    exact read

end Options

/-! ### External types -/

namespace ExternalNode

theorem shape_array_rigid {items : List Json} {v' : Json} {e : ExternalNode}
    (read : shape (.array items) = .ok e) (reordered : Reorders (.array items) v') : v' = .array items := by
  obtain ⟨items', rfl, related⟩ := reordered.array_left
  match items, related, read with
  | [], .nil, read => cases read
  | [_], .cons _ .nil, read =>
    simp only [shape] at read
    obtain ⟨_, _, failed⟩ := bind_eq_ok.1 read
    cases failed
  | symbol :: source :: rest, .cons first (.cons second later), read =>
    simp only [shape] at read
    obtain ⟨s, readSymbol, read⟩ := bind_eq_ok.1 read
    obtain ⟨t, readSource, checked⟩ := bind_eq_ok.1 read
    have empty : rest = [] := by
      cases rest with
      | nil => rfl
      | cons _ _ => cases checked
    subst empty
    cases later
    rw [Json.Shape.string_rigid readSymbol first, Json.Shape.string_rigid readSource second]

/-- One entry of an external type's object form: `symbol` and `source` each fill their half. -/
def readEntry : Option String × Option String → String × Json → Shaped (Option String × Option String)
  | acc, (key, value) =>
    if key = "symbol" then do return (some (← Json.Shape.string [.key key] value), acc.2)
    else if key = "source" then do return (acc.1, some (← Json.Shape.string [.key key] value))
    else Json.Shape.fail [.key key] (.unknownField key keys)

theorem shape_object_of_fold {entries entries' : List (String × Json)} {e : ExternalNode}
    (same : ∀ found, entries.foldlM readEntry (none, none) = .ok found →
      entries'.foldlM readEntry (none, none) = .ok found)
    (read : shape (.object entries) = .ok e) : shape (.object entries') = .ok e := by
  simp only [shape] at read ⊢
  change (entries.foldlM readEntry (none, none) >>= _) = _ at read
  change (entries'.foldlM readEntry (none, none) >>= _) = _
  obtain ⟨found, folded, finished⟩ := bind_eq_ok.1 read
  rw [same found folded]
  exact finished

theorem readEntry_eq_ok {acc acc' : Option String × Option String} {k : String} {w : Json} :
    readEntry acc (k, w) = .ok acc' ↔
      ∃ s, w = .string s ∧ (k = "symbol" ∧ acc' = (some s, acc.2) ∨ k = "source" ∧ acc' = (acc.1, some s)) := by
  simp only [readEntry]
  by_cases symbol : k = "symbol"
  · subst symbol
    cases w <;> simp [Json.Shape.string, Json.Shape.fail, pure, Except.pure, bind, Except.bind, eq_comm]
  · by_cases source : k = "source"
    · subst source
      cases w <;> simp [Json.Shape.string, Json.Shape.fail, pure, Except.pure, bind, Except.bind, eq_comm]
    · simp [symbol, source, Json.Shape.fail]

theorem readEntry_rigid {acc acc' : Option String × Option String} {e e' : String × Json}
    (matched : e.1 = e'.1 ∧ Reorders e.2 e'.2) (read : readEntry acc e = .ok acc') :
    readEntry acc e' = .ok acc' := by
  obtain ⟨k, w⟩ := e
  obtain ⟨k', w'⟩ := e'
  obtain ⟨same, related⟩ := matched
  simp only at same related
  subst same
  obtain ⟨s, rfl, filled⟩ := readEntry_eq_ok.1 read
  rw [related.string_left]
  exact readEntry_eq_ok.2 ⟨s, rfl, filled⟩

theorem readEntry_swap {acc acc' : Option String × Option String} {e e' : String × Json}
    (differ : e.1 ≠ e'.1) (both : (readEntry acc e >>= fun mid => readEntry mid e') = .ok acc') :
    (readEntry acc e' >>= fun mid => readEntry mid e) = .ok acc' := by
  obtain ⟨k, w⟩ := e
  obtain ⟨k', w'⟩ := e'
  obtain ⟨mid, first, second⟩ := bind_eq_ok.1 both
  obtain ⟨s, rfl, filled⟩ := readEntry_eq_ok.1 first
  obtain ⟨t, rfl, filled'⟩ := readEntry_eq_ok.1 second
  simp only at differ
  rcases filled with ⟨rfl, rfl⟩ | ⟨rfl, rfl⟩ <;> rcases filled' with ⟨rfl, rfl⟩ | ⟨rfl, rfl⟩
  · exact absurd rfl differ
  · exact bind_eq_ok.2 ⟨_, readEntry_eq_ok.2 ⟨t, rfl, .inr ⟨rfl, rfl⟩⟩, readEntry_eq_ok.2 ⟨s, rfl, .inl ⟨rfl, rfl⟩⟩⟩
  · exact bind_eq_ok.2 ⟨_, readEntry_eq_ok.2 ⟨t, rfl, .inl ⟨rfl, rfl⟩⟩, readEntry_eq_ok.2 ⟨s, rfl, .inr ⟨rfl, rfl⟩⟩⟩
  · exact absurd rfl differ

theorem shape_reorders {v v' : Json} {e : ExternalNode} (distinct : v.keysDistinct = true)
    (reordered : Reorders v v') (read : shape v = .ok e) : shape v' = .ok e := by
  cases v with
  | array items => rw [shape_array_rigid read reordered]; exact read
  | object entries =>
    obtain ⟨entries', moved, rfl, matched, perm⟩ := reordered.object_left
    have apart : moved.Pairwise fun e e' => e.1 ≠ e'.1 := by
      have nodup := (Json.keysDistinct_object.1 distinct).1
      rw [matched.keys] at nodup
      exact List.pairwise_map.1 nodup
    refine shape_object_of_fold (fun found folded => ?_) read
    have inOrder : moved.foldlM readEntry (none, none) = .ok found := by
      refine foldlM_ok_of_forall₂ ?_ matched folded
      exact readEntry_rigid
    refine foldlM_ok_of_perm Ne.symm ?_ perm apart inOrder
    exact readEntry_swap
  | _ => cases read

end ExternalNode

/-- One numbered item of the externs list, read as an external type. -/
def readExtern : Json × Nat → Shaped ExternalNode
  | (item, i) =>
    match ExternalNode.shape item with
    | .ok e => .ok e
    | .error e => .error ⟨.index i :: e.path, e.misfit⟩

theorem readExtern_eq_ok {item : Json} {i : Nat} {e : ExternalNode} :
    readExtern (item, i) = .ok e ↔ ExternalNode.shape item = .ok e := by
  simp only [readExtern]
  split <;> simp_all

theorem readExterns_of_mapM {items items' : List Json} {externs : List ExternalNode}
    (same : ∀ r, items.zipIdx.mapM readExtern = .ok r → items'.zipIdx.mapM readExtern = .ok r)
    (read : readExterns (.array items) = .ok externs) : readExterns (.array items') = .ok externs := by
  simp only [readExterns] at read ⊢
  split at read
  · rename_i mapped
    cases read
    have moved := same _ mapped
    split
    · rename_i mapped'
      cases mapped'.symm.trans moved
      rfl
    · rename_i mapped'
      cases mapped'.symm.trans moved
  · cases read

theorem readExterns_reorders {v v' : Json} {externs : List ExternalNode} (distinct : v.keysDistinct = true)
    (reordered : Reorders v v') (read : readExterns v = .ok externs) : readExterns v' = .ok externs := by
  cases reordered with
  | array related =>
    rename_i items items'
    have each := (List.forall₂_and_left _ _).2 ⟨Json.keysDistinct_array.1 distinct, related⟩
    refine readExterns_of_mapM (fun found mapped => ?_) read
    refine mapM_ok_of_forall₂ ?_ (forall₂_zipIdx each 0) mapped
    rintro ⟨item, i⟩ ⟨item', i'⟩ e ⟨⟨itemDistinct, reorderedItem⟩, same⟩ step
    simp only at itemDistinct reorderedItem same
    subst same
    exact readExtern_eq_ok.2 (ExternalNode.shape_reorders itemDistinct reorderedItem (readExtern_eq_ok.1 step))
  | _ => simp [readExterns, Json.Shape.fail] at read

/-! ### The root -/

section Root

variable {root root' : List (String × Json)} (distinct : (Json.object root).keysDistinct = true)
  (reordered : Reorders (.object root) (.object root'))
include distinct reordered

theorem readOptionsBlock_reorders {options : Options} (read : readOptionsBlock root = .ok options) :
    readOptionsBlock root' = .ok options := by
  have nodup := (Json.keysDistinct_object.1 distinct).1
  unfold readOptionsBlock at read ⊢
  cases found : Json.lookup "options" root with
  | none => rw [Json.lookup_none_of_reorders nodup reordered found]; rw [found] at read; exact read
  | some v =>
    obtain ⟨v', moved, related⟩ := Json.lookup_some_of_reorders nodup reordered found
    rw [found] at read
    rw [moved]
    exact Options.read_reorders (Json.keysDistinct_of_lookup distinct found) related read

theorem readExternsList_reorders {externs : List ExternalNode} (read : readExternsList root = .ok externs) :
    readExternsList root' = .ok externs := by
  have nodup := (Json.keysDistinct_object.1 distinct).1
  unfold readExternsList at read ⊢
  cases found : Json.lookup "externs" root with
  | none => rw [Json.lookup_none_of_reorders nodup reordered found]; rw [found] at read; exact read
  | some v =>
    obtain ⟨v', moved, related⟩ := Json.lookup_some_of_reorders nodup reordered found
    rw [found] at read
    rw [moved]
    exact readExterns_reorders (Json.keysDistinct_of_lookup distinct found) related read

theorem readBasesTable_reorders {bases : List (String × Json)} (read : readBasesTable root = .ok bases) :
    ∃ bases', readBasesTable root' = .ok bases' ∧ Reorders (.object bases) (.object bases') := by
  have nodup := (Json.keysDistinct_object.1 distinct).1
  unfold readBasesTable at read ⊢
  cases found : Json.lookup "bases" root with
  | none =>
    rw [found] at read
    cases read
    rw [Json.lookup_none_of_reorders nodup reordered found]
    exact ⟨[], rfl, .refl _⟩
  | some v =>
    obtain ⟨v', moved, related⟩ := Json.lookup_some_of_reorders nodup reordered found
    rw [found] at read
    rw [moved]
    cases v with
    | object bases =>
      cases read
      obtain ⟨bases', _, rfl, _⟩ := related.object_left
      exact ⟨bases', rfl, related⟩
    | _ => cases read

end Root

/-- The parts of a reordered document: the same options and external types, and the bases and
node tables reordered. -/
structure DocumentParts.Rearranged (parts parts' : DocumentParts) : Prop where
  options : parts'.options = parts.options
  externs : parts'.externs = parts.externs
  bases : Reorders (.object parts.bases) (.object parts'.bases)
  nodes : Reorders (.object parts.nodes) (.object parts'.nodes)

theorem readParts_reorders {v v' : Json} {parts : DocumentParts} (distinct : v.keysDistinct = true)
    (reordered : Reorders v v') (read : readParts v = .ok parts) :
    ∃ parts', readParts v' = .ok parts' ∧ parts.Rearranged parts' := by
  cases v with
  | object root =>
    obtain ⟨root', _, rfl, _, _⟩ := reordered.object_left
    have nodup := (Json.keysDistinct_object.1 distinct).1
    simp only [readParts] at read ⊢
    cases unknown : root.find? (fun e => !topLevelKeys.contains e.1) with
    | some e => rw [unknown] at read; cases read
    | none =>
      rw [unknown] at read
      rw [Json.find?_key_eq_none_of_reorders reordered (fun k => !topLevelKeys.contains k) unknown]
      cases nodesFound : Json.lookup "nodes" root with
      | none => rw [nodesFound] at read; cases read
      | some nodesValue =>
        obtain ⟨nodesValue', nodesMoved, related⟩ := Json.lookup_some_of_reorders nodup reordered nodesFound
        rw [nodesFound] at read
        rw [nodesMoved]
        cases nodesValue with
        | object nodes =>
          obtain ⟨nodes', _, rfl, _⟩ := related.object_left
          obtain ⟨options, optionsRead, rest⟩ := bind_eq_ok.1 read
          obtain ⟨externs, externsRead, rest⟩ := bind_eq_ok.1 rest
          obtain ⟨bases, basesRead, stored⟩ := bind_eq_ok.1 rest
          cases stored
          obtain ⟨bases', basesRead', basesRelated⟩ := readBasesTable_reorders distinct reordered basesRead
          refine ⟨⟨nodes', options, externs, bases'⟩, ?_, ⟨rfl, rfl, basesRelated, related⟩⟩
          rw [readOptionsBlock_reorders distinct reordered optionsRead,
            readExternsList_reorders distinct reordered externsRead, basesRead']
          rfl
        | _ => cases read
  | _ => cases read

end NodeSchema
