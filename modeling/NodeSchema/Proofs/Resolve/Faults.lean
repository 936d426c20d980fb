import NodeSchema.Proofs.Resolve.Inheritance

set_option autoImplicit false

/-! Which fault flattening reports. The depth-first walk in base order is written out as the
list of what it meets (`Declarations.Tours`): for each base a record lists, in order, a
`missing` event when the base is not found, a `cycle` event when it is found but already on
the path, and otherwise the tour of the base with the base pushed on the path; after the
bases, the record's own fields. The path only grows by found bases that are off it, so every
record has a tour.

Main statement: flattening succeeds exactly when every base reached is found, none reaches
itself and the reference list repeats no field name, and then returns that list; and it fails
with exactly the first fault of the tour: the first missing base, the first base met on its
own path, or the first field whose name a field met before it has. -/

namespace NodeSchema

/-- What the depth-first walk of inheritance meets. -/
inductive WalkEvent where
  | field (f : ResolvedField)
  | missing (owner base : String)
  | cycle (base : String)
  deriving DecidableEq, Repr

/-- The fault an event is once the fields named `seen` were met. -/
def WalkEvent.fault (seen : List String) : WalkEvent → Option ResolveError
  | .field f => if f.name ∈ seen then some (.duplicateField f.declaredIn f.name) else none
  | .missing owner base => some (.unknownBase owner base)
  | .cycle base => some (.cyclicInheritance base)

/-- The first fault among events: the events before it are fields with distinct names, and it
is a missing base, a base on the path, or a field whose name one of them has. -/
def FirstFault (events : List WalkEvent) (e : ResolveError) : Prop :=
  ∃ (fields : List ResolvedField) (event : WalkEvent) (rest : List WalkEvent),
    events = fields.map .field ++ event :: rest ∧ (fields.map (·.name)).Nodup ∧
      event.fault (fields.map (·.name)) = some e

namespace Declarations

mutual

/-- `Tours d visiting y events`: the walk from `y`, with `visiting` the bases on the path, meets
`events`. -/
inductive Tours (d : Declarations) : List String → Record → List WalkEvent → Prop
  | mk {visiting : List String} {y : Record} {inherited : List WalkEvent} :
      BasesTour d visiting y.name y.bases inherited →
        Tours d visiting y (inherited ++ y.ownFields.map .field)

/-- What the walk meets at the bases `bs` listed by the record `owner`. -/
inductive BasesTour (d : Declarations) : List String → String → List String → List WalkEvent → Prop
  | nil {visiting : List String} {owner : String} : BasesTour d visiting owner [] []
  | missing {visiting : List String} {owner b : String} {bs : List String} {rest : List WalkEvent} :
      d.base? b = none → BasesTour d visiting owner bs rest →
        BasesTour d visiting owner (b :: bs) (.missing owner b :: rest)
  | cycle {visiting : List String} {owner b : String} {bs : List String} {base : BaseNode}
      {rest : List WalkEvent} :
      d.base? b = some base → b ∈ visiting → BasesTour d visiting owner bs rest →
        BasesTour d visiting owner (b :: bs) (.cycle b :: rest)
  | enter {visiting : List String} {owner b : String} {bs : List String} {base : BaseNode}
      {first rest : List WalkEvent} :
      d.base? b = some base → b ∉ visiting → Tours d (b :: visiting) base.toRecord first →
        BasesTour d visiting owner bs rest → BasesTour d visiting owner (b :: bs) (first ++ rest)

end

end Declarations

/-- Replays the events of a walk after the fields `out`: a field is appended unless its name
was collected, and a missing base or a base on the path ends the replay. -/
def replay : List ResolvedField → List WalkEvent → Except ResolveError (List ResolvedField)
  | out, [] => .ok out
  | out, .field f :: rest =>
    if out.any (·.name == f.name) then .error (.duplicateField f.declaredIn f.name)
    else replay (out ++ [f]) rest
  | _, .missing owner base :: _ => .error (.unknownBase owner base)
  | _, .cycle base :: _ => .error (.cyclicInheritance base)

theorem replay_append : ∀ (xs ys : List WalkEvent) (out : List ResolvedField),
    replay out (xs ++ ys) = replay out xs >>= fun o => replay o ys
  | [], _, _ => rfl
  | .field f :: xs, ys, out => by
    rw [List.cons_append, replay, replay]
    split
    · rfl
    · exact replay_append xs ys _
  | .missing _ _ :: _, _, _ => rfl
  | .cycle _ :: _, _, _ => rfl

theorem replay_fields : ∀ (fields out : List ResolvedField),
    replay out (fields.map .field) = appendDistinct out fields
  | [], _ => rfl
  | f :: fs, out => by
    rw [List.map_cons, replay, appendDistinct]
    split
    · rfl
    · exact replay_fields fs _

theorem any_name_iff {out : List ResolvedField} {f : ResolvedField} :
    out.any (·.name == f.name) = true ↔ f.name ∈ out.map (·.name) := by
  rw [List.any_eq_true, List.mem_map]
  constructor
  · rintro ⟨g, listed, same⟩
    exact ⟨g, listed, by simpa using same⟩
  · rintro ⟨g, listed, same⟩
    exact ⟨g, listed, by simp [same]⟩

theorem WalkEvent.fault_eq_none {seen : List String} {event : WalkEvent} :
    event.fault seen = none ↔ ∃ f, event = .field f ∧ f.name ∉ seen := by
  cases event with
  | field f => simp [fault]
  | missing owner base => simp [fault]
  | cycle base => simp [fault]

theorem replay_cons_of_fault {out : List ResolvedField} {event : WalkEvent} {e : ResolveError}
    (rest : List WalkEvent) (faulted : event.fault (out.map (·.name)) = some e) :
    replay out (event :: rest) = .error e := by
  cases event with
  | field f =>
    have present : f.name ∈ out.map (·.name) := by
      by_contra absent
      simp [WalkEvent.fault, absent] at faulted
    simp only [WalkEvent.fault, if_pos present, Option.some.injEq] at faulted
    rw [replay, if_pos (any_name_iff.2 present), faulted]
  | missing owner base =>
    cases faulted
    rfl
  | cycle base =>
    cases faulted
    rfl

theorem replay_field_of_fresh {out : List ResolvedField} {f : ResolvedField} (rest : List WalkEvent)
    (fresh : f.name ∉ out.map (·.name)) : replay out (.field f :: rest) = replay (out ++ [f]) rest := by
  rw [replay, if_neg (fun present => fresh (any_name_iff.1 present))]

theorem not_mem_of_nodup {out fields : List ResolvedField} {f : ResolvedField}
    (distinct : ((out ++ f :: fields).map (·.name)).Nodup) : f.name ∉ out.map (·.name) := by
  rw [List.map_append, List.nodup_append] at distinct
  exact fun present => distinct.2.2 _ present _ List.mem_cons_self rfl

theorem replay_eq_error_iff {e : ResolveError} : ∀ {out : List ResolvedField} {events : List WalkEvent},
    (out.map (·.name)).Nodup →
      (replay out events = .error e ↔
        ∃ (fields : List ResolvedField) (event : WalkEvent) (rest : List WalkEvent),
          events = fields.map .field ++ event :: rest ∧ ((out ++ fields).map (·.name)).Nodup ∧
            event.fault ((out ++ fields).map (·.name)) = some e)
  | out, [], _ => by simp [replay]
  | out, event :: rest, distinct => by
    cases faulted : event.fault (out.map (·.name)) with
    | some e' =>
      -- the replay stops here, and a fault further on would need this event to be a clean field
      rw [replay_cons_of_fault rest faulted]
      constructor
      · rintro ⟨⟩
        exact ⟨[], event, rest, rfl, by simpa using distinct, by simpa using faulted⟩
      · rintro ⟨fields, event', rest', split, distinct', faulted'⟩
        cases fields with
        | nil =>
          cases split
          simp only [List.append_nil, faulted, Option.some.injEq] at faulted'
          rw [faulted']
        | cons g fields =>
          cases split
          have clean := WalkEvent.fault_eq_none.2 ⟨g, rfl, not_mem_of_nodup distinct'⟩
          rw [clean] at faulted
          cases faulted
    | none =>
      obtain ⟨f, rfl, fresh⟩ := WalkEvent.fault_eq_none.1 faulted
      have grown := names_nodup_append_of_absent distinct (fun present => fresh (any_name_iff.1 present))
      rw [replay_field_of_fresh rest fresh, replay_eq_error_iff grown]
      constructor
      · rintro ⟨fields, event', rest', rfl, distinct', faulted'⟩
        exact ⟨f :: fields, event', rest', rfl, by simpa using distinct', by simpa using faulted'⟩
      · rintro ⟨fields, event', rest', split, distinct', faulted'⟩
        cases fields with
        | nil =>
          cases split
          simp only [List.append_nil, faulted] at faulted'
          cases faulted'
        | cons g fields =>
          cases split
          exact ⟨fields, event', rest', rfl, by simpa using distinct', by simpa using faulted'⟩

section Walk

variable {d : Declarations}

open Declarations

theorem tours_exist (visiting : List String) (y : Record) : ∃ events, d.Tours visiting y events := by
  -- the walk's recursion, its collected fields left aside
  generalize ([] : List ResolvedField) = out
  induction visiting, y, out using collectFields.induct d with
  | case1 visiting y out basesTour =>
    have bases : ∀ bs : List String, ∃ events, d.BasesTour visiting y.name bs events := by
      intro bs
      induction bs with
      | nil => exact ⟨[], .nil⟩
      | cons b bs ih =>
        obtain ⟨rest, toured⟩ := ih
        cases found : d.base? b with
        | none => exact ⟨_, .missing found toured⟩
        | some base =>
          by_cases onPath : b ∈ visiting
          · exact ⟨_, .cycle found onPath toured⟩
          · obtain ⟨first, entered⟩ := basesTour [] b base found onPath
            exact ⟨_, .enter found onPath entered toured⟩
    obtain ⟨inherited, toured⟩ := bases y.bases
    exact ⟨_, .mk toured⟩

theorem collectFields_eq_replay : ∀ (visiting : List String) (y : Record) (out : List ResolvedField),
    ∀ events, d.Tours visiting y events → collectFields d visiting y out = replay out events := by
  intro visiting y out
  induction visiting, y, out using collectFields.induct d with
  | case1 visiting y out basesAgree =>
    intro events toured
    cases toured with
    | mk toured =>
      have bases : ∀ (bs : List String) (inherited : List WalkEvent),
          d.BasesTour visiting y.name bs inherited →
            ∀ o, bs.foldlM (baseStep d visiting y.name) o = replay o inherited := by
        intro bs
        induction bs with
        | nil =>
          intro inherited toured o
          cases toured
          rfl
        | cons b bs ih =>
          intro inherited toured o
          cases toured with
          | missing found rest =>
            rw [List.foldlM_cons]
            simp only [baseStep, found]
            rfl
          | cycle found onPath rest =>
            rw [List.foldlM_cons]
            simp only [baseStep, found, if_pos onPath]
            rfl
          | @enter _ _ _ _ base first restEvents found offPath entered rest =>
            have step : baseStep d visiting y.name o b = replay o first := by
              simp only [baseStep, found, if_neg offPath]
              exact basesAgree o b _ found offPath _ entered
            rw [List.foldlM_cons, replay_append, step]
            congr 1
            funext o'
            exact ih _ rest o'
      rw [collectFields_eq, replay_append, bases y.bases _ toured out]
      congr 1
      funext o
      rw [addOwnFields_eq_appendDistinct, replay_fields]
      rfl

end Walk

/-- Flattening the fields of a record succeeds exactly when every base reached is found, no base
reached reaches itself and the reference list repeats no field name, and then returns the
reference list, which exists whenever the first two hold. Every record has a tour, and
flattening fails exactly with its first fault: whichever missing base, base on its own path or
repeated field name the depth-first walk in base order meets first. -/
theorem resolveFields_eq_reference (d : Declarations) (x : Record) :
    (d.BasesFound x → d.NoCycle x → ∃ fl, d.Flattens x fl) ∧
    (∀ out, resolveFields d x = .ok out ↔
      d.BasesFound x ∧ d.NoCycle x ∧ d.Flattens x out ∧ (out.map (·.name)).Nodup) ∧
    (∃ events, d.Tours [] x events) ∧
    (∀ events, d.Tours [] x events → ∀ e, resolveFields d x = .error e ↔ FirstFault events e) := by
  refine ⟨fun found acyclic => flattens_of_walkable
      (Declarations.walkable_nil_iff.2 ⟨found, acyclic⟩),
    resolveFields_eq_ok_iff d x, tours_exist [] x, ?_⟩
  intro events toured e
  rw [resolveFields, collectFields_eq_replay [] x [] events toured,
    @replay_eq_error_iff e [] events List.nodup_nil]
  simp only [List.nil_append]
  rfl

end NodeSchema
