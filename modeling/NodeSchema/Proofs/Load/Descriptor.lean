import NodeSchema.Schema.Field
import NodeSchema.Proofs.Text.Trim

set_option autoImplicit false

/-! The grammar of field descriptor texts. A descriptor is written as a non-empty list of parts
of one sort joined by bars: built-in types, tags after a `.`, or valid names that are no
built-in type. Blanks may stand around each part, around the whole text, between the core and
a suffix `?`, `[]` or `{}`, and just inside `<` and `>`. A core without wrapper is a scalar
unless its last part itself ends like a suffix.

Main statement: reading a descriptor accepts exactly the texts of this grammar. Such a text
reads as its structure and the kind its parts declare, each part kept at its first
appearance, unless one of its names is not declared, which is reported as the first such name;
every other text is refused as unrecognized. -/

namespace NodeSchema

open Text

/-- The sorts of the parts of one descriptor. -/
inductive PartSort where
  | builtin
  | tag
  | node
  deriving DecidableEq, Repr

/-- A written part of a sort: a built-in type; a `.` and a tag that is not empty, holds no bar
and does not end in a blank; or a valid name that is no built-in type, declared or not. -/
def PartSort.Admits : PartSort → String → Prop
  | .builtin, p => isBuiltin p = true
  | .tag, p => ∃ t, p.toList = '.' :: t ∧ t ≠ [] ∧ '|' ∉ t ∧ ∀ c, t.getLast? = some c → isBlank c = false
  | .node, p => Text.isIdentifier p = true ∧ isBuiltin p = false

/-- The kind of value the parts of a sort declare; a tag loses its `.`. -/
def PartSort.kind : PartSort → List String → ValueKind
  | .builtin, parts => .builtin parts
  | .tag, parts => .enum (parts.map fun p => String.ofList (p.toList.drop 1))
  | .node, parts => .node parts

/-- The characters of a structure around a core: a suffix after blanks, or angle brackets with
blanks just inside. -/
def Structure.wrap (core inner inner' : List Char) : Structure → List Char
  | .scalar => core
  | .optional => core ++ inner ++ ['?']
  | .array => core ++ inner ++ ['[', ']']
  | .map => core ++ inner ++ ['\x7b', '\x7d']
  | .set => '<' :: (inner ++ core ++ inner' ++ ['>'])

/-- Characters that end like a wrapped core: in `?`, `[]` or `{}`. -/
def EndsWrapped (cs : List Char) : Prop :=
  (∃ body, cs = body ++ ['?']) ∨ (∃ body, cs = body ++ ['[', ']']) ∨ (∃ body, cs = body ++ ['\x7b', '\x7d'])

/-- A part as written, with the blanks before and after it. -/
structure WrittenPart where
  before : List Char
  text : String
  after : List Char

/-- A descriptor as written: its structure, the sort and the parts of its core, and the blanks
at the edges and beside the wrapper. -/
structure WrittenDescriptor where
  container : Structure
  sort : PartSort
  parts : List WrittenPart
  /-- Blanks before the whole text. -/
  lead : List Char
  /-- Blanks after the whole text. -/
  trail : List Char
  /-- Blanks between the core and a suffix, or just inside `<`. -/
  inner : List Char
  /-- Blanks just inside `>`. -/
  inner' : List Char

def WrittenPart.chars (p : WrittenPart) : List Char := p.before ++ p.text.toList ++ p.after

namespace WrittenDescriptor

def texts (w : WrittenDescriptor) : List String := w.parts.map (·.text)

/-- The core: the parts with their blanks, joined by bars. -/
def core (w : WrittenDescriptor) : List Char := ['|'].intercalate (w.parts.map WrittenPart.chars)

def chars (w : WrittenDescriptor) : List Char :=
  w.lead ++ w.container.wrap w.core w.inner w.inner' ++ w.trail

/-- What the text declares: its structure, and the kind of its parts kept at their first
appearance. -/
def descriptor (w : WrittenDescriptor) : FieldDescriptor := ⟨w.container, w.sort.kind w.texts.eraseDups⟩

/-- A text of the grammar. -/
structure Valid (w : WrittenDescriptor) : Prop where
  lead : Blank w.lead
  trail : Blank w.trail
  inner : Blank w.inner
  inner' : Blank w.inner'
  around : ∀ p ∈ w.parts, Blank p.before ∧ Blank p.after
  nonempty : w.parts ≠ []
  sorted : ∀ p ∈ w.parts, w.sort.Admits p.text
  /-- A scalar's last part does not itself end like a suffix. -/
  scalarEnd : w.container = .scalar → ∀ p ∈ w.parts.getLast?, ¬EndsWrapped p.text.toList

def Declared (names : NameTable) (w : WrittenDescriptor) : Prop :=
  w.sort = .node → ∀ p ∈ w.texts, names.contains p = true

end WrittenDescriptor

/-! ### Parts -/

/-- What reading relies on of a written part: it is tight and not empty, holds no bar, and can
be taken neither for an opening `<` nor for the end of a suffix. -/
def PartShape (cs : List Char) : Prop :=
  Tight cs ∧ cs ≠ [] ∧ '|' ∉ cs ∧ cs.head? ≠ some '<' ∧ cs ≠ [']'] ∧ cs ≠ ['\x7d']

instance : DecidablePred PartShape := fun cs =>
  inferInstanceAs (Decidable (Tight cs ∧ cs ≠ [] ∧ '|' ∉ cs ∧ cs.head? ≠ some '<' ∧ cs ≠ [']'] ∧ cs ≠ ['\x7d']))

theorem builtin_shape : ∀ p ∈ builtinTypes, PartShape p.toList ∧ p.toList.head? ≠ some '.' := by
  decide

theorem not_blank_of_between {a b c : Char} (low : a ≤ c) (high : c ≤ b) (bottom : 32 < a.toNat)
    (top : b.toNat < 0x85) : isBlank c = false := by
  rw [Char.le_def, UInt32.le_iff_toNat_le] at low high
  have inside : 32 < c.toNat ∧ c.toNat < 0x85 := ⟨Nat.lt_of_lt_of_le bottom low, Nat.lt_of_le_of_lt high top⟩
  simp only [isBlank, blankRanges, List.any_cons, List.any_nil, Bool.or_false, Bool.or_eq_false_iff,
    Bool.and_eq_false_iff, decide_eq_false_iff_not, Nat.not_le]
  omega

theorem not_blank_of_isNamePart {c : Char} (part : isNamePart c = true) : isBlank c = false := by
  simp only [isNamePart, isNameStart, isAsciiLetter, Bool.or_eq_true, Bool.and_eq_true,
    decide_eq_true_eq] at part
  -- letters and digits lie between the space and the first blank above ASCII, and so do the signs
  rcases part with (((⟨low, high⟩ | ⟨low, high⟩) | rfl) | rfl) | ⟨low, high⟩
  · exact not_blank_of_between low high (by decide) (by decide)
  · exact not_blank_of_between low high (by decide) (by decide)
  · decide
  · decide
  · exact not_blank_of_between low high (by decide) (by decide)

theorem identifier_shape {p : String} (valid : isIdentifier p = true) :
    PartShape p.toList ∧ p.toList.head? ≠ some '.' := by
  unfold isIdentifier at valid
  split at valid
  · cases valid
  · rename_i c rest spelled
    simp only [Bool.and_eq_true, List.all_eq_true] at valid
    obtain ⟨start, later⟩ := valid
    have part : ∀ d ∈ c :: rest, isNamePart d = true := by
      intro d member
      rcases List.mem_cons.1 member with rfl | inRest
      · simp [isNamePart, start]
      · exact later d inRest
    have notBar : isNamePart '|' = false := by decide
    rw [spelled]
    refine ⟨⟨tight_of_not_blank fun d member => not_blank_of_isNamePart (part d member), List.cons_ne_nil _ _,
      fun bar => absurd (part '|' bar) (by rw [notBar]; decide), ?_, ?_, ?_⟩, ?_⟩
    -- each remaining shape would start the name with a sign no name starts with
    all_goals
      intro same
      simp only [List.head?_cons, Option.some.injEq, List.cons.injEq] at same
    · exact absurd start (by rw [same]; decide)
    · exact absurd start (by rw [same.1]; decide)
    · exact absurd start (by rw [same.1]; decide)
    · exact absurd start (by rw [same]; decide)

theorem tag_shape {p : String} {t : List Char} (spelled : p.toList = '.' :: t) (nonempty : t ≠ [])
    (noBar : '|' ∉ t) (last : ∀ c, t.getLast? = some c → isBlank c = false) : PartShape p.toList := by
  have dot : isBlank '.' = false := by decide
  rw [spelled]
  refine ⟨⟨fun c first => ?_, fun c final => last c ?_⟩, List.cons_ne_nil _ _, ?_, by simp, ?_, ?_⟩
  · simp only [List.head?_cons, Option.some.injEq] at first
    rw [← first, dot]
  · rw [List.getLast?_cons, List.getLast?_eq_some_getLast nonempty] at final
    rw [List.getLast?_eq_some_getLast nonempty]
    simpa using final
  · simp [noBar]
  · simp
  · simp

theorem PartSort.Admits.shape {sort : PartSort} {p : String} (admitted : sort.Admits p) : PartShape p.toList := by
  cases sort with
  | builtin => exact (builtin_shape p (List.contains_iff_mem.1 admitted)).1
  | tag =>
    obtain ⟨t, spelled, nonempty, noBar, last⟩ := admitted
    exact tag_shape spelled nonempty noBar last
  | node => exact (identifier_shape admitted.1).1

/-! ### Splitting off the structure -/

/-- How trimmed characters split into a structure and its core, by how they end. A scalar is
what neither ends like a suffix nor stands in angle brackets. -/
inductive Splits (t : List Char) : Structure × String → Prop
  | optional (body : List Char) : t = body ++ ['?'] → Splits t (.optional, trimBlank (String.ofList body))
  | array (body : List Char) : t = body ++ ['[', ']'] → Splits t (.array, trimBlank (String.ofList body))
  | map (body : List Char) : t = body ++ ['\x7b', '\x7d'] → Splits t (.map, trimBlank (String.ofList body))
  | set (body : List Char) : t = '<' :: (body ++ ['>']) → Splits t (.set, trimBlank (String.ofList body))
  | scalar : ¬EndsWrapped t → (∀ body, t ≠ '<' :: (body ++ ['>'])) → Splits t (.scalar, String.ofList t)

theorem splits_splitStructure (text : String) : Splits (trimChars text.toList) (splitStructure text) := by
  unfold splitStructure
  rw [toList_trimBlank]
  generalize trimChars text.toList = t
  dsimp only
  split
  · rename_i rest reversed
    exact .optional _ (by simp [← List.reverse_eq_cons_iff, reversed])
  · rename_i rest reversed
    exact .array _ (by rw [List.reverse_eq_cons_iff.1 reversed]; simp)
  · rename_i rest reversed
    exact .map _ (by rw [List.reverse_eq_cons_iff.1 reversed]; simp)
  · rename_i rest reversed
    have closed : t = rest.reverse ++ ['>'] := List.reverse_eq_cons_iff.1 reversed
    split
    · rename_i inner opened
      exact .set _ (by rw [closed, opened]; rfl)
    · -- a closing `>` without an opening `<` is part of a scalar
      rename_i notOpened
      refine .scalar ?_ ?_
      · rintro (⟨body, h⟩ | ⟨body, h⟩ | ⟨body, h⟩) <;> simp [h] at reversed
      · intro body h
        rw [closed, ← List.cons_append] at h
        exact notOpened body (List.append_cancel_right h)
  · rename_i notOptional notArray notMap notClosed
    refine .scalar ?_ ?_
    · rintro (⟨body, h⟩ | ⟨body, h⟩ | ⟨body, h⟩)
      · exact notOptional body.reverse (by simp [h])
      · exact notArray body.reverse (by simp [h])
      · exact notMap body.reverse (by simp [h])
    · intro body h
      exact notClosed (body.reverse ++ ['<']) (by simp [h])

theorem Splits.unique {t : List Char} {a b : Structure × String} (first : Splits t a) (second : Splits t b) :
    a = b := by
  cases first <;> cases second <;> simp_all [EndsWrapped] <;>
    rename_i same _ <;> simpa [List.getLast?_cons] using congrArg List.getLast? same

theorem EndsWrapped.append_left {m : List Char} (wrapped : EndsWrapped m) (front : List Char) :
    EndsWrapped (front ++ m) := by
  rcases wrapped with ⟨body, rfl⟩ | ⟨body, rfl⟩ | ⟨body, rfl⟩
  · exact Or.inl ⟨front ++ body, by rw [List.append_assoc]⟩
  · exact Or.inr (Or.inl ⟨front ++ body, by rw [List.append_assoc]⟩)
  · exact Or.inr (Or.inr ⟨front ++ body, by rw [List.append_assoc]⟩)

theorem endsWrapped_of_append {front m : List Char} (wrapped : EndsWrapped (front ++ m)) (shape : PartShape m) :
    EndsWrapped m := by
  obtain ⟨-, nonempty, -, -, notBracket, notBrace⟩ := shape
  rcases wrapped with ⟨body, same⟩ | ⟨body, same⟩ | ⟨body, same⟩ <;>
    rcases List.append_eq_append_iff.1 same with ⟨rest, -, ends⟩ | ⟨cut, -, suffix⟩
  all_goals first
    | exact Or.inl ⟨rest, ends⟩
    | exact Or.inr (Or.inl ⟨rest, ends⟩)
    | exact Or.inr (Or.inr ⟨rest, ends⟩)
    | rcases cut with _ | ⟨_, _ | ⟨_, _ | ⟨_, _⟩⟩⟩ <;> simp_all [EndsWrapped]

/-! ### Cutting the core into parts -/

theorem find?_eraseDups {α : Type} [BEq α] [LawfulBEq α] (p : α → Bool) : ∀ l : List α, l.eraseDups.find? p = l.find? p
  | [] => rfl
  | a :: l => by
    rw [List.eraseDups_cons, List.find?_cons, List.find?_cons]
    cases hit : p a with
    | true => rfl
    | false =>
      have shorter : (l.filter fun b => !b == a).length < l.length + 1 :=
        Nat.lt_add_one_of_le (List.length_filter_le _ l)
      have same : (fun b => decide ((!b == a) = true ∧ p b = true)) = p := by
        funext b
        by_cases copy : b = a
        · subst copy
          simp [hit]
        · simp [copy]
      rw [find?_eraseDups p (l.filter fun b => !b == a), List.find?_filter, same]
termination_by l => l.length

theorem bar_not_blank : isBlank '|' = false := by decide

theorem map_trimBlank_splitOn (cs : List Char) :
    (cs.splitOn '|').map (fun piece => trimBlank (String.ofList piece)) =
      ((cs.splitOn '|').map trimChars).map String.ofList := by
  rw [List.map_map]
  exact List.map_congr_left fun piece _ => trimBlank_ofList piece

theorem splitParts_congr {s : String} {cs : List Char}
    (same : (s.toList.splitOn '|').map trimChars = (cs.splitOn '|').map trimChars) :
    splitParts s = splitParts (String.ofList cs) := by
  unfold splitParts
  rw [String.toList_ofList, map_trimBlank_splitOn, map_trimBlank_splitOn, same]

namespace WrittenDescriptor

variable {w : WrittenDescriptor}

theorem Valid.shape (valid : w.Valid) : ∀ p ∈ w.parts, PartShape p.text.toList :=
  fun p member => (valid.sorted p member).shape

theorem Valid.noBar (valid : w.Valid) : ∀ cs ∈ w.parts.map WrittenPart.chars, '|' ∉ cs := by
  intro cs member present
  obtain ⟨p, listed, rfl⟩ := List.mem_map.1 member
  obtain ⟨before, after⟩ := valid.around p listed
  have bar := bar_not_blank
  rcases List.mem_append.1 present with inFront | inAfter
  · rcases List.mem_append.1 inFront with inBefore | inText
    · rw [before '|' inBefore] at bar
      cases bar
    · exact (valid.shape p listed).2.2.1 inText
  · rw [after '|' inAfter] at bar
    cases bar

theorem trimChars_chars {p : WrittenPart} (blanks : Blank p.before ∧ Blank p.after)
    (shape : PartShape p.text.toList) : trimChars p.chars = p.text.toList := by
  unfold WrittenPart.chars
  rw [trimChars_append_blank blanks.2, trimChars_blank_append blanks.1, trimChars_tight shape.1]

theorem Valid.pieces_core (valid : w.Valid) :
    (w.core.splitOn '|').map trimChars = w.texts.map String.toList := by
  rw [core, List.splitOn_intercalate '|' valid.noBar (by simpa using valid.nonempty), List.map_map, texts,
    List.map_map]
  exact List.map_congr_left fun p member => trimChars_chars (valid.around p member) (valid.shape p member)

theorem Valid.splitParts_core (valid : w.Valid) : splitParts (String.ofList w.core) = some w.texts.eraseDups := by
  have absent : "" ∉ w.texts := by
    intro member
    obtain ⟨q, listed, empty⟩ := List.mem_map.1 member
    exact (valid.shape q listed).2.1 (by rw [empty]; rfl)
  unfold splitParts
  rw [String.toList_ofList, map_trimBlank_splitOn, valid.pieces_core, List.map_map]
  simp [absent]

theorem Valid.trimChars_core_front (valid : w.Valid) :
    ∃ first ∈ w.parts, ∃ back, trimChars w.core = first.text.toList ++ back := by
  obtain ⟨first, rest, split⟩ := List.exists_cons_of_ne_nil valid.nonempty
  have listed : first ∈ w.parts := by rw [split]; exact List.mem_cons_self
  have shape := valid.shape first listed
  obtain ⟨after, joined⟩ := intercalate_cons_eq_append '|' first.chars (rest.map WrittenPart.chars)
  refine ⟨first, listed, ?_⟩
  rw [core, split, List.map_cons, joined, WrittenPart.chars, List.append_assoc, List.append_assoc,
    trimChars_blank_append (valid.around first listed).1, trimChars_tight_append shape.1 shape.2.1]
  exact ⟨_, rfl⟩

theorem Valid.trimChars_core_back (valid : w.Valid) :
    ∃ last ∈ w.parts.getLast?, ∃ front, trimChars w.core = front ++ last.text.toList := by
  obtain ⟨init, last, split⟩ := (List.eq_nil_or_concat w.parts).resolve_left valid.nonempty
  rw [List.concat_eq_append] at split
  have listed : last ∈ w.parts := by rw [split]; simp
  have shape := valid.shape last listed
  obtain ⟨before, joined⟩ := intercalate_append_singleton_eq '|' last.chars (init.map WrittenPart.chars)
  refine ⟨last, by simp [split], ?_⟩
  rw [core, split, List.map_append, List.map_singleton, joined, WrittenPart.chars, ← List.append_assoc,
    trimChars_append_blank (valid.around last listed).2, ← List.append_assoc,
    trimChars_append_tight shape.1 shape.2.1]
  exact ⟨_, rfl⟩

theorem Valid.trimChars_chars (valid : w.Valid) :
    trimChars w.chars = trimChars (w.container.wrap w.core w.inner w.inner') := by
  rw [chars, trimChars_append_blank valid.trail, trimChars_blank_append valid.lead]

theorem Valid.splits_scalar (valid : w.Valid) (scalar : w.container = .scalar) :
    Splits (trimChars w.core) (.scalar, String.ofList (trimChars w.core)) := by
  obtain ⟨first, listed, back, front⟩ := valid.trimChars_core_front
  obtain ⟨last, isLast, before, back'⟩ := valid.trimChars_core_back
  refine .scalar ?_ ?_
  · intro wrapped
    rw [back'] at wrapped
    have lastShape := valid.shape last (List.mem_of_getLast? isLast)
    exact valid.scalarEnd scalar last isLast (endsWrapped_of_append wrapped lastShape)
  · intro body opened
    obtain ⟨-, nonempty, -, notOpening, -⟩ := valid.shape first listed
    obtain ⟨c, rest, spelled⟩ := List.exists_cons_of_ne_nil nonempty
    rw [front, spelled, List.cons_append, List.cons.injEq] at opened
    rw [spelled, opened.1] at notOpening
    exact notOpening rfl

theorem tight_enclosed {a b : Char} (open' : isBlank a = false) (close : isBlank b = false) (inside : List Char) :
    Tight (a :: (inside ++ [b])) :=
  ⟨fun c first => by
    rw [List.head?_cons, Option.some.injEq] at first
    rwa [← first],
  fun c last => by
    simp only [List.getLast?_cons, List.getLast?_append, Option.some_or,
      Option.getD_some, Option.some.injEq] at last
    rwa [← last]⟩

theorem Valid.splits (valid : w.Valid) :
    ∃ core, Splits (trimChars w.chars) (w.container, core) ∧
      (core.toList.splitOn '|').map trimChars = (w.core.splitOn '|').map trimChars := by
  have padded : ∀ {lead trail : List Char}, Blank lead → Blank trail →
      ((trimBlank (String.ofList (lead ++ w.core ++ trail))).toList.splitOn '|').map trimChars =
        (w.core.splitOn '|').map trimChars := by
    intro lead trail leadBlank trailBlank
    rw [trimBlank_ofList, String.toList_ofList, map_trimChars_splitOn_trimChars bar_not_blank,
      map_trimChars_splitOn_blank_edges '|' leadBlank trailBlank bar_not_blank]
  -- a suffix is cut off after trimming the front; the blanks before it stay with the core
  have suffixed : ∀ suffix : List Char, Tight suffix → suffix ≠ [] →
      trimChars (w.core ++ w.inner ++ suffix) = (w.core ++ w.inner).dropWhile isBlank ++ suffix ∧
        ((trimBlank (String.ofList ((w.core ++ w.inner).dropWhile isBlank))).toList.splitOn '|').map trimChars =
          (w.core.splitOn '|').map trimChars := by
    intro suffix tight nonempty
    refine ⟨trimChars_append_tight tight nonempty _, ?_⟩
    rw [trimBlank_ofList, String.toList_ofList, map_trimChars_splitOn_trimChars bar_not_blank,
      map_trimChars_splitOn_dropWhile bar_not_blank, ← List.nil_append w.core]
    exact map_trimChars_splitOn_blank_edges '|' blank_nil valid.inner bar_not_blank w.core
  rw [valid.trimChars_chars]
  cases container : w.container with
  | scalar =>
    refine ⟨_, valid.splits_scalar container, ?_⟩
    rw [String.toList_ofList, map_trimChars_splitOn_trimChars bar_not_blank]
  | optional =>
    obtain ⟨trimmed, pieces⟩ := suffixed ['?'] (by decide) (by simp)
    exact ⟨_, .optional _ trimmed, pieces⟩
  | array =>
    obtain ⟨trimmed, pieces⟩ := suffixed ['[', ']'] (by decide) (by simp)
    exact ⟨_, .array _ trimmed, pieces⟩
  | map =>
    obtain ⟨trimmed, pieces⟩ := suffixed ['\x7b', '\x7d'] (by decide) (by simp)
    exact ⟨_, .map _ trimmed, pieces⟩
  | set =>
    have tight := tight_enclosed (by decide : isBlank '<' = false) (by decide : isBlank '>' = false)
      (w.inner ++ w.core ++ w.inner')
    exact ⟨_, .set _ (trimChars_tight tight), padded valid.inner valid.inner'⟩

theorem Valid.splitStructure (valid : w.Valid) :
    ∃ core, splitStructure (String.ofList w.chars) = (w.container, core) ∧
      splitParts core = some w.texts.eraseDups := by
  obtain ⟨core, split, pieces⟩ := valid.splits
  have read := splits_splitStructure (String.ofList w.chars)
  rw [String.toList_ofList] at read
  exact ⟨core, read.unique split, by rw [splitParts_congr pieces, valid.splitParts_core]⟩

theorem Valid.parseField (valid : w.Valid) (path field : String) (names : NameTable) :
    parseField path field (String.ofList w.chars) names =
      match w.sort, w.texts.find? (!names.contains ·) with
      | .node, some unknown => .error (.unknownType path field unknown)
      | _, _ => .ok w.descriptor := by
  have admits : ∀ p ∈ w.texts.eraseDups, w.sort.Admits p := by
    intro p member
    obtain ⟨q, listed, rfl⟩ := List.mem_map.1 (List.mem_eraseDups.1 member)
    exact valid.sorted q listed
  obtain ⟨sample, present⟩ : ∃ p, p ∈ w.texts.eraseDups := by
    obtain ⟨q, listed⟩ := List.exists_mem_of_ne_nil w.parts valid.nonempty
    exact ⟨q.text, List.mem_eraseDups.2 (List.mem_map_of_mem listed)⟩
  obtain ⟨core, split, parts⟩ := valid.splitStructure
  unfold NodeSchema.parseField
  rw [split]
  dsimp only
  rw [parts]
  dsimp only
  cases sort : w.sort with
  | builtin =>
    rw [sort] at admits
    rw [if_pos (List.all_eq_true.2 admits)]
    simp [descriptor, sort, PartSort.kind]
  | tag =>
    rw [sort] at admits
    have notBuiltin : ¬w.texts.eraseDups.all isBuiltin = true := fun all => by
      obtain ⟨t, spelled, -⟩ := admits sample present
      exact (builtin_shape sample (List.contains_iff_mem.1 (List.all_eq_true.1 all sample present))).2
        (by simp [spelled])
    have dotted : (w.texts.eraseDups.all fun p => p.toList.head? == some '.') = true :=
      List.all_eq_true.2 fun p member => by
        obtain ⟨t, spelled, -⟩ := admits p member
        simp [spelled]
    have named : ¬((w.texts.eraseDups.map fun p => String.ofList (p.toList.drop 1)).any (·.isEmpty)) = true := by
      simp only [List.any_map, List.any_eq_true, Function.comp_apply, not_exists, not_and]
      intro p member empty
      obtain ⟨t, spelled, nonempty, -⟩ := admits p member
      rw [spelled, List.drop_one, List.tail_cons, String.isEmpty_iff, ← String.toList_inj,
        String.toList_ofList, String.toList_empty] at empty
      exact nonempty empty
    rw [if_neg notBuiltin, if_pos dotted, if_neg named]
    simp [descriptor, sort, PartSort.kind]
  | node =>
    rw [sort] at admits
    have notBuiltin : ¬w.texts.eraseDups.all isBuiltin = true := fun all => by
      have builtin := List.all_eq_true.1 all sample present
      rw [(admits sample present).2] at builtin
      cases builtin
    have notDotted : ¬(w.texts.eraseDups.all fun p => p.toList.head? == some '.') = true := fun all => by
      have dot := List.all_eq_true.1 all sample present
      exact (identifier_shape (admits sample present).1).2 (by simpa using dot)
    have named : (w.texts.eraseDups.all isIdentifier) = true :=
      List.all_eq_true.2 fun p member => (admits p member).1
    have noBuiltin : ¬(w.texts.eraseDups.any isBuiltin) = true := by
      simp only [List.any_eq_true, not_exists, not_and]
      intro p member
      simp [(admits p member).2]
    rw [if_neg notBuiltin, if_neg notDotted, if_pos named, if_neg noBuiltin, find?_eraseDups]
    cases w.texts.find? (!names.contains ·) with
    | some unknown => rfl
    | none => simp [descriptor, sort, PartSort.kind]

end WrittenDescriptor

/-! ### Every recognized text is written by the grammar -/

theorem exists_written_parts : ∀ pieces : List (List Char), ∃ ps : List WrittenPart,
    ps.map WrittenPart.chars = pieces ∧ ∀ p ∈ ps, Blank p.before ∧ Blank p.after ∧ p.text.toList = trimChars p.chars
  | [] => ⟨[], rfl, fun _ member => absurd member List.not_mem_nil⟩
  | piece :: pieces => by
    obtain ⟨ps, written, blanks⟩ := exists_written_parts pieces
    obtain ⟨lead, trail, leadBlank, trailBlank, split⟩ := eq_blank_trimChars_blank piece
    have chars : WrittenPart.chars ⟨lead, String.ofList (trimChars piece), trail⟩ = piece := by
      rw [WrittenPart.chars, String.toList_ofList, ← split]
    refine ⟨⟨lead, String.ofList (trimChars piece), trail⟩ :: ps, by rw [List.map_cons, chars, written], ?_⟩
    intro p member
    rcases List.mem_cons.1 member with rfl | later
    · exact ⟨leadBlank, trailBlank, by rw [chars, String.toList_ofList]⟩
    · exact blanks p later

theorem splitParts_eq_some {s : String} {parts : List String} (found : splitParts s = some parts) :
    ∃ ps : List WrittenPart, ps ≠ [] ∧ s.toList = ['|'].intercalate (ps.map WrittenPart.chars) ∧
      (∀ p ∈ ps, Blank p.before ∧ Blank p.after ∧ Tight p.text.toList ∧ p.text.toList ≠ [] ∧ '|' ∉ p.text.toList) ∧
      parts = (ps.map (·.text)).eraseDups := by
  obtain ⟨ps, written, blanks⟩ := exists_written_parts (s.toList.splitOn '|')
  have texts : (s.toList.splitOn '|').map (fun piece => trimBlank (String.ofList piece)) = ps.map (·.text) := by
    rw [← written, List.map_map]
    refine List.map_congr_left fun p member => ?_
    rw [Function.comp_apply, trimBlank_ofList, ← (blanks p member).2.2, String.ofList_toList]
  unfold splitParts at found
  rw [texts] at found
  dsimp only at found
  split at found
  · cases found
  · rename_i noneEmpty
    cases found
    refine ⟨ps, ?_, by rw [written, List.intercalate_splitOn], fun p member => ?_, rfl⟩
    · rw [← List.length_pos_iff, ← List.length_map (f := WrittenPart.chars), written, List.length_pos_iff]
      exact List.splitOn_ne_nil '|' s.toList
    · obtain ⟨before, after, trimmed⟩ := blanks p member
      have piece : p.chars ∈ s.toList.splitOn '|' := by rw [← written]; exact List.mem_map_of_mem member
      refine ⟨before, after, trimmed ▸ tight_trimChars p.chars, fun empty => noneEmpty ?_,
        fun bar => not_mem_of_mem_splitOn '|' piece (mem_of_mem_trimChars (trimmed ▸ bar))⟩
      exact List.any_eq_true.2 ⟨p.text, List.mem_map_of_mem member, by
        rw [String.isEmpty_iff, ← String.toList_inj, empty, String.toList_empty]⟩

theorem Splits.written {cs : List Char} {container : Structure} {core : String}
    (split : Splits (trimChars cs) (container, core)) :
    ∃ lead trail inner inner', Blank lead ∧ Blank trail ∧ Blank inner ∧ Blank inner' ∧
      cs = lead ++ container.wrap core.toList inner inner' ++ trail := by
  obtain ⟨lead, trail, leadBlank, trailBlank, outer⟩ := eq_blank_trimChars_blank cs
  cases split with
  | scalar =>
    refine ⟨lead, trail, [], [], leadBlank, trailBlank, blank_nil, blank_nil, ?_⟩
    rwa [Structure.wrap, String.toList_ofList]
  | optional body ends | array body ends | map body ends =>
    obtain ⟨before, after, beforeBlank, afterBlank, inside⟩ := eq_blank_trimChars_blank body
    refine ⟨lead ++ before, trail, after, [], Blank.append leadBlank beforeBlank, trailBlank, afterBlank, blank_nil, ?_⟩
    rw [Structure.wrap, trimBlank_ofList, String.toList_ofList]
    conv => lhs; rw [outer, ends, inside]
    simp only [List.append_assoc]
  | set body ends =>
    obtain ⟨before, after, beforeBlank, afterBlank, inside⟩ := eq_blank_trimChars_blank body
    refine ⟨lead, trail, before, after, leadBlank, trailBlank, beforeBlank, afterBlank, ?_⟩
    rw [Structure.wrap, trimBlank_ofList, String.toList_ofList]
    conv => lhs; rw [outer, ends, inside]

theorem intercalate_ends_with_last {ps : List WrittenPart} {last : WrittenPart} (isLast : last ∈ ps.getLast?)
    (afterBlank : Blank last.after) (tight : Tight (['|'].intercalate (ps.map WrittenPart.chars))) :
    ∃ front, ['|'].intercalate (ps.map WrittenPart.chars) = front ++ last.text.toList := by
  obtain ⟨init, rfl⟩ := List.getLast?_eq_some_iff.1 isLast
  obtain ⟨before, joined⟩ := intercalate_append_singleton_eq '|' last.chars (init.map WrittenPart.chars)
  rw [List.map_append, List.map_singleton, joined, WrittenPart.chars] at tight ⊢
  rw [← List.append_assoc, ← List.append_assoc] at tight ⊢
  rw [tight.eq_nil_of_blank_suffix afterBlank, List.append_nil]
  exact ⟨_, rfl⟩

theorem tag_admits {p : String} (tight : Tight p.toList) (noBar : '|' ∉ p.toList) (dotted : p.toList.head? = some '.')
    (named : (String.ofList (p.toList.drop 1)).isEmpty = false) : PartSort.tag.Admits p := by
  obtain ⟨t, spelled⟩ := List.head?_eq_some_iff.1 dotted
  have nonempty : t ≠ [] := by
    intro empty
    rw [spelled, empty] at named
    cases named
  refine ⟨t, spelled, nonempty, fun bar => noBar (by rw [spelled]; exact List.mem_cons_of_mem _ bar), ?_⟩
  intro c last
  apply tight.2 c
  rw [spelled, List.getLast?_cons, last]
  rfl

theorem written_of_parseField {path field text : String} {names : NameTable}
    (recognized : parseField path field text names ≠ .error (.unrecognizedFieldSyntax path field text)) :
    ∃ w : WrittenDescriptor, w.Valid ∧ String.ofList w.chars = text := by
  have split := splits_splitStructure text
  unfold parseField at recognized
  generalize splitStructure text = divided at split recognized
  obtain ⟨container, core⟩ := divided
  dsimp only at recognized
  cases found : splitParts core with
  | none =>
    rw [found] at recognized
    exact absurd rfl recognized
  | some parts =>
    rw [found] at recognized
    dsimp only at recognized
    obtain ⟨ps, nonempty, joined, shaped, rfl⟩ := splitParts_eq_some found
    obtain ⟨lead, trail, inner, inner', leadBlank, trailBlank, innerBlank, innerBlank', chars⟩ := split.written
    have every : ∀ {f : String → Bool}, (ps.map (·.text)).eraseDups.all f = true → ∀ p ∈ ps, f p.text = true :=
      fun all p member => List.all_eq_true.1 all p.text (List.mem_eraseDups.2 (List.mem_map_of_mem member))
    have none : ∀ {f : String → Bool}, ¬((ps.map (·.text)).eraseDups.any f) = true → ∀ p ∈ ps, f p.text = false := by
      intro f any p member
      rw [Bool.eq_false_iff]
      exact fun hit => any (List.any_eq_true.2 ⟨p.text, List.mem_eraseDups.2 (List.mem_map_of_mem member), hit⟩)
    have sorted : ∃ sort : PartSort, ∀ p ∈ ps, sort.Admits p.text := by
      split at recognized
      · rename_i builtin
        exact ⟨.builtin, every builtin⟩
      split at recognized
      · rename_i dotted
        split at recognized
        · exact absurd rfl recognized
        rename_i named
        rw [List.any_map] at named
        refine ⟨.tag, fun p member => tag_admits (shaped p member).2.2.1 (shaped p member).2.2.2.2
          (by simpa using every dotted p member) (none named p member)⟩
      split at recognized
      · rename_i identifiers
        split at recognized
        · exact absurd rfl recognized
        rename_i builtin
        exact ⟨.node, fun p member => ⟨every identifiers p member, none builtin p member⟩⟩
      · exact absurd rfl recognized
    obtain ⟨sort, sorted⟩ := sorted
    refine ⟨⟨container, sort, ps, lead, trail, inner, inner'⟩,
      ⟨leadBlank, trailBlank, innerBlank, innerBlank', fun p member => ⟨(shaped p member).1, (shaped p member).2.1⟩,
        nonempty, sorted, ?_⟩, ?_⟩
    · -- a scalar's core is its whole trimmed text, which does not end like a suffix
      intro scalar last isLast wrapped
      subst scalar
      cases split with
      | scalar notWrapped _ =>
        rw [String.toList_ofList] at joined
        obtain ⟨front, ends⟩ := intercalate_ends_with_last isLast (shaped last (List.mem_of_getLast? isLast)).2.1
          (joined ▸ tight_trimChars text.toList)
        exact notWrapped (joined ▸ ends ▸ wrapped.append_left front)
    · show String.ofList (lead ++ container.wrap (['|'].intercalate (ps.map WrittenPart.chars)) inner inner' ++ trail) = text
      rw [← joined, ← chars, String.ofList_toList]

/-! ### The grammar, exactly -/

theorem WrittenDescriptor.declared_iff {w : WrittenDescriptor} {names : NameTable} (node : w.sort = .node) :
    w.Declared names ↔ w.texts.find? (!names.contains ·) = none := by
  simp [WrittenDescriptor.Declared, node, List.find?_eq_none]

/-- Reading a descriptor accepts exactly the texts of the grammar. A text written from parts
of one sort, with blanks at the token boundaries, reads as its structure and the kind its parts
declare, each part kept at its first appearance; every accepted text is so written. Where a
name among the parts is not declared, the first such name is reported as an unknown type, and
every text the grammar does not write is refused as unrecognized. -/
theorem parseField_reads_grammar (path field : String) (names : NameTable) :
    (∀ w : WrittenDescriptor, w.Valid → w.Declared names →
      parseField path field (String.ofList w.chars) names = .ok w.descriptor) ∧
    (∀ text descriptor, parseField path field text names = .ok descriptor →
      ∃ w : WrittenDescriptor, w.Valid ∧ w.Declared names ∧ String.ofList w.chars = text ∧
        descriptor = w.descriptor) ∧
    (∀ (w : WrittenDescriptor) unknown, w.Valid → w.sort = .node → w.texts.find? (!names.contains ·) = some unknown →
      parseField path field (String.ofList w.chars) names = .error (.unknownType path field unknown)) ∧
    (∀ text, (¬∃ w : WrittenDescriptor, w.Valid ∧ String.ofList w.chars = text) →
      parseField path field text names = .error (.unrecognizedFieldSyntax path field text)) := by
  have accepts : ∀ w : WrittenDescriptor, w.Valid → w.Declared names →
      parseField path field (String.ofList w.chars) names = .ok w.descriptor := by
    intro w valid declared
    rw [valid.parseField]
    cases sort : w.sort with
    | builtin => rfl
    | tag => rfl
    | node => rw [(WrittenDescriptor.declared_iff sort).1 declared]
  have undeclared : ∀ (w : WrittenDescriptor) unknown, w.Valid → w.sort = .node →
      w.texts.find? (!names.contains ·) = some unknown →
      parseField path field (String.ofList w.chars) names = .error (.unknownType path field unknown) := by
    intro w unknown valid node found
    rw [valid.parseField, node, found]
  refine ⟨accepts, ?_, undeclared, ?_⟩
  · intro text descriptor read
    have recognized : parseField path field text names ≠ .error (.unrecognizedFieldSyntax path field text) := by
      rw [read]
      intro same
      cases same
    obtain ⟨w, valid, written⟩ := written_of_parseField recognized
    subst written
    by_cases declared : w.Declared names
    · exact ⟨w, valid, declared, rfl, Except.ok.inj (read.symm.trans (accepts w valid declared))⟩
    · -- an undeclared name would have been reported instead
      have node : w.sort = .node := Classical.byContradiction fun other => declared fun node => absurd node other
      cases found : w.texts.find? (!names.contains ·) with
      | none => exact absurd ((WrittenDescriptor.declared_iff node).2 found) declared
      | some unknown => cases read.symm.trans (undeclared w unknown valid node found)
  · intro text unwritten
    by_contra recognized
    exact unwritten (written_of_parseField recognized)

end NodeSchema
