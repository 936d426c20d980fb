import NodeSchema.TypeScript.Module
import NodeSchema.Proofs.TypeScript.Literals
import Mathlib.Tactic.SplitIfs

set_option autoImplicit false

/-! The layout of generated text. A character is safe when it can stand inside a line: it is
neither a control character nor the line or paragraph separator. Generated text is read as a
run of line feeds: `feedRun` counts the line feeds the text ends with, and fails once three
follow each other. A block is text that starts and ends inside a line, with at most one blank
line in a row and safe characters apart from its line feeds; joining blocks by one line feed,
or by a blank line, gives a block again. A module under construction is settled when it ends
with exactly one line feed, and appending a block as a section keeps it settled. -/

namespace NodeSchema.TypeScript

/-! ### Characters that stay on their line -/

/-- A character that may stand inside a line of generated code: no control character, and
neither the line nor the paragraph separator. -/
def safeChar (c : Char) : Bool := !isControl c && c.toNat != 0x2028 && c.toNat != 0x2029

/-- Text whose characters are all safe: wherever it is written, it stays on its line. -/
def SafeText (s : String) : Prop := ∀ c ∈ s.toList, safeChar c = true

theorem safeChar_newline : safeChar '\n' = false := by decide

theorem ne_newline_of_safeChar {c : Char} (safe : safeChar c = true) : c ≠ '\n' := by
  rintro rfl
  rw [safeChar_newline] at safe
  cases safe

@[simp] theorem safeText_append {a b : String} : SafeText (a ++ b) ↔ SafeText a ∧ SafeText b := by
  simp only [SafeText, String.toList_append, List.mem_append, or_imp, forall_and]

theorem safeText_empty : SafeText "" := by simp [SafeText]

theorem safeText_of_ofList {s : String} {chars : List Char} (spelled : s = String.ofList chars)
    (safe : chars.all safeChar = true) : SafeText s := by
  intro c listed
  rw [spelled, String.toList_ofList] at listed
  exact List.all_eq_true.1 safe c listed

theorem safeText_ite {c : Prop} [Decidable c] {a b : String} (first : SafeText a)
    (second : SafeText b) : SafeText (if c then a else b) := by
  split
  · exact first
  · exact second

theorem safeText_intercalate {sep : String} (safeSep : SafeText sep) :
    ∀ {parts : List String}, (∀ p ∈ parts, SafeText p) → SafeText (sep.intercalate parts)
  | [], _ => by simpa using safeText_empty
  | [p], safeParts => by simpa using safeParts p (by simp)
  | p :: q :: rest, safeParts => by
    rw [String.intercalate_cons_cons, safeText_append, safeText_append]
    exact ⟨⟨safeParts p (by simp), safeSep⟩,
      safeText_intercalate safeSep fun r listed => safeParts r (List.mem_cons_of_mem _ listed)⟩

theorem safeChar_toLower {c : Char} (safe : safeChar c = true) : safeChar c.toLower = true := by
  unfold Char.toLower
  split
  · rename_i upper
    have capital : 65 ≤ c.toNat ∧ c.toNat ≤ 90 := upper
    have lowered : (c.val + ('a'.val - 'A'.val)).toNat = c.toNat + 32 := by
      rw [UInt32.toNat_add, show ('a'.val - 'A'.val).toNat = 32 from rfl]
      exact Nat.mod_eq_of_lt (by simp only [Char.toNat] at capital; omega)
    simp only [safeChar, isControl, Char.toNat_mk, lowered]
    simp
    omega
  · exact safe

theorem safeChar_lowered_if {c : Char} (lower : Prop) [Decidable lower] (safe : safeChar c = true) :
    safeChar (if lower then c.toLower else c) = true := by
  split
  · exact safeChar_toLower safe
  · exact safe

theorem safeText_constructorName {name : String} (safe : SafeText name) :
    SafeText (constructorName name) := by
  intro c listed
  unfold constructorName at listed
  rw [String.toList_ofList] at listed
  obtain ⟨⟨d, i⟩, indexed, rfl⟩ := List.mem_map.1 listed
  exact safeChar_lowered_if _ (safe d (List.fst_mem_of_mem_zipIdx indexed))

theorem safeText_escapeName (blocked : String → Bool) (fuel : Nat) :
    ∀ {name : String}, SafeText name → SafeText (escapeName blocked name fuel) := by
  induction fuel with
  | zero => exact fun safe => safe
  | succ fuel ih =>
    intro name safe
    unfold escapeName
    split
    · exact ih (safeText_append.2 ⟨safe, safeText_of_ofList rfl (by decide)⟩)
    · exact safe

theorem safeText_freshName {taken : List String} {name : String} (safe : SafeText name) :
    SafeText (freshName taken name) :=
  safeText_escapeName _ _ safe

/-! ### String literals -/

theorem safeChar_of_mem_escapeChar {c d : Char} (listed : d ∈ escapeChar c) :
    safeChar d = true := by
  unfold escapeChar at listed
  split_ifs at listed with backslash quote newline carriage tab coded
  all_goals simp only [List.mem_cons, List.not_mem_nil, or_false, List.mem_append] at listed
  · rcases listed with rfl | rfl <;> decide
  · rcases listed with rfl | rfl <;> decide
  · rcases listed with rfl | rfl <;> decide
  · rcases listed with rfl | rfl <;> decide
  · rcases listed with rfl | rfl <;> decide
  · rcases listed with (rfl | rfl) | digit
    · decide
    · decide
    · exact forall_mem_hex4 (fun d => safeChar d = true) (by decide) _ d digit
  · subst listed
    simp only [Bool.or_eq_true, decide_eq_true_eq, not_or] at coded
    have notControl : isControl d = false := by simpa using coded.2
    simp [safeChar, notControl, coded.1.1, coded.1.2]

theorem safeText_stringLiteral (text : String) : SafeText (stringLiteral text) := by
  intro c listed
  simp only [stringLiteral, String.toList_ofList, List.cons_append, List.mem_cons, List.mem_append,
    List.mem_flatMap, List.not_mem_nil, or_false] at listed
  rcases listed with quoteOpen | ⟨d, _, escaped⟩ | quoteClose
  · rw [quoteOpen]
    decide
  · exact safeChar_of_mem_escapeChar escaped
  · rw [quoteClose]
    decide

/-! ### Runs of line feeds -/

/-- Reads one character after `run` line feeds: a line feed adds one, any other character ends
the run; none once a third line feed follows two. -/
def feedStep (run : Option Nat) (c : Char) : Option Nat :=
  run.bind fun n => if c = '\n' then (if n < 2 then some (n + 1) else none) else some 0

/-- The line feeds `text` ends with, read after `run` of them; none once three line feeds have
followed each other. -/
def feedRun (run : Option Nat) (text : List Char) : Option Nat := text.foldl feedStep run

theorem feedRun_append (run : Option Nat) (first second : List Char) :
    feedRun run (first ++ second) = feedRun (feedRun run first) second :=
  List.foldl_append

theorem feedRun_cons (run : Option Nat) (c : Char) (rest : List Char) :
    feedRun run (c :: rest) = feedRun (feedStep run c) rest := rfl

theorem feedRun_none : ∀ text : List Char, feedRun none text = none
  | [] => rfl
  | _ :: rest => feedRun_none rest

theorem feedRun_cons_of_ne {c : Char} (notFeed : c ≠ '\n') (n : Nat) (rest : List Char) :
    feedRun (some n) (c :: rest) = feedRun (some 0) rest := by
  simp [feedRun_cons, feedStep, notFeed]

theorem feedRun_of_safe :
    ∀ {text : List Char}, text ≠ [] → (∀ c ∈ text, safeChar c = true) →
      ∀ n, feedRun (some n) text = some 0
  | [c], _, safe, n => by
    simp [feedStep, ne_newline_of_safeChar (safe c (by simp)), feedRun]
  | c :: d :: rest, _, safe, n => by
    rw [feedRun_cons_of_ne (ne_newline_of_safeChar (safe c (by simp)))]
    exact feedRun_of_safe (by simp) (fun x listed => safe x (List.mem_cons_of_mem _ listed)) 0

/-! ### Blocks -/

/-- Text that can be written as a section or as a piece of one: it starts inside a line, ends
without a line feed, never has three line feeds in a row, and its other characters are safe. -/
structure Block (s : String) : Prop where
  starts : ∃ c rest, s.toList = c :: rest ∧ c ≠ '\n'
  run : feedRun (some 0) s.toList = some 0
  chars : ∀ c ∈ s.toList, c = '\n' ∨ safeChar c = true

theorem Block.feedRun_eq {s : String} (block : Block s) (n : Nat) :
    feedRun (some n) s.toList = some 0 := by
  obtain ⟨c, rest, spelled, notFeed⟩ := block.starts
  have fromZero := block.run
  rw [spelled, feedRun_cons_of_ne notFeed] at fromZero ⊢
  exact fromZero

theorem block_of_safeText {s : String} (filled : s.toList ≠ []) (safe : SafeText s) : Block s where
  starts := by
    obtain ⟨c, rest, spelled⟩ := List.exists_cons_of_ne_nil filled
    exact ⟨c, rest, spelled, ne_newline_of_safeChar (safe c (by simp [spelled]))⟩
  run := feedRun_of_safe filled safe 0
  chars := fun c listed => .inr (safe c listed)

theorem Block.feed {a b : String} (first : Block a) (second : Block b) : Block (a ++ "\n" ++ b) where
  starts := by
    obtain ⟨c, rest, spelled, notFeed⟩ := first.starts
    exact ⟨c, rest ++ '\n' :: b.toList, by simp [spelled], notFeed⟩
  run := by
    have feed : "\n".toList = ['\n'] := rfl
    rw [String.toList_append, String.toList_append, feed, feedRun_append, feedRun_append, first.run]
    exact second.feedRun_eq 1
  chars := by
    intro c listed
    simp only [String.toList_append, List.mem_append] at listed
    rcases listed with (inFirst | feed) | inSecond
    · exact first.chars c inFirst
    · exact .inl (List.mem_singleton.1 feed)
    · exact second.chars c inSecond

theorem Block.blank {a b : String} (first : Block a) (second : Block b) :
    Block (a ++ "\n\n" ++ b) where
  starts := by
    obtain ⟨c, rest, spelled, notFeed⟩ := first.starts
    exact ⟨c, rest ++ '\n' :: '\n' :: b.toList, by simp [spelled], notFeed⟩
  run := by
    have feeds : "\n\n".toList = ['\n', '\n'] := rfl
    rw [String.toList_append, String.toList_append, feeds, feedRun_append, feedRun_append, first.run]
    exact second.feedRun_eq 2
  chars := by
    intro c listed
    simp only [String.toList_append, List.mem_append] at listed
    rcases listed with (inFirst | feeds) | inSecond
    · exact first.chars c inFirst
    · exact .inl (by simpa using feeds)
    · exact second.chars c inSecond

theorem block_lines : ∀ {parts : List String}, parts ≠ [] → (∀ p ∈ parts, Block p) →
    Block (lines parts)
  | [p], _, blocks => by simpa [lines] using blocks p (by simp)
  | p :: q :: rest, _, blocks => by
    unfold lines
    rw [String.intercalate_cons_cons]
    exact (blocks p (by simp)).feed
      (block_lines (by simp) fun r listed => blocks r (List.mem_cons_of_mem _ listed))

theorem block_lines_blank {a b : String} {rest : List String} (head : Block (lines [a, b]))
    (filled : rest ≠ []) (tail : Block (lines rest)) : Block (lines (a :: b :: "" :: rest)) := by
  obtain ⟨r, more, rfl⟩ := List.exists_cons_of_ne_nil filled
  have joined : lines (a :: b :: "" :: r :: more) = lines [a, b] ++ "\n\n" ++ lines (r :: more) := by
    simp only [lines, String.intercalate_cons_cons, String.intercalate_singleton, String.append_assoc,
      String.empty_append]
    rfl
  rw [joined]
  exact head.blank tail

theorem block_indentedComment {indent : String} {text : List String} (safeIndent : SafeText indent)
    (safeLines : ∀ line ∈ text, SafeText line) : Block (indentedComment indent text) := by
  unfold indentedComment
  apply block_lines (by simp)
  intro part listed
  simp only [List.mem_append, List.mem_cons, List.not_mem_nil, or_false, List.mem_map] at listed
  rcases listed with (opening | ⟨line, inText, rfl⟩) | closing
  · subst opening
    exact block_of_safeText (by simp) (safeText_append.2 ⟨safeIndent, safeText_of_ofList rfl (by decide)⟩)
  · split
    · exact block_of_safeText (by simp)
        (safeText_append.2 ⟨safeIndent, safeText_of_ofList rfl (by decide)⟩)
    · exact block_of_safeText (by simp)
        (safeText_append.2 ⟨safeText_append.2 ⟨safeIndent, safeText_of_ofList rfl (by decide)⟩,
          safeLines line inText⟩)
  · subst closing
    exact block_of_safeText (by simp) (safeText_append.2 ⟨safeIndent, safeText_of_ofList rfl (by decide)⟩)

/-! ### Sections -/

/-- The text generated so far: it ends with exactly one line feed, never has three in a row,
and its other characters are safe. -/
structure Settled (out : String) : Prop where
  run : feedRun (some 0) out.toList = some 1
  chars : ∀ c ∈ out.toList, c = '\n' ∨ safeChar c = true

theorem feedRun_newline_ne_zero (run : Option Nat) : feedRun run ['\n'] ≠ some 0 := by
  cases run with
  | none => simp [feedRun, feedStep]
  | some n =>
    simp only [feedRun, List.foldl, feedStep, Option.bind_some, if_true]
    split <;> simp

theorem endsWith_newline_eq_false {s : String} (block : Block s) : s.endsWith "\n" = false := by
  show s.toSlice.endsWith "\n" = false
  rw [Bool.eq_false_iff]
  intro ends
  rw [String.Slice.endsWith_string_iff] at ends
  obtain ⟨front, split⟩ := ends
  have ran := block.run
  simp only [String.copy_toSlice] at split
  rw [← split, feedRun_append] at ran
  exact feedRun_newline_ne_zero _ ran

theorem pushSection_empty {part : String} (block : Block part) :
    pushSection "" part = part ++ "\n" := by
  simp [pushSection, endsWith_newline_eq_false block]

theorem pushSection_after {out part : String} (filled : out.isEmpty = false) (block : Block part) :
    pushSection out part = out ++ "\n" ++ part ++ "\n" := by
  simp [pushSection, endsWith_newline_eq_false block, filled]

theorem pushSection_settled {out part : String} (before : out = "" ∨ Settled out)
    (block : Block part) : Settled (pushSection out part) := by
  have feed : "\n".toList = ['\n'] := rfl
  rcases before with rfl | settled
  · rw [pushSection_empty block]
    constructor
    · rw [String.toList_append, feedRun_append, block.run, feed]
      rfl
    · intro c listed
      simp only [String.toList_append, List.mem_append, feed, List.mem_singleton] at listed
      rcases listed with inPart | isFeed
      · exact block.chars c inPart
      · exact .inl isFeed
  · have filled : out.isEmpty = false := by
      rw [Bool.eq_false_iff]
      intro empty
      have ran := settled.run
      rw [String.isEmpty_iff.1 empty] at ran
      cases ran
    rw [pushSection_after filled block]
    constructor
    · simp only [String.toList_append, feedRun_append, settled.run, feed]
      rw [show feedRun (some 1) ['\n'] = some 2 from rfl, block.feedRun_eq 2]
      rfl
    · intro c listed
      simp only [String.toList_append, List.mem_append, feed, List.mem_singleton] at listed
      rcases listed with ((inOut | isFeed) | inPart) | isFeed
      · exact settled.chars c inOut
      · exact .inl isFeed
      · exact block.chars c inPart
      · exact .inl isFeed

/-! ### The finished text -/

/-- Generated text as it is laid out: it ends with one line feed and not with two, it never
holds three line feeds in a row, and apart from its line feeds it holds no control character
and neither the line nor the paragraph separator. -/
structure LaidOut (out : String) : Prop where
  ends_with_feed : out.endsWith "\n" = true
  no_blank_end : out.endsWith "\n\n" = false
  no_two_blank_lines : ¬ ['\n', '\n', '\n'] <:+: out.toList
  chars : ∀ c ∈ out.toList, c ≠ '\n' →
    isControl c = false ∧ c.toNat ≠ 0x2028 ∧ c.toNat ≠ 0x2029

theorem feedRun_two_feeds (run : Option Nat) : feedRun run ['\n', '\n'] ≠ some 1 := by
  cases run with
  | none => simp [feedRun, feedStep]
  | some n =>
    simp only [feedRun, List.foldl, feedStep, Option.bind_some, if_true]
    split
    · simp only [Option.bind_some]
      split <;> simp
    · simp

theorem feedRun_three_feeds (n : Nat) : feedRun (some n) ['\n', '\n', '\n'] = none := by
  simp only [feedRun, List.foldl, feedStep, Option.bind_some, if_true]
  split
  · simp only [Option.bind_some]
    split
    · simp only [Option.bind_some]
      split
      · omega
      · rfl
    · rfl
  · rfl

theorem Settled.laidOut {out : String} (settled : Settled out) : LaidOut out where
  ends_with_feed := by
    show out.toSlice.endsWith "\n" = true
    rw [String.Slice.endsWith_string_iff]
    have ran := settled.run
    rcases List.eq_nil_or_concat out.toList with empty | ⟨front, last, spelled⟩
    · rw [empty] at ran
      cases ran
    · rw [List.concat_eq_append] at spelled
      by_cases isFeed : last = '\n'
      · subst isFeed
        simp only [String.copy_toSlice, spelled]
        exact List.suffix_append front ['\n']
      · rw [spelled, feedRun_append] at ran
        cases before : feedRun (some 0) front with
        | none => simp [before, feedRun_none] at ran
        | some n =>
          rw [before] at ran
          simp [feedRun, feedStep, isFeed] at ran
  no_blank_end := by
    show out.toSlice.endsWith "\n\n" = false
    rw [Bool.eq_false_iff]
    intro ends
    rw [String.Slice.endsWith_string_iff] at ends
    obtain ⟨front, split⟩ := ends
    have ran := settled.run
    simp only [String.copy_toSlice] at split
    rw [← split, feedRun_append] at ran
    exact feedRun_two_feeds _ ran
  no_two_blank_lines := by
    rintro ⟨front, back, split⟩
    have ran := settled.run
    rw [← split, feedRun_append, feedRun_append] at ran
    cases before : feedRun (some 0) front with
    | none => simp [before, feedRun_none] at ran
    | some n => simp [before, feedRun_three_feeds, feedRun_none] at ran
  chars := by
    intro c listed notFeed
    have safe : safeChar c = true := (settled.chars c listed).resolve_left notFeed
    simp only [safeChar, Bool.and_eq_true, Bool.not_eq_true', bne_iff_ne, ne_eq] at safe
    exact ⟨safe.1.1, safe.1.2, safe.2⟩

end NodeSchema.TypeScript
