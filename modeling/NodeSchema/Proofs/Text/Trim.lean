import Mathlib.Data.List.TakeWhile
import NodeSchema.Schema.Field

set_option autoImplicit false

/-! Trimming and cutting at a separator, on the characters of a text. A text is its trimmed
form with blanks before and after; the trimmed form neither starts nor ends with a blank, and
adding blanks at either end does not change it. Cutting at a separator and trimming every
piece is likewise blind to blanks added at the two ends, which only reach the first and the
last piece. -/

namespace NodeSchema.Text

def Blank (cs : List Char) : Prop := ∀ c ∈ cs, isBlank c = true

/-- Characters that neither start nor end with a blank. -/
def Tight (cs : List Char) : Prop :=
  (∀ c, cs.head? = some c → isBlank c = false) ∧ (∀ c, cs.getLast? = some c → isBlank c = false)

def trimChars (cs : List Char) : List Char :=
  ((cs.dropWhile isBlank).reverse.dropWhile isBlank).reverse

theorem toList_trimBlank (s : String) : (trimBlank s).toList = trimChars s.toList :=
  String.toList_ofList

theorem Blank.append {xs ys : List Char} (first : Blank xs) (second : Blank ys) : Blank (xs ++ ys) := by
  intro c member
  rcases List.mem_append.1 member with inFirst | inSecond
  · exact first c inFirst
  · exact second c inSecond

theorem blank_nil : Blank [] := fun _ member => absurd member List.not_mem_nil

theorem blank_takeWhile (cs : List Char) : Blank (cs.takeWhile isBlank) := by
  induction cs with
  | nil => exact blank_nil
  | cons c cs ih =>
    rw [List.takeWhile_cons]
    split
    · rename_i blank
      intro x member
      rcases List.mem_cons.1 member with rfl | later
      · exact blank
      · exact ih x later
    · exact blank_nil

section Trim

variable {cs lead trail : List Char}

theorem trimChars_blank_append (blank : Blank lead) : trimChars (lead ++ cs) = trimChars cs := by
  unfold trimChars
  rw [List.dropWhile_append_of_pos blank]

theorem trimChars_append_blank (blank : Blank trail) : trimChars (cs ++ trail) = trimChars cs := by
  unfold trimChars
  by_cases allBlank : (cs.dropWhile isBlank).isEmpty
  · -- nothing but blanks: both sides trim to nothing
    have gone : cs.dropWhile isBlank = [] := List.isEmpty_iff.1 allBlank
    rw [List.dropWhile_append, if_pos allBlank, gone, List.dropWhile_eq_nil_iff.2 blank]
  · rw [List.dropWhile_append, if_neg allBlank, List.reverse_append,
      List.dropWhile_append_of_pos (fun c member => blank c (List.mem_reverse.1 member))]

theorem dropWhile_blank_of_head (edge : ∀ c, cs.head? = some c → isBlank c = false) :
    cs.dropWhile isBlank = cs := by
  cases cs with
  | nil => rfl
  | cons c rest => rw [List.dropWhile_cons, if_neg (by simp [edge c rfl])]

theorem Tight.reverse_dropWhile (tight : Tight cs) : cs.reverse.dropWhile isBlank = cs.reverse :=
  dropWhile_blank_of_head fun c first => tight.2 c (by rw [← List.head?_reverse, first])

theorem trimChars_tight (tight : Tight cs) : trimChars cs = cs := by
  unfold trimChars
  rw [dropWhile_blank_of_head tight.1, tight.reverse_dropWhile, List.reverse_reverse]

theorem trimChars_tight_append {m : List Char} (tight : Tight m) (nonempty : m ≠ []) (rest : List Char) :
    trimChars (m ++ rest) = m ++ (rest.reverse.dropWhile isBlank).reverse := by
  have kept : (m ++ rest).dropWhile isBlank = m ++ rest :=
    dropWhile_blank_of_head fun c first => tight.1 c (by
      cases m with
      | nil => exact absurd rfl nonempty
      | cons x m' => simpa using first)
  unfold trimChars
  rw [kept, List.reverse_append, List.dropWhile_append]
  split
  · -- nothing but blanks after the text: its own last character stops the trimming
    rename_i allBlank
    rw [tight.reverse_dropWhile, List.isEmpty_iff.1 allBlank, List.reverse_nil, List.append_nil,
      List.reverse_reverse]
  · rw [List.reverse_append, List.reverse_reverse]

theorem trimChars_append_tight {m : List Char} (tight : Tight m) (nonempty : m ≠ []) (front : List Char) :
    trimChars (front ++ m) = front.dropWhile isBlank ++ m := by
  have kept : (front ++ m).dropWhile isBlank = front.dropWhile isBlank ++ m := by
    rw [List.dropWhile_append]
    split
    · rename_i allBlank
      obtain ⟨c, m', rfl⟩ := List.exists_cons_of_ne_nil nonempty
      rw [List.isEmpty_iff.1 allBlank, dropWhile_blank_of_head (by simpa using tight.1), List.nil_append]
    · rfl
  unfold trimChars
  rw [kept, List.reverse_append, List.dropWhile_append, if_neg (by simp [tight.reverse_dropWhile, nonempty]),
    tight.reverse_dropWhile, List.reverse_append, List.reverse_reverse, List.reverse_reverse]

theorem tight_of_not_blank (clean : ∀ c ∈ cs, isBlank c = false) : Tight cs :=
  ⟨fun c first => clean c (List.mem_of_head? first), fun c last => clean c (List.mem_of_getLast? last)⟩

instance : DecidablePred Tight := fun cs =>
  decidable_of_iff ((cs.head?.all fun c => !isBlank c) ∧ (cs.getLast?.all fun c => !isBlank c)) <| by
    unfold Tight
    cases cs.head? <;> cases cs.getLast? <;> simp

theorem Tight.eq_nil_of_blank_suffix {front : List Char} (tight : Tight (front ++ trail)) (blank : Blank trail) :
    trail = [] := by
  rcases List.eq_nil_or_concat trail with empty | ⟨init, last, rfl⟩
  · exact empty
  · have blankLast := blank last (by simp)
    rw [tight.2 last (by simp)] at blankLast
    cases blankLast

theorem tight_trimChars (cs : List Char) : Tight (trimChars cs) := by
  unfold trimChars
  generalize keptEq : cs.dropWhile isBlank = kept
  have keptHead := List.head?_dropWhile_not isBlank cs
  have backHead := List.head?_dropWhile_not isBlank kept.reverse
  rw [keptEq] at keptHead
  constructor
  · -- the first character is the last one kept from the back, which is the first one kept
    intro c first
    rw [List.head?_reverse] at first
    have last : kept.reverse.getLast? = some c := by
      rw [← List.takeWhile_append_dropWhile (p := isBlank) (l := kept.reverse), List.getLast?_append,
        first]
      rfl
    rw [List.getLast?_reverse] at last
    simp only [last] at keptHead
    exact keptHead
  · intro c last
    rw [List.getLast?_reverse] at last
    simp only [last] at backHead
    exact backHead

theorem eq_blank_trimChars_blank (cs : List Char) :
    ∃ lead trail, Blank lead ∧ Blank trail ∧ cs = lead ++ trimChars cs ++ trail := by
  unfold trimChars
  generalize keptEq : cs.dropWhile isBlank = kept
  refine ⟨cs.takeWhile isBlank, (kept.reverse.takeWhile isBlank).reverse, blank_takeWhile cs,
    fun c member => blank_takeWhile kept.reverse c (List.mem_reverse.1 member), ?_⟩
  have back : kept = (kept.reverse.dropWhile isBlank).reverse ++ (kept.reverse.takeWhile isBlank).reverse := by
    rw [← List.reverse_append, List.takeWhile_append_dropWhile, List.reverse_reverse]
  calc cs = cs.takeWhile isBlank ++ kept := by rw [← keptEq, List.takeWhile_append_dropWhile]
    _ = _ := by rw [List.append_assoc, ← back]

theorem trimBlank_ofList (cs : List Char) : trimBlank (String.ofList cs) = String.ofList (trimChars cs) := by
  rw [trimBlank, String.toList_ofList, trimChars]

theorem mem_of_mem_trimChars {c : Char} (kept : c ∈ trimChars cs) : c ∈ cs := by
  obtain ⟨lead, trail, -, -, split⟩ := eq_blank_trimChars_blank cs
  rw [split]
  exact List.mem_append_left _ (List.mem_append_right _ kept)

end Trim

/-! ### Cutting at a separator -/

section Cut

variable (x : Char)

theorem not_mem_of_mem_splitOn : ∀ {cs piece : List Char}, piece ∈ cs.splitOn x → x ∉ piece
  | [], piece, member => by
    rw [List.splitOn_nil, List.mem_singleton] at member
    subst member
    exact List.not_mem_nil
  | c :: cs, piece, member => by
    rw [List.splitOn_cons_eq_if_modifyHead] at member
    split at member
    · rcases List.mem_cons.1 member with rfl | later
      · exact List.not_mem_nil
      · exact not_mem_of_mem_splitOn later
    · rename_i differ
      obtain ⟨first, rest, cut⟩ := List.exists_cons_of_ne_nil (List.splitOn_ne_nil x cs)
      have firstClean : x ∉ first := not_mem_of_mem_splitOn (by rw [cut]; exact List.mem_cons_self)
      rw [cut, List.modifyHead_cons] at member
      rcases List.mem_cons.1 member with rfl | later
      · intro present
        rcases List.mem_cons.1 present with same | inFirst
        · exact differ (by rw [same]; exact beq_self_eq_true c)
        · exact firstClean inFirst
      · exact not_mem_of_mem_splitOn (by rw [cut]; exact List.mem_cons_of_mem _ later)

theorem splitOn_append_left {lead : List Char} (absent : x ∉ lead) (cs : List Char) :
    ∃ first rest, cs.splitOn x = first :: rest ∧ (lead ++ cs).splitOn x = (lead ++ first) :: rest := by
  induction lead with
  | nil =>
    obtain ⟨first, rest, cut⟩ := List.exists_cons_of_ne_nil (List.splitOn_ne_nil x cs)
    exact ⟨first, rest, cut, by rw [List.nil_append, cut, List.nil_append]⟩
  | cons a lead ih =>
    obtain ⟨first, rest, cut, cutAfter⟩ := ih fun present => absent (List.mem_cons_of_mem _ present)
    have differ : (a == x) = false := by
      rw [beq_eq_false_iff_ne]
      exact fun same => absent (same ▸ List.mem_cons_self)
    refine ⟨first, rest, cut, ?_⟩
    rw [List.cons_append, List.splitOn_cons_eq_if_modifyHead, if_neg (by simp [differ]), cutAfter,
      List.modifyHead_cons, List.cons_append]

theorem splitOn_append_right {trail : List Char} (absent : x ∉ trail) : ∀ cs : List Char,
    ∃ pre last, cs.splitOn x = pre ++ [last] ∧ (cs ++ trail).splitOn x = pre ++ [last ++ trail]
  | [] => ⟨[], [], by rw [List.splitOn_nil]; rfl, by rw [List.nil_append, List.splitOn_eq_singleton absent]; rfl⟩
  | c :: cs => by
    obtain ⟨pre, last, cut, cutAfter⟩ := splitOn_append_right absent cs
    rw [List.cons_append, List.splitOn_cons_eq_if_modifyHead, List.splitOn_cons_eq_if_modifyHead,
      cut, cutAfter]
    split
    · exact ⟨[] :: pre, last, rfl, rfl⟩
    · cases pre with
      | nil => exact ⟨[], c :: last, rfl, rfl⟩
      | cons p ps => exact ⟨(c :: p) :: ps, last, rfl, rfl⟩

theorem map_trimChars_splitOn_blank_edges {lead trail : List Char} (leadBlank : Blank lead)
    (trailBlank : Blank trail) (separator : isBlank x = false) (cs : List Char) :
    ((lead ++ cs ++ trail).splitOn x).map trimChars = (cs.splitOn x).map trimChars := by
  have notBlank : ∀ {ys : List Char}, Blank ys → x ∉ ys := fun blank present => by
    rw [blank x present] at separator
    cases separator
  obtain ⟨pre, last, cut, cutAfter⟩ := splitOn_append_right x (notBlank trailBlank) cs
  obtain ⟨first, rest, cut', cutBoth⟩ := splitOn_append_left x (notBlank leadBlank) (cs ++ trail)
  rw [List.append_assoc, cutBoth, cut]
  rw [cutAfter] at cut'
  cases pre with
  | nil =>
    cases cut'
    simp only [List.map_cons, List.map_nil, List.nil_append]
    rw [← List.append_assoc, trimChars_append_blank trailBlank, trimChars_blank_append leadBlank]
  | cons p ps =>
    cases cut'
    simp only [List.append_eq, List.map_cons, List.map_append, List.map_nil, List.cons_append]
    rw [trimChars_blank_append leadBlank, trimChars_append_blank trailBlank]

theorem intercalate_cons_eq_append (first : List Char) (rest : List (List Char)) :
    ∃ after, [x].intercalate (first :: rest) = first ++ after := by
  cases rest with
  | nil => exact ⟨[], by rw [List.intercalate_singleton, List.append_nil]⟩
  | cons second rest => exact ⟨[x] ++ [x].intercalate (second :: rest), by rw [List.intercalate_cons_cons, List.append_assoc]⟩

theorem intercalate_append_singleton_eq (last : List Char) :
    ∀ pieces : List (List Char), ∃ before, [x].intercalate (pieces ++ [last]) = before ++ last
  | [] => ⟨[], by rw [List.nil_append, List.intercalate_singleton, List.nil_append]⟩
  | piece :: pieces => by
    obtain ⟨before, joined⟩ := intercalate_append_singleton_eq last pieces
    refine ⟨piece ++ [x] ++ before, ?_⟩
    rw [List.cons_append, List.intercalate_cons_of_ne_nil (by simp), joined]
    simp only [List.append_assoc]

variable {x}

theorem map_trimChars_splitOn_trimChars (separator : isBlank x = false) (cs : List Char) :
    ((trimChars cs).splitOn x).map trimChars = (cs.splitOn x).map trimChars := by
  obtain ⟨lead, trail, leadBlank, trailBlank, split⟩ := eq_blank_trimChars_blank cs
  conv => rhs; rw [split]
  rw [map_trimChars_splitOn_blank_edges x leadBlank trailBlank separator]

theorem map_trimChars_splitOn_dropWhile (separator : isBlank x = false) (cs : List Char) :
    ((cs.dropWhile isBlank).splitOn x).map trimChars = (cs.splitOn x).map trimChars := by
  conv => rhs; rw [← List.takeWhile_append_dropWhile (p := isBlank) (l := cs), ← List.append_nil (_ ++ _)]
  rw [map_trimChars_splitOn_blank_edges x (blank_takeWhile cs) blank_nil separator]

end Cut

end NodeSchema.Text
