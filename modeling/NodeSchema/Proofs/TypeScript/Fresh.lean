import NodeSchema.TypeScript.Reserved
import Mathlib.Data.List.Nodup
import Mathlib.Data.List.Perm.Subperm
import Mathlib.Data.Nat.Find

set_option autoImplicit false

/-! Escaping a name past the names taken: underscores are appended while the name is reserved
or taken. No reserved word ends with an underscore, and names with different numbers of
trailing underscores differ, so among the name and its first `taken.length + 1` escapes at most
one is reserved and at most `taken.length` are taken. The escape loop of `freshName` is bounded
by two more tries than there are taken names, so it always stops at a free name before its
bound runs out: the name followed by the fewest underscores that make it neither reserved nor
taken, as an unbounded loop would. -/

namespace NodeSchema.TypeScript

def pad (name : String) : Nat → String
  | 0 => name
  | k + 1 => pad (name ++ "_") k

theorem toList_pad (name : String) (k : Nat) :
    (pad name k).toList = name.toList ++ List.replicate k '_' := by
  induction k generalizing name with
  | zero => simp [pad]
  | succ k ih =>
    rw [pad, ih, String.toList_append, List.append_assoc]
    rfl

theorem pad_injective (name : String) : Function.Injective (pad name) := by
  intro j k same
  have lengths := congrArg (fun s : String => s.toList.length) same
  simpa [toList_pad] using lengths

/-- The name `c` is `name` escaped past `taken`: `name` followed by the fewest underscores that
make it neither reserved nor in `taken`. -/
def Escapes (taken : List String) (name c : String) : Prop :=
  ∃ k, c = pad name k ∧ isReserved c = false ∧ c ∉ taken ∧
    ∀ j < k, isReserved (pad name j) = true ∨ pad name j ∈ taken

theorem Escapes.not_reserved {taken : List String} {name c : String} (escapes : Escapes taken name c) :
    isReserved c = false := by
  obtain ⟨_, _, free, _⟩ := escapes
  exact free

theorem Escapes.not_mem {taken : List String} {name c : String} (escapes : Escapes taken name c) :
    c ∉ taken := by
  obtain ⟨_, _, _, absent, _⟩ := escapes
  exact absent

/-! ### The bounded escape loop -/

theorem escapeName_eq_pad (blocked : String → Bool) :
    ∀ (fuel k : Nat) (name : String), k ≤ fuel → (∀ j < k, blocked (pad name j) = true) →
      blocked (pad name k) = false → escapeName blocked name fuel = pad name k
  | 0, k, name, within, _, _ => by
    rw [Nat.le_zero.1 within]
    rfl
  | fuel + 1, 0, name, _, _, free => by
    have free' : blocked name = false := free
    simp [escapeName, free', pad]
  | fuel + 1, k + 1, name, within, before, free => by
    have first : blocked name = true := before 0 (Nat.succ_pos k)
    rw [escapeName, if_pos first]
    exact escapeName_eq_pad blocked fuel k (name ++ "_") (by omega)
      (fun j below => before (j + 1) (by omega)) free

theorem reservedWords_last : ∀ w ∈ reservedWords, w.toList.getLast? ≠ some '_' := by decide

theorem isReserved_pad_succ (name : String) (k : Nat) : isReserved (pad name (k + 1)) = false := by
  have ends : (pad name (k + 1)).toList.getLast? = some '_' := by
    rw [toList_pad, List.replicate_succ', ← List.append_assoc, List.getLast?_append_of_ne_nil _
      (by simp)]
    rfl
  cases reserved : isReserved (pad name (k + 1)) with
  | false => rfl
  | true =>
    have listed : pad name (k + 1) ∈ reservedWords := List.contains_iff_mem.1 reserved
    exact absurd ends (reservedWords_last _ listed)

theorem exists_free_pad (taken : List String) (name : String) :
    ∃ k ≤ taken.length + 1, isReserved (pad name k) = false ∧ pad name k ∉ taken := by
  by_contra none
  have allTaken : ∀ k ≤ taken.length + 1, isReserved (pad name k) = false → pad name k ∈ taken :=
    fun k within free => by
      by_contra absent
      exact none ⟨k, within, free, absent⟩
  let escapes := (List.range (taken.length + 1)).map fun j => pad name (j + 1)
  have distinct : escapes.Nodup :=
    List.Nodup.map (fun _ _ same => Nat.succ_injective (pad_injective name same)) List.nodup_range
  have escapesTaken : escapes ⊆ taken := by
    intro c listed
    obtain ⟨j, range, rfl⟩ := List.mem_map.1 listed
    exact allTaken (j + 1) (by simp at range; omega) (isReserved_pad_succ name j)
  have tooMany := (distinct.subperm escapesTaken).length_le
  simp only [escapes, List.length_map, List.length_range] at tooMany
  omega

/-- The escape loop of `freshName` stops at the name followed by the fewest underscores that
make it neither reserved nor taken: its bound never cuts it short. -/
theorem freshName_escapes (taken : List String) (name : String) :
    Escapes taken name (freshName taken name) := by
  have exists_free : ∃ k, isReserved (pad name k) = false ∧ pad name k ∉ taken := by
    obtain ⟨k, _, free⟩ := exists_free_pad taken name
    exact ⟨k, free⟩
  let k := Nat.find exists_free
  obtain ⟨notReserved, absent⟩ : isReserved (pad name k) = false ∧ pad name k ∉ taken :=
    Nat.find_spec exists_free
  have blockedBefore : ∀ j < k, isReserved (pad name j) = true ∨ pad name j ∈ taken := by
    intro j below
    have notFree := Nat.find_min exists_free below
    by_cases reserved : isReserved (pad name j) = true
    · exact .inl reserved
    · exact .inr (by simpa [reserved] using notFree)
  -- the least free escape comes within the bound of the loop
  have bounded : k ≤ taken.length + 2 := by
    obtain ⟨k', within, free⟩ := exists_free_pad taken name
    have := Nat.find_min' exists_free free
    omega
  have escaped : freshName taken name = pad name k := by
    refine escapeName_eq_pad _ _ k name bounded (fun j below => ?_) ?_
    · simpa using blockedBefore j below
    · simp [notReserved, absent]
  exact ⟨k, escaped, escaped ▸ notReserved, escaped ▸ absent, blockedBefore⟩

end NodeSchema.TypeScript
