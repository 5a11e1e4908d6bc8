import Mathlib.Data.Finset.Card
import Mathlib.Algebra.Ring.Nat

/-! # Lists of finite sets — what each set adds to the ones before it

    A list of finite sets is gone through once, with the union of the sets so far.
    `gains` says how many elements each set adds, `repeats` counts the sets that add
    none.

    The size of the union is the sum of the gains (`card_cover`), so the number of sets
    less the size of the union can stand for `repeats` only where no set adds two
    elements: `length_sub_card_iff` says exactly when it does. -/

namespace FirstSeen

open List

variable {α : Type} [DecidableEq α]

/-- The union of `seen` and the sets of the list. -/
def cover (seen : Finset α) (sets : List (Finset α)) : Finset α :=
  sets.foldl (· ∪ ·) seen

/-- How many elements each set has that neither `seen` nor a set before it has. -/
def gains : Finset α → List (Finset α) → List Nat
  | _, [] => []
  | seen, s :: sets => (s \ seen).card :: gains (seen ∪ s) sets

/-- The number of sets whose elements all occur in `seen` or in a set before. -/
def repeats : Finset α → List (Finset α) → Nat
  | _, [] => 0
  | seen, s :: sets => (if s ⊆ seen then 1 else 0) + repeats (seen ∪ s) sets

theorem cover_cons (seen s : Finset α) (sets : List (Finset α)) :
    cover seen (s :: sets) = cover (seen ∪ s) sets :=
  rfl

/-- What is covered was seen or is in a set. -/
theorem mem_cover {x : α} (seen : Finset α) (sets : List (Finset α)) :
    x ∈ cover seen sets ↔ x ∈ seen ∨ ∃ s ∈ sets, x ∈ s := by
  induction sets generalizing seen with
  | nil => simp [cover]
  | cons s sets ih =>
    rw [cover_cons, ih, Finset.mem_union, exists_mem_cons_iff]
    exact or_assoc

@[simp] theorem length_gains (seen : Finset α) (sets : List (Finset α)) :
    (gains seen sets).length = sets.length := by
  induction sets generalizing seen with
  | nil => rfl
  | cons s sets ih => rw [gains, length_cons, length_cons, ih]

/-- The union has one element for each that was added. -/
theorem card_cover (seen : Finset α) (sets : List (Finset α)) :
    (cover seen sets).card = seen.card + (gains seen sets).sum := by
  induction sets generalizing seen with
  | nil => rfl
  | cons s sets ih =>
    rw [cover_cons, ih, gains, sum_cons, Finset.union_comm, ← Finset.card_sdiff_add_card]
    omega

/-- A repeat gains nothing. -/
theorem repeats_eq_count (seen : Finset α) (sets : List (Finset α)) :
    repeats seen sets = (gains seen sets).count 0 := by
  induction sets generalizing seen with
  | nil => rfl
  | cons s sets ih =>
    rw [repeats, gains, ih, count_cons, Nat.add_comm]
    simp only [beq_iff_eq, Finset.card_eq_zero, Finset.sdiff_eq_empty_iff_subset]

/-- Each set gains nothing or something. -/
theorem length_le_count_add_sum (l : List Nat) : l.length ≤ l.count 0 + l.sum := by
  induction l with
  | nil => exact Nat.le_refl 0
  | cons k l ih =>
    rw [length_cons, count_cons, sum_cons]
    split
    · omega
    · rename_i hk
      have : k ≠ 0 := by simpa using hk
      omega

/-- Zeros and ones are counted once; a larger number makes the sum too large. -/
theorem length_eq_count_add_sum_iff (l : List Nat) :
    l.length = l.count 0 + l.sum ↔ ∀ k ∈ l, k ≤ 1 := by
  induction l with
  | nil => simp
  | cons k l ih =>
    have hle := length_le_count_add_sum l
    rw [forall_mem_cons, ← ih, length_cons, count_cons, sum_cons]
    split
    · rename_i hk
      obtain rfl : k = 0 := by simpa using hk
      omega
    · rename_i hk
      have : k ≠ 0 := by simpa using hk
      omega

/-- The difference is cut off at zero, where it is right if there are no zeros. -/
theorem length_sub_sum_iff (l : List Nat) :
    l.length - l.sum = l.count 0 ↔ (∀ k ∈ l, k ≤ 1) ∨ ∀ k ∈ l, 0 < k := by
  have hle := length_le_count_add_sum l
  have hzeros : l.count 0 = 0 ↔ ∀ k ∈ l, 0 < k := by
    rw [count_eq_zero]
    constructor
    · intro h k hk
      exact Nat.pos_of_ne_zero fun hzero => h (hzero ▸ hk)
    · intro h hmem
      exact absurd (h 0 hmem) (Nat.lt_irrefl 0)
  rw [← length_eq_count_add_sum_iff, ← hzeros]
  omega

/-- **THE DIFFERENCE.**  The number of sets less the size of their union is the number
    of repeats exactly when every set adds at most one element, or every set adds one
    at least. -/
theorem length_sub_card_iff (sets : List (Finset α)) :
    sets.length - (cover ∅ sets).card = repeats ∅ sets
      ↔ (∀ k ∈ gains ∅ sets, k ≤ 1) ∨ ∀ k ∈ gains ∅ sets, 0 < k := by
  rw [card_cover, Finset.card_empty, Nat.zero_add, repeats_eq_count, ← length_gains ∅ sets]
  exact length_sub_sum_iff _

end FirstSeen
