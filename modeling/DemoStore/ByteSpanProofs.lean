import Mathlib.Algebra.Ring.Nat
import Mathlib.Data.List.Basic
import Mathlib.Data.Nat.Basic

/-! # Spans of addresses — cover, merging and cutting

    A span is a half-open interval of addresses.  What a list of spans says about
    an address is how many of them hold it, its `cover`: an operation that loses
    nothing and doubles nothing keeps the cover of every address, whatever it does
    to the list.

    `coalesce` is the adaptor that merges neighbours as long as a function says
    how.  For spans that touch it keeps every cover, and out of spans in order it
    makes spans with a gap between any two. -/

namespace ByteSpan

open List

/-- Addresses from `start` on. -/
structure Span where
  start : Nat
  len : Nat
  deriving DecidableEq, Repr

variable {s t : Span} {ss : List Span}

namespace Span

/-- The first address behind the span. -/
def stop (s : Span) : Nat := s.start + s.len

/-- The address is in the span. -/
def Has (s : Span) (a : Nat) : Prop := s.start ≤ a ∧ a < s.stop

instance decidableHas (s : Span) (a : Nat) : Decidable (s.Has a) :=
  inferInstanceAs (Decidable (_ ∧ _))

/-- A span of units of the given size, counted from `base`. -/
def scale (base unit : Nat) (s : Span) : Span := ⟨base + s.start * unit, s.len * unit⟩

/-- A scaled span has the addresses of its units. -/
theorem scale_has_iff {base unit a : Nat} (hunit : 0 < unit) :
    (s.scale base unit).Has a ↔ base ≤ a ∧ s.Has ((a - base) / unit) := by
  have hstop : (s.scale base unit).stop = base + s.stop * unit := by
    rw [stop, stop, scale, Nat.add_mul, Nat.add_assoc]
  rw [Has, Has, hstop, Nat.div_lt_iff_lt_mul hunit, Nat.le_div_iff_mul_le hunit]
  show base + s.start * unit ≤ a ∧ _ ↔ _
  omega

end Span

/-! ## Cover -/

/-- How many of the spans hold the address. -/
def cover (spans : List Span) (a : Nat) : Nat := spans.countP fun s => s.Has a

/-- The sum of the lengths. -/
def total (spans : List Span) : Nat := (spans.map Span.len).sum

@[simp] theorem cover_nil (a : Nat) : cover [] a = 0 := rfl

/-- Each span adds one where it is. -/
theorem cover_cons (s : Span) (ss : List Span) (a : Nat) :
    cover (s :: ss) a = cover ss a + if s.Has a then 1 else 0 := by
  simp only [cover, countP_cons, decide_eq_true_eq]

theorem cover_append (ss ts : List Span) (a : Nat) :
    cover (ss ++ ts) a = cover ss a + cover ts a :=
  countP_append

theorem cover_reverse (ss : List Span) (a : Nat) : cover ss.reverse a = cover ss a := countP_reverse

theorem cover_singleton (s : Span) (a : Nat) : cover [s] a = if s.Has a then 1 else 0 := by
  rw [cover_cons, cover_nil, Nat.zero_add]

/-- Two spans that touch cover what the span over both covers. -/
theorem cover_joined (h : s.stop = t.start) (a : Nat) :
    cover [⟨s.start, s.len + t.len⟩] a = cover [s] a + cover [t] a := by
  have hor : (⟨s.start, s.len + t.len⟩ : Span).Has a ↔ s.Has a ∨ t.Has a := by
    simp only [Span.Has, Span.stop] at h ⊢
    omega
  have hnot : ¬ (s.Has a ∧ t.Has a) := by
    simp only [Span.Has, Span.stop] at h ⊢
    omega
  rw [cover_singleton, cover_singleton, cover_singleton]
  by_cases hs : s.Has a
  · rw [if_pos (hor.mpr (.inl hs)), if_pos hs, if_neg fun ht => hnot ⟨hs, ht⟩]
  · by_cases ht : t.Has a
    · rw [if_pos (hor.mpr (.inr ht)), if_neg hs, if_pos ht]
    · rw [if_neg fun h => (hor.mp h).elim hs ht, if_neg hs, if_neg ht]

@[simp] theorem total_cons (s : Span) (ss : List Span) : total (s :: ss) = s.len + total ss := by
  simp [total]

/-! ## Merging neighbours -/

section Coalesce

variable {α : Type}

/-- `coalesce`: neighbours are merged as long as `merge` says how. -/
def coalesceFrom (merge : α → α → Option α) : α → List α → List α
  | last, [] => [last]
  | last, x :: xs =>
    match merge last x with
    | some m => coalesceFrom merge m xs
    | none => last :: coalesceFrom merge x xs

/-- Merges neighbours where `merge` can. -/
def coalesce (merge : α → α → Option α) : List α → List α
  | [] => []
  | x :: xs => coalesceFrom merge x xs

end Coalesce

/-- Spans that touch make one span. -/
def joinTouching (s t : Span) : Option Span :=
  if s.stop = t.start then some ⟨s.start, s.len + t.len⟩ else none

/-- Merging keeps the cover of every address. -/
theorem cover_coalesceFrom (s : Span) (ss : List Span) (a : Nat) :
    cover (coalesceFrom joinTouching s ss) a = cover (s :: ss) a := by
  -- `s` is the span that may still grow
  induction ss generalizing s with
  | nil => rfl
  | cons t ts ih =>
    rw [coalesceFrom]
    by_cases htouch : s.stop = t.start
    · rw [joinTouching, if_pos htouch]
      show cover (coalesceFrom joinTouching _ ts) a = _
      have hjoin := cover_joined htouch a
      rw [cover_singleton, cover_singleton, cover_singleton] at hjoin
      rw [ih, cover_cons, cover_cons s, cover_cons t, hjoin]
      omega
    · rw [joinTouching, if_neg htouch]
      show cover (s :: coalesceFrom joinTouching t ts) a = _
      rw [cover_cons, ih, ← cover_cons]

/-- Joining spans covers the same addresses. -/
theorem cover_coalesce (ss : List Span) (a : Nat) :
    cover (coalesce joinTouching ss) a = cover ss a := by
  cases ss with
  | nil => rfl
  | cons s ss => exact cover_coalesceFrom s ss a

/-- In order and not empty. -/
def Ordered (ss : List Span) : Prop :=
  ss.Pairwise (fun s t => s.stop ≤ t.start) ∧ ∀ s ∈ ss, 0 < s.len

/-- In order, not empty, and no two of them touch. -/
def Separated (ss : List Span) : Prop :=
  ss.Pairwise (fun s t => s.stop < t.start) ∧ ∀ s ∈ ss, 0 < s.len

theorem Ordered.tail (h : Ordered (s :: ss)) : Ordered ss :=
  ⟨h.1.tail, fun v hv => h.2 v (mem_cons_of_mem _ hv)⟩

/-- Joining two neighbours keeps the order. -/
theorem Ordered.joined {u : Span} {us : List Span} (h : Ordered (s :: u :: us))
    (htouch : s.stop = u.start) : Ordered (⟨s.start, s.len + u.len⟩ :: us) := by
  have hus := h.tail.1
  refine ⟨pairwise_cons.mpr ⟨fun v hv => ?_, hus.tail⟩, fun v hv => ?_⟩
  · have huv := (pairwise_cons.mp hus).1 v hv
    simp only [Span.stop] at htouch huv ⊢
    omega
  · rcases mem_cons.mp hv with rfl | hv
    · exact Nat.add_pos_left (h.2 s mem_cons_self) _
    · exact h.tail.tail.2 v hv

/-- No joined span starts earlier. -/
theorem start_le_of_mem_coalesceFrom (h : Ordered (s :: ss))
    (ht : t ∈ coalesceFrom joinTouching s ss) : s.start ≤ t.start := by
  induction ss generalizing s with
  | nil =>
    rw [coalesceFrom, mem_singleton] at ht
    exact ht ▸ le_rfl
  | cons u us ih =>
    rw [coalesceFrom] at ht
    by_cases htouch : s.stop = u.start
    · rw [joinTouching, if_pos htouch] at ht
      have hle := ih (h.joined htouch) ht
      exact hle
    · rw [joinTouching, if_neg htouch] at ht
      rcases mem_cons.mp ht with rfl | ht
      · exact le_rfl
      · have hsu := (pairwise_cons.mp h.1).1 u mem_cons_self
        have hut := ih h.tail ht
        rw [Span.stop] at hsu
        omega

/-- What is merged out of spans in order has a gap between any two. -/
theorem separated_coalesceFrom (h : Ordered (s :: ss)) :
    Separated (coalesceFrom joinTouching s ss) := by
  induction ss generalizing s with
  | nil => exact ⟨pairwise_singleton _ _, h.2⟩
  | cons u us ih =>
    rw [coalesceFrom]
    by_cases htouch : s.stop = u.start
    · rw [joinTouching, if_pos htouch]
      exact ih (h.joined htouch)
    · rw [joinTouching, if_neg htouch]
      obtain ⟨hsep, hlen⟩ := ih h.tail
      refine ⟨pairwise_cons.mpr ⟨fun v hv => ?_, hsep⟩, fun v hv => ?_⟩
      · have hle := start_le_of_mem_coalesceFrom h.tail hv
        have hsu := (pairwise_cons.mp h.1).1 u mem_cons_self
        omega
      · rcases mem_cons.mp hv with rfl | hv
        · exact h.2 v mem_cons_self
        · exact hlen v hv

/-- Joined spans no longer touch. -/
theorem separated_coalesce (h : Ordered ss) : Separated (coalesce joinTouching ss) := by
  cases ss with
  | nil => exact ⟨List.Pairwise.nil, h.2⟩
  | cons s ss => exact separated_coalesceFrom h

end ByteSpan
