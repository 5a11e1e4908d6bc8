import Mathlib.Algebra.Order.BigOperators.Group.Finset

/-! # A heap of objects — allocation, release and what a stale pointer sees

    One heap per object type.  A pointer is the number of the allocation, so
    memory is never handed out twice.  Freeing an object leaves its contents in
    place: a stale pointer reads what was there, and it is the `live` flag, not
    the contents, that says the read was a use after free. -/

namespace ObjectHeap

open Function (update update_eq_self update_idem update_of_ne update_self)

/-- `val p` is what the memory of allocation `p` holds, `live p` whether it is
    allocated now and `frees p` how often it was released. -/
structure Heap (α : Type) where
  next : Nat
  val : Nat → α
  live : Nat → Bool
  frees : Nat → Nat

variable {α : Type}

/-- Nothing allocated yet. -/
def Heap.start [Inhabited α] : Heap α := ⟨0, fun _ => default, fun _ => false, fun _ => 0⟩

/-- Allocate an object; its pointer is `h.next`. -/
def Heap.alloc (h : Heap α) (a : α) : Heap α where
  next := h.next + 1
  val := update h.val h.next a
  live := update h.live h.next true
  frees := h.frees

/-- Release an object. -/
def Heap.free (h : Heap α) (p : Nat) : Heap α :=
  { h with
    live := update h.live p false
    frees := update h.frees p (h.frees p + 1) }

/-- Change an object in place. -/
def Heap.modify (h : Heap α) (p : Nat) (g : α → α) : Heap α :=
  { h with val := update h.val p (g (h.val p)) }

/-- Objects not allocated yet are neither live nor freed. -/
def Heap.Fresh (h : Heap α) : Prop :=
  ∀ p, h.next ≤ p → h.live p = false ∧ h.frees p = 0

variable (h : Heap α) (p q : Nat) (a : α) (g : α → α)

/-- Freeing leaves the contents. -/
@[simp] theorem val_free : (h.free p).val = h.val := rfl

@[simp] theorem val_alloc_self : (h.alloc a).val h.next = a := update_self ..

@[simp] theorem val_modify_self : (h.modify p g).val p = g (h.val p) := update_self ..

@[simp] theorem live_alloc_self : (h.alloc a).live h.next = true := update_self ..

@[simp] theorem live_free_self : (h.free p).live p = false := update_self ..

@[simp] theorem frees_free_self : (h.free p).frees p = h.frees p + 1 := update_self ..

/-- Two changes of one object are one. -/
theorem modify_modify (k : α → α) : (h.modify p g).modify p k = h.modify p fun x => k (g x) := by
  show Heap.mk h.next (update (update h.val p _) p (k (update h.val p _ p))) h.live h.frees = _
  rw [update_self, update_idem]
  rfl

variable {p q}

/-- A change that changes nothing. -/
theorem modify_of_eq (hg : g (h.val p) = h.val p) : h.modify p g = h := by
  rw [Heap.modify, hg, update_eq_self]

theorem val_alloc_of_ne (hq : q ≠ h.next) : (h.alloc a).val q = h.val q := update_of_ne hq ..

theorem live_alloc_of_ne (hq : q ≠ h.next) : (h.alloc a).live q = h.live q := update_of_ne hq ..

/-- Other objects keep their contents. -/
theorem val_modify_of_ne (hq : q ≠ p) : (h.modify p g).val q = h.val q := update_of_ne hq ..

/-- Other objects stay as they are. -/
theorem live_free_of_ne (hq : q ≠ p) : (h.free p).live q = h.live q := update_of_ne hq ..

theorem frees_free_of_ne (hq : q ≠ p) : (h.free p).frees q = h.frees q := update_of_ne hq ..

/-! ## Sums over the objects -/

section Total

open Finset

variable {h : Heap α} {p : Nat} (f : α → Nat)

/-- The sum of `f` over all that was ever allocated. -/
def Heap.total (h : Heap α) (f : α → Nat) : Nat := ∑ p ∈ range h.next, f (h.val p)

/-- A new object brings its own summand. -/
theorem total_alloc (a : α) : (h.alloc a).total f = h.total f + f a := by
  rw [Heap.total, show (h.alloc a).next = h.next + 1 from rfl, sum_range_succ, val_alloc_self]
  refine congrArg (· + f a) (sum_congr rfl fun q hq => ?_)
  rw [val_alloc_of_ne _ _ (Nat.ne_of_lt (mem_range.mp hq))]

/-- A change of one object changes its own summand. -/
theorem total_modify (hp : p < h.next) (g : α → α) :
    (h.modify p g).total f + f (h.val p) = h.total f + f (g (h.val p)) := by
  have hrest : ∀ q ∈ (range h.next).erase p, f ((h.modify p g).val q) = f (h.val q) :=
    fun q hq => by rw [val_modify_of_ne _ _ (ne_of_mem_erase hq)]
  rw [Heap.total, Heap.total, show (h.modify p g).next = h.next from rfl,
    ← add_sum_erase _ _ (mem_range.mpr hp), ← add_sum_erase _ _ (mem_range.mpr hp),
    sum_congr rfl hrest, val_modify_self]
  omega

/-- One object is part of the sum. -/
theorem le_total (hp : p < h.next) : f (h.val p) ≤ h.total f :=
  single_le_sum (f := fun q => f (h.val q)) (fun _ _ => Nat.zero_le _) (mem_range.mpr hp)

end Total

end ObjectHeap
