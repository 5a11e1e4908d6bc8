import Mathlib.Data.List.Basic

/-! # Loops over short transfers

    A call may transfer fewer bytes than it was asked for, so the caller repeats it
    for the rest until the length is reached.  `transfer` is that loop, for an
    arbitrary transfer `f offset n`; `counts` has what the calls report.

    If two transfers in a row are one longer transfer, the loop is one transfer of
    the whole length, however the counts are cut; and positive counts finish it. -/

namespace ShortTransfer

variable {A : Type} {length offset : Nat} {cs : List Nat}

/-- The loop, with the counts that are left.  `none` if they do not suffice. -/
def transfer (f : Nat → Nat → A → A) (length : Nat) :
    List Nat → Nat → A → Option (List Nat × A)
  | [], _, _ => none
  | c :: cs, offset, a =>
    let n := min c (length - offset)
    let a := f offset n a
    if offset + n = length then some (cs, a) else transfer f length cs (offset + n) a

/-- Two transfers in a row are one. -/
def Additive (f : Nat → Nat → A → A) : Prop :=
  ∀ offset n k a, f (offset + n) k (f offset n a) = f offset (n + k) a

theorem transfer_eq {f : Nat → Nat → A → A} (hf : Additive f) {cs' : List Nat} {a b : A}
    (hoff : offset ≤ length) (h : transfer f length cs offset (f 0 offset a) = some (cs', b)) :
    b = f 0 length a := by
  induction cs generalizing offset with
  | nil => cases h
  | cons c cs ih =>
    -- so far one transfer of `offset` has been made
    have hnext := hf 0 offset (min c (length - offset)) a
    rw [Nat.zero_add] at hnext
    have hle : offset + min c (length - offset) ≤ length := by omega
    rw [transfer, hnext] at h
    split at h
    · rename_i hdone
      rw [hdone] at h
      exact (Prod.mk.inj (Option.some.inj h)).2.symm
    · exact ih hle h

/-- Positive counts finish the loop, and at most one for each unit and one more are
    used. -/
theorem transfer_total (f : Nat → Nat → A → A) (hoff : offset ≤ length) (hpos : ∀ c ∈ cs, 0 < c)
    (hlen : length - offset < cs.length) (a : A) :
    ∃ cs' b, transfer f length cs offset a = some (cs', b)
      ∧ (∀ c ∈ cs', 0 < c) ∧ cs.length ≤ cs'.length + (length - offset + 1) := by
  induction cs generalizing offset a with
  | nil => simp at hlen
  | cons c cs ih =>
    have hc := hpos c List.mem_cons_self
    have hrest : ∀ c' ∈ cs, 0 < c' := fun c' hc' => hpos c' (List.mem_cons_of_mem c hc')
    rw [List.length_cons] at hlen
    rw [transfer]
    by_cases hdone : offset + min c (length - offset) = length
    · exact ⟨cs, _, if_pos hdone, hrest, by simp only [List.length_cons]; omega⟩
    · -- the call was short, so it transferred at least one unit
      have hnext : offset + min c (length - offset) ≤ length := by omega
      obtain ⟨cs', b, hrun, hpos', hused⟩ :=
        ih hnext hrest (by omega) (f offset (min c (length - offset)) a)
      refine ⟨cs', b, ?_, hpos', ?_⟩
      · rw [← hrun]
        exact if_neg hdone
      · rw [List.length_cons]
        omega

end ShortTransfer
