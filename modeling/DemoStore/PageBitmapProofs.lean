import DemoStore.TemplateClientProofs
import Mathlib.Data.Nat.Bitwise

/-! # Page bitmaps

    `bitmap_set` and `bitmap_from` pack one bit for each page into 64-bit words;
    `bitmap_get` reads it back.  The bit of page `i` is bit `i % 64` of word `i / 64`,
    and pages behind the last word read as absent. -/

namespace PageBitmap

open TemplateClient List

/-- `bits.div_ceil(64)`. -/
def bitmapWords (bits : Nat) : Nat := (bits + 63) / 64

/-- `bitmap[bit / 64] |= 1 << (bit % 64)`. -/
def bitmapSet (bitmap : List UInt64) (bit : Nat) : List UInt64 :=
  bitmap.modify (bit / 64) fun word => word ||| 1 <<< UInt64.ofNat (bit % 64)

/-- The loop of `bitmap_from`, and of `dirty_bitmap`. -/
def bitmapFrom (pageCount : Nat) (present : Nat → Bool) : List UInt64 :=
  (List.range pageCount).foldl (fun bitmap i => if present i then bitmapSet bitmap i else bitmap)
    (List.replicate (bitmapWords pageCount) 0)

variable {i : Nat} {bitmap : List UInt64}

/-- Each page has a word. -/
theorem div_lt_bitmapWords {pageCount : Nat} (h : i < pageCount) :
    i / 64 < bitmapWords pageCount := by
  rw [bitmapWords]
  omega

@[simp] theorem length_bitmapSet (bitmap : List UInt64) (bit : Nat) :
    (bitmapSet bitmap bit).length = bitmap.length :=
  length_modify ..

theorem toNat_bit {k : Nat} (hk : k < 64) : ((1 : UInt64) <<< UInt64.ofNat k).toNat = 2 ^ k := by
  have hlt : 2 ^ k < 2 ^ 64 := Nat.pow_lt_pow_right (by omega) hk
  have hof : (UInt64.ofNat k).toNat = k := UInt64.toNat_ofNat_of_lt' (Nat.lt_trans hk (by decide))
  rw [UInt64.toNat_shiftLeft, hof, Nat.mod_eq_of_lt hk]
  show 1 <<< k % 2 ^ 64 = 2 ^ k
  rw [Nat.one_shiftLeft, Nat.mod_eq_of_lt hlt]

/-- Setting a bit sets it and no other. -/
theorem bitmapGet_bitmapSet (hi : i / 64 < bitmap.length) (j : Nat) :
    bitmapGet (bitmapSet bitmap i) j = (decide (i = j) || bitmapGet bitmap j) := by
  rw [bitmapGet, bitmapGet, bitmapSet, getD_eq_getElem?_getD, getD_eq_getElem?_getD,
    getElem?_modify]
  by_cases hword : i / 64 = j / 64
  · -- the word that changes: bit `j % 64` of it is set for `i` only
    rw [← hword, getElem?_eq_getElem hi]
    simp only [Option.map_eq_map, Option.map_some, if_pos, Option.getD_some]
    rw [UInt64.toNat_or, Nat.testBit_or, toNat_bit (Nat.mod_lt _ (by omega)),
      Nat.testBit_two_pow, Bool.or_comm]
    congr 1
    exact decide_eq_decide.mpr ⟨fun h => by omega, fun h => by omega⟩
  · have hne : i ≠ j := by
      rintro rfl
      exact hword rfl
    simp only [if_neg hword, decide_eq_false hne, Bool.false_or]
    cases bitmap[j / 64]? <;> rfl

/-- A new bitmap has no bit set. -/
theorem bitmapGet_replicate_zero (words j : Nat) :
    bitmapGet (List.replicate words 0) j = false := by
  rw [bitmapGet, getD_eq_getElem?_getD, getElem?_replicate]
  split <;> exact Nat.zero_testBit _

/-- The loop over some pages, from any bitmap that is long enough. -/
theorem bitmapGet_foldl (present : Nat → Bool) {pages : List Nat}
    (hlen : ∀ i ∈ pages, i / 64 < bitmap.length) (j : Nat) :
    bitmapGet (pages.foldl (fun bm i => if present i then bitmapSet bm i else bm) bitmap) j
      = (decide (j ∈ pages ∧ present j = true) || bitmapGet bitmap j) := by
  induction pages generalizing bitmap with
  | nil => simp
  | cons i pages ih =>
    have hi := hlen i mem_cons_self
    have hrest : ∀ k ∈ pages, k / 64 < bitmap.length := fun k hk =>
      hlen k (mem_cons_of_mem i hk)
    rw [foldl_cons]
    by_cases hp : present i = true
    · rw [if_pos hp, ih (by rw [length_bitmapSet]; exact hrest), bitmapGet_bitmapSet hi,
        ← Bool.or_assoc]
      congr 1
      by_cases hij : i = j
      · subst hij
        simp [hp]
      · simp [hij, Ne.symm hij]
    · rw [if_neg hp, ih hrest]
      congr 1
      by_cases hij : i = j
      · subst hij
        simp [hp]
      · simp [Ne.symm hij]

/-- **BITMAPS.**  Bit `i` says whether page `i` is present. -/
theorem bitmapGet_bitmapFrom (pageCount : Nat) (present : Nat → Bool) (i : Nat) :
    bitmapGet (bitmapFrom pageCount present) i = decide (i < pageCount ∧ present i = true) := by
  have hlen : ∀ k ∈ List.range pageCount,
      k / 64 < (List.replicate (bitmapWords pageCount) (0 : UInt64)).length := by
    intro k hk
    rw [length_replicate]
    exact div_lt_bitmapWords (mem_range.mp hk)
  rw [bitmapFrom, bitmapGet_foldl present hlen, bitmapGet_replicate_zero, Bool.or_false]
  simp only [mem_range]

theorem length_bitmapFrom (pageCount : Nat) (present : Nat → Bool) :
    (bitmapFrom pageCount present).length = bitmapWords pageCount := by
  have hloop : ∀ (pages : List Nat) (bitmap : List UInt64),
      (pages.foldl (fun bm i => if present i then bitmapSet bm i else bm) bitmap).length
        = bitmap.length := by
    intro pages
    induction pages with
    | nil => exact fun _ => rfl
    | cons i pages ih =>
      intro bitmap
      rw [foldl_cons, ih]
      split
      · exact length_bitmapSet bitmap i
      · rfl
  rw [bitmapFrom, hloop, length_replicate]

end PageBitmap
